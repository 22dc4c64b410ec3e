import ModuleSource.Main
import ModuleSource.Proofs.Layout.ScriptLossless
import ModuleSource.Proofs.Name.ScriptNames
import ModuleSource.Proofs.Source.Conservation
import ModuleSource.Proofs.Source.IntegerReads
import ModuleSource.Proofs.Source.LineNumbers
import ModuleSource.Proofs.Source.Offsets
import ModuleSource.Proofs.Decoder.LineIndependence
import ModuleSource.Proofs.Decoder.Cancellation
import ModuleSource.Proofs.Run.Report
import ModuleSource.Proofs.Disk.Effect
import ModuleSource.Proofs.Run.Effect
import ModuleSource.Proofs.Run.Isolation
import ModuleSource.Proofs.Run.LineNumbers
import ModuleSource.Proofs.Run.Retention
import ModuleSource.Proofs.Number.Numerals
import ModuleSource.Proofs.Decoder.OperatorIndependence
import ModuleSource.Proofs.Name.LexiconIndependence
import ModuleSource.Proofs.Name.PartyTemplateNames
import ModuleSource.Proofs.Decoder.Grammar
import ModuleSource.Proofs.Statement.Grammar
import ModuleSource.Proofs.Run.LineEndings
import ModuleSource.Proofs.Text.Literals
import ModuleSource.Proofs.Text.Nesting
import ModuleSource.Proofs.Text.Offsets
import ModuleSource.Proofs.Layout.Bracketed
import ModuleSource.Proofs.Disk.Repetition
import ModuleSource.Proofs.Run.Idempotence
import ModuleSource.Proofs.Decoder.Expectation
import ModuleSource.Proofs.Statement.Faults
import ModuleSource.Proofs.Statement.Passing
import ModuleSource.Proofs.Disk.Publication
import ModuleSource.Proofs.Flag.Coverage
import ModuleSource.Proofs.Flag.Lossless
import ModuleSource.Proofs.Flag.Parts
import ModuleSource.Proofs.Layout.DialogLiterals
import ModuleSource.Proofs.Layout.FlagWords
import ModuleSource.Proofs.Layout.PartyTemplateTuples
import ModuleSource.Proofs.Layout.MissionTemplateTuples
import ModuleSource.Proofs.Run.Atomicity
