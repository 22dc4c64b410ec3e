import ModuleSource.Name.Lexicon
import ModuleSource.Statement.Decode

/-! Finding the names of entities in the data files that define them. -/

namespace ModuleSource

open Text

namespace NameRule

def dropTag? (tag : List Char) (word : List Char) : Option (List Char) :=
  if tag.isPrefixOf word then some (word.drop tag.length) else none

/-- The names in the text of a file. The names of scripts are not found this way. -/
def namesIn (rule : NameRule) (text : List Char) : List (List Char) :=
  match rule with
  | lines => Text.lines text
  | tagged tag => ((words text).filterMap (dropTag? tag.toList)).filter (!·.isEmpty)
  | leading =>
    (((Text.lines text).drop 2).filterMap fun line => (firstWord? line).map Prod.fst).filter
      fun word => (Number.float? word).isNone
  | scripts => []

/-- The names of a script file after its first line: a count, then for each script its name, its
flags and a block. -/
def scriptNames : Decoder (List String) :=
  Decoder.listOf do
    let name ← Decoder.word
    let _ ← Decoder.word
    Block.pass
    return name

/-- The names in a file. Script files are read token by token; of the others the whole text has to
decode. -/
def names (rule : NameRule) (bytes : ByteArray) : Except ReadFailure NameTable :=
  match rule with
  | scripts =>
    match (Source.ofBytes bytes).takeLine with
    | (.error e, _) => .error e
    | (.ok _, source) => (scriptNames.scan source).1.map List.toArray
  | rule =>
    match decode? bytes.toList with
    | none => .error (.access .invalidText)
    | some text =>
      .ok ((rule.namesIn (dropMark text)).map String.ofList).toArray

end NameRule

end ModuleSource
