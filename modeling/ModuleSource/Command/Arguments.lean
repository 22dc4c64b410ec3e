import ModuleSource.Number.Integer
import ModuleSource.Run.Basic

/-!
Arguments of the command line. They are taken from left to right, and the first one that cannot
stand where it stands decides, as do the options that ask for help or for the version.
-/

namespace ModuleSource.Command

/-- How the report of a run is written. -/
inductive ReportStyle where
  | text
  | json
deriving DecidableEq

/-- A run that was asked for. -/
structure Request where
  settings : Settings
  style : ReportStyle
  /-- Whether progress was asked for. Nothing is shown for it. -/
  progress : Bool
  /-- Seconds that the run is given. They are checked to be a number, and not measured. -/
  timeout : Option Nat
deriving DecidableEq

inductive Invocation where
  | help
  | version
  | misuse
  | engines
  | decompile (request : Request)
deriving DecidableEq

/-- Options that take a value. -/
inductive Setting where
  | engine
  | style
  | timeout
deriving DecidableEq

/-- What the arguments of a run have said so far. -/
structure Options where
  engine : Option Engine := none
  style : Option ReportStyle := none
  timeout : Option Nat := none
  failFast : Bool := false
  progress : Bool := false
  operands : List String := []
deriving DecidableEq

def styleOfName? (name : String) : Option ReportStyle :=
  if name = "text" then some .text else if name = "json" then some .json else none

def seconds? (value : String) : Option Nat :=
  (Number.decimal? (Number.dropPlus value.toList)).filter (· < Nat.pow 2 64)

namespace Options

/-- Gives an option its value. An option is given once. -/
def set (options : Options) (setting : Setting) (value : String) : Except Invocation Options :=
  match setting with
  | .engine =>
    match options.engine, Engine.all.find? (·.name == value) with
    | none, some engine => .ok { options with engine := some engine }
    | _, _ => .error .misuse
  | .style =>
    match options.style, styleOfName? value with
    | none, some style => .ok { options with style := some style }
    | _, _ => .error .misuse
  | .timeout =>
    match options.timeout, seconds? value with
    | none, some timeout => .ok { options with timeout := some timeout }
    | _, _ => .error .misuse

/-- Takes the next path. There are two, and none is empty. -/
def addOperand (options : Options) (value : String) : Except Invocation Options :=
  if value.isEmpty ∨ 2 ≤ options.operands.length then .error .misuse
  else .ok { options with operands := options.operands ++ [value] }

def setFailFast (options : Options) : Except Invocation Options :=
  if options.failFast then .error .misuse else .ok { options with failFast := true }

def setProgress (options : Options) : Except Invocation Options :=
  if options.progress then .error .misuse else .ok { options with progress := true }

/-- The value that follows the letter of an option, after an equals sign or without one. If nothing
follows, the value is yet to come. -/
def addAttached (options : Options) (setting : Setting) :
    List Char → Except Invocation (Options × Option Setting)
  | [] => .ok (options, some setting)
  | '=' :: value => (options.set setting (String.ofList value)).map (·, none)
  | value => (options.set setting (String.ofList value)).map (·, none)

/-- The options of a bundle of letters. The letter of an option with a value ends the bundle. -/
def addLetters (options : Options) :
    List Char → Except Invocation (Options × Option Setting)
  | [] => .ok (options, none)
  | c :: rest =>
    if c = 'v' then options.addLetters rest
    else if c = 'p' then
      match options.setProgress with
      | .ok options => options.addLetters rest
      | .error e => .error e
    else if c = 'h' then .error .help
    else if c = 'm' then options.addAttached .engine rest
    else if c = 'f' then options.addAttached .style rest
    else .error .misuse

/-- An option by its long name, with a value if an equals sign followed the name. -/
def addLong (options : Options) (name : String) (value : Option String) :
    Except Invocation (Options × Option Setting) :=
  match name, value with
  | "verbose", none => .ok (options, none)
  | "help", none => .error .help
  | "fail-fast", none => options.setFailFast.map (·, none)
  | "progress", none => options.setProgress.map (·, none)
  | "mode", value => addValue .engine value
  | "format", value => addValue .style value
  | "timeout", value => addValue .timeout value
  | _, _ => .error .misuse
where
  addValue (setting : Setting) : Option String → Except Invocation (Options × Option Setting)
    | none => .ok (options, some setting)
    | some value => (options.set setting value).map (·, none)

end Options

/-- The two halves of a long option around its first equals sign. -/
def splitEquals (cs : List Char) : String × Option String :=
  match cs.dropWhile (· != '=') with
  | [] => (String.ofList cs, none)
  | _ :: value => (String.ofList (cs.takeWhile (· != '=')), some (String.ofList value))

/-- One argument of a command: options by name or by letter, or an operand. -/
inductive Argument where
  | long (name : String) (value : Option String)
  | letters (cs : List Char)
  | endOfOptions
  | operand (value : String)
deriving DecidableEq

/-- A dash alone is an operand. -/
def Argument.ofString (s : String) : Argument :=
  match s.toList with
  | ['-', '-'] => .endOfOptions
  | '-' :: '-' :: cs => .long (splitEquals cs).1 (splitEquals cs).2
  | '-' :: c :: cs => .letters (c :: cs)
  | _ => .operand s

def Options.finish (options : Options) : Invocation :=
  match options.operands with
  | [input, output] =>
    .decompile
      { settings :=
          { input := ⟨input⟩
            output := ⟨output⟩
            engine := options.engine.getD .standard
            failFast := options.failFast }
        style := options.style.getD .text
        progress := options.progress
        timeout := options.timeout }
  | _ => .misuse

/-- Operands after the mark that ends the options. -/
def parseOperands (options : Options) : List String → Invocation
  | [] => options.finish
  | arg :: rest =>
    match options.addOperand arg with
    | .ok options => parseOperands options rest
    | .error invocation => invocation

/-- The arguments after `decompile`; `awaited` is an option whose value is to come next. -/
def parseDecompile : List String → (awaited : Option Setting) → Options → Invocation
  | [], none, options => options.finish
  | [], some _, _ => .misuse
  | arg :: rest, some setting, options =>
    match Argument.ofString arg with
    | .operand value =>
      match options.set setting value with
      | .ok options => parseDecompile rest none options
      | .error invocation => invocation
    | _ => .misuse
  | arg :: rest, none, options =>
    match Argument.ofString arg with
    | .endOfOptions => parseOperands options rest
    | .operand value =>
      match options.addOperand value with
      | .ok options => parseDecompile rest none options
      | .error invocation => invocation
    | .letters cs =>
      match options.addLetters cs with
      | .ok (options, awaited) => parseDecompile rest awaited options
      | .error invocation => invocation
    | .long name value =>
      match options.addLong name value with
      | .ok (options, awaited) => parseDecompile rest awaited options
      | .error invocation => invocation

/-- Letters that a command without options of its own knows. -/
def plainLetters (version : Bool) : List Char → Option Invocation
  | [] => none
  | c :: rest =>
    if c = 'v' then plainLetters version rest
    else if c = 'h' then some .help
    else if c = 'V' ∧ version then some .version
    else some .misuse

/-- Long names that a command without options of its own knows. -/
def plainLong (version : Bool) (name : String) (value : Option String) : Option Invocation :=
  if value.isSome then some .misuse
  else if name = "verbose" then none
  else if name = "help" then some .help
  else if name = "version" ∧ version then some .version
  else some .misuse

/-- The arguments after `modes`. -/
def parseEngines : List String → Invocation
  | [] => .engines
  | arg :: rest =>
    match Argument.ofString arg with
    | .endOfOptions => if rest.isEmpty then .engines else .misuse
    | .operand _ => .misuse
    | .letters cs => (plainLetters false cs).getD (parseEngines rest)
    | .long name value => (plainLong false name value).getD (parseEngines rest)

/-- The arguments after `help`: at most the name of one command. -/
def parseHelp : List String → Invocation
  | [] => .help
  | [name] => if ["decompile", "modes", "help"].contains name then .help else .misuse
  | _ => .misuse

/-- What a command line asks for. -/
def parse : List String → Invocation
  | [] => .misuse
  | arg :: rest =>
    if arg = "decompile" then parseDecompile rest none {}
    else if arg = "modes" then parseEngines rest
    else if arg = "help" then parseHelp rest
    else
      match Argument.ofString arg with
      | .endOfOptions => .misuse
      | .operand _ => .misuse
      | .letters cs => (plainLetters true cs).getD (parse rest)
      | .long name value => (plainLong true name value).getD (parse rest)

end ModuleSource.Command
