/-!
# Arguments

What a user asks for on the command line. Arguments are taken from left to right, first
those of the tool, then, after the name of a command, those of the command. Help and the
version are answered as soon as they are met; a mistake met before them wins. An option
takes its value after an equals sign or from the next argument, unless that looks like
an option itself. After `--` every argument is an operand.
-/

namespace LineCode.CommandLine

/-! ### Requests -/

/-- The format of an export, without its width. -/
inductive FormatName
  | text
  | minterms
  | json
deriving DecidableEq

/-- The format of a name. -/
def formatNamed? : String → Option FormatName
  | "text" => some .text
  | "minterms" => some .minterms
  | "json" => some .json
  | _ => none

/-- What the tool is to do. -/
inductive Command
  | encode (symbol : String) (control : Bool) (rd : Option String)
  | decode (word : String) (rd : Option String)
  | check
  | writeTables (format : FormatName)
  | controls
deriving DecidableEq

/-- A command, and the file that its settings are in. -/
structure Invocation where
  settingsFile : Option String
  command : Command
deriving DecidableEq

/-- Why the arguments name no command. -/
inductive Stop
  /-- Help is asked for. -/
  | help
  /-- The version is asked for. -/
  | version
  /-- The arguments are not understood. -/
  | misuse
deriving DecidableEq

/-! ### Options -/

/-- An option with a value. -/
inductive OptionName
  | config
  | rd
  | format
deriving DecidableEq

/-- The option of a long name. -/
def optionNamed? : String → Option OptionName
  | "config" => some .config
  | "rd" => some .rd
  | "format" => some .format
  | _ => none

/-- Whether an option can have a value: the name of a file is not empty, and a format is one of
three. -/
def OptionName.allows (o : OptionName) (value : String) : Bool :=
  match o with
  | .config => value ≠ ""
  | .rd => true
  | .format => (formatNamed? value).isSome

/-- What may stand among some arguments. -/
structure Shape where
  options : List OptionName
  /-- Whether the control flag is one of them. -/
  hasControl : Bool
  /-- Whether the version may be asked for. -/
  hasVersion : Bool
  operands : Nat
  /-- The names that end them. -/
  commands : List String

/-- What has been found among some arguments. -/
structure Found where
  values : List (OptionName × String)
  control : Bool
  operands : List String

namespace Found

/-- Nothing found yet. -/
def nothing : Found := ⟨[], false, []⟩

/-- The value of an option. -/
def value? (f : Found) (o : OptionName) : Option String :=
  (f.values.find? (·.1 = o)).map Prod.snd

/-- Takes in a value, which an option has at most once. -/
def addValue (f : Found) (o : OptionName) (value : String) : Except Stop Found :=
  if (f.value? o).isSome ∨ !o.allows value then .error .misuse
  else .ok { f with values := (o, value) :: f.values }

/-- Takes in the control flag, which is given at most once. -/
def addControl (f : Found) : Except Stop Found :=
  if f.control then .error .misuse else .ok { f with control := true }

/-- Takes in an operand, if one more is wanted. -/
def addOperand (f : Found) (shape : Shape) (operand : String) : Except Stop Found :=
  if f.operands.length < shape.operands then .ok { f with operands := f.operands ++ [operand] }
  else .error .misuse

/-- Takes in flags of one letter each. -/
def addFlags (shape : Shape) : Found → List Char → Except Stop Found
  | f, [] => .ok f
  | f, 'k' :: cs =>
    if shape.hasControl then f.addControl.bind (addFlags shape · cs) else .error .misuse
  | _, 'h' :: _ => .error .help
  | _, 'V' :: _ => .error (if shape.hasVersion then .version else .misuse)
  | _, _ => .error .misuse

end Found

/-! ### Words -/

/-- An argument by its form. -/
inductive Word
  /-- `--` -/
  | escape
  /-- `--name` or `--name=value` -/
  | long (name : String) (value : Option String)
  /-- A hyphen and flags. -/
  | flags (letters : List Char)
  | plain

/-- The form of an argument. A hyphen alone is plain. -/
def Word.of (arg : String) : Word :=
  match arg.toList with
  | ['-', '-'] => .escape
  | '-' :: '-' :: cs =>
    let name := String.ofList (cs.takeWhile (· ≠ '='))
    match cs.dropWhile (· ≠ '=') with
    | _ :: value => .long name (some (String.ofList value))
    | [] => .long name none
  | '-' :: c :: cs => .flags (c :: cs)
  | _ => .plain

/-- What a long option asks for: the option that now waits for its value, if it has none yet. -/
def Found.addLong (f : Found) (shape : Shape) (name : String) (value : Option String) :
    Except Stop (Found × Option OptionName) :=
  match name, value with
  | "help", none => .error .help
  | "version", none => .error (if shape.hasVersion then .version else .misuse)
  | "control", none =>
    if shape.hasControl then f.addControl.map (·, none) else .error .misuse
  | _, _ =>
    match (optionNamed? name).filter (· ∈ shape.options), value with
    | some o, some value => (f.addValue o value).map (·, none)
    | some o, none => if (f.value? o).isSome then .error .misuse else .ok (f, some o)
    | none, _ => .error .misuse

/-- The operands after `--`. -/
def gatherOperands (shape : Shape) : Found → List String → Except Stop Found
  | f, [] => .ok f
  | f, arg :: args => (f.addOperand shape arg).bind (gatherOperands shape · args)

/-- What is found among arguments, and the name that ends them with the arguments after it.
`waiting` is an option that has no value yet. -/
def gather (shape : Shape) (waiting : Option OptionName) (f : Found) :
    List String → Except Stop (Found × Option (String × List String))
  | [] => if waiting.isSome then .error .misuse else .ok (f, none)
  | arg :: args =>
    match Word.of arg, waiting with
    | .plain, some o => (f.addValue o arg).bind (gather shape none · args)
    | _, some _ => .error .misuse
    | .escape, none => (gatherOperands shape f args).map (·, none)
    | .long name value, none =>
      (f.addLong shape name value).bind fun (f, waiting) => gather shape waiting f args
    | .flags letters, none => (f.addFlags shape letters).bind (gather shape none · args)
    | .plain, none =>
      if arg ∈ shape.commands then .ok (f, some (arg, args))
      else (f.addOperand shape arg).bind (gather shape none · args)

/-! ### Commands -/

/-- The names of the commands. -/
def commandNames : List String := ["encode", "decode", "check", "export", "controls"]

/-- The arguments in front of a command. -/
def toolShape : Shape := ⟨[.config], false, true, 0, "help" :: commandNames⟩

/-- The arguments of a command. -/
def commandShape : String → Shape
  | "encode" => ⟨[.config, .rd], true, false, 1, []⟩
  | "decode" => ⟨[.config, .rd], false, false, 1, []⟩
  | "export" => ⟨[.config, .format], false, false, 0, []⟩
  | _ => ⟨[.config], false, false, 0, []⟩

/-- The command that a name and its arguments make. -/
def commandOf (name : String) (f : Found) : Except Stop Command :=
  match name, f.operands with
  | "encode", [symbol] => .ok (.encode symbol f.control (f.value? .rd))
  | "decode", [word] => .ok (.decode word (f.value? .rd))
  | "check", [] => .ok .check
  | "export", [] => .ok (.writeTables (((f.value? .format).bind formatNamed?).getD .text))
  | "controls", [] => .ok .controls
  | _, _ => .error .misuse

/-- What the arguments of the help command ask for: help on the tool or on one command. -/
def helpStop : List String → Stop
  | [] => .help
  | [name] => if name ∈ toolShape.commands then .help else .misuse
  | _ => .misuse

/-- What the arguments ask for. Of two settings files the one named after the command is used. -/
def Invocation.ofArguments (args : List String) : Except Stop Invocation := do
  match ← gather toolShape none .nothing args with
  | (_, none) => .error .misuse
  | (_, some ("help", rest)) => .error (helpStop rest)
  | (before, some (name, rest)) =>
    let (f, _) ← gather (commandShape name) none .nothing rest
    let command ← commandOf name f
    return ⟨(f.value? .config).or (before.value? .config), command⟩

end LineCode.CommandLine
