import LineCode.Codec.Standard
import LineCode.CommandLine.Arguments
import LineCode.Export.Format
import LineCode.Fault
import LineCode.Report
import LineCode.Settings.Text

/-!
# Running a command

What the tool prints and how it ends, given its arguments and what is in the files of
the user. Everything is worked out for the standard code. A command that fails prints
nothing; a check that finds something prints its findings and ends with a code of its
own.
-/

namespace LineCode.CommandLine

/-! ### Outcomes -/

/-- Why the tool did not do what it was asked for. -/
inductive Failure
  /-- The arguments are not understood. -/
  | misuse
  /-- The settings file cannot be read. -/
  | noFile
  | fault (fault : Fault)
deriving DecidableEq

/-- How a run ends. -/
structure Outcome where
  code : Nat
  output : ByteArray
  failure : Option Failure

/-- Everything was done. -/
def Outcome.done (output : ByteArray) : Outcome := ⟨0, output, none⟩

/-- Nothing was done. -/
def Outcome.failed (failure : Failure) : Outcome :=
  ⟨if failure = .misuse then 2 else 1, .empty, some failure⟩

/-- Lines as they are printed. -/
def printed (lines : List String) : ByteArray := (String.join (lines.map (· ++ "\n"))).toUTF8

/-- What the tool says of a spelling that it cannot read. -/
def spellingReport (f : SpellingFault) : String := "Parse(" ++ Text.quoted f.message ++ ")"

/-- The name of the tool and its version. -/
def versionLine : String := "tenbit 0.1.0"

/-- A summary of the commands. -/
def helpLines : List String :=
  ["IBM 8b/10b codec tables",
   "",
   "Usage: tenbit [OPTIONS] <COMMAND>",
   "",
   "Commands:",
   "  encode    Encode one symbol: D<x>.<y>, K<x>.<y>, or a raw byte in hex or binary",
   "  decode    Decode one 10-bit word given in hex or binary",
   "  check     Validate the code table and the exported lookup tables",
   "  export    Write the lookup tables as one named stream per output bit",
   "  controls  Trace the control symbols and the comma reference words",
   "  help      Print this message or the help of the given subcommand(s)",
   "",
   "Options:",
   "      --config <CONFIG>  TOML file with codec settings",
   "  -h, --help             Print help",
   "  -V, --version          Print version"]

/-! ### Commands -/

/-- The disparity that a text names, if one is given. -/
def rdOf (text : Option String) : Except SpellingFault (Option Disparity) :=
  match text with
  | none => .ok none
  | some text => (Disparity.ofText text).map some

/-- The findings about a codec and its tables, and whether they make it fail. -/
def checkLines (c : Codec) (policy : FailPolicy) : List String × Bool :=
  let anomalies := c.table.anomalies
  let mismatches := c.encodeTable.checkEncode c ++ c.decodeTable.checkDecode c
  let failing := (anomalies.filter (·.kind.fails policy)).length
  (anomalies.map Anomaly.text ++ mismatches.map Mismatch.text ++
    [toString anomalies.length ++ " anomalies (" ++ toString failing ++ " failing), " ++
      toString mismatches.length ++ " table mismatches"],
    0 < failing || !mismatches.isEmpty)

/-- The format of a name, with the width that is set. -/
def FormatName.format (n : FormatName) (s : Settings) : Format :=
  match n with
  | .text => .text s.lutChunk
  | .minterms => .minterms
  | .json => .json

/-- Prints the encoding of a symbol. The symbol is read first, then the disparity. -/
def encodeOutcome (c : Codec) (s : Settings) (symbol : String) (control : Bool)
    (rd : Option String) : Except SpellingFault Outcome := do
  let symbol ← Symbol.ofText symbol control
  let rd ← rdOf rd
  return .done (printed [encodeLine c symbol (rd.getD s.disparity)])

/-- Prints what a word stands for. The word is read first, then the disparity. -/
def decodeOutcome (c : Codec) (word : String) (rd : Option String) :
    Except SpellingFault Outcome := do
  let word ← Codeword.ofText word
  let rd ← rdOf rd
  return .done (printed (decodeLines c word rd))

/-- Carries out a command. -/
def Command.run (command : Command) (s : Settings) : Except Fault Outcome :=
  let c := Codec.standard.withDetector s.detector
  match command with
  | .encode symbol control rd => (encodeOutcome c s symbol control rd).mapError .spelling
  | .decode word rd => (decodeOutcome c word rd).mapError .spelling
  | .check =>
    let (lines, failing) := checkLines c s.failOn
    .ok ⟨if failing then 1 else 0, printed lines, none⟩
  | .writeTables format =>
    let (result, bytes) := (c.writeTables (format.format s)).collect none
    (result.map fun _ => .done bytes).mapError .output
  | .controls => .ok (.done (printed (controlTrace c)))

/-- The settings of a run: those in the file, if one is named. -/
def settingsOf (readFile : String → Option String) : Option String → Except Failure Settings
  | none => .ok .default
  | some path =>
    match readFile path with
    | none => .error .noFile
    | some text => (Settings.ofText text).mapError fun f => .fault (.settings f)

/-- Does what the arguments ask for. -/
def run (readFile : String → Option String) (args : List String) : Outcome :=
  match Invocation.ofArguments args with
  | .error .misuse => .failed .misuse
  | .error .version => .done (printed [versionLine])
  | .error .help => .done (printed helpLines)
  | .ok invocation =>
    match settingsOf readFile invocation.settingsFile with
    | .error failure => .failed failure
    | .ok s =>
      match invocation.command.run s with
      | .error fault => .failed (.fault fault)
      | .ok outcome => outcome

end LineCode.CommandLine
