import LineCode.Settings
import LineCode.Toml.Document

/-!
# Settings as text

Settings are written in TOML, each under its own key; what is not set keeps its default.
Keys and sections of other names are passed over. A key may be set once. A choice is a
string, or a table with one empty entry of its name; a document that is nothing but the
header of such a table sets that choice too.
-/

namespace LineCode.Settings

open Toml (Value Document Section)

/-- The keys of settings. -/
def keys : List String := ["log_level", "default_disparity", "detector", "lut_chunk", "fail_on"]

/-- The detector of a name. -/
def detectorNamed? : String → Option Detector
  | "strict" => some .strict
  | "loose" => some .loose
  | _ => none

/-- The policy of a name. -/
def failPolicyNamed? : String → Option FailPolicy
  | "different-decode" => some .differentDecode
  | "any" => some .any
  | _ => none

/-- The name of a choice. -/
def choice? : Value → Option String
  | .string name => some name
  | .inlineTable [(name, .inlineTable [])] => some name
  | _ => none

/-- A whole number below a bound. -/
def natural? (bound : Nat) : Value → Option Nat
  | .integer n => if 0 ≤ n ∧ n < bound then some n.toNat else none
  | _ => none

/-- Settings with the value of one key set. -/
def set (s : Settings) (key : String) (value : Value) : Option Settings :=
  match key with
  | "log_level" =>
    match value with
    | .string text => some { s with logLevel := text }
    | _ => none
  | "default_disparity" =>
    (natural? 256 value).map fun n => { s with defaultDisparity := UInt8.ofNat n }
  | "detector" =>
    (choice? value).bind fun name => (detectorNamed? name).map fun d => { s with detector := d }
  | "lut_chunk" => (natural? UInt64.size value).map fun n => { s with lutChunk := n }
  | "fail_on" =>
    (choice? value).bind fun name => (failPolicyNamed? name).map fun p => { s with failOn := p }
  | _ => some s

/-- Settings with the values of all entries set. No key of a setting may come twice. -/
def setAll (s : Settings) (entries : List (String × Value)) : Option Settings :=
  if ((entries.map Prod.fst).filter (keys.contains ·)).Nodup then
    entries.foldlM (fun s (key, value) => s.set key value) s
  else none

/-- The settings that a lone header makes: the choice named last in its path. -/
def ofHeader? (sec : Section) : Option Settings :=
  match sec.path, sec.entries with
  | key :: _ :: _, [] => (sec.path.getLast?).bind fun name =>
    if key = "detector" ∨ key = "fail_on" then default.set key (.string name) else none
  | _, _ => none

/-- The settings that a document makes. -/
def ofDocument? (d : Document) : Option Settings :=
  if d.sections.any fun sec => sec.path.head?.any keys.contains then
    match d.entries, d.sections with
    | [], [sec] => ofHeader? sec
    | _, _ => none
  else default.setAll d.entries

/-- The settings that a text makes, if they can be used. -/
def ofText (text : String) : Except SettingsFault Settings :=
  match (Document.ofText? text).bind ofDocument? with
  | some s => s.check
  | none => .error .unreadable

end LineCode.Settings
