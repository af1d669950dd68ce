import LineCode.Anomaly

/-!
# Settings

What a user can set for a run: how much is logged, the entering disparity when none is
given, the detector, the width of text export and the anomalies that make a check fail.
Two of the values must be in range before they are used.
-/

namespace LineCode

/-- The settings of a run. -/
structure Settings where
  /-- The filter for log messages. -/
  logLevel : String
  /-- The entering disparity of an encoding when none is given, `0` or `1`. -/
  defaultDisparity : UInt8
  detector : Detector
  /-- The number of cells in a line of text export. -/
  lutChunk : Nat
  failOn : FailPolicy
deriving DecidableEq

/-- Why settings cannot be used. -/
inductive SettingsFault
  /-- The text is not one of settings. -/
  | unreadable
  | disparityOutOfRange (value : UInt8)
  | zeroChunk
deriving DecidableEq

/-- What is said of settings that cannot be used. -/
def SettingsFault.message : SettingsFault → String
  | .unreadable => "the settings cannot be read"
  | .disparityOutOfRange value =>
    "default_disparity must be 0 or 1, got " ++ toString value.toNat
  | .zeroChunk => "lut_chunk must be non-zero"

namespace Settings

/-- What holds when nothing is set. -/
def default : Settings where
  logLevel := "info"
  defaultDisparity := 0
  detector := .strict
  lutChunk := 64
  failOn := .differentDecode

/-- The settings themselves if their values are in range, the disparity looked at first. -/
def check (s : Settings) : Except SettingsFault Settings :=
  if 1 < s.defaultDisparity then .error (.disparityOutOfRange s.defaultDisparity)
  else if s.lutChunk = 0 then .error .zeroChunk
  else .ok s

/-- The entering disparity when none is given. -/
def disparity (s : Settings) : Disparity := .ofBit (s.defaultDisparity = 1)

end Settings

end LineCode
