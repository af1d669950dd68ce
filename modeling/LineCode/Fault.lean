import LineCode.Codec
import LineCode.Export.Writer
import LineCode.Settings
import LineCode.Spelling

/-!
# Faults

Everything that can go wrong, with what is said about it.
-/

namespace LineCode

/-- Why something was not done. -/
inductive Fault
  | unsupportedSymbol (unsupported : Unsupported)
  | invalidWord (rejected : Rejected)
  | spelling (fault : SpellingFault)
  | settings (fault : SettingsFault)
  | table (fault : TableFault)
  | output (fault : WriteFault)
deriving DecidableEq

/-- What is said of a fault: its kind, except for a refused symbol or word, and its own message. -/
def Fault.message : Fault → String
  | .unsupportedSymbol unsupported => unsupported.message
  | .invalidWord rejected => rejected.message
  | .spelling fault => "parse error: " ++ fault.message
  | .settings fault => "config error: " ++ fault.message
  | .table fault => "table error: " ++ fault.message
  | .output fault => "io error: " ++ fault.message

end LineCode
