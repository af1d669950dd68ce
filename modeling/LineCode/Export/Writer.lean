/-!
# Writers

Where exported text goes: the bytes written so far, and how many will be taken at most.
A write that does not fit stores the bytes that still do and fails; the state of the
writer is kept either way. Nothing is held back to be stored later, so when the last text has
been written nothing remains to be done.
-/

namespace LineCode

/-- The bytes that have been written, and how many can be. -/
structure Writer where
  /-- The number of bytes that are taken in all; no limit when absent. -/
  limit : Option Nat
  written : ByteArray

/-- A write that did not fit. -/
structure WriteFault where
deriving DecidableEq

/-- What is said of a write that did not fit. -/
def WriteFault.message (_ : WriteFault) : String := "failed to write whole buffer"

/-- Something that writes, and may fail on the way. -/
abbrev Output := ExceptT WriteFault (StateM Writer)

namespace Writer

/-- A writer that has taken nothing yet. -/
def fresh (limit : Option Nat) : Writer := ⟨limit, .empty⟩

/-- Whether a number of bytes still fits. -/
def fits (w : Writer) (count : Nat) : Bool :=
  w.limit.all fun limit => w.written.size + count ≤ limit

/-- The bytes that still fit, taken. -/
def take (w : Writer) (bytes : ByteArray) : Writer :=
  match w.limit with
  | none => { w with written := w.written ++ bytes }
  | some limit => { w with written := w.written ++ bytes.extract 0 (limit - w.written.size) }

end Writer

/-- Writes a text in UTF-8. -/
def write (s : String) : Output Unit :=
  ExceptT.mk fun w => (if w.fits s.utf8ByteSize then .ok () else .error {}, w.take s.toUTF8)

end LineCode
