import LineCode.Codec

/-!
# Streams

A codec has no state. On a line, each end keeps one: the disparity after the last word.
An encoder that meets a symbol it cannot send stays where it is. A decoder never stops:
a word that it cannot decode is a fault, after which it takes up the disparity that the
word would have left had it been entered in the other state, if the word is legal there.
A decoder also counts what it sees.
-/

namespace LineCode

/-! ### Encoders -/

/-- A transmitter: a codec and the disparity of the line. -/
structure Encoder where
  codec : Codec
  rd : Disparity

namespace Encoder

/-- Sends one symbol. -/
def push (e : Encoder) (s : Symbol) : Except Unsupported Codeword × Encoder :=
  match e.codec.encode s e.rd with
  | .ok sent => (.ok sent.word, { e with rd := sent.rd })
  | .error u => (.error u, e)

/-- Sends symbols up to the first that the table does not list; the words are returned only if
all were sent, the line stays where it got to. -/
def encodeAll (e : Encoder) : List Symbol → Except Unsupported (List Codeword) × Encoder
  | [] => (.ok [], e)
  | s :: ss =>
    match e.push s with
    | (.error u, e') => (.error u, e')
    | (.ok w, e') =>
      let (ws, e'') := e'.encodeAll ss
      (ws.map (w :: ·), e'')

end Encoder

/-! ### Decoders -/

/-- What a decoder makes of a word. -/
inductive Event
  | symbol (decoded : Decoded)
  /-- The word is not legal for the disparity of the line. -/
  | fault (rejected : Rejected)
deriving DecidableEq

/-- Whether the detector fired. -/
def Event.disparityError : Event → Bool
  | .symbol d => d.disparityError
  | .fault r => r.disparityError

/-- What a decoder has counted. -/
structure Stats where
  words : Nat
  symbols : Nat
  decodeErrors : Nat
  disparityErrors : Nat
deriving DecidableEq

/-- Nothing counted yet. -/
def Stats.zero : Stats := ⟨0, 0, 0, 0⟩

/-- Counts an event. -/
def Stats.add (s : Stats) (e : Event) : Stats where
  words := s.words + 1
  symbols := s.symbols + (match e with | .symbol _ => 1 | .fault _ => 0)
  decodeErrors := s.decodeErrors + (match e with | .symbol _ => 0 | .fault _ => 1)
  disparityErrors := s.disparityErrors + e.disparityError.toNat

/-- A receiver: a codec, the disparity of the line and the counts. -/
structure Decoder where
  codec : Codec
  rd : Disparity
  stats : Stats

namespace Decoder

/-- A receiver that has seen nothing. -/
def start (c : Codec) (rd : Disparity) : Decoder := ⟨c, rd, .zero⟩

/-- What a word is to a receiver. -/
def event (d : Decoder) (w : Codeword) : Event :=
  match d.codec.decode w d.rd with
  | .ok decoded => .symbol decoded
  | .error rejected => .fault rejected

/-- The disparity after a word. -/
def next (d : Decoder) (w : Codeword) : Disparity :=
  match d.codec.decode w d.rd with
  | .ok decoded => decoded.rd
  | .error _ =>
    match d.codec.decode w d.rd.flip with
    | .ok decoded => decoded.rd
    | .error _ => d.rd

/-- Receives one word. -/
def push (d : Decoder) (w : Codeword) : Event × Decoder :=
  let e := d.event w
  (e, { d with rd := d.next w, stats := d.stats.add e })

/-- Receives words. -/
def decodeAll (d : Decoder) : List Codeword → List Event × Decoder
  | [] => ([], d)
  | w :: ws =>
    let (e, d') := d.push w
    let (es, d'') := d'.decodeAll ws
    (e :: es, d'')

end Decoder

end LineCode
