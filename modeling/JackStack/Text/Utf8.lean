/-!
# Text/Utf8 — reading bytes that may not be well-formed

`decodeLossy` shows any bytes as text. Well-formed sequences are read as their characters; each
maximal start of a sequence that does not go on as it should, and each byte that can start none,
becomes one replacement character.
-/

namespace JackStack.Text.Utf8

/-- The character that stands for bytes that are no character. -/
def replacement : Char := '�'

/-- **A sequence that has begun**: the bits read, how many bytes are still due, and the range in
which the next of them has to lie. -/
structure Partial where
  bits : Nat
  due : Nat
  low : Nat := 0x80
  high : Nat := 0xBF
  deriving Repr

/-- **The sequence that a byte begins**, if it begins one of two to four bytes. The ranges leave out
overlong forms, surrogates and what lies beyond U+10FFFF. -/
def begin? (b : Nat) : Option Partial :=
  if 0xC2 ≤ b ∧ b ≤ 0xDF then some { bits := b - 0xC0, due := 1 }
  else if b = 0xE0 then some { bits := 0, due := 2, low := 0xA0 }
  else if b = 0xED then some { bits := 0xD, due := 2, high := 0x9F }
  else if 0xE1 ≤ b ∧ b ≤ 0xEF then some { bits := b - 0xE0, due := 2 }
  else if b = 0xF0 then some { bits := 0, due := 3, low := 0x90 }
  else if 0xF1 ≤ b ∧ b ≤ 0xF3 then some { bits := b - 0xF0, due := 3 }
  else if b = 0xF4 then some { bits := 4, due := 3, high := 0x8F }
  else none

/-- The text read when a byte comes between two characters, and the sequence it begins. -/
def start (b : Nat) : List Char × Option Partial :=
  if b < 0x80 then ([Char.ofNat b], none)
  else
    match begin? b with
    | some p => ([], some p)
    | none => ([replacement], none)

/-- **One byte**: the characters it completes, and the sequence it leaves open. -/
def step (state : Option Partial) (b : Nat) : List Char × Option Partial :=
  match state with
  | none => start b
  | some p =>
    if p.low ≤ b ∧ b ≤ p.high then
      let bits := 0x40 * p.bits + (b - 0x80)
      if p.due ≤ 1 then ([Char.ofNat bits], none)
      else ([], some { bits := bits, due := p.due - 1 })
    else (replacement :: (start b).1, (start b).2)

/-- **The text of bytes**, from an open sequence on. -/
def decodeFrom (state : Option Partial) : List UInt8 → List Char
  | [] => if state.isSome then [replacement] else []
  | b :: bs => (step state b.toNat).1 ++ decodeFrom (step state b.toNat).2 bs

/-- **The text of any bytes.** -/
def decodeLossy (bytes : ByteArray) : String :=
  String.ofList (decodeFrom none bytes.toList)

end JackStack.Text.Utf8
