import JackStack.Error
import JackStack.Text.Utf8

/-!
# Vm/Sink — where output goes

A sink keeps what is written to it. It may have a limit in bytes. A text that does not fit is
refused, and as much of it as fits is kept all the same, so from then on the sink is full.
-/

namespace JackStack

/-- **A sink**: the texts accepted whole, the bytes kept of refused ones, and the limit. -/
structure Sink where
  text : String := ""
  refused : ByteArray := .empty
  limit : Option Nat := none
  deriving Inhabited

namespace Sink

/-- How many bytes a sink holds. -/
def size (s : Sink) : Nat :=
  s.text.utf8ByteSize + s.refused.size

/-- **Everything a sink holds.** -/
def bytes (s : Sink) : ByteArray :=
  s.text.toUTF8 ++ s.refused

/-- What a sink holds, as text. -/
def contents (s : Sink) : String :=
  if s.refused.isEmpty then s.text else Text.Utf8.decodeLossy s.bytes

/-- The text fits whole. -/
def fits (s : Sink) (text : String) : Bool :=
  match s.limit with
  | none => true
  | some limit => s.size + text.utf8ByteSize ≤ limit

/-- The sink after a refused text. -/
def refuse (s : Sink) (text : String) : Sink :=
  match s.limit with
  | none => s
  | some limit => { s with refused := s.refused ++ text.toUTF8.extract 0 (limit - s.size) }

/-- **Writes a text**, whole or as far as it fits. -/
def write (s : Sink) (text : String) : Except FileFault Unit × Sink :=
  if s.fits text then (.ok (), { s with text := s.text ++ text })
  else (.error .sinkFull, s.refuse text)

end Sink

end JackStack
