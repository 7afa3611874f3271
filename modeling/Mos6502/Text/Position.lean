import Mos6502.Text.Bytes

/-!
# Positions

A report names a line and a column, while spans are byte offsets. `LineIndex` remembers where the
lines of a text start and finds the line of an offset from that.

A line reaches up to and includes its newline, so the lines partition the text, and the offset
just past the last byte still has a position: it lies on the last line, which is empty after a
final newline.
-/

namespace Mos6502.Text

/-- Zero-based location of a byte in a text. -/
structure Position where
  line : Nat
  /-- Byte offset within the line. -/
  character : Nat
  lineStart : Nat
  lineEnd : Nat
deriving DecidableEq

/-- Offsets just after each newline, for a text that starts at `offset`. -/
def lineStartsFrom (offset : Nat) : List Char → List Nat
  | [] => []
  | c :: cs =>
    let next := offset + c.utf8Size
    if c = '\n' then next :: lineStartsFrom next cs else lineStartsFrom next cs

/-- Where the lines of a text start, and where the text ends. -/
structure LineIndex where
  starts : List Nat
  length : Nat

namespace LineIndex

/-- The first line always starts at offset zero. -/
def ofText (cs : List Char) : LineIndex :=
  ⟨0 :: lineStartsFrom 0 cs, byteLength cs⟩

/-- The position of a byte offset; an offset past the end of the text has none. -/
def position? (lines : LineIndex) (index : Nat) : Option Position :=
  if index ≤ lines.length then
    let upTo := lines.starts.takeWhile (· ≤ index)
    let lineStart := upTo.getLastD 0
    some
      { line := upTo.length - 1
        character := index - lineStart
        lineStart
        lineEnd := (lines.starts.drop upTo.length).headD lines.length }
  else
    none

end LineIndex

/-- What is said of an offset that has no position. -/
def outOfRangeMessage (index : Nat) : String :=
  "Source index out of range: " ++ Nat.repr index

end Mos6502.Text
