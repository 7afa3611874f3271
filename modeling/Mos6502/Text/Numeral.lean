/-!
# Numerals

The formats in which numbers are written: hexadecimal in small or capital letters, filled up with
zeros to a least number of digits, and decimal set flush right in a column.
-/

namespace Mos6502.Text

/-- The text with copies of `fill` in front, up to `width` characters. -/
def padLeft (width : Nat) (fill : Char) (s : String) : String :=
  String.ofList (List.replicate (width - s.length) fill) ++ s

/-- Hexadecimal digits in small letters, at least `width` of them. -/
def hex (width n : Nat) : String :=
  padLeft width '0' (String.ofList (Nat.toDigits 16 n))

/-- Hexadecimal digits in capital letters, at least `width` of them. -/
def hexUpper (width n : Nat) : String :=
  padLeft width '0' (String.ofList ((Nat.toDigits 16 n).map Char.toUpper))

/-- A number as it stands in a message: `0x` and at least `width` hexadecimal digits. -/
def hexLiteral (width n : Nat) : String :=
  "0x" ++ hex width n

/-- Decimal digits, with a minus sign for a negative number. -/
def decimal (n : Int) : String :=
  match n with
  | .ofNat k => Nat.repr k
  | .negSucc k => "-" ++ Nat.repr (k + 1)

end Mos6502.Text
