import Mos6502.Layout

/-!
# Data

A label owns the byte-sized data declarations that follow it directly; their bytes become one
constant. Any other statement ends the run, a word-sized declaration too, since the words of a
program only hold entry points. Byte data that no label owns is lost, with a warning.

An item that is no byte ends the contribution of its declaration and is an error; the declarations
after it still count. A label that owns no bytes yields no constant.
-/

namespace Mos6502

/-- The constants of a program, in source order, and what was found on the way. -/
structure DataSection where
  /-- The labels that own data, with their bytes. -/
  blobs : List (String × List UInt8) := []
  errors : List AsmError := []
  warnings : List Warning := []
deriving DecidableEq

namespace DataSection

/-- One section after the other. -/
def append (d e : DataSection) : DataSection :=
  ⟨d.blobs ++ e.blobs, d.errors ++ e.errors, d.warnings ++ e.warnings⟩

/-- The bytes of a declaration up to the first item that is none, and what is wrong with that. -/
def contribution (line : Nat) : List (Spanned Datum) → List UInt8 × Option AsmError
  | [] => ([], none)
  | item :: items =>
    match item.val with
    | .int n =>
      if n ≤ 0xff then
        let (bytes, error) := contribution line items
        (n.toUInt8 :: bytes, error)
      else
        ([], some ⟨line, item.span, .outOfRange n 0xff⟩)
    | .str s =>
      let (bytes, error) := contribution line items
      (Text.encode s ++ bytes, error)
    | .label name => ([], some ⟨line, item.span, .labelInByteData name⟩)

/-- A run of data, if it holds any. -/
def close : Option (String × List UInt8) → DataSection
  | none => {}
  | some (label, bytes) => if bytes.isEmpty then {} else { blobs := [(label, bytes)] }

/-- Collects the data of the statements that are left. The buffer holds the label that owns the
next byte data, and the bytes it owns so far. -/
def scan (buffer : Option (String × List UInt8)) : List Placed → DataSection
  | [] => close buffer
  | p :: rest =>
    match p.stmt.node with
    | .data .byte items =>
      match buffer with
      | none =>
        append { warnings := [⟨p.stmt.line, p.stmt.span, .trashedData (p.address.getD 0)⟩] }
          (scan none rest)
      | some (label, bytes) =>
        let (more, error) := contribution p.stmt.line items
        append { errors := error.toList } (scan (some (label, bytes ++ more)) rest)
    | .label name => append (close buffer) (scan (some (name, [])) rest)
    | _ => append (close buffer) (scan none rest)

/-- The data of a program. -/
def ofPlaced (placed : List Placed) : DataSection :=
  scan none placed

/-- Does the label own data? -/
def owns (d : DataSection) (label : String) : Bool :=
  d.blobs.any fun b => b.1 == label

end DataSection

end Mos6502
