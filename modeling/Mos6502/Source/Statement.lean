import Mos6502.Text.Bytes
import Mos6502.Text.Span

/-!
# Statements

A program is a list of statements, one label and one other statement a line at most. A statement
knows the line it stands on, counted from one, and the bytes it covers; inside it, the mnemonic,
the index register and each item of a data declaration know their bytes too, because diagnostics
point at them.

Numbers are 32-bit words as written; whether a number fits where it is used is decided later, by
instruction selection and by lowering.

`shift` moves a statement to another place of the text without touching what it says.
-/

namespace Mos6502

/-- A number, or a name that stands for one. -/
inductive Expr where
  | int (n : UInt32)
  | name (s : String)
deriving DecidableEq

/-- The operand of an instruction, by the shape in which it is written. -/
inductive Operand where
  /-- `INX` -/
  | implied
  /-- `LDA #$10` -/
  | immediate (value : Expr)
  /-- `LDA $10` -/
  | direct (address : UInt32)
  /-- `JMP loop` -/
  | label (name : String)
  /-- `LDA $1000, X` -/
  | indexed (address : UInt32) (register : Spanned String)
  /-- `LDA table, X` -/
  | labelIndexed (name : String) (register : Spanned String)
  /-- `LDA ($10, X)` -/
  | indirectX (address : Expr) (register : Spanned String)
  /-- `LDA ($10), Y` -/
  | indirectY (address : Expr) (register : Spanned String)
  /-- `JMP ($FFFC)` -/
  | indirect (address : Expr)
deriving DecidableEq

/-- The shape of an operand without what it holds. -/
inductive Shape where
  | implied
  | immediate
  | direct
  | label
  | indexed
  | labelIndexed
  | indirectX
  | indirectY
  | indirect
deriving DecidableEq

/-- How messages call a shape. -/
def Shape.describe : Shape → String
  | implied => "implied"
  | immediate => "immediate"
  | direct => "direct"
  | label => "direct with label"
  | indexed => "direct indexed"
  | labelIndexed => "direct with label indexed"
  | indirectX => "indirect X"
  | indirectY => "indirect Y"
  | indirect => "indirect"

namespace Operand

/-- The shape in which an operand is written. -/
def shape : Operand → Shape
  | implied => .implied
  | immediate _ => .immediate
  | direct _ => .direct
  | label _ => .label
  | indexed _ _ => .indexed
  | labelIndexed _ _ => .labelIndexed
  | indirectX _ _ => .indirectX
  | indirectY _ _ => .indirectY
  | indirect _ => .indirect

/-- The same operand, read `bytes` further into the text. -/
def shift (bytes : Nat) : Operand → Operand
  | indexed a r => indexed a (r.shift bytes)
  | labelIndexed n r => labelIndexed n (r.shift bytes)
  | indirectX a r => indirectX a (r.shift bytes)
  | indirectY a r => indirectY a (r.shift bytes)
  | o => o

@[simp] theorem shape_shift (bytes : Nat) (o : Operand) : (o.shift bytes).shape = o.shape := by
  cases o <;> rfl

end Operand

/-- An instruction: its mnemonic as written, and its operand. -/
structure Instr where
  mnemonic : Spanned String
  operand : Operand
deriving DecidableEq

/-- The same instruction, read `bytes` further into the text. -/
def Instr.shift (bytes : Nat) (i : Instr) : Instr :=
  ⟨i.mnemonic.shift bytes, i.operand.shift bytes⟩

/-- How much room each number of a data declaration takes. -/
inductive DataWidth where
  | byte
  | word
deriving DecidableEq

/-- One item of a data declaration. -/
inductive Datum where
  | int (n : UInt32)
  | str (s : String)
  | label (s : String)
deriving DecidableEq

/-- Bytes an item takes in a byte-sized declaration: the whole text of a string, else one. -/
def Datum.size : Datum → Nat
  | str s => Text.byteLength s.toList
  | int _ | label _ => 1

/-- Bytes a data declaration takes. In a word-sized one each item takes two, whatever it is. -/
def dataSize (width : DataWidth) (items : List (Spanned Datum)) : Nat :=
  match width with
  | .byte => items.foldr (fun item n => item.val.size + n) 0
  | .word => 2 * items.length

/-- What a statement says. -/
inductive Node where
  /-- `name:` -/
  | label (name : String)
  /-- `name = value` -/
  | assign (name : String) (value : UInt32)
  /-- Moves the location counter. -/
  | org (address : UInt32)
  /-- `dc.b` and `dc.w` -/
  | data (width : DataWidth) (items : List (Spanned Datum))
  | instr (i : Instr)
deriving DecidableEq

/-- The same content, read `bytes` further into the text. -/
def Node.shift (bytes : Nat) : Node → Node
  | data width items => data width (items.map (Spanned.shift bytes))
  | instr i => instr (i.shift bytes)
  | n => n

/-- A statement and its place in the text. -/
structure Stmt where
  line : Nat
  span : Span
  node : Node
deriving DecidableEq

namespace Stmt

/-- The same statement, `bytes` and `lines` further into the text. -/
def shift (bytes lines : Nat) (s : Stmt) : Stmt :=
  ⟨s.line + lines, s.span.shift bytes, s.node.shift bytes⟩

/-- Is it a byte-sized data declaration? -/
def isByteData (s : Stmt) : Bool :=
  match s.node with
  | .data .byte _ => true
  | _ => false

end Stmt

end Mos6502
