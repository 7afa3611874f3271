import Mos6502.Source.Scanner
import Mos6502.Source.Statement

/-!
# The grammar of a line

A line is an optional label, an optional statement and an optional comment, with blanks between
them. Alternatives are tried in the order in which they are written here, and the first one that
reads something is kept; what it leaves over is not its concern. So `lda (` is the bare mnemonic
`lda` with something left over, and only the end of the line is in the wrong place.

That leftover is the one kind of syntax error there is: `readLine` returns the offset and the
character at which the line should have ended. Spans count from the start of the line, and the
line number of every statement is zero; the caller moves the statements to their place.
-/

namespace Mos6502.Line

open Scanner

/-- A number or a name. -/
def expr : Scanner Expr :=
  (do return .int (← number)) <|> (do return .name (← ident))

/-- The name of an index register. -/
def register : Scanner (Spanned String) :=
  spanned ident

/-- A comma between two operands or items. -/
def comma : Scanner Unit :=
  padded (char ',')

/-- An opening parenthesis, before what it encloses. -/
def opening : Scanner Unit := do
  char '('
  blanks

/-- A closing parenthesis, after what it encloses. -/
def closing : Scanner Unit := do
  blanks
  char ')'

/-- `#value` -/
def immediate : Scanner Operand := do
  char '#'
  return .immediate (← expr)

/-- `(value, register)` -/
def indirectX : Scanner Operand := do
  opening
  let address ← expr
  comma
  let r ← register
  closing
  return .indirectX address r

/-- `(value), register` -/
def indirectY : Scanner Operand := do
  opening
  let address ← expr
  closing
  comma
  let r ← register
  return .indirectY address r

/-- `(value)` -/
def indirect : Scanner Operand := do
  opening
  let address ← expr
  closing
  return .indirect address

/-- `value, register` -/
def indexed : Scanner Operand := do
  let address ← expr
  comma
  let r ← register
  return match address with
    | .int n => .indexed n r
    | .name s => .labelIndexed s r

/-- A plain value. -/
def direct : Scanner Operand := do
  return match ← expr with
    | .int n => .direct n
    | .name s => .label s

/-- The operand of an instruction. -/
def operand : Scanner Operand :=
  immediate <|> indirectX <|> indirectY <|> indirect <|> indexed <|> direct

/-- Characters between double quotes; there are no escapes. -/
def quoted : Scanner String := do
  char '"'
  let s ← run (· != '"')
  char '"'
  return String.ofList s

/-- An item of a data declaration. -/
def datum : Scanner Datum :=
  (do return .str (← quoted)) <|> (do return .int (← number)) <|> (do return .label (← ident))

/-- `name = number` -/
def assignment : Scanner Node := do
  let name ← ident
  padded (char '=')
  return .assign name (← number)

/-- `org number` -/
def org : Scanner Node := do
  word ["org", ".org"]
  blanks
  return .org (← number)

/-- The word that opens a data declaration. -/
def dataWidth : Scanner DataWidth :=
  (do word ["dc.b", ".byte", "db"]; return .byte)
  <|> (do word ["dc.w", ".word", "dw"]; return .word)

/-- `dc.b item, item, …` -/
def data : Scanner Node := do
  let width ← dataWidth
  blanks
  return .data width (← sepBy₁ (spanned datum) comma)

/-- A mnemonic and what follows it. -/
def instr : Scanner Node := do
  let mnemonic ← spanned ident
  let o ← optional (do blanks; operand)
  return .instr ⟨mnemonic, o.getD .implied⟩

/-- A statement other than a label. -/
def node : Scanner Node :=
  assignment <|> org <|> data <|> instr

/-- `name:` -/
def label : Scanner Node := do
  let name ← ident
  char ':'
  return .label name

/-- A statement read from the line. -/
def stmtOf (x : Spanned Node) : Stmt :=
  ⟨0, x.span, x.val⟩

/-- Everything on a line but its comment: the statements on it. -/
def content : Scanner (List Stmt) := do
  blanks
  let l ← optional (do let l ← spanned label; blanks; return l)
  let s ← optional (spanned node)
  blanks
  return l.toList.map stmtOf ++ s.toList.map stmtOf

/-- Where a line should have ended, and the character that stands there. -/
structure Leftover where
  pos : Nat
  found : Char
deriving DecidableEq

/-- The statements of a line, or where it should have ended. A comment ends a line like its end
does. -/
def readLine (cs : List Char) : Except Leftover (List Stmt) :=
  match content ⟨0, cs⟩ with
  | none => .ok []
  | some (stmts, ⟨pos, rest⟩) =>
    match rest with
    | [] => .ok stmts
    | c :: _ => if c = ';' then .ok stmts else .error ⟨pos, c⟩

end Mos6502.Line
