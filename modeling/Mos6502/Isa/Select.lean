import Mos6502.Diagnostic
import Mos6502.Isa.Opcode

/-!
# Instruction selection

Picks the opcode of an instruction from its mnemonic and the shape of its operand. Mnemonics and
register names are compared without regard to the case of ASCII letters.

Where several addressing modes fit, the shorter one is taken: a number below `$100` prefers the
zero page. A branch is the exception that needs no choice, since a mnemonic with a relative form
has no other. A name has no known value yet, so it is never put into the zero page, and a bare `a`
means the accumulator where the mnemonic has such a form.

Two things can be wrong at once. An inadmissible register is reported first. A number that is too
large is reported before an unknown mnemonic for plain and indexed addresses, and after it for the
immediate and indirect shapes.
-/

namespace Mos6502

/-- The opcode and the addressing mode chosen for an instruction. -/
structure Encoding where
  opcode : UInt8
  mode : AddressingMode
deriving DecidableEq

/-- Length of the encoded instruction in bytes. -/
def Encoding.size (e : Encoding) : Nat :=
  e.mode.size

/-- The two index registers. -/
inductive IndexRegister where
  | x
  | y
deriving DecidableEq

/-- The index register of a name. -/
def IndexRegister.ofName? (name : String) : Option IndexRegister :=
  if Text.lowercase name = "x" then some .x
  else if Text.lowercase name = "y" then some .y
  else none

namespace Select

/-- The encoding of a mnemonic, written in small letters, in a mode. -/
def encodingIn? (mnemonic : String) (mode : AddressingMode) : Option Encoding :=
  (Opcode.find? mode mnemonic).map fun opcode => ⟨opcode, mode⟩

/-- The encoding in the first of several modes that has the mnemonic. The mnemonic is reported as
unknown in the mode `report` if none has. -/
def firstOf (line : Nat) (mnemonic : Spanned String) (modes : List AddressingMode)
    (report : AddressingMode) : Except AsmError Encoding :=
  match modes.findSome? (encodingIn? (Text.lowercase mnemonic.val)) with
  | some e => .ok e
  | none => .error ⟨line, mnemonic.span, .unknownInstruction mnemonic.val report⟩

/-- Refuses a number above `max`. -/
def checkNumber (line : Nat) (span : Span) (max value : UInt32) : Except AsmError Unit :=
  if value ≤ max then .ok () else .error ⟨line, span, .outOfRange value max⟩

/-- Refuses a number above `max`; a name passes, as its value is not known yet. -/
def checkExpr (line : Nat) (span : Span) (max : UInt32) : Expr → Except AsmError Unit
  | .int value => checkNumber line span max value
  | .name _ => .ok ()

/-- The register of an indexed operand. -/
def anyRegister (line : Nat) (register : Spanned String) : Except AsmError IndexRegister :=
  match IndexRegister.ofName? register.val with
  | some r => .ok r
  | none => .error ⟨line, register.span, .invalidRegister .either⟩

/-- Refuses every register but the one expected. -/
def expectRegister (line : Nat) (register : Spanned String) (expected : IndexRegister) :
    Except AsmError Unit :=
  if IndexRegister.ofName? register.val = some expected then .ok ()
  else
    .error ⟨line, register.span, .invalidRegister (match expected with | .x => .x | .y => .y)⟩

/-- The zero page mode of an index register. -/
def zeroPageOf : IndexRegister → AddressingMode
  | .x => .zeroPageX
  | .y => .zeroPageY

/-- The absolute mode of an index register. -/
def absoluteOf : IndexRegister → AddressingMode
  | .x => .absoluteX
  | .y => .absoluteY

/-- A mode that only a number below `$100` can use. -/
def ifShort (address : UInt32) (mode : AddressingMode) : List AddressingMode :=
  if address ≤ 0xff then [mode] else []

end Select

open Select in
/-- The encoding of an instruction that stands on `line` and covers `span`. -/
def Instr.select (line : Nat) (span : Span) (i : Instr) : Except AsmError Encoding :=
  match i.operand with
  | .implied => firstOf line i.mnemonic [.implied, .accumulator] .implied
  | .immediate value => do
    let e ← firstOf line i.mnemonic [.immediate] .immediate
    checkExpr line span 0xff value
    return e
  | .direct address => do
    checkNumber line span 0xffff address
    firstOf line i.mnemonic (.relative :: ifShort address .zeroPage ++ [.absolute]) .absolute
  | .label name =>
    let accumulator := if Text.lowercase name = "a" then [.accumulator] else []
    firstOf line i.mnemonic (accumulator ++ [.relative, .absolute]) .absolute
  | .indexed address register => do
    let r ← anyRegister line register
    checkNumber line span 0xffff address
    firstOf line i.mnemonic (ifShort address (zeroPageOf r) ++ [absoluteOf r]) (absoluteOf r)
  | .labelIndexed _ register => do
    let r ← anyRegister line register
    firstOf line i.mnemonic [absoluteOf r] (absoluteOf r)
  | .indirectX address register => do
    expectRegister line register .x
    let e ← firstOf line i.mnemonic [.indirectX] .indirectX
    checkExpr line span 0xff address
    return e
  | .indirectY address register => do
    expectRegister line register .y
    let e ← firstOf line i.mnemonic [.indirectY] .indirectY
    checkExpr line span 0xff address
    return e
  | .indirect address => do
    let e ← firstOf line i.mnemonic [.indirect] .indirect
    checkExpr line span 0xffff address
    return e

end Mos6502
