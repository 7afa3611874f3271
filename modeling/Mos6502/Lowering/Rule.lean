import Mos6502.Bindings
import Mos6502.Diagnostic
import Mos6502.IR.Build

/-!
# Lowering single instructions

The registers and the two flags that are modelled live in stack slots, which are made once at the
start of the function and then only loaded from and stored to. An instruction becomes a short
sequence that leaves its result in a register and sets both flags by it: negative if the sign bit
is set, zero if all bits are clear.

Only some instructions have a rule: loads of a constant, transfers between registers, steps of an
index register by one, and the one that does nothing.
-/

namespace Mos6502

open IR

/-- The registers that are modelled. -/
inductive Reg where
  | a
  | x
  | y
deriving DecidableEq

/-- The slot of a register. -/
def Reg.slot : Reg → IR.Value
  | x => .ofLocal 0
  | y => .ofLocal 1
  | a => .ofLocal 2

/-- The slot of the negative flag. -/
def negativeSlot : IR.Value :=
  .ofLocal 3

/-- The slot of the zero flag. -/
def zeroSlot : IR.Value :=
  .ofLocal 4

/-- The names and types of the slots, in the order in which they are made. -/
def slots : List (String × IR.Ty) :=
  [("X", .i8), ("Y", .i8), ("A", .i8), ("S_neg", .i1), ("S_zero", .i1)]

/-- Makes the slots. -/
def makeSlots : Build Unit :=
  slots.forM fun s => do
    let _ ← Build.alloca s.2 s.1

/-- How an instruction is lowered. -/
inductive Rule where
  /-- Loads a register with a constant. -/
  | loadImmediate (reg : Reg)
  /-- Copies a register. -/
  | transfer (source target : Reg)
  /-- Adds one to a register, or subtracts it. -/
  | step (reg : Reg) (op : BinOp)
  | nop
deriving DecidableEq

namespace Rule

/-- The mnemonics with a rule, in small letters, for each shape of the operand. -/
def table : Shape → List (String × Rule)
  | .immediate =>
    [("lda", loadImmediate .a), ("ldx", loadImmediate .x), ("ldy", loadImmediate .y)]
  | .implied =>
    [("tax", transfer .a .x), ("tay", transfer .a .y), ("txa", transfer .x .a),
      ("tya", transfer .y .a), ("inx", step .x .add), ("iny", step .y .add), ("dex", step .x .sub),
      ("dey", step .y .sub), ("nop", nop)]
  | _ => []

/-- The rule of an instruction. -/
def of? (i : Instr) : Option Rule :=
  (table i.operand.shape).lookup (Text.lowercase i.mnemonic.val)

/-- Sets both flags by a value. -/
def setFlags (v : IR.Value) : Build Unit := do
  let negative ← Build.icmp .slt v (.const .i8 0)
  Build.store negative negativeSlot
  let zero ← Build.icmp .eq v (.const .i8 0)
  Build.store zero zeroSlot

/-- The number that an immediate operand stands for. A name stands for the value last assigned to
it, and the number has to fit into a byte. -/
def immediateByte (vars : Bindings String UInt32) (e : Expr) : Except Fault UInt8 := do
  let n ← match e with
    | .int n => .ok n
    | .name s => match vars.get? s with
      | some n => .ok n
      | none => .error (.undefinedVariable s)
  if n ≤ 0xff then .ok n.toUInt8 else .error (.outOfRange n 0xff)

/-- The steps that an instruction becomes. -/
def lower (vars : Bindings String UInt32) (i : Instr) : Rule → Except Fault (Build Unit)
  | loadImmediate reg =>
    match i.operand with
    | .immediate e => do
      let n ← immediateByte vars e
      let v : IR.Value := .const .i8 n.toUInt64
      return do
        Build.store v reg.slot
        setFlags v
    | o => .error (.notLowered o.shape i.mnemonic.val)
  | transfer source target =>
    .ok do
      let v ← Build.load .i8 source.slot
      Build.store v target.slot
      setFlags v
  | step reg op =>
    .ok do
      let old ← Build.load .i8 reg.slot
      let v ← Build.binary op old (.const .i8 1)
      Build.store v reg.slot
      setFlags v
  | nop => .ok (pure ())

end Rule

end Mos6502
