import Mos6502.Graph
import Mos6502.IR.Basic

/-!
# Native functions

The form of a function that is closest to the machine: numbered values in registers, explicit
stack slots, symbols whose address can be taken. Every instruction works on values; constants are
made by instructions of their own. One-bit integers are bytes here, and addresses are 64 bits
wide.

Values are numbered in the order in which they are made, parameters first, and for each of them
the function records its type, the block that makes it, and the constant it is, if it is one.

`Function.isValid` is the condition under which such a function can be compiled further, as long as
its slots fit on the stack: `Function.frameSize` is what they take there.
-/

namespace Mos6502.Native

/-- Types of values in registers. -/
inductive Ty where
  | i8
  | i32
  | i64
deriving DecidableEq

/-- Width of a type in bits. -/
def Ty.width : Ty → Nat
  | i8 => 8
  | i32 => 32
  | i64 => 64

/-- The type that represents values of a type of the intermediate representation. There is none
for void and for arrays. -/
def Ty.ofIR? : IR.Ty → Option Ty
  | .i1 | .i8 => some i8
  | .i32 => some i32
  | .ptr => some i64
  | .void | .bytes _ => none

/-- Size in bytes of a stack slot for a type. Sizes are 32-bit words. -/
def slotSize : IR.Ty → Nat
  | .void => 0
  | .i1 | .i8 => 1
  | .i32 => 4
  | .ptr => 8
  | .bytes n => n % UInt32.size

/-- The next multiple of a number. -/
def roundUp (unit n : Nat) : Nat :=
  (n + unit - 1) / unit * unit

/-- Instructions. Values, slots, symbols and blocks are named by number. -/
inductive Inst where
  | iconst (dest : Nat) (ty : Ty) (imm : Int)
  | globalValue (dest symbol : Nat)
  | stackAddr (dest slot : Nat)
  | stackLoad (dest : Nat) (ty : Ty) (slot : Nat)
  | load (dest : Nat) (ty : Ty) (address : Nat)
  | stackStore (value slot : Nat)
  | store (value address : Nat)
  | binary (dest : Nat) (op : IR.BinOp) (lhs rhs : Nat)
  | icmp (dest : Nat) (pred : IR.Predicate) (lhs rhs : Nat)
  | jump (target : Nat)
  | trap
deriving DecidableEq

namespace Inst

/-- The values that an instruction uses, in order. -/
def args : Inst → List Nat
  | load _ _ address => [address]
  | stackStore value _ => [value]
  | store value address => [value, address]
  | binary _ _ lhs rhs | icmp _ _ lhs rhs => [lhs, rhs]
  | iconst _ _ _ | globalValue _ _ | stackAddr _ _ | stackLoad _ _ _ | jump _ | trap => []

/-- The block that an instruction goes to. -/
def target? : Inst → Option Nat
  | jump target => some target
  | _ => none

end Inst

/-- What is known of a value. -/
structure ValueInfo where
  ty : Ty
  /-- The block that makes it. -/
  block : Nat
  /-- The constant that it is. -/
  imm : Option Int := none
deriving DecidableEq

/-- A native function. -/
structure Function where
  /-- Its number in the module. -/
  id : Nat
  params : List Ty
  ret : Option Ty
  /-- The sizes of its stack slots. -/
  slots : List Nat
  /-- The globals behind its symbols. -/
  symbols : List Nat
  values : List ValueInfo
  blocks : List (List Inst)
deriving DecidableEq

namespace Function

/-- The blocks that a block goes to. -/
def successors (f : Function) (block : Nat) : List Nat :=
  (f.blocks[block]?.getD []).filterMap Inst.target?

/-- Is the block that makes a value on every way to the block that uses it? -/
def isAvailable (f : Function) (block value : Nat) : Bool :=
  match f.values[value]? with
  | some v => Graph.dominates f.blocks.length f.successors 0 v.block block
  | none => false

/-- The type of a value. -/
def typeOf? (f : Function) (value : Nat) : Option Ty :=
  f.values[value]?.map ValueInfo.ty

/-- Do the operands fit the instruction? Both operands of arithmetic and of a comparison have one
type, and a byte is too short for an address. -/
def isTyped (f : Function) : Inst → Bool
  | .binary _ _ lhs rhs | .icmp _ _ lhs rhs => f.typeOf? lhs = f.typeOf? rhs
  | .load _ _ address | .store _ address => f.typeOf? address ≠ some .i8
  | _ => true

/-- No instruction goes back to the first block, the operands of every instruction fit it, and in
every block that can be reached from the first one, each value that is used is made on every way
there. -/
def isValid (f : Function) : Bool :=
  let indices := List.range f.blocks.length
  let reached := Graph.reach f.blocks.length f.successors [0]
  indices.all (fun b => !(f.successors b).contains 0) &&
    f.blocks.all (fun insts => insts.all f.isTyped) &&
    indices.all fun b =>
      reached[b]? ≠ some true || ((f.blocks[b]?.getD []).flatMap Inst.args).all (f.isAvailable b)

/-- Size in bytes of the part of the stack that the slots lie in, one after the other. Each slot
starts at a multiple of eight, and the size is one too. -/
def frameSize (f : Function) : Nat :=
  roundUp 8 (f.slots.foldl (fun offset size => roundUp 8 offset + size) 0)

end Function

end Mos6502.Native
