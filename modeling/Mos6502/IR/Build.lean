import Mos6502.IR.Basic

/-!
# Building functions

Instructions are appended to one block at a time. A `Draft` is such a block under construction:
the locals of its function and the instructions so far. Each step that defines something makes a
new local and the instruction that defines it together, so that locals and their definitions stay
in step.

Stack slots are named by the caller and get a fresh name among the locals. Other values are named
`t` and their index; that name is not checked against those of the slots.

`Function.inBlock?` runs such steps at the end of a block of a function.
-/

namespace Mos6502.IR

open Text

/-- The locals of a function and the instructions of one of its blocks. -/
structure Draft where
  locals : List Local := []
  insts : List Inst := []
deriving DecidableEq

/-- Steps that append to a draft. -/
abbrev Build := StateM Draft

namespace Build

/-- Appends an instruction. -/
def push (inst : Inst) : Build Unit :=
  modify fun d => { d with insts := d.insts ++ [inst] }

/-- Appends the instruction that defines a new local. -/
def define (l : Local) (inst : (dest : Nat) → Inst) : Build Value := do
  let dest := (← get).locals.length
  modify fun d => { d with locals := d.locals ++ [l] }
  push (inst dest)
  return .ofLocal dest

/-- The name of the next local that nobody named. -/
def nextName : Build String := do
  return "t" ++ Nat.repr (← get).locals.length

/-- The type of a value, where a local that does not exist counts as void. -/
def typeOf (v : Value) : Build Ty := do
  match v with
  | .const ty _ => return ty
  | .ofLocal i => return ((← get).locals[i]?.map Local.ty).getD .void
  | .ofGlobal _ => return .ptr

/-- A new stack slot. -/
def alloca (ty : Ty) (name : String) : Build Value := do
  let taken := (← get).locals.map Local.name
  define ⟨freshName name taken, .ptr⟩ (.alloca · ty)

/-- Reads from memory. -/
def load (ty : Ty) (ptr : Value) : Build Value := do
  define ⟨← nextName, ty⟩ (.load · ty ptr)

/-- Writes to memory. -/
def store (value ptr : Value) : Build Unit :=
  push (.store value ptr)

/-- Adds or subtracts; the result has the type of the left operand. -/
def binary (op : BinOp) (lhs rhs : Value) : Build Value := do
  define ⟨← nextName, ← typeOf lhs⟩ (.binary · op lhs rhs)

/-- Compares. -/
def icmp (pred : Predicate) (lhs rhs : Value) : Build Value := do
  define ⟨← nextName, .i1⟩ (.icmp · pred lhs rhs)

/-- Goes to another block. -/
def br (target : Nat) : Build Unit :=
  push (.br target)

/-- Marks the end as never reached. -/
def unreachable : Build Unit :=
  push .unreachable

end Build

/-- Runs steps at the end of a block. There is no result if the block does not exist. -/
def Function.inBlock? {α : Type} (f : Function) (block : Nat) (steps : Build α) :
    Option (α × Function) := do
  let b ← f.blocks[block]?
  let (a, d) := steps.run ⟨f.locals, b.insts⟩
  let blocks := f.blocks.set block { b with insts := d.insts }
  return (a, { f with locals := d.locals, blocks })

/-- Changes a function of a module. There is no result if the function does not exist. -/
def Module.inFunction? {α : Type} (m : Module) (func : Nat)
    (step : Function → Option (α × Function)) : Option (α × Module) := do
  let f ← m.functions[func]?
  let (a, f') ← step f
  return (a, { m with functions := m.functions.set func f' })

end Mos6502.IR
