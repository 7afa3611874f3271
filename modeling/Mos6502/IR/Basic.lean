import Mos6502.Text.FreshName

/-!
# The intermediate representation

A small language of functions made of basic blocks. A module holds constant byte arrays and
functions; a function without blocks is a declaration. Instructions name their operands by index:
locals and blocks of the function, globals of the module. An index stays valid while the module is
being built, because nothing is ever removed from the front.

Nothing here rules out an index that denotes nothing, a block without a terminator or an operand
of the wrong type. Such modules can be written down and printed; `Module.verify` is what tells
them apart.

Globals and functions share one name space, blocks have one for each function. A requested name
that is taken is replaced by a fresh one.
-/

namespace Mos6502.IR

open Text

/-- Types of values. -/
inductive Ty where
  | void
  | i1
  | i8
  | i32
  | ptr
  /-- An array of that many bytes. -/
  | bytes (length : Nat)
deriving DecidableEq

/-- The types of integers. -/
def Ty.isInt : Ty → Bool
  | i1 | i8 | i32 => true
  | _ => false

/-- An operand of an instruction. -/
inductive Value where
  /-- A constant. Bits beyond the width of the type do not count. -/
  | const (ty : Ty) (bits : UInt64)
  | ofLocal (index : Nat)
  | ofGlobal (index : Nat)
deriving DecidableEq

/-- Integer arithmetic. -/
inductive BinOp where
  | add
  | sub
deriving DecidableEq

/-- Integer comparisons. -/
inductive Predicate where
  | eq
  /-- Less than, of signed integers. -/
  | slt
deriving DecidableEq

/-- Instructions. The destination is the local that an instruction defines. -/
inductive Inst where
  /-- A fresh stack slot. -/
  | alloca (dest : Nat) (ty : Ty)
  | load (dest : Nat) (ty : Ty) (ptr : Value)
  | store (value ptr : Value)
  | binary (dest : Nat) (op : BinOp) (lhs rhs : Value)
  | icmp (dest : Nat) (pred : Predicate) (lhs rhs : Value)
  /-- Goes to another block. -/
  | br (target : Nat)
  /-- Is never executed. -/
  | unreachable
deriving DecidableEq

namespace Inst

/-- Does the instruction end its block? -/
def isTerminator : Inst → Bool
  | br _ | unreachable => true
  | _ => false

/-- The local that the instruction defines. -/
def dest? : Inst → Option Nat
  | alloca dest _ | load dest _ _ | binary dest _ _ _ | icmp dest _ _ _ => some dest
  | store _ _ | br _ | unreachable => none

/-- The values that the instruction uses, in order. -/
def operands : Inst → List Value
  | load _ _ ptr => [ptr]
  | store value ptr => [value, ptr]
  | binary _ _ lhs rhs | icmp _ _ lhs rhs => [lhs, rhs]
  | alloca _ _ | br _ | unreachable => []

/-- The block that the instruction goes to. -/
def target? : Inst → Option Nat
  | br target => some target
  | _ => none

end Inst

/-- Can other modules see the symbol? -/
inductive Linkage where
  | external
  | internal
deriving DecidableEq

/-- A byte array. -/
structure Global where
  name : String
  linkage : Linkage
  constant : Bool
  init : List UInt8
deriving DecidableEq

/-- The type of what a global holds. -/
def Global.ty (g : Global) : Ty :=
  .bytes g.init.length

/-- A local value of a function. -/
structure Local where
  name : String
  ty : Ty
deriving DecidableEq

/-- A basic block. -/
structure Block where
  name : String
  insts : List Inst := []
  /-- Entered from outside the function, so it has to stay. -/
  pinned : Bool := false
deriving DecidableEq

/-- Does the block end with a terminator? -/
def Block.isTerminated (b : Block) : Bool :=
  match b.insts.getLast? with
  | some i => i.isTerminator
  | none => false

/-- What callers of a function may assume. -/
structure Attrs where
  noreturn : Bool := false
  nounwind : Bool := false
deriving DecidableEq

/-- A function. -/
structure Function where
  name : String
  ret : Ty
  params : List Ty
  linkage : Linkage
  attrs : Attrs := {}
  blocks : List Block := []
  locals : List Local := []
deriving DecidableEq

namespace Function

/-- A function without blocks is only declared. -/
def isDeclaration (f : Function) : Bool :=
  f.blocks.isEmpty

/-- The names of the blocks. -/
def blockNames (f : Function) : List String :=
  f.blocks.map Block.name

/-- Adds an empty block at the end, under a fresh name. Its index is the number of blocks so
far. -/
def appendBlock (f : Function) (name : String) : Function :=
  { f with blocks := f.blocks ++ [{ name := freshName name f.blockNames }] }

/-- The index of the first block of a name. -/
def findBlock? (f : Function) (name : String) : Option Nat :=
  f.blocks.findIdx? fun b => b.name == name

/-- The type of a value; a local that does not exist has none. -/
def typeOf? (f : Function) : Value → Option Ty
  | .const ty _ => some ty
  | .ofLocal i => f.locals[i]?.map Local.ty
  | .ofGlobal _ => some .ptr

/-- The type of a value, where a local that does not exist counts as void. -/
def typeOf (f : Function) (v : Value) : Ty :=
  (f.typeOf? v).getD .void

end Function

/-- A module. -/
structure Module where
  name : String
  globals : List Global := []
  functions : List Function := []
deriving DecidableEq

namespace Module

/-- The names of all symbols: globals first, then functions. -/
def symbols (m : Module) : List String :=
  m.globals.map Global.name ++ m.functions.map Function.name

/-- Adds a constant byte array at the end, under a fresh name. -/
def addGlobal (m : Module) (name : String) (linkage : Linkage) (init : List UInt8) : Module :=
  { m with globals := m.globals ++ [⟨freshName name m.symbols, linkage, true, init⟩] }

/-- Adds a declaration at the end, under a fresh name. -/
def addFunction (m : Module) (name : String) (ret : Ty) (params : List Ty) (linkage : Linkage) :
    Module :=
  { m with
    functions := m.functions ++ [{ name := freshName name m.symbols, ret, params, linkage }] }

/-- The index of the first global of a name. -/
def findGlobal? (m : Module) (name : String) : Option Nat :=
  m.globals.findIdx? fun g => g.name == name

/-- The index of the first function of a name. -/
def findFunction? (m : Module) (name : String) : Option Nat :=
  m.functions.findIdx? fun f => f.name == name

end Module

end Mos6502.IR
