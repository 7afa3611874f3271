import Mos6502.IR.Basic

/-!
# Verification of modules

`Module.fault?` looks for the first thing that is wrong with a module: symbols first, then the
functions in order; within a function its block names, then the blocks in order; within a block
its terminator, then the instructions in order; within an instruction its operands, then its types
or its target.

A local may be used wherever in the function it is defined, also before its definition: only that
it has one is checked. The destination of a slot or of a load is not checked at all.
-/

namespace Mos6502.IR

open Text

/-- What is wrong with the types of an instruction. -/
inductive TypeFault where
  | allocaVoid
  | loadAddress
  | loadVoid
  | storeAddress
  | storeVoid
  | binaryOperands
  | binaryResult
  | icmpOperands
  | icmpResult
deriving DecidableEq

/-- The wording of a type fault. -/
def TypeFault.describe : TypeFault → String
  | allocaVoid => "alloca of void"
  | loadAddress => "load from a non-pointer"
  | loadVoid => "load of void"
  | storeAddress => "store to a non-pointer"
  | storeVoid => "store of void"
  | binaryOperands => "binary operands must be integers of one type"
  | binaryResult => "binary result type differs from operands"
  | icmpOperands => "icmp operands must be integers of one type"
  | icmpResult => "icmp result must be i1"

/-- What is wrong with a module. -/
inductive VerifyError where
  | duplicateSymbol (name : String)
  | duplicateBlock (func block : String)
  | missingTerminator (func block : String)
  | instAfterTerminator (func block : String)
  | unknownBlock (func block : String)
  | undefinedValue (func block : String)
  | typeMismatch (func block : String) (fault : TypeFault)
deriving DecidableEq

/-- The text of a verification error. -/
def VerifyError.message : VerifyError → String
  | duplicateSymbol name => "symbol `@" ++ name ++ "` is defined more than once"
  | duplicateBlock func block =>
    "function `@" ++ func ++ "` has more than one block named `" ++ block ++ "`"
  | missingTerminator func block =>
    "block `" ++ block ++ "` in `@" ++ func ++ "` does not end with a terminator"
  | instAfterTerminator func block =>
    "block `" ++ block ++ "` in `@" ++ func ++ "` has instructions after its terminator"
  | unknownBlock func block =>
    "branch in block `" ++ block ++ "` of `@" ++ func ++ "` targets an unknown block"
  | undefinedValue func block =>
    "block `" ++ block ++ "` in `@" ++ func ++ "` uses an undefined value"
  | typeMismatch func block fault =>
    "type mismatch in block `" ++ block ++ "` of `@" ++ func ++ "`: " ++ fault.describe

/-- The locals that some instruction of the function defines. A destination beyond the locals
defines nothing. -/
def Function.defined (f : Function) : List Nat :=
  (f.blocks.flatMap fun b => b.insts.filterMap Inst.dest?).filter (· < f.locals.length)

/-- Does the value denote something, among so many globals and the locals that are defined? -/
def Value.isKnown (globals : Nat) (defined : List Nat) : Value → Bool
  | const _ _ => true
  | ofLocal i => defined.contains i
  | ofGlobal i => i < globals

/-- What is wrong with the types of an instruction. -/
def Inst.typeFault? (f : Function) : Inst → Option TypeFault
  | alloca _ ty => if ty = .void then some .allocaVoid else none
  | load _ ty ptr =>
    if f.typeOf ptr ≠ .ptr then some .loadAddress
    else if ty = .void then some .loadVoid
    else none
  | store value ptr =>
    if f.typeOf ptr ≠ .ptr then some .storeAddress
    else if f.typeOf value = .void then some .storeVoid
    else none
  | binary dest _ lhs rhs =>
    if !(f.typeOf lhs).isInt || f.typeOf lhs ≠ f.typeOf rhs then some .binaryOperands
    else if f.typeOf (.ofLocal dest) ≠ f.typeOf lhs then some .binaryResult
    else none
  | icmp dest _ lhs rhs =>
    if !(f.typeOf lhs).isInt || f.typeOf lhs ≠ f.typeOf rhs then some .icmpOperands
    else if f.typeOf (.ofLocal dest) ≠ .i1 then some .icmpResult
    else none
  | br _ | unreachable => none

/-- What is wrong with an instruction of a block. -/
def Inst.fault? (globals : Nat) (defined : List Nat) (f : Function) (block : String) (i : Inst) :
    Option VerifyError :=
  if !i.operands.all (Value.isKnown globals defined) then
    some (.undefinedValue f.name block)
  else match i with
    | .br target => if target < f.blocks.length then none else some (.unknownBlock f.name block)
    | _ => (i.typeFault? f).map (.typeMismatch f.name block)

/-- What is wrong with the place of the terminator of a block. -/
def Block.terminatorFault? (func : String) (b : Block) : Option VerifyError :=
  match b.insts.findIdx? Inst.isTerminator with
  | none => some (.missingTerminator func b.name)
  | some i =>
    if i + 1 = b.insts.length then none else some (.instAfterTerminator func b.name)

/-- The first thing that is wrong with a block. -/
def Block.fault? (globals : Nat) (defined : List Nat) (f : Function) (b : Block) :
    Option VerifyError :=
  (b.terminatorFault? f.name).or (b.insts.findSome? (Inst.fault? globals defined f b.name))

/-- The first thing that is wrong with a function. -/
def Function.fault? (globals : Nat) (f : Function) : Option VerifyError :=
  match firstRepeat f.blockNames with
  | some block => some (.duplicateBlock f.name block)
  | none =>
    let defined := f.defined
    f.blocks.findSome? (Block.fault? globals defined f)

/-- The first thing that is wrong with a module. -/
def Module.fault? (m : Module) : Option VerifyError :=
  match firstRepeat m.symbols with
  | some name => some (.duplicateSymbol name)
  | none => m.functions.findSome? (Function.fault? m.globals.length)

/-- Accepts a module, or says what is wrong with it first. -/
def Module.verify (m : Module) : Except VerifyError Unit :=
  match m.fault? with
  | none => .ok ()
  | some e => .error e

end Mos6502.IR
