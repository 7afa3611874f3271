import Mos6502.IR.Basic
import Mos6502.Native.Basic
import Mos6502.IR.Printer

/-!
# From modules to native functions

Every defined function of a module is emitted on its own. Its locals are followed through the
blocks in the order in which these are written: a local is a stack slot once its `alloca` was met,
and a value in a register once another instruction defined it. A use before that is an error,
whatever the order in which the blocks run.

Loads and stores of a local that is a slot go to the slot directly; every other address is a
value. Each use of a constant makes a new value, and each use of a global takes its address anew.

Names and signatures are checked first, declarations included: names in the object file end at a
null byte, so that none can stand inside, and a type without a native form can already stand in a
signature. A function whose slots do not fit on the stack is found out last. The tables that are
indexed by the module's own numbers are looked up with a check; `missing` is the outcome where a
module names a local, block or global that it does not have.

## Scope

After the translation a native backend turns each function into machine code and collects the code
in an object file. Of what can fail there, this file has:

* the backend's check of the function (`rejected`), without the list of reasons it gives;
* the size of the stack frame (`frameOverflow`, `frameTooLarge`);
* names that cannot be written (`badSymbol`, `badModuleName`).

The backend's limits on the size of the code of a function and on the number of its values are
left out: nothing here is refused for its length. So is a host for which the backend makes no code
at all. Modules are taken to be verified, and two symbols of one name are not looked for again.
-/

namespace Mos6502.Native

open IR (Module)

/-- Why a module cannot be emitted. -/
inductive EmitError where
  /-- A type without a native form. -/
  | unsupportedType (func : String) (ty : IR.Ty)
  /-- A local that is used before it is defined. -/
  | undefinedValue (func : String)
  /-- The native function is not valid. -/
  | rejected (func : String)
  /-- A global or function with a name that no symbol can have. -/
  | badSymbol (name : String)
  /-- The slots of a function do not fit into the 32 bits of their offsets. -/
  | frameOverflow (func : String)
  /-- The slots fit, but lie farther apart than one step of the stack pointer. -/
  | frameTooLarge (func : String)
  /-- The module has a name that cannot be recorded in its object file. -/
  | badModuleName (name : String)
  /-- An index beyond its table. -/
  | missing
deriving DecidableEq

/-- The text of an emission error. -/
def EmitError.message : EmitError → String
  | unsupportedType func ty => ty.render ++ " has no native representation in `" ++ func ++ "`"
  | undefinedValue func => "value used before definition in `" ++ func ++ "`"
  | rejected func => "function `" ++ func ++ "` failed native verification"
  | badSymbol name => "symbol `" ++ name ++ "` has a null byte"
  | frameOverflow func => "stack offsets of `" ++ func ++ "` exceed 32 bits"
  | frameTooLarge func => "stack frame of `" ++ func ++ "` is too large"
  | badModuleName name => "module name `" ++ name ++ "` has a null byte"
  | missing => "index out of range"

/-- Where a local is kept. -/
inductive Storage where
  | slot (index : Nat)
  | value (index : Nat)
deriving DecidableEq

/-- A function on its way. -/
structure State where
  slots : List Nat := []
  symbols : List Nat := []
  values : List ValueInfo := []
  /-- Where each local is kept, as far as it is defined. -/
  storage : List (Option Storage)
  /-- The number of the block being emitted. -/
  block : Nat := 0
  /-- The instructions of the block being emitted. -/
  insts : List Inst := []
deriving DecidableEq

/-- Steps of emitting a function. -/
abbrev Emit := StateT State (Except EmitError)

/-- The native form of a type. -/
def nativeTy (func : String) (ty : IR.Ty) : Except EmitError Ty :=
  match Ty.ofIR? ty with
  | some t => .ok t
  | none => .error (.unsupportedType func ty)

namespace Emit

/-- Appends an instruction. -/
def push (inst : Inst) : Emit Unit :=
  modify fun s => { s with insts := s.insts ++ [inst] }

/-- Appends the instruction that makes a new value, which is the constant `imm` if there is one. -/
def define (ty : Ty) (imm : Option Int) (inst : (dest : Nat) → Inst) : Emit Nat := do
  let s : State ← get
  set { s with values := s.values ++ [ValueInfo.mk ty s.block imm] }
  push (inst s.values.length)
  return s.values.length

/-- Where a value of the module is kept; only locals are kept anywhere. -/
def storageOf? (func : String) : IR.Value → Emit (Option Storage)
  | .ofLocal i => do
    match (← get).storage[i]?.join with
    | some place => return some place
    | none => throw (.undefinedValue func)
  | .const _ _ | .ofGlobal _ => return none

/-- A value of the module as a value in a register. -/
def valueOf (globals : Nat) (func : String) (v : IR.Value) : Emit Nat := do
  match v with
  | .const ty bits =>
    let t ← nativeTy func ty
    let imm := (BitVec.ofNat t.width bits.toNat).toInt
    define t (some imm) (.iconst · t imm)
  | .ofLocal _ =>
    match ← storageOf? func v with
    | some (.value n) => return n
    | some (.slot n) => define .i64 none (.stackAddr · n)
    | none => throw (.undefinedValue func)
  | .ofGlobal i =>
    if i < globals then
      let s : State ← get
      set { s with symbols := s.symbols ++ [i] }
      define .i64 none (.globalValue · s.symbols.length)
    else
      throw .missing

/-- Records where a local is kept from now on. -/
def setStorage (dest : Nat) (place : Storage) : Emit Unit := do
  let s : State ← get
  if dest < s.storage.length then
    set { s with storage := s.storage.set dest (some place) }
  else
    throw .missing

/-- The type of a value that was made before. -/
def typeOf (value : Nat) : Emit Ty := do
  return ((← get).values[value]?.map ValueInfo.ty).getD .i8

/-- Emits an instruction of a function. -/
def inst (globals : Nat) (f : IR.Function) (i : IR.Inst) : Emit Unit := do
  match i with
  | .alloca dest ty =>
    let s : State ← get
    set { s with slots := s.slots ++ [slotSize ty] }
    setStorage dest (.slot s.slots.length)
  | .load dest ty ptr =>
    let t ← nativeTy f.name ty
    match ← storageOf? f.name ptr with
    | some (.slot n) =>
      let v ← define t none (.stackLoad · t n)
      setStorage dest (.value v)
    | _ =>
      let address ← valueOf globals f.name ptr
      let v ← define t none (.load · t address)
      setStorage dest (.value v)
  | .store value ptr =>
    let v ← valueOf globals f.name value
    match ← storageOf? f.name ptr with
    | some (.slot n) => push (.stackStore v n)
    | _ =>
      let address ← valueOf globals f.name ptr
      push (.store v address)
  | .binary dest op lhs rhs =>
    let l ← valueOf globals f.name lhs
    let r ← valueOf globals f.name rhs
    let v ← define (← typeOf l) none (.binary · op l r)
    setStorage dest (.value v)
  | .icmp dest pred lhs rhs =>
    let l ← valueOf globals f.name lhs
    let r ← valueOf globals f.name rhs
    let v ← define .i8 none (.icmp · pred l r)
    setStorage dest (.value v)
  | .br target =>
    if target < f.blocks.length then push (.jump target) else throw .missing
  | .unreachable => push .trap

/-- Emits the instructions of a block. -/
def block (globals : Nat) (f : IR.Function) (b : IR.Block) : Emit (List Inst) := do
  modify fun s => { s with insts := [] }
  b.insts.forM (inst globals f)
  let s : State ← get
  set { s with block := s.block + 1 }
  return s.insts

end Emit

/-- The parameters and the result of a function. -/
def signature (f : IR.Function) : Except EmitError (List Ty × Option Ty) := do
  let params ← f.params.mapM (nativeTy f.name)
  if f.ret = .void then
    return (params, none)
  else
    return (params, some (← nativeTy f.name f.ret))

/-- Emits a defined function, which has the number `id` in its module. -/
def emitFunction (globals id : Nat) (f : IR.Function) : Except EmitError Function := do
  let (params, ret) ← signature f
  let start : State :=
    { storage := List.replicate f.locals.length none
      values := params.map fun t => ⟨t, 0, none⟩ }
  let (blocks, s) ← (f.blocks.mapM (Emit.block globals f)).run start
  let native : Function :=
    { id, params, ret, slots := s.slots, symbols := s.symbols, values := s.values, blocks }
  if !native.isValid then throw (.rejected f.name)
  if UInt32.size ≤ native.frameSize then throw (.frameOverflow f.name)
  if UInt32.size / 2 ≤ roundUp 16 native.frameSize then throw (.frameTooLarge f.name)
  return native

/-- Emits the defined ones among functions whose numbers start at `id`. -/
def emitFrom (globals id : Nat) : List IR.Function → Except EmitError (List Function)
  | [] => .ok []
  | f :: fs => do
    if f.isDeclaration then
      emitFrom globals (id + 1) fs
    else
      let g ← emitFunction globals id f
      return g :: (← emitFrom globals (id + 1) fs)

/-- Can the name be written into an object file, where a null byte ends it? -/
def isWritable (name : String) : Bool :=
  !name.toList.contains '\x00'

/-- Refuses names that no symbol can have. -/
def checkSymbol (name : String) : Except EmitError Unit :=
  if isWritable name then .ok () else .error (.badSymbol name)

/-- The native functions of a module. -/
def emit (m : Module) : Except EmitError (List Function) := do
  m.globals.forM fun g => checkSymbol g.name
  m.functions.forM fun f => do
    let _ ← signature f
    checkSymbol f.name
  let functions ← emitFrom m.globals.length 0 m.functions
  if isWritable m.name then return functions else throw (.badModuleName m.name)

end Mos6502.Native
