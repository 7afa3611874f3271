import Mos6502.Bindings
import Mos6502.Native.Basic
import Mathlib.Tactic.Common

/-!
# Running native functions

What a native function does when it is run. A frame holds the values in registers and the stack
slots. The slots exist before the run starts and hold something; nothing hands them out, since
instructions name them by number or take their address.

One-bit integers do not occur. A comparison makes a byte that is zero or one, and what was a
one-bit slot is a byte.

As in the intermediate representation, nothing is assumed of a function. A value that is not
made yet, a slot of another type, an address of a global: such an instruction has no result, and
neither has a jump or a trap in the middle of a block. `Function.TrapsWith` follows control from
block to block until it comes to a trap.

## Main definitions

* `Datum`, `Frame` — values, and the state of a running function
* `Inst.exec`, `execAll` — instructions other than those that end a block
* `Function.TrapsWith` — a run that ends in a trap, and the frame it leaves

## Main results

* `Function.TrapsWith.unique` — runs are deterministic
-/

namespace Mos6502.Native

/-! ### Data -/

/-- What a register or a slot can hold. -/
inductive Datum where
  | i8 (n : UInt8)
  | i32 (n : UInt32)
  | i64 (n : UInt64)
  /-- The address of a stack slot. -/
  | address (slot : Nat)
deriving DecidableEq

namespace Datum

/-- The type of a datum. -/
def ty : Datum → Ty
  | i8 _ => .i8
  | i32 _ => .i32
  | i64 _ | address _ => .i64

/-- The datum of a type that an immediate stands for, modulo the width of the type. -/
def ofImm (imm : Int) : Ty → Datum
  | .i8 => i8 (UInt8.ofInt imm)
  | .i32 => i32 (UInt32.ofInt imm)
  | .i64 => i64 (UInt64.ofInt imm)

/-- The result of a comparison. -/
def ofBool (b : Bool) : Datum :=
  i8 (if b then 1 else 0)

/-- Arithmetic wraps around at the width of the type. -/
def arith? : IR.BinOp → Datum → Datum → Option Datum
  | .add, i8 a, i8 b => some (i8 (a + b))
  | .sub, i8 a, i8 b => some (i8 (a - b))
  | .add, i32 a, i32 b => some (i32 (a + b))
  | .sub, i32 a, i32 b => some (i32 (a - b))
  | .add, i64 a, i64 b => some (i64 (a + b))
  | .sub, i64 a, i64 b => some (i64 (a - b))
  | _, _, _ => none

/-- Comparisons of integers of one type. -/
def compare? : IR.Predicate → Datum → Datum → Option Bool
  | .eq, i8 a, i8 b => some (a == b)
  | .slt, i8 a, i8 b => some (decide (a.toInt8 < b.toInt8))
  | .eq, i32 a, i32 b => some (a == b)
  | .slt, i32 a, i32 b => some (decide (a.toInt32 < b.toInt32))
  | .eq, i64 a, i64 b => some (a == b)
  | .slt, i64 a, i64 b => some (decide (a.toInt64 < b.toInt64))
  | _, _, _ => none

end Datum

/-! ### Frames -/

/-- The state of a running function. -/
structure Frame where
  /-- The values that are made so far. -/
  values : Bindings Nat Datum := {}
  /-- What the stack slots hold. -/
  slots : List Datum
deriving DecidableEq

namespace Frame

/-- Makes a value. -/
def define (s : Frame) (dest : Nat) (d : Datum) : Frame :=
  { s with values := s.values.insert dest d }

/-- The slot whose address a value is. -/
def slotAt? (s : Frame) (address : Nat) : Option Nat :=
  match s.values.get? address with
  | some (.address slot) => some slot
  | _ => none

/-- Loads a datum of a type from a slot. -/
def load? (s : Frame) (dest : Nat) (ty : Ty) (slot : Nat) : Option Frame :=
  match s.slots[slot]? with
  | some d => if d.ty = ty then some (s.define dest d) else none
  | none => none

/-- Stores a value in a slot, which keeps its type. -/
def store? (s : Frame) (value slot : Nat) : Option Frame :=
  match s.values.get? value, s.slots[slot]? with
  | some d, some old => if old.ty = d.ty then some { s with slots := s.slots.set slot d } else none
  | _, _ => none

@[simp] theorem slots_define (s : Frame) (dest : Nat) (d : Datum) :
    (s.define dest d).slots = s.slots :=
  rfl

theorem get?_define_self (s : Frame) (dest : Nat) (d : Datum) :
    (s.define dest d).values.get? dest = some d := by
  simp [define, Bindings.get?_insert]

theorem get?_define_of_ne {s : Frame} {dest n : Nat} (h : n ≠ dest) (d : Datum) :
    (s.define dest d).values.get? n = s.values.get? n := by
  simp [define, Bindings.get?_insert, h]

theorem slotAt?_eq {s : Frame} {address slot : Nat}
    (h : s.values.get? address = some (.address slot)) : s.slotAt? address = some slot := by
  rw [slotAt?, h]

theorem load?_eq {s : Frame} {slot : Nat} {d : Datum} (dest : Nat)
    (hd : s.slots[slot]? = some d) : s.load? dest d.ty slot = some (s.define dest d) := by
  simp [load?, hd]

theorem store?_eq {s : Frame} {value slot : Nat} {d old : Datum}
    (hd : s.values.get? value = some d) (hold : s.slots[slot]? = some old)
    (hty : old.ty = d.ty) :
    s.store? value slot = some { s with slots := s.slots.set slot d } := by
  simp [store?, hd, hold, hty]

end Frame

/-! ### Execution -/

/-- What an instruction does to a frame, if it is not one that ends a block. -/
def Inst.exec (s : Frame) : Inst → Option Frame
  | iconst dest ty imm => some (s.define dest (.ofImm imm ty))
  | globalValue _ _ => none
  | stackAddr dest slot => some (s.define dest (.address slot))
  | stackLoad dest ty slot => s.load? dest ty slot
  | load dest ty address => (s.slotAt? address).bind (s.load? dest ty)
  | stackStore value slot => s.store? value slot
  | store value address => (s.slotAt? address).bind (s.store? value)
  | binary dest op lhs rhs =>
    match s.values.get? lhs, s.values.get? rhs with
    | some a, some b => (Datum.arith? op a b).map (s.define dest)
    | _, _ => none
  | icmp dest pred lhs rhs =>
    match s.values.get? lhs, s.values.get? rhs with
    | some a, some b => (Datum.compare? pred a b).map fun r => s.define dest (.ofBool r)
    | _, _ => none
  | jump _ | trap => none

/-- What code does to a frame when it runs from its front to its end. -/
def execAll (code : List Inst) (s : Frame) : Option Frame :=
  code.foldlM Inst.exec s

@[simp] theorem execAll_nil (s : Frame) : execAll [] s = some s :=
  rfl

theorem execAll_singleton (i : Inst) (s : Frame) : execAll [i] s = i.exec s := by
  simp [execAll]

theorem execAll_append (code more : List Inst) (s : Frame) :
    execAll (code ++ more) s = (execAll code s).bind (execAll more) :=
  List.foldlM_append

/-- The run from the front of block `b` with the frame `s` ends in a trap and leaves `s'`. -/
inductive Function.TrapsWith (f : Function) : Nat → Frame → Frame → Prop
  | trap {b : Nat} {code : List Inst} {s s' : Frame} (hb : f.blocks[b]? = some (code ++ [.trap]))
      (hs : execAll code s = some s') : TrapsWith f b s s'
  | jump {b target : Nat} {code : List Inst} {s s₁ s' : Frame}
      (hb : f.blocks[b]? = some (code ++ [.jump target])) (hs : execAll code s = some s₁)
      (h : TrapsWith f target s₁ s') : TrapsWith f b s s'

/-- **Runs are deterministic.** A block has one way to end, and one frame to end with. -/
theorem Function.TrapsWith.unique {f : Function} {b : Nat} {s t t' : Frame}
    (h : f.TrapsWith b s t) (h' : f.TrapsWith b s t') : t = t' := by
  -- what two runs find in a block is the same code with the same last instruction
  have hsame : ∀ {b : Nat} {code code' : List Inst} {i i' : Inst},
      f.blocks[b]? = some (code ++ [i]) → f.blocks[b]? = some (code' ++ [i']) →
      code = code' ∧ i = i' := by
    intro b code code' i i' hb hb'
    obtain ⟨hcode, hlast⟩ := List.append_inj' (Option.some.inj (hb.symm.trans hb')) rfl
    exact ⟨hcode, List.singleton_inj.mp hlast⟩
  induction h with
  | trap hb hs =>
    cases h' with
    | trap hb' hs' =>
      obtain ⟨rfl, -⟩ := hsame hb hb'
      exact Option.some.inj (hs.symm.trans hs')
    | jump hb' => cases (hsame hb hb').2
  | jump hb hs _ ih =>
    cases h' with
    | trap hb' => cases (hsame hb hb').2
    | jump hb' hs' h' =>
      obtain ⟨rfl, htarget⟩ := hsame hb hb'
      cases htarget
      obtain rfl := Option.some.inj (hs.symm.trans hs')
      exact ih h'

end Mos6502.Native
