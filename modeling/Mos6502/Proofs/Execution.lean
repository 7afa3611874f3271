import Mos6502.Bindings
import Mos6502.IR.Basic
import Mathlib.Tactic.Common

/-!
# Running functions

What a function of the intermediate representation does when it is run. A frame holds the
function's locals and its stack slots. The contents of the slots are there before the run starts:
an `alloca` does not clear anything, it hands out the address of the next slot, whatever that slot
holds. Loads and stores go through such addresses only.

A run is a sequence of steps between configurations. Control and data are kept apart on purpose:
`Inst.next?` says where control goes after an instruction and does not look at the frame, and
`Inst.exec` changes the frame and does not know where the instruction stands. Removing blocks
changes the first and leaves the second alone.

## Total, permissive semantics

Nothing is assumed of a function. An operand that is not defined, a load of the wrong type or a
branch to a block that does not exist simply has no next step. So does `unreachable`, which is
where a run is meant to stop; `Function.HaltsWith` tells it from being stuck.

## Main definitions

* `Datum`, `Frame` — values, and the state of a running function
* `Inst.exec`, `Inst.next?`, `Function.step`, `Function.run` — execution
* `Function.HaltsWith` — a run that stops at `unreachable`, and the frame it leaves

## Main results

* `Function.run_straight` — code without terminators runs from its front to its end
* `Function.HaltsWith.of_run` — a run can be cut anywhere
-/

namespace Mos6502.IR

/-! ### Data -/

/-- What a local or a slot can hold. -/
inductive Datum where
  | bit (b : Bool)
  | byte (n : UInt8)
  | word (n : UInt32)
  /-- The address of a stack slot. -/
  | slot (index : Nat)
deriving DecidableEq

/-- The type of a datum. -/
def Datum.ty : Datum → Ty
  | bit _ => .i1
  | byte _ => .i8
  | word _ => .i32
  | slot _ => .ptr

/-- The datum that a constant of a type stands for. Bits beyond the width are cut off. -/
def Datum.ofConst? (bits : UInt64) : Ty → Option Datum
  | .i1 => some (bit (bits % 2 == 1))
  | .i8 => some (byte bits.toUInt8)
  | .i32 => some (word bits.toUInt32)
  | .void | .ptr | .bytes _ => none

/-- Arithmetic wraps around at the width of the type. -/
def BinOp.eval? : BinOp → Datum → Datum → Option Datum
  | _, .bit a, .bit b => some (.bit (a ^^ b))
  | add, .byte a, .byte b => some (.byte (a + b))
  | sub, .byte a, .byte b => some (.byte (a - b))
  | add, .word a, .word b => some (.word (a + b))
  | sub, .word a, .word b => some (.word (a - b))
  | _, _, _ => none

/-- Comparisons of integers of one type. A set bit is minus one. -/
def Predicate.eval? : Predicate → Datum → Datum → Option Bool
  | eq, .bit a, .bit b => some (a == b)
  | slt, .bit a, .bit b => some (a && !b)
  | eq, .byte a, .byte b => some (a == b)
  | slt, .byte a, .byte b => some (decide (a.toInt8 < b.toInt8))
  | eq, .word a, .word b => some (a == b)
  | slt, .word a, .word b => some (decide (a.toInt32 < b.toInt32))
  | _, _, _ => none

/-! ### Frames -/

/-- The state of a running function. -/
structure Frame where
  /-- The locals that are defined so far. -/
  locals : Bindings Nat Datum := {}
  /-- What the stack slots hold. -/
  slots : List Datum
  /-- How many slots were handed out. -/
  made : Nat := 0
deriving DecidableEq

namespace Frame

/-- The datum that an operand stands for. Addresses of globals are not modelled. -/
def value? (s : Frame) : Value → Option Datum
  | .const ty bits => Datum.ofConst? bits ty
  | .ofLocal i => s.locals.get? i
  | .ofGlobal _ => none

/-- Defines a local. -/
def define (s : Frame) (dest : Nat) (d : Datum) : Frame :=
  { s with locals := s.locals.insert dest d }

@[simp] theorem slots_define (s : Frame) (dest : Nat) (d : Datum) :
    (s.define dest d).slots = s.slots :=
  rfl

theorem value?_define_self (s : Frame) (dest : Nat) (d : Datum) :
    (s.define dest d).value? (.ofLocal dest) = some d := by
  simp [define, value?, Bindings.get?_insert]

theorem get?_define_of_ne {s : Frame} {dest i : Nat} (h : i ≠ dest) (d : Datum) :
    (s.define dest d).locals.get? i = s.locals.get? i := by
  simp [define, Bindings.get?_insert, h]

end Frame

/-- What an instruction does to a frame. A branch does nothing to it. -/
def Inst.exec (s : Frame) : Inst → Option Frame
  | alloca dest ty =>
    match s.slots[s.made]? with
    | some d =>
      if d.ty = ty then some { s.define dest (.slot s.made) with made := s.made + 1 } else none
    | none => none
  | load dest ty ptr =>
    match s.value? ptr with
    | some (.slot k) =>
      match s.slots[k]? with
      | some d => if d.ty = ty then some (s.define dest d) else none
      | none => none
    | _ => none
  | store value ptr =>
    match s.value? value, s.value? ptr with
    | some d, some (.slot k) =>
      match s.slots[k]? with
      | some old => if old.ty = d.ty then some { s with slots := s.slots.set k d } else none
      | none => none
    | _, _ => none
  | binary dest op lhs rhs =>
    match s.value? lhs, s.value? rhs with
    | some a, some b => (op.eval? a b).map (s.define dest)
    | _, _ => none
  | icmp dest pred lhs rhs =>
    match s.value? lhs, s.value? rhs with
    | some a, some b => (pred.eval? a b).map fun r => s.define dest (.bit r)
    | _, _ => none
  | br _ => some s
  | unreachable => none

theorem exec_load {s : Frame} {ptr : Value} {k : Nat} {d : Datum} (dest : Nat)
    (hp : s.value? ptr = some (.slot k)) (hd : s.slots[k]? = some d) :
    (Inst.load dest d.ty ptr).exec s = some (s.define dest d) := by
  simp [Inst.exec, hp, hd]

theorem exec_store {s : Frame} {value ptr : Value} {k : Nat} {d old : Datum}
    (hv : s.value? value = some d) (hp : s.value? ptr = some (.slot k))
    (hold : s.slots[k]? = some old) (hty : old.ty = d.ty) :
    (Inst.store value ptr).exec s = some { s with slots := s.slots.set k d } := by
  simp [Inst.exec, hv, hp, hold, hty]

theorem exec_binary {s : Frame} {lhs rhs : Value} {op : BinOp} {a b d : Datum} (dest : Nat)
    (hl : s.value? lhs = some a) (hr : s.value? rhs = some b) (he : op.eval? a b = some d) :
    (Inst.binary dest op lhs rhs).exec s = some (s.define dest d) := by
  simp [Inst.exec, hl, hr, he]

theorem exec_icmp {s : Frame} {lhs rhs : Value} {pred : Predicate} {a b : Datum} {r : Bool}
    (dest : Nat) (hl : s.value? lhs = some a) (hr : s.value? rhs = some b)
    (he : pred.eval? a b = some r) :
    (Inst.icmp dest pred lhs rhs).exec s = some (s.define dest (.bit r)) := by
  simp [Inst.exec, hl, hr, he]

/-! An instruction that has a result had everything it needs. -/

theorem eq_of_exec_alloca {s s' : Frame} {dest : Nat} {ty : Ty}
    (h : (Inst.alloca dest ty).exec s = some s') :
    s' = { s.define dest (.slot s.made) with made := s.made + 1 } := by
  simp only [Inst.exec] at h
  split at h
  · split at h
    · exact (Option.some.inj h).symm
    · cases h
  · cases h

theorem exists_of_exec_load {s s' : Frame} {dest : Nat} {ty : Ty} {ptr : Value}
    (h : (Inst.load dest ty ptr).exec s = some s') :
    ∃ k d, s.value? ptr = some (.slot k) ∧ s.slots[k]? = some d ∧ d.ty = ty ∧
      s' = s.define dest d := by
  simp only [Inst.exec] at h
  split at h
  · next k hptr =>
    split at h
    · next d hd =>
      split at h
      · next hty => exact ⟨k, d, hptr, hd, hty, (Option.some.inj h).symm⟩
      · cases h
    · cases h
  · cases h

theorem exists_of_exec_store {s s' : Frame} {value ptr : Value}
    (h : (Inst.store value ptr).exec s = some s') :
    ∃ d k old, s.value? value = some d ∧ s.value? ptr = some (.slot k) ∧
      s.slots[k]? = some old ∧ old.ty = d.ty ∧ s' = { s with slots := s.slots.set k d } := by
  simp only [Inst.exec] at h
  split at h
  · next d k hvalue hptr =>
    split at h
    · next old hold =>
      split at h
      · next hty => exact ⟨d, k, old, hvalue, hptr, hold, hty, (Option.some.inj h).symm⟩
      · cases h
    · cases h
  · cases h

theorem exists_of_exec_binary {s s' : Frame} {dest : Nat} {op : BinOp} {lhs rhs : Value}
    (h : (Inst.binary dest op lhs rhs).exec s = some s') :
    ∃ a b d, s.value? lhs = some a ∧ s.value? rhs = some b ∧ op.eval? a b = some d ∧
      s' = s.define dest d := by
  simp only [Inst.exec] at h
  split at h
  · next a b hlhs hrhs =>
    obtain ⟨d, hd, rfl⟩ := Option.map_eq_some_iff.mp h
    exact ⟨a, b, d, hlhs, hrhs, hd, rfl⟩
  · cases h

theorem exists_of_exec_icmp {s s' : Frame} {dest : Nat} {pred : Predicate} {lhs rhs : Value}
    (h : (Inst.icmp dest pred lhs rhs).exec s = some s') :
    ∃ a b r, s.value? lhs = some a ∧ s.value? rhs = some b ∧ pred.eval? a b = some r ∧
      s' = s.define dest (.bit r) := by
  simp only [Inst.exec] at h
  split at h
  · next a b hlhs hrhs =>
    obtain ⟨r, hr, rfl⟩ := Option.map_eq_some_iff.mp h
    exact ⟨a, b, r, hlhs, hrhs, hr, rfl⟩
  · cases h

/-- Only the local that an instruction defines can change. -/
theorem get?_locals_of_exec {i : Inst} {s s' : Frame} (h : i.exec s = some s') {l : Nat}
    (hl : i.dest? ≠ some l) : s'.locals.get? l = s.locals.get? l := by
  have hne : ∀ {dest : Nat}, i.dest? = some dest → l ≠ dest := by
    rintro dest hdest rfl
    exact hl hdest
  cases i with
  | alloca dest ty =>
    rw [eq_of_exec_alloca h]
    exact Frame.get?_define_of_ne (hne rfl) _
  | load dest ty ptr =>
    obtain ⟨k, d, -, -, -, rfl⟩ := exists_of_exec_load h
    exact Frame.get?_define_of_ne (hne rfl) _
  | store value ptr =>
    obtain ⟨d, k, old, -, -, -, -, rfl⟩ := exists_of_exec_store h
    rfl
  | binary dest op lhs rhs =>
    obtain ⟨a, b, d, -, -, -, rfl⟩ := exists_of_exec_binary h
    exact Frame.get?_define_of_ne (hne rfl) _
  | icmp dest pred lhs rhs =>
    obtain ⟨a, b, r, -, -, -, rfl⟩ := exists_of_exec_icmp h
    exact Frame.get?_define_of_ne (hne rfl) _
  | br => cases h; rfl
  | unreachable => cases h

/-- What code does to a frame when it runs from its front to its end. -/
def execAll (code : List Inst) (s : Frame) : Option Frame :=
  code.foldlM Inst.exec s

@[simp] theorem execAll_nil (s : Frame) : execAll [] s = some s :=
  rfl

@[simp] theorem execAll_cons (i : Inst) (code : List Inst) (s : Frame) :
    execAll (i :: code) s = (i.exec s).bind (execAll code) :=
  rfl

theorem execAll_append (code more : List Inst) (s : Frame) :
    execAll (code ++ more) s = (execAll code s).bind (execAll more) :=
  List.foldlM_append

/-! ### Control -/

/-- A place in a function: the number of a block, and of an instruction in it. -/
structure Position where
  block : Nat
  offset : Nat := 0
deriving DecidableEq

/-- The instruction at a place. -/
def Function.inst? (f : Function) (p : Position) : Option Inst :=
  f.blocks[p.block]?.bind fun b => b.insts[p.offset]?

/-- Where control goes after an instruction that stands at `p`. -/
def Inst.next? (p : Position) : Inst → Option Position
  | br target => some { block := target }
  | unreachable => none
  | _ => some { p with offset := p.offset + 1 }

theorem Inst.next?_of_not_isTerminator {i : Inst} (h : i.isTerminator = false) (p : Position) :
    i.next? p = some { p with offset := p.offset + 1 } := by
  cases i with
  | br | unreachable => simp [isTerminator] at h
  | _ => rfl

/-- A running function: where control is, and the frame. -/
structure Config where
  pos : Position
  frame : Frame
deriving DecidableEq

namespace Function

/-- One step. -/
def step (f : Function) (c : Config) : Option Config :=
  match f.inst? c.pos with
  | some i =>
    match i.next? c.pos, i.exec c.frame with
    | some p, some s => some ⟨p, s⟩
    | _, _ => none
  | none => none

/-- So many steps. -/
def run (f : Function) : Nat → Config → Option Config
  | 0, c => some c
  | n + 1, c => (f.step c).bind (f.run n)

@[simp] theorem run_zero (f : Function) (c : Config) : f.run 0 c = some c :=
  rfl

theorem run_succ (f : Function) (n : Nat) (c : Config) :
    f.run (n + 1) c = (f.step c).bind (f.run n) :=
  rfl

theorem run_add (f : Function) (m n : Nat) (c : Config) :
    f.run (m + n) c = (f.run m c).bind (f.run n) := by
  induction m generalizing c with
  | zero => simp
  | succ m ih =>
    rw [Nat.succ_add, run_succ, run_succ, Option.bind_assoc]
    exact congrArg _ (funext ih)

/-- The run from `c` stops at an `unreachable` and leaves the frame `s`. -/
def HaltsWith (f : Function) (c : Config) (s : Frame) : Prop :=
  ∃ n p, f.run n c = some ⟨p, s⟩ ∧ f.inst? p = some .unreachable

variable {f : Function}

/-- What a run halts with is what the rest of it halts with. -/
theorem HaltsWith.of_run {n : Nat} {c c' : Config} {s : Frame} (h : f.HaltsWith c' s)
    (hn : f.run n c = some c') : f.HaltsWith c s := by
  obtain ⟨m, p, hm, hp⟩ := h
  exact ⟨n + m, p, by rw [run_add, hn]; exact hm, hp⟩

/-- A step at an instruction that is no terminator. -/
theorem step_straight {p : Position} {i : Inst} {s s' : Frame} (hp : f.inst? p = some i)
    (hi : i.isTerminator = false) (he : i.exec s = some s') :
    f.step ⟨p, s⟩ = some ⟨{ p with offset := p.offset + 1 }, s'⟩ := by
  simp [step, hp, Inst.next?_of_not_isTerminator hi, he]

/-- A step at a branch. -/
theorem step_br {p : Position} {target : Nat} (hp : f.inst? p = some (.br target)) (s : Frame) :
    f.step ⟨p, s⟩ = some ⟨{ block := target }, s⟩ := by
  simp [step, hp, Inst.next?, Inst.exec]

/-- **Straight-line code.** Code without terminators inside a block runs from its front to its
end, one instruction a step. -/
theorem run_straight {b : Block} {block : Nat} (hb : f.blocks[block]? = some b) :
    ∀ {code : List Inst} (before after : List Inst) {s s' : Frame},
      b.insts = before ++ code ++ after → (∀ i ∈ code, i.isTerminator = false) →
      execAll code s = some s' →
      f.run code.length ⟨⟨block, before.length⟩, s⟩ =
        some ⟨⟨block, before.length + code.length⟩, s'⟩ := by
  intro code
  induction code with
  | nil =>
    intro before after s s' _ _ hs
    cases hs
    rfl
  | cons i code ih =>
    intro before after s s' hinsts hplain hs
    obtain ⟨s₁, hi, hrest⟩ := Option.bind_eq_some_iff.mp hs
    have hp : f.inst? ⟨block, before.length⟩ = some i := by
      simp [inst?, hb, hinsts]
    have hstep := step_straight hp (hplain i (by simp)) hi
    -- the instruction just run joins those before, so that the code left starts after them
    have hcode := ih (before ++ [i]) after (by simp [hinsts])
      (fun j hj => hplain j (by simp [hj])) hrest
    rw [List.length_cons, run_succ, hstep, Option.bind_some]
    simpa [Nat.add_assoc, Nat.add_comm 1] using hcode

/-- A block runs up to its last instruction. -/
theorem run_block {b : Block} {block : Nat} (hb : f.blocks[block]? = some b) {code : List Inst}
    {last : Inst} (hinsts : b.insts = code ++ [last]) (hplain : ∀ i ∈ code, i.isTerminator = false)
    {s s' : Frame} (hs : execAll code s = some s') :
    f.run code.length ⟨⟨block, 0⟩, s⟩ = some ⟨⟨block, code.length⟩, s'⟩ ∧
      f.inst? ⟨block, code.length⟩ = some last := by
  have hrun := run_straight hb [] [last] hinsts hplain hs
  refine ⟨by simpa using hrun, ?_⟩
  simp [inst?, hb, hinsts]

/-- From a branch, the run goes on in another block. -/
theorem HaltsWith.of_br {p : Position} {target : Nat} (hp : f.inst? p = some (.br target))
    {s s' : Frame} (h : f.HaltsWith ⟨⟨target, 0⟩, s⟩ s') : f.HaltsWith ⟨p, s⟩ s' := by
  have hone : f.run 1 ⟨p, s⟩ = some ⟨⟨target, 0⟩, s⟩ := by
    rw [run_succ, step_br hp]
    rfl
  exact h.of_run hone

theorem HaltsWith.of_unreachable {p : Position} (hp : f.inst? p = some .unreachable) (s : Frame) :
    f.HaltsWith ⟨p, s⟩ s :=
  ⟨0, p, rfl, hp⟩

end Function

end Mos6502.IR
