import Mos6502.Proofs.Pruning
import Mos6502.Proofs.WellFormed

/-!
# Functions in slot form

The functions that compilation makes have a shape that is easy to keep and from which everything
else follows. All stack slots are made in the first block. Every other block reads and writes
those slots, and the values it computes on the way are used in that block only, after the
instruction that defines them. No branch leads back to the first block.

`Function.SlotForm` is this shape, together with types: each instruction fits the types of its
operands and of the local that it defines. It says more than the verifier asks for. The verifier
accepts a use before the definition and does not look at the destination of a load at all; both
matter once a function is emitted or a block is removed.

## Main definitions

* `Inst.Typed` — an instruction fits the types of the locals
* `Scoped` — straight-line code uses nothing before it is defined
* `Function.SlotForm`

## Main results

* `Function.SlotForm.wellFormed` — functions in slot form verify
* `Function.SlotForm.prune` — pruning keeps the slot form
-/

namespace Mos6502.IR

/-! ### Types -/

/-- The types whose values fit into a register. -/
def Ty.IsScalar : Ty → Prop
  | i1 | i8 | i32 | ptr => True
  | void | bytes _ => False

theorem Ty.isScalar_of_isInt {ty : Ty} (h : ty.isInt = true) : ty.IsScalar := by
  cases ty <;> trivial

theorem Ty.IsScalar.ne_void {ty : Ty} (h : ty.IsScalar) : ty ≠ .void := by
  rintro rfl
  exact h

/-- The type of a value among some locals. -/
def Value.tyIn? (locals : List Local) : Value → Option Ty
  | const ty _ => some ty
  | ofLocal i => locals[i]?.map Local.ty
  | ofGlobal _ => some .ptr

theorem Function.typeOf?_eq (f : Function) (v : Value) : f.typeOf? v = v.tyIn? f.locals := by
  cases v <;> rfl

theorem Function.typeOf_eq {f : Function} {v : Value} {ty : Ty}
    (h : v.tyIn? f.locals = some ty) : f.typeOf v = ty := by
  rw [typeOf, typeOf?_eq, h, Option.getD_some]

/-- Locals that are added at the end do not change the type of a value. -/
theorem Value.tyIn?_append {locals : List Local} {v : Value} {ty : Ty}
    (h : v.tyIn? locals = some ty) (more : List Local) : v.tyIn? (locals ++ more) = some ty := by
  cases v with
  | const | ofGlobal => exact h
  | ofLocal i =>
    obtain ⟨l, hl, hty⟩ := Option.map_eq_some_iff.mp h
    have hlt : i < locals.length := (List.getElem?_eq_some_iff.mp hl).1
    rw [tyIn?, List.getElem?_append_left hlt]
    exact h

theorem Value.lt_of_tyIn? {locals : List Local} {i : Nat} {ty : Ty}
    (h : (ofLocal i).tyIn? locals = some ty) : i < locals.length := by
  obtain ⟨l, hl, -⟩ := Option.map_eq_some_iff.mp h
  exact (List.getElem?_eq_some_iff.mp hl).1

/-- The instruction fits the types of the locals, that of the local it defines included. -/
inductive Inst.Typed (locals : List Local) : Inst → Prop
  | alloca {dest : Nat} {ty : Ty} (hty : ty ≠ .void)
      (hdest : (Value.ofLocal dest).tyIn? locals = some .ptr) : Typed locals (alloca dest ty)
  | load {dest : Nat} {ty : Ty} {ptr : Value} (hptr : ptr.tyIn? locals = some .ptr)
      (hty : ty.IsScalar) (hdest : (Value.ofLocal dest).tyIn? locals = some ty) :
      Typed locals (load dest ty ptr)
  | store {value ptr : Value} {ty : Ty} (hvalue : value.tyIn? locals = some ty)
      (hty : ty.IsScalar) (hptr : ptr.tyIn? locals = some .ptr) : Typed locals (store value ptr)
  | binary {dest : Nat} {op : BinOp} {lhs rhs : Value} {ty : Ty}
      (hlhs : lhs.tyIn? locals = some ty) (hrhs : rhs.tyIn? locals = some ty)
      (hty : ty.isInt = true) (hdest : (Value.ofLocal dest).tyIn? locals = some ty) :
      Typed locals (binary dest op lhs rhs)
  | icmp {dest : Nat} {pred : Predicate} {lhs rhs : Value} {ty : Ty}
      (hlhs : lhs.tyIn? locals = some ty) (hrhs : rhs.tyIn? locals = some ty)
      (hty : ty.isInt = true) (hdest : (Value.ofLocal dest).tyIn? locals = some .i1) :
      Typed locals (icmp dest pred lhs rhs)
  | br {target : Nat} : Typed locals (br target)
  | unreachable : Typed locals unreachable

namespace Inst

variable {locals : List Local} {i : Inst}

theorem Typed.append (h : i.Typed locals) (more : List Local) : i.Typed (locals ++ more) := by
  cases h with
  | alloca hty hd => exact .alloca hty (Value.tyIn?_append hd _)
  | load hp hty hd => exact .load (Value.tyIn?_append hp _) hty (Value.tyIn?_append hd _)
  | store hv hty hp => exact .store (Value.tyIn?_append hv _) hty (Value.tyIn?_append hp _)
  | binary hl hr hty hd =>
    exact .binary (Value.tyIn?_append hl _) (Value.tyIn?_append hr _) hty
      (Value.tyIn?_append hd _)
  | icmp hl hr hty hd =>
    exact .icmp (Value.tyIn?_append hl _) (Value.tyIn?_append hr _) hty (Value.tyIn?_append hd _)
  | br => exact .br
  | unreachable => exact .unreachable

theorem Typed.dest_lt (h : i.Typed locals) {l : Nat} (hl : i.dest? = some l) :
    l < locals.length := by
  cases h with
  | alloca _ hd | load _ _ hd | binary _ _ _ hd | icmp _ _ _ hd =>
    cases hl
    exact Value.lt_of_tyIn? hd
  | store | br | unreachable => cases hl

theorem Typed.typeFault? {f : Function} (h : i.Typed f.locals) : i.typeFault? f = none := by
  cases h with
  | alloca hty _ => simp [Inst.typeFault?, hty]
  | load hp hty _ => simp [Inst.typeFault?, Function.typeOf_eq hp, hty.ne_void]
  | store hv hty hp =>
    simp [Inst.typeFault?, Function.typeOf_eq hp, Function.typeOf_eq hv, hty.ne_void]
  | binary hl hr hty hd =>
    simp [Inst.typeFault?, Function.typeOf_eq hl, Function.typeOf_eq hr, Function.typeOf_eq hd, hty]
  | icmp hl hr hty hd =>
    simp [Inst.typeFault?, Function.typeOf_eq hl, Function.typeOf_eq hr, Function.typeOf_eq hd, hty]
  | br => rfl
  | unreachable => rfl

theorem Typed.renumber (h : i.Typed locals) (marks : List Bool) :
    (i.renumber marks).Typed locals := by
  cases h with
  | br => exact .br
  | alloca hty hd => exact .alloca hty hd
  | load hp hty hd => exact .load hp hty hd
  | store hv hty hp => exact .store hv hty hp
  | binary hl hr hty hd => exact .binary hl hr hty hd
  | icmp hl hr hty hd => exact .icmp hl hr hty hd
  | unreachable => exact .unreachable

end Inst

/-! ### Scopes -/

/-- The locals that code defines. -/
def dests (code : List Inst) : List Nat :=
  code.filterMap Inst.dest?

theorem dests_cons (i : Inst) (code : List Inst) :
    dests (i :: code) = i.dest?.toList ++ dests code := by
  cases h : i.dest? <;> simp [dests, h]

theorem dests_append (code more : List Inst) : dests (code ++ more) = dests code ++ dests more :=
  List.filterMap_append

/-- The value is a constant or one of the given locals. -/
def Value.AvailableIn (avail : List Nat) : Value → Prop
  | const _ _ => True
  | ofLocal l => l ∈ avail
  | ofGlobal _ => False

/-- Code uses only constants, the locals in `avail`, and what it has defined itself before. -/
def Scoped (avail : List Nat) : List Inst → Prop
  | [] => True
  | i :: code => (∀ v ∈ i.operands, v.AvailableIn avail) ∧ Scoped (avail ++ i.dest?.toList) code

theorem scoped_append {avail : List Nat} {code more : List Inst} :
    Scoped avail (code ++ more) ↔ Scoped avail code ∧ Scoped (avail ++ dests code) more := by
  induction code generalizing avail with
  | nil => simp [Scoped, dests]
  | cons i code ih =>
    rw [List.cons_append, Scoped, Scoped, ih, dests_cons, List.append_assoc, and_assoc]

theorem Value.AvailableIn.mono {avail avail' : List Nat} {v : Value} (h : v.AvailableIn avail)
    (hsub : ∀ l ∈ avail, l ∈ avail') : v.AvailableIn avail' := by
  cases v with
  | const => trivial
  | ofLocal l => exact hsub l h
  | ofGlobal => exact h

theorem Scoped.mono {avail avail' : List Nat} {code : List Inst} (h : Scoped avail code)
    (hsub : ∀ l ∈ avail, l ∈ avail') : Scoped avail' code := by
  induction code generalizing avail avail' with
  | nil => trivial
  | cons i code ih =>
    refine ⟨fun v hv => (h.1 v hv).mono hsub, ih h.2 fun l hl => ?_⟩
    exact List.mem_append.mpr ((List.mem_append.mp hl).imp_left (hsub l))

/-- What scoped code uses was available before, or it defines it. -/
theorem Scoped.available {avail : List Nat} {code : List Inst} (h : Scoped avail code) :
    ∀ i ∈ code, ∀ v ∈ i.operands, v.AvailableIn (avail ++ dests code) := by
  intro i hi v hv
  obtain ⟨before, after, rfl⟩ := List.append_of_mem hi
  have hhere := (scoped_append.mp h).2.1 v hv
  rw [dests_append, ← List.append_assoc]
  exact hhere.mono fun l hl => List.mem_append_left _ hl

@[simp] theorem dests_map_renumber (marks : List Bool) (code : List Inst) :
    dests (code.map (Inst.renumber marks)) = dests code := by
  simp [dests, List.filterMap_map]

theorem Scoped.renumber {avail : List Nat} {code : List Inst} (h : Scoped avail code)
    (marks : List Bool) : Scoped avail (code.map (Inst.renumber marks)) := by
  induction code generalizing avail with
  | nil => trivial
  | cons i code ih =>
    refine ⟨?_, ?_⟩
    · rw [Inst.operands_renumber]
      exact h.1
    · rw [Inst.dest?_renumber]
      exact ih h.2

/-! ### Slot form -/

/-- The type of the slot that an instruction makes. -/
def Inst.slotTy? : Inst → Option Ty
  | alloca _ ty => some ty
  | _ => none

@[simp] theorem Inst.slotTy?_renumber (marks : List Bool) (i : Inst) :
    (i.renumber marks).slotTy? = i.slotTy? := by
  cases i <;> rfl

/-- The types of the slots that code makes. -/
def slotTys (code : List Inst) : List Ty :=
  code.filterMap Inst.slotTy?

theorem slotTys_cons (i : Inst) (code : List Inst) :
    slotTys (i :: code) = i.slotTy?.toList ++ slotTys code := by
  cases h : i.slotTy? <;> simp [slotTys, h]

theorem slotTys_append (code more : List Inst) :
    slotTys (code ++ more) = slotTys code ++ slotTys more :=
  List.filterMap_append

@[simp] theorem slotTys_map_renumber (marks : List Bool) (code : List Inst) :
    slotTys (code.map (Inst.renumber marks)) = slotTys code := by
  simp [slotTys, List.filterMap_map]

/-- A block that uses slots and values of its own only. The slots are made elsewhere. -/
structure Block.Inner (slots : List Nat) (b : Block) : Prop where
  inScope : Scoped slots b.insts
  fresh : ∀ l ∈ dests b.insts, l ∉ slots
  noSlots : slotTys b.insts = []

/-- The function makes all its slots in the block `entry`, where it starts. The other blocks use
nothing of each other and never go back to `entry`. -/
structure Function.SlotForm (f : Function) (entry : Block) (inner : List Block) : Prop where
  blocks : f.blocks = entry :: inner
  names : f.blockNames.Nodup
  closed : ∀ b ∈ f.blocks, b.Closed
  typed : ∀ b ∈ f.blocks, ∀ i ∈ b.insts, i.Typed f.locals
  targets : ∀ b ∈ f.blocks, ∀ t ∈ b.targets, 0 < t ∧ t < f.blocks.length
  entryInScope : Scoped [] entry.insts
  inner : ∀ b ∈ inner, b.Inner (dests entry.insts)

namespace Function

variable {f : Function} {entry : Block} {inner : List Block}

/-- What a block defines is defined, if the block is typed. -/
theorem mem_defined {b : Block} (hb : b ∈ f.blocks) (htyped : ∀ i ∈ b.insts, i.Typed f.locals)
    {l : Nat} (hl : l ∈ dests b.insts) : l ∈ f.defined := by
  obtain ⟨i, hi, hdest⟩ := List.mem_filterMap.mp hl
  refine List.mem_filter.mpr ⟨List.mem_flatMap.mpr ⟨b, hb, hl⟩, ?_⟩
  exact decide_eq_true ((htyped i hi).dest_lt hdest)

theorem SlotForm.entry_mem (h : f.SlotForm entry inner) : entry ∈ f.blocks := by
  rw [h.blocks]
  exact List.mem_cons_self

theorem SlotForm.mem_of_inner (h : f.SlotForm entry inner) {b : Block} (hb : b ∈ inner) :
    b ∈ f.blocks := by
  rw [h.blocks]
  exact List.mem_cons_of_mem entry hb

theorem SlotForm.blocks_ne_nil (h : f.SlotForm entry inner) : f.blocks ≠ [] := by
  rw [h.blocks]
  exact List.cons_ne_nil _ _

/-- Every local that is used somewhere is defined somewhere. -/
theorem SlotForm.known (h : f.SlotForm entry inner) {b : Block} (hb : b ∈ f.blocks) {i : Inst}
    (hi : i ∈ b.insts) {v : Value} (hv : v ∈ i.operands) (globals : Nat) :
    v.isKnown globals f.defined = true := by
  have havail : v.AvailableIn (dests entry.insts ++ dests b.insts) := by
    rw [h.blocks] at hb
    rcases List.mem_cons.mp hb with rfl | hb
    · exact (h.entryInScope.available i hi v hv).mono fun l hl => List.mem_append_right _ hl
    · exact (h.inner b hb).inScope.available i hi v hv
  cases v with
  | const => rfl
  | ofGlobal => exact havail.elim
  | ofLocal l =>
    refine List.contains_iff_mem.mpr ?_
    rcases List.mem_append.mp havail with hl | hl
    · exact mem_defined h.entry_mem (h.typed _ h.entry_mem) hl
    · exact mem_defined hb (h.typed b hb) hl

/-- **Functions in slot form verify**, in any module. -/
theorem SlotForm.wellFormed (h : f.SlotForm entry inner) (globals : Nat) :
    f.WellFormed globals where
  names := h.names
  closed := h.closed
  insts b hb i hi :=
    { known := fun _ hv => h.known hb hi hv globals
      typed := (h.typed b hb i hi).typeFault?
      target := fun t ht =>
        (h.targets b hb t (List.mem_filterMap.mpr ⟨i, hi, ht⟩)).2 }

end Function

/-! ### Pruning -/

theorem Block.EndsWith.renumber {b : Block} {t : Inst} (h : b.EndsWith t) (marks : List Bool) :
    (b.renumber marks).EndsWith (t.renumber marks) := by
  obtain ⟨body, hinsts, ht, hbody⟩ := h
  refine ⟨body.map (Inst.renumber marks), ?_, by simpa using ht, ?_⟩
  · simp [Block.renumber, hinsts]
  · intro i hi
    obtain ⟨j, hj, rfl⟩ := List.mem_map.mp hi
    simpa using hbody j hj

theorem Block.targets_renumber (marks : List Bool) (b : Block) :
    (b.renumber marks).targets = b.targets.map (IR.renumber marks) := by
  simp [targets, renumber, List.filterMap_map, List.map_filterMap]

theorem Block.Inner.renumber {slots : List Nat} {b : Block} (h : b.Inner slots)
    (marks : List Bool) : (b.renumber marks).Inner slots where
  inScope := h.inScope.renumber marks
  fresh := by simpa [Block.renumber] using h.fresh
  noSlots := by simpa [Block.renumber] using h.noSlots

namespace Function

variable {f : Function} {entry : Block} {inner : List Block}

/-- The first block stays, and the others that stay are among the old ones. -/
theorem blocks_prune_cons (h : f.blocks = entry :: inner) :
    ∃ inner', f.prune.1.blocks = entry.renumber f.live :: inner' ∧
      ∀ b ∈ inner', ∃ b₀ ∈ inner, b = b₀.renumber f.live := by
  have hzero : f.live[0]? = some true := live_zero (by rw [h]; exact List.cons_ne_nil _ _)
  obtain ⟨marks, hmarks⟩ : ∃ marks, f.live = true :: marks := by
    cases hlive : f.live with
    | nil => simp [hlive] at hzero
    | cons m marks => exact ⟨marks, by simpa [hlive] using hzero⟩
  refine ⟨(keepMarked marks inner).map (Block.renumber f.live), ?_, fun b hb => ?_⟩
  · rw [blocks_prune, h, hmarks, keepMarked_cons, if_pos rfl, List.map_cons]
  · obtain ⟨b₀, hb₀, rfl⟩ := List.mem_map.mp hb
    exact ⟨b₀, (keepMarked_sublist _ _).subset hb₀, rfl⟩

/-- **Pruning keeps the slot form.** The first block is never removed, so no definition that
another block relies on gets lost, and what a kept block branches to is kept. -/
theorem SlotForm.prune (h : f.SlotForm entry inner) :
    ∃ inner', f.prune.1.SlotForm (entry.renumber f.live) inner' := by
  obtain ⟨inner', hblocks, hinner⟩ := blocks_prune_cons h.blocks
  refine ⟨inner', hblocks, nodup_blockNames_prune h.names, ?_, ?_, ?_, ?_, ?_⟩
  · intro b hb
    obtain ⟨i, b₀, -, hb₀, rfl⟩ := exists_of_mem_blocks_prune hb
    obtain ⟨t, ht⟩ := h.closed b₀ (List.mem_of_getElem? hb₀)
    exact ⟨_, ht.renumber _⟩
  · intro b hb i hi
    obtain ⟨_, b₀, -, hb₀, rfl⟩ := exists_of_mem_blocks_prune hb
    obtain ⟨i₀, hi₀, rfl⟩ := List.mem_map.mp hi
    rw [locals_prune]
    exact (h.typed b₀ (List.mem_of_getElem? hb₀) i₀ hi₀).renumber _
  · intro b hb t ht
    obtain ⟨_, b₀, hlive, hb₀, rfl⟩ := exists_of_mem_blocks_prune hb
    rw [Block.targets_renumber] at ht
    obtain ⟨t₀, ht₀, rfl⟩ := List.mem_map.mp ht
    obtain ⟨hpos, hlt⟩ := h.targets b₀ (List.mem_of_getElem? hb₀) t₀ ht₀
    have hlive₀ := live_target hlive hb₀ ht₀ hlt
    exact ⟨renumber_pos (live_zero h.blocks_ne_nil) hpos, renumber_lt_length_blocks_prune hlive₀⟩
  · exact h.entryInScope.renumber _
  · intro b hb
    obtain ⟨b₀, hb₀, rfl⟩ := hinner b hb
    have hdests : dests (entry.renumber f.live).insts = dests entry.insts :=
      dests_map_renumber _ _
    rw [hdests]
    exact (h.inner b₀ hb₀).renumber _

end Function

end Mos6502.IR
