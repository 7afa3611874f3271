import Mos6502.Native.Emit
import Mos6502.Proofs.SlotForm

/-!
# Functions in slot form can be emitted

Emitting follows the locals of a function through its blocks in the order in which these are
written. For a function in slot form that order does not matter: what a block uses is made in the
first block or in the block itself, so it is known when it is needed, and it is made on every way
to the block.

`Ready` is the invariant of the walk. Locals in `base` come from the first block, and those in
`own` were defined in the block being emitted; each is kept in a slot or in a value of its type.
The values made in other blocks are not spoken of, and the slot form takes care that none of them
takes the place of a local in `base`.

## Main definitions

* `Emit.Gives` — steps that succeed, and what holds then
* `Ready` — the invariant
* `Inst.Fits` — an instruction whose operands are there and have the right types

## Main results

* `Emit.inst_gives`, `Emit.block_gives` — one instruction, one block
* `emitFunction_eq_ok` — a function in slot form is emitted, and what it becomes is valid
-/

namespace Mos6502.Native

/-! ### Steps that succeed -/

namespace Emit

/-- The steps succeed from `s`, with a result and a state of which `Q` holds. -/
def Gives {α : Type} (x : Emit α) (s : State) (Q : α → State → Prop) : Prop :=
  ∃ a s', x.run s = .ok (a, s') ∧ Q a s'

variable {α β : Type} {s : State}

theorem Gives.of_eq {x : Emit α} {a : α} {s' : State} {Q : α → State → Prop}
    (h : x.run s = .ok (a, s')) (hQ : Q a s') : Gives x s Q :=
  ⟨a, s', h, hQ⟩

theorem Gives.pure {a : α} {Q : α → State → Prop} (h : Q a s) : Gives (Pure.pure a) s Q :=
  ⟨a, s, rfl, h⟩

/-- One step after the other. -/
theorem Gives.bind {x : Emit α} {g : α → Emit β} {P : α → State → Prop} {Q : β → State → Prop}
    (hx : Gives x s P) (hg : ∀ a s', P a s' → Gives (g a) s' Q) : Gives (x >>= g) s Q := by
  obtain ⟨a, s', hrun, hP⟩ := hx
  obtain ⟨b, s'', hrun', hQ⟩ := hg a s' hP
  refine ⟨b, s'', ?_, hQ⟩
  rw [StateT.run_bind, hrun]
  exact hrun'

theorem Gives.mono {x : Emit α} {P Q : α → State → Prop} (h : Gives x s P)
    (hPQ : ∀ a s', P a s' → Q a s') : Gives x s Q := by
  obtain ⟨a, s', hrun, hP⟩ := h
  exact ⟨a, s', hrun, hPQ a s' hP⟩

end Emit

/-! ### Values that are there -/

theorem exists_ofIR?_of_isScalar {ty : IR.Ty} (h : ty.IsScalar) : ∃ t, Ty.ofIR? ty = some t := by
  cases ty with
  | i1 | i8 | i32 | ptr => exact ⟨_, rfl⟩
  | void | bytes => exact h.elim

/-- Value `n` has the type `ty`, and it is made in the first block or in `block`. -/
def HasValue (values : List ValueInfo) (block n : Nat) (ty : Ty) : Prop :=
  ∃ v, values[n]? = some v ∧ v.ty = ty ∧ (v.block = 0 ∨ v.block = block)

/-- A value of the first block is there in every block. -/
theorem HasValue.of_zero {values : List ValueInfo} {n : Nat} {ty : Ty}
    (h : HasValue values 0 n ty) (block : Nat) : HasValue values block n ty := by
  obtain ⟨v, hv, hty, hblock⟩ := h
  exact ⟨v, hv, hty, .inl (hblock.elim id id)⟩

/-- Values are only added. -/
theorem HasValue.mono {values values' : List ValueInfo} {block n : Nat} {ty : Ty}
    (h : HasValue values block n ty) (hpre : values <+: values') :
    HasValue values' block n ty := by
  obtain ⟨v, hv, hrest⟩ := h
  obtain ⟨more, rfl⟩ := hpre
  have hlt : n < values.length := (List.getElem?_eq_some_iff.mp hv).1
  exact ⟨v, by rw [List.getElem?_append_left hlt, hv], hrest⟩

theorem hasValue_concat (values : List ValueInfo) (ty : Ty) (block : Nat) (imm : Option Int) :
    HasValue (values ++ [⟨ty, block, imm⟩]) block values.length ty :=
  ⟨⟨ty, block, imm⟩, by simp, rfl, .inr rfl⟩

/-- What an instruction uses is there and has the right type, and it does not go to the first
block. -/
def Inst.Fits (values : List ValueInfo) (block : Nat) : Inst → Prop
  | load _ _ address => HasValue values block address .i64
  | stackStore value _ => ∃ ty, HasValue values block value ty
  | store value address =>
    (∃ ty, HasValue values block value ty) ∧ HasValue values block address .i64
  | binary _ _ lhs rhs | icmp _ _ lhs rhs =>
    ∃ ty, HasValue values block lhs ty ∧ HasValue values block rhs ty
  | jump target => 0 < target
  | iconst _ _ _ | globalValue _ _ | stackAddr _ _ | stackLoad _ _ _ | trap => True

theorem Inst.Fits.mono {values values' : List ValueInfo} {block : Nat} {i : Inst}
    (h : i.Fits values block) (hpre : values <+: values') : i.Fits values' block := by
  cases i with
  | load => exact HasValue.mono h hpre
  | stackStore =>
    obtain ⟨ty, hv⟩ := h
    exact ⟨ty, hv.mono hpre⟩
  | store =>
    obtain ⟨⟨ty, hv⟩, ha⟩ := h
    exact ⟨⟨ty, hv.mono hpre⟩, ha.mono hpre⟩
  | binary | icmp =>
    obtain ⟨ty, hl, hr⟩ := h
    exact ⟨ty, hl.mono hpre, hr.mono hpre⟩
  | jump => exact h
  | iconst | globalValue | stackAddr | stackLoad | trap => trivial

/-! ### The invariant -/

/-- What is kept at a place has the type `ty`, and it is there in `block`. -/
def Storage.Holds (values : List ValueInfo) (block : Nat) (ty : IR.Ty) : Storage → Prop
  | slot _ => ty = .ptr
  | value n => ∃ t, Ty.ofIR? ty = some t ∧ HasValue values block n t

theorem Storage.Holds.mono {values values' : List ValueInfo} {block : Nat} {ty : IR.Ty}
    {place : Storage} (h : place.Holds values block ty) (hpre : values <+: values') :
    place.Holds values' block ty := by
  cases place with
  | slot => exact h
  | value n =>
    obtain ⟨t, ht, hn⟩ := h
    exact ⟨t, ht, hn.mono hpre⟩

/-- The local `l` is kept somewhere, and it is there in `block`. -/
def State.Keeps (locals : List IR.Local) (block : Nat) (s : State) (l : Nat) : Prop :=
  ∃ place ty, s.storage[l]? = some (some place) ∧ (IR.Value.ofLocal l).tyIn? locals = some ty ∧
    place.Holds s.values block ty

/-- The state in the middle of a block: the locals in `base` are there in every block, those in
`own` in this one, and the instructions so far fit. -/
structure Ready (locals : List IR.Local) (base own : List Nat) (s : State) : Prop where
  length : s.storage.length = locals.length
  base : ∀ l ∈ base, s.Keeps locals 0 l
  own : ∀ l ∈ own, s.Keeps locals s.block l
  insts : ∀ i ∈ s.insts, i.Fits s.values s.block

/-- The second state comes after the first one in the same block. -/
structure State.Extends (s s' : State) : Prop where
  values : s.values <+: s'.values
  block : s'.block = s.block
  slots : s'.slots = s.slots

theorem State.Extends.refl (s : State) : s.Extends s :=
  ⟨List.prefix_rfl, rfl, rfl⟩

theorem State.Extends.trans {s s' s'' : State} (h : s.Extends s') (h' : s'.Extends s'') :
    s.Extends s'' :=
  ⟨h.values.trans h'.values, h'.block.trans h.block, h'.slots.trans h.slots⟩

/-- Slots for values of some types are added. -/
def State.addSlots (s : State) (tys : List IR.Ty) : State :=
  { s with slots := s.slots ++ tys.map slotSize }

@[simp] theorem State.addSlots_nil (s : State) : s.addSlots [] = s := by
  simp [addSlots]

theorem State.addSlots_append (s : State) (tys tys' : List IR.Ty) :
    s.addSlots (tys ++ tys') = (s.addSlots tys).addSlots tys' := by
  simp [addSlots]

theorem State.Extends.addSlots {s s' : State} (h : s.Extends s') (tys : List IR.Ty) :
    (s.addSlots tys).Extends (s'.addSlots tys) := by
  refine ⟨h.values, h.block, ?_⟩
  simp [State.addSlots, h.slots]

/-- A value stays there. -/
theorem HasValue.extends {s s' : State} {n : Nat} {ty : Ty} (h : HasValue s.values s.block n ty)
    (hs : s.Extends s') : HasValue s'.values s'.block n ty := by
  rw [hs.block]
  exact h.mono hs.values

/-- What comes after a state comes after all states before it. -/
theorem Emit.Gives.extend {α : Type} {x : Emit α} {P : α → State → Prop} {s s₁ : State}
    (h : Gives x s₁ fun a s' => P a s' ∧ s₁.Extends s') (hext : s.Extends s₁) :
    Gives x s₁ fun a s' => P a s' ∧ s.Extends s' :=
  h.mono fun _ _ h' => ⟨h'.1, hext.trans h'.2⟩

variable {locals : List IR.Local} {base own : List Nat} {s : State}

/-- A local that is available is kept, and it is there in the block being emitted. -/
theorem Ready.keeps (h : Ready locals base own s) {l : Nat} (hl : l ∈ base ++ own) :
    s.Keeps locals s.block l := by
  rcases List.mem_append.mp hl with hl | hl
  · obtain ⟨place, ty, hplace, hty, hholds⟩ := h.base l hl
    refine ⟨place, ty, hplace, hty, ?_⟩
    cases place with
    | slot => exact hholds
    | value n =>
      obtain ⟨t, ht, hn⟩ := hholds
      exact ⟨t, ht, hn.of_zero _⟩
  · exact h.own l hl

theorem State.Keeps.mono {block l : Nat} {s' : State} (h : s.Keeps locals block l)
    (hstorage : s'.storage[l]? = s.storage[l]?) (hpre : s.values <+: s'.values) :
    s'.Keeps locals block l := by
  obtain ⟨place, ty, hplace, hty, hholds⟩ := h
  exact ⟨place, ty, hstorage.trans hplace, hty, hholds.mono hpre⟩

/-! ### Steps of the walk -/

namespace Emit

theorem push_gives (h : Ready locals base own s) (i : Inst) (hi : i.Fits s.values s.block) :
    Gives (push i) s fun _ s' => Ready locals base own s' ∧ s.Extends s' := by
  refine .of_eq rfl ⟨⟨h.length, h.base, h.own, ?_⟩, ⟨List.prefix_rfl, rfl, rfl⟩⟩
  intro j hj
  rcases List.mem_append.mp hj with hj | hj
  · exact h.insts j hj
  · obtain rfl := List.mem_singleton.mp hj
    exact hi

/-- A new value is there. -/
theorem define_gives (h : Ready locals base own s) (ty : Ty) (imm : Option Int)
    (i : (dest : Nat) → Inst) (hi : (i s.values.length).Fits s.values s.block) :
    Gives (define ty imm i) s fun n s' =>
      Ready locals base own s' ∧ s.Extends s' ∧ HasValue s'.values s'.block n ty := by
  have hpre : s.values <+: s.values ++ [⟨ty, s.block, imm⟩] := List.prefix_append _ _
  refine .of_eq rfl ⟨⟨h.length, ?_, ?_, ?_⟩, ⟨hpre, rfl, rfl⟩, hasValue_concat _ _ _ _⟩
  · exact fun l hl => (h.base l hl).mono rfl hpre
  · exact fun l hl => (h.own l hl).mono rfl hpre
  · intro j hj
    rcases List.mem_append.mp hj with hj | hj
    · exact (h.insts j hj).mono hpre
    · obtain rfl := List.mem_singleton.mp hj
      exact hi.mono hpre

/-- A local that is defined in this block is there from then on. It must be none of those that
other blocks rely on. -/
theorem setStorage_gives (h : Ready locals base own s) {dest : Nat} (hfresh : dest ∉ base)
    {ty : IR.Ty} (hty : (IR.Value.ofLocal dest).tyIn? locals = some ty) {place : Storage}
    (hplace : place.Holds s.values s.block ty) :
    Gives (setStorage dest place) s fun _ s' =>
      Ready locals base (own ++ [dest]) s' ∧ s.Extends s' := by
  have hlt : dest < s.storage.length := by
    rw [h.length]
    exact IR.Value.lt_of_tyIn? hty
  have hrun : (setStorage dest place).run s =
      .ok ((), { s with storage := s.storage.set dest (some place) }) := by
    simp [setStorage, hlt]
    rfl
  refine .of_eq hrun ⟨⟨by simpa using h.length, ?_, ?_, h.insts⟩, ⟨List.prefix_rfl, rfl, rfl⟩⟩
  · intro l hl
    have hne : dest ≠ l := fun heq => hfresh (heq ▸ hl)
    exact (h.base l hl).mono (List.getElem?_set_ne hne) List.prefix_rfl
  · intro l hl
    by_cases heq : l = dest
    · subst heq
      exact ⟨place, ty, by simp [hlt], hty, hplace⟩
    · have hl : l ∈ own := by simpa [heq] using hl
      exact (h.own l hl).mono (List.getElem?_set_ne (Ne.symm heq)) List.prefix_rfl

theorem nativeTy_gives {ty : IR.Ty} {t : Ty} (ht : Ty.ofIR? ty = some t) (func : String) :
    Gives (nativeTy func ty) s fun t' s' => t' = t ∧ s' = s := by
  refine .of_eq ?_ ⟨rfl, rfl⟩
  rw [nativeTy, ht]
  rfl

/-- An operand that is available has a place, if it is a local. -/
theorem storageOf?_gives (h : Ready locals base own s) {v : IR.Value}
    (hv : v.AvailableIn (base ++ own)) (func : String) :
    Gives (storageOf? func v) s fun place s' => s' = s ∧
      ∀ l, v = .ofLocal l → ∃ p, place = some p ∧ s.storage[l]? = some (some p) := by
  cases v with
  | const => exact .pure ⟨rfl, fun _ hl => by cases hl⟩
  | ofGlobal => exact hv.elim
  | ofLocal l =>
    obtain ⟨place, ty, hplace, -⟩ := h.keeps hv
    refine ⟨some place, s, ?_, rfl, ?_⟩
    · simp [storageOf?, hplace]
      rfl
    · rintro _ ⟨⟩
      exact ⟨place, rfl, hplace⟩

/-- An operand that is available becomes a value of its type. -/
theorem valueOf_gives (h : Ready locals base own s) {v : IR.Value}
    (hv : v.AvailableIn (base ++ own)) {ty : IR.Ty} (hty : v.tyIn? locals = some ty) {t : Ty}
    (ht : Ty.ofIR? ty = some t) (globals : Nat) (func : String) :
    Gives (valueOf globals func v) s fun n s' =>
      Ready locals base own s' ∧ s.Extends s' ∧ HasValue s'.values s'.block n t := by
  cases v with
  | ofGlobal => exact hv.elim
  | const ty' bits =>
    obtain rfl : ty' = ty := Option.some.inj hty
    refine (nativeTy_gives ht func).bind ?_
    rintro _ _ ⟨rfl, rfl⟩
    exact define_gives h _ _ _ trivial
  | ofLocal l =>
    refine (storageOf?_gives h hv func).bind ?_
    rintro place s' ⟨rfl, hplace⟩
    obtain ⟨p, rfl, hp⟩ := hplace l rfl
    obtain ⟨p', ty', hp', hty', hholds⟩ := h.keeps hv
    rw [hp] at hp'
    rw [hty] at hty'
    cases hp'
    cases hty'
    cases p with
    | slot n =>
      -- the address of a slot is made anew
      obtain rfl : ty = .ptr := hholds
      obtain rfl : Ty.i64 = t := Option.some.inj ht
      exact define_gives h _ _ _ trivial
    | value n =>
      obtain ⟨t', ht', hn⟩ := hholds
      rw [ht] at ht'
      cases ht'
      exact .pure ⟨h, .refl _, hn⟩

/-- A local becomes a new value. -/
theorem defineLocal_gives (h : Ready locals base own s) {dest : Nat} (hfresh : dest ∉ base)
    {ty : IR.Ty} (hty : (IR.Value.ofLocal dest).tyIn? locals = some ty) {t : Ty}
    (ht : Ty.ofIR? ty = some t) (i : (dest : Nat) → Inst)
    (hi : (i s.values.length).Fits s.values s.block) :
    Gives (do let v ← define t none i; setStorage dest (.value v)) s fun _ s' =>
      Ready locals base (own ++ [dest]) s' ∧ s.Extends s' := by
  refine (define_gives h t none i hi).bind ?_
  rintro n s₁ ⟨h₁, hext, hn⟩
  have hplace : (Storage.value n).Holds s₁.values s₁.block ty := ⟨t, ht, hn⟩
  exact (setStorage_gives h₁ hfresh hty hplace).extend hext

theorem typeOf_gives {n : Nat} {t : Ty} (h : HasValue s.values s.block n t) :
    Gives (typeOf n) s fun t' s' => t' = t ∧ s' = s := by
  obtain ⟨v, hv, hty, -⟩ := h
  refine ⟨_, s, rfl, ?_, rfl⟩
  rw [hv, Option.map_some, Option.getD_some, hty]

/-- Two operands of one type become values, one after the other. -/
theorem operands_gives {β : Type} {Q : β → State → Prop} (h : Ready locals base own s)
    {lhs rhs : IR.Value} (hlhs : lhs.AvailableIn (base ++ own))
    (hrhs : rhs.AvailableIn (base ++ own)) {ty : IR.Ty} (hl : lhs.tyIn? locals = some ty)
    (hr : rhs.tyIn? locals = some ty) {t : Ty} (ht : Ty.ofIR? ty = some t) (globals : Nat)
    (func : String) {g : Nat → Nat → Emit β}
    (hg : ∀ l r s', Ready locals base own s' → s.Extends s' → HasValue s'.values s'.block l t →
      HasValue s'.values s'.block r t → Gives (g l r) s' Q) :
    Gives (do let l ← valueOf globals func lhs; let r ← valueOf globals func rhs; g l r) s Q := by
  refine (valueOf_gives h hlhs hl ht globals func).bind ?_
  rintro l s₁ ⟨h₁, hext, hvl⟩
  refine (valueOf_gives h₁ hrhs hr ht globals func).bind ?_
  rintro r s₂ ⟨h₂, hext', hvr⟩
  exact hg l r s₂ h₂ (hext.trans hext') (hvl.extends hext') hvr

variable {f : IR.Function}

/-- **Emitting an instruction** whose operands are available succeeds. It defines what it should,
makes the slot that it should, and what it adds to the block fits. -/
theorem inst_gives (h : Ready f.locals base own s) {i : IR.Inst} (htyped : i.Typed f.locals)
    (hops : ∀ v ∈ i.operands, v.AvailableIn (base ++ own))
    (hfresh : ∀ l, i.dest? = some l → l ∉ base)
    (htarget : ∀ t, i.target? = some t → 0 < t ∧ t < f.blocks.length) (globals : Nat) :
    Gives (inst globals f i) s fun _ s' =>
      Ready f.locals base (own ++ i.dest?.toList) s' ∧
        (s.addSlots i.slotTy?.toList).Extends s' := by
  cases htyped with
  | @alloca dest ty _ hdest =>
    have h₁ : Ready f.locals base own (s.addSlots [ty]) := ⟨h.length, h.base, h.own, h.insts⟩
    have hplace : (Storage.slot s.slots.length).Holds s.values s.block .ptr := rfl
    exact setStorage_gives h₁ (hfresh dest rfl) hdest hplace
  | @load dest ty ptr hptr hscalar hdest =>
    simp only [IR.Inst.slotTy?, Option.toList_none, State.addSlots_nil]
    obtain ⟨t, ht⟩ := exists_ofIR?_of_isScalar hscalar
    have havail := hops ptr (by simp [IR.Inst.operands])
    refine (nativeTy_gives ht f.name).bind ?_
    rintro _ _ ⟨rfl, rfl⟩
    refine (storageOf?_gives h havail f.name).bind ?_
    rintro place _ ⟨rfl, -⟩
    split
    · next n => exact defineLocal_gives h (hfresh dest rfl) hdest ht (.stackLoad · _ n) trivial
    · refine (valueOf_gives h havail hptr rfl globals f.name).bind ?_
      rintro address s₁ ⟨h₁, hext, haddress⟩
      exact (defineLocal_gives h₁ (hfresh dest rfl) hdest ht (.load · _ address) haddress).extend
        hext
  | @store value ptr ty hvalue hscalar hptr =>
    simp only [IR.Inst.slotTy?, IR.Inst.dest?, Option.toList_none, State.addSlots_nil,
      List.append_nil]
    obtain ⟨t, ht⟩ := exists_ofIR?_of_isScalar hscalar
    have havail := hops ptr (by simp [IR.Inst.operands])
    refine (valueOf_gives h (hops value (by simp [IR.Inst.operands])) hvalue ht globals
      f.name).bind ?_
    rintro v s₁ ⟨h₁, hext, hv⟩
    refine (storageOf?_gives h₁ havail f.name).bind ?_
    rintro place _ ⟨rfl, -⟩
    split
    · next n => exact (push_gives h₁ (.stackStore v n) ⟨t, hv⟩).extend hext
    · refine (valueOf_gives h₁ havail hptr rfl globals f.name).bind ?_
      rintro address s₂ ⟨h₂, hext', haddress⟩
      have hfits : (Inst.store v address).Fits s₂.values s₂.block :=
        ⟨⟨t, hv.extends hext'⟩, haddress⟩
      exact (push_gives h₂ _ hfits).extend (hext.trans hext')
  | @binary dest op lhs rhs ty hlhs hrhs hint hdest =>
    simp only [IR.Inst.slotTy?, Option.toList_none, State.addSlots_nil]
    obtain ⟨t, ht⟩ := exists_ofIR?_of_isScalar (IR.Ty.isScalar_of_isInt hint)
    refine operands_gives h (hops lhs (by simp [IR.Inst.operands]))
      (hops rhs (by simp [IR.Inst.operands])) hlhs hrhs ht globals f.name ?_
    intro l r s₁ h₁ hext hl hr
    refine (typeOf_gives hl).bind ?_
    rintro _ _ ⟨rfl, rfl⟩
    exact (defineLocal_gives h₁ (hfresh dest rfl) hdest ht (.binary · op l r) ⟨_, hl, hr⟩).extend
      hext
  | @icmp dest pred lhs rhs ty hlhs hrhs hint hdest =>
    simp only [IR.Inst.slotTy?, Option.toList_none, State.addSlots_nil]
    obtain ⟨t, ht⟩ := exists_ofIR?_of_isScalar (IR.Ty.isScalar_of_isInt hint)
    refine operands_gives h (hops lhs (by simp [IR.Inst.operands]))
      (hops rhs (by simp [IR.Inst.operands])) hlhs hrhs ht globals f.name ?_
    intro l r s₁ h₁ hext hl hr
    exact (defineLocal_gives h₁ (hfresh dest rfl) hdest rfl (.icmp · pred l r)
      ⟨_, hl, hr⟩).extend hext
  | @br target =>
    simp only [IR.Inst.slotTy?, IR.Inst.dest?, Option.toList_none, State.addSlots_nil,
      List.append_nil]
    obtain ⟨hpos, hlt⟩ := htarget target rfl
    rw [inst, if_pos hlt]
    exact push_gives h (.jump target) hpos
  | unreachable =>
    simp only [IR.Inst.slotTy?, IR.Inst.dest?, Option.toList_none, State.addSlots_nil,
      List.append_nil]
    exact push_gives h .trap trivial

/-- **Emitting code** that is typed and scoped, defines nothing in `base` and goes nowhere but to
blocks after the first one. -/
theorem code_gives {code : List IR.Inst} {own : List Nat} {s : State}
    (h : Ready f.locals base own s) (hscoped : IR.Scoped (base ++ own) code)
    (htyped : ∀ i ∈ code, i.Typed f.locals) (hfresh : ∀ l ∈ IR.dests code, l ∉ base)
    (htarget : ∀ i ∈ code, ∀ t, i.target? = some t → 0 < t ∧ t < f.blocks.length)
    (globals : Nat) :
    Gives (code.forM (inst globals f)) s fun _ s' =>
      Ready f.locals base (own ++ IR.dests code) s' ∧
        (s.addSlots (IR.slotTys code)).Extends s' := by
  induction code generalizing own s with
  | nil =>
    refine .pure ⟨?_, ?_⟩
    · simpa [IR.dests] using h
    · simpa [IR.slotTys] using State.Extends.refl s
  | cons i code ih =>
    rw [IR.dests_cons] at hfresh ⊢
    rw [IR.slotTys_cons, State.addSlots_append]
    have hdest : ∀ l, i.dest? = some l → l ∉ base := fun l hl => hfresh l (by simp [hl])
    refine (inst_gives h (htyped i List.mem_cons_self) hscoped.1 hdest
      (htarget i List.mem_cons_self) globals).bind ?_
    rintro _ s₁ ⟨h₁, hext⟩
    refine (ih h₁ ?_ ?_ ?_ ?_).mono ?_
    · rw [← List.append_assoc]
      exact hscoped.2
    · exact fun j hj => htyped j (List.mem_cons_of_mem i hj)
    · exact fun l hl => hfresh l (List.mem_append_right _ hl)
    · exact fun j hj => htarget j (List.mem_cons_of_mem i hj)
    · rintro _ s₂ ⟨h₂, hext'⟩
      rw [← List.append_assoc]
      exact ⟨h₂, (hext.addSlots _).trans hext'⟩

/-- What is left of a block: its instructions fit, and what it defines is kept. -/
structure Emitted (f : IR.Function) (base : List Nat) (b : IR.Block) (s : State)
    (insts : List Inst) (s' : State) : Prop where
  ready : Ready f.locals base [] { s' with insts := [] }
  defined : ∀ l ∈ IR.dests b.insts, s'.Keeps f.locals s.block l
  fits : ∀ i ∈ insts, i.Fits s'.values s.block
  values : s.values <+: s'.values
  block : s'.block = s.block + 1
  slots : s'.slots = s.slots ++ (IR.slotTys b.insts).map slotSize

/-- **Emitting a block.** -/
theorem block_gives {b : IR.Block} (h : Ready f.locals base [] { s with insts := [] })
    (hscoped : IR.Scoped base b.insts) (htyped : ∀ i ∈ b.insts, i.Typed f.locals)
    (hfresh : ∀ l ∈ IR.dests b.insts, l ∉ base)
    (htarget : ∀ t ∈ b.targets, 0 < t ∧ t < f.blocks.length) (globals : Nat) :
    Gives (block globals f b) s (Emitted f base b s) := by
  have htarget : ∀ i ∈ b.insts, ∀ t, i.target? = some t → 0 < t ∧ t < f.blocks.length :=
    fun i hi t ht => htarget t (List.mem_filterMap.mpr ⟨i, hi, ht⟩)
  have hscoped : IR.Scoped (base ++ []) b.insts := by rwa [List.append_nil]
  have hstart : Gives (modify fun s => { s with insts := [] }) s
      fun _ s' => s' = { s with insts := [] } := .of_eq rfl rfl
  refine hstart.bind ?_
  rintro _ _ rfl
  refine (code_gives h hscoped htyped hfresh htarget globals).bind ?_
  rintro _ s₁ ⟨h₁, hext⟩
  refine .of_eq rfl ⟨⟨h₁.length, h₁.base, by simp, by simp⟩, ?_, ?_, hext.values, ?_, hext.slots⟩
  · intro l hl
    exact hext.block ▸ h₁.own l hl
  · intro i hi
    exact hext.block ▸ h₁.insts i hi
  · exact congrArg (· + 1) hext.block

/-- Blocks whose first one has the number `block` consist of instructions that fit. -/
def AllFit (values : List ValueInfo) (block : Nat) (blocks : List (List Inst)) : Prop :=
  ∀ (j : Nat) (insts : List Inst), blocks[j]? = some insts →
    ∀ i ∈ insts, i.Fits values (block + j)

theorem AllFit.cons {values : List ValueInfo} {block : Nat} {insts : List Inst}
    {blocks : List (List Inst)} (h : ∀ i ∈ insts, i.Fits values block)
    (hrest : AllFit values (block + 1) blocks) : AllFit values block (insts :: blocks) := by
  intro j insts' hj
  cases j with
  | zero =>
    obtain rfl : insts = insts' := by simpa using hj
    exact h
  | succ j =>
    rw [Nat.add_comm j 1, ← Nat.add_assoc]
    exact hrest j insts' (by simpa using hj)

/-- **Emitting the blocks after the first one.** None of them takes anything away from those that
follow it. -/
theorem inner_gives {inner : List IR.Block} {s : State}
    (h : Ready f.locals base [] { s with insts := [] }) (hinner : ∀ b ∈ inner, b.Inner base)
    (htyped : ∀ b ∈ inner, ∀ i ∈ b.insts, i.Typed f.locals)
    (htarget : ∀ b ∈ inner, ∀ t ∈ b.targets, 0 < t ∧ t < f.blocks.length) (globals : Nat) :
    Gives (inner.mapM (block globals f)) s fun blocks s' =>
      AllFit s'.values s.block blocks ∧ s.values <+: s'.values ∧ s'.slots = s.slots := by
  induction inner generalizing s with
  | nil =>
    refine .pure ⟨fun j insts hj => ?_, List.prefix_rfl, rfl⟩
    simp at hj
  | cons b inner ih =>
    obtain ⟨hb, hinner⟩ := List.forall_mem_cons.mp hinner
    obtain ⟨htyped_b, htyped⟩ := List.forall_mem_cons.mp htyped
    obtain ⟨htarget_b, htarget⟩ := List.forall_mem_cons.mp htarget
    rw [List.mapM_cons]
    refine (block_gives h hb.inScope htyped_b hb.fresh htarget_b globals).bind ?_
    intro insts s₁ h₁
    refine (ih h₁.ready hinner htyped htarget).bind ?_
    rintro blocks s₂ ⟨hfits, hvalues, hslots⟩
    refine .pure ⟨.cons (fun i hi => (h₁.fits i hi).mono hvalues) ?_, h₁.values.trans hvalues, ?_⟩
    · rwa [h₁.block] at hfits
    · rw [hslots, h₁.slots, hb.noSlots]
      exact List.append_nil _

/-- **Emitting the blocks of a function in slot form.** -/
theorem blocks_gives {entry : IR.Block} {inner : List IR.Block} (h : f.SlotForm entry inner)
    {s : State} (hstorage : s.storage.length = f.locals.length) (hblock : s.block = 0)
    (globals : Nat) :
    Gives (f.blocks.mapM (block globals f)) s fun blocks s' =>
      AllFit s'.values 0 blocks ∧
        s'.slots = s.slots ++ (IR.slotTys entry.insts).map slotSize := by
  have hstart : Ready f.locals [] [] { s with insts := [] } :=
    ⟨hstorage, by simp, by simp, by simp⟩
  have htyped : ∀ b ∈ inner, ∀ i ∈ b.insts, i.Typed f.locals :=
    fun b hb => h.typed b (h.mem_of_inner hb)
  have htarget : ∀ b ∈ inner, ∀ t ∈ b.targets, 0 < t ∧ t < f.blocks.length :=
    fun b hb => h.targets b (h.mem_of_inner hb)
  have hmapM : f.blocks.mapM (block globals f) =
      block globals f entry >>= fun insts =>
        inner.mapM (block globals f) >>= fun blocks => Pure.pure (insts :: blocks) := by
    rw [h.blocks, List.mapM_cons]
  rw [hmapM]
  refine (block_gives hstart h.entryInScope (h.typed entry h.entry_mem) (by simp)
    (h.targets entry h.entry_mem) globals).bind ?_
  intro insts s₁ h₁
  -- what the first block defines is what the others may use
  have hready : Ready f.locals (IR.dests entry.insts) [] { s₁ with insts := [] } :=
    ⟨h₁.ready.length, hblock ▸ h₁.defined, by simp, by simp⟩
  refine (inner_gives hready h.inner htyped htarget globals).bind ?_
  rintro blocks s₂ ⟨hfits, hvalues, hslots⟩
  refine .pure ⟨.cons (fun i hi => ?_) ?_, hslots.trans h₁.slots⟩
  · exact hblock ▸ (h₁.fits i hi).mono hvalues
  · rwa [h₁.block, hblock] at hfits

end Emit

/-! ### Valid functions -/

namespace Function

variable {f : Function} {block : Nat}

theorem typeOf?_of_hasValue {n : Nat} {ty : Ty} (h : HasValue f.values block n ty) :
    f.typeOf? n = some ty := by
  obtain ⟨v, hv, hty, -⟩ := h
  rw [typeOf?, hv, Option.map_some, hty]

/-- A value of the first block is made on every way to any block, and one of a block is made on
every way to that block. -/
theorem isAvailable_of_hasValue {n : Nat} {ty : Ty} (h : HasValue f.values block n ty) :
    f.isAvailable block n = true := by
  obtain ⟨v, hv, -, hblock⟩ := h
  rw [isAvailable, hv]
  rcases hblock with hblock | hblock <;> simp [Graph.dominates, hblock]

theorem isTyped_of_fits {i : Inst} (h : i.Fits f.values block) : f.isTyped i = true := by
  cases i with
  | load dest ty address => simp [isTyped, typeOf?_of_hasValue h]
  | store value address => simp [isTyped, typeOf?_of_hasValue h.2]
  | binary | icmp =>
    obtain ⟨ty, hl, hr⟩ := h
    simp [isTyped, typeOf?_of_hasValue hl, typeOf?_of_hasValue hr]
  | iconst | globalValue | stackAddr | stackLoad | stackStore | jump | trap => rfl

theorem isAvailable_of_fits {i : Inst} (h : i.Fits f.values block) {n : Nat} (hn : n ∈ i.args) :
    f.isAvailable block n = true := by
  obtain ⟨ty, hvalue⟩ : ∃ ty, HasValue f.values block n ty := by
    cases i with
    | load => exact ⟨_, List.mem_singleton.mp hn ▸ h⟩
    | stackStore => exact List.mem_singleton.mp hn ▸ h
    | store =>
      obtain rfl | rfl := List.mem_pair.mp hn
      · exact h.1
      · exact ⟨_, h.2⟩
    | binary | icmp =>
      obtain ⟨ty, hl, hr⟩ := h
      obtain rfl | rfl := List.mem_pair.mp hn
      · exact ⟨ty, hl⟩
      · exact ⟨ty, hr⟩
    | iconst | globalValue | stackAddr | stackLoad | jump | trap => cases hn
  exact isAvailable_of_hasValue hvalue

/-- **A function is valid if all its instructions fit.** -/
theorem isValid_of_allFit (h : Emit.AllFit f.values 0 f.blocks) : f.isValid = true := by
  have hfits : ∀ (b : Nat) (i : Inst), i ∈ f.blocks[b]?.getD [] → i.Fits f.values b := by
    intro b i hi
    cases hb : f.blocks[b]? with
    | none => simp [hb] at hi
    | some insts => exact Nat.zero_add b ▸ h b insts hb i (by simpa [hb] using hi)
  simp only [isValid, Bool.and_eq_true, List.all_eq_true]
  refine ⟨⟨fun b _ => ?_, fun insts hinsts i hi => ?_⟩, fun b _ => ?_⟩
  · have hzero : 0 ∉ f.successors b := by
      intro hmem
      obtain ⟨i, hi, htarget⟩ := List.mem_filterMap.mp hmem
      have hpos := hfits b i hi
      cases i with
      | jump target =>
        obtain rfl : target = 0 := Option.some.inj htarget
        exact Nat.lt_irrefl 0 hpos
      | _ => cases htarget
    simpa using hzero
  · obtain ⟨b, hb⟩ := List.mem_iff_getElem?.mp hinsts
    exact isTyped_of_fits (hfits b i (by simpa [hb] using hi))
  · rw [Bool.or_eq_true, List.all_eq_true]
    refine .inr fun n hn => ?_
    obtain ⟨i, hi, hn⟩ := List.mem_flatMap.mp hn
    exact isAvailable_of_fits (hfits b i hi) hn

end Function

/-! ### Emitting functions -/

/-- Size in bytes of the part of the stack that slots lie in. -/
def frameSizeOf (slots : List Nat) : Nat :=
  roundUp 8 (slots.foldl (fun offset size => roundUp 8 offset + size) 0)

/-- **A function in slot form is emitted**, and what it becomes is valid, if its signature has a
native form and its slots fit on the stack. -/
theorem emitFunction_eq_ok {f : IR.Function} {entry : IR.Block} {inner : List IR.Block}
    (h : f.SlotForm entry inner) {params : List Ty} {ret : Option Ty}
    (hsignature : signature f = .ok (params, ret))
    (hoffsets : frameSizeOf ((IR.slotTys entry.insts).map slotSize) < UInt32.size)
    (hframe : roundUp 16 (frameSizeOf ((IR.slotTys entry.insts).map slotSize)) < UInt32.size / 2)
    (globals id : Nat) :
    ∃ native, emitFunction globals id f = .ok native ∧ native.isValid = true := by
  let start : State :=
    { storage := List.replicate f.locals.length none
      values := params.map fun t => ⟨t, 0, none⟩ }
  obtain ⟨blocks, s, hrun, hfits, hslots⟩ :=
    Emit.blocks_gives h (s := start) (List.length_replicate ..) rfl globals
  let native : Function :=
    { id, params, ret, slots := s.slots, symbols := s.symbols, values := s.values, blocks }
  have hvalid : native.isValid = true := Function.isValid_of_allFit hfits
  have hsize : native.frameSize = frameSizeOf ((IR.slotTys entry.insts).map slotSize) :=
    congrArg frameSizeOf hslots
  have hoffsets' : ¬UInt32.size ≤ native.frameSize := by
    rw [hsize]
    exact Nat.not_le.mpr hoffsets
  have hframe' : ¬UInt32.size / 2 ≤ roundUp 16 native.frameSize := by
    rw [hsize]
    exact Nat.not_le.mpr hframe
  refine ⟨native, ?_, hvalid⟩
  simp only [emitFunction, hsignature, bind, Except.bind]
  rw [hrun]
  simp only [native] at hvalid hoffsets' hframe'
  simp only [hvalid, if_neg hoffsets', if_neg hframe']
  rfl

/-! ### Names -/

/-- The first name that cannot be written is the error. -/
theorem forM_checkSymbol {α : Type} (name : α → String) (xs : List α) :
    (xs.forM fun x => checkSymbol (name x)) =
      match xs.find? fun x => !isWritable (name x) with
      | some x => .error (.badSymbol (name x))
      | none => .ok () := by
  induction xs with
  | nil => rfl
  | cons x xs ih =>
    have hcons : ((x :: xs).forM fun x => checkSymbol (name x)) =
        (checkSymbol (name x) >>= fun _ => xs.forM fun x => checkSymbol (name x)) := rfl
    rw [hcons, checkSymbol]
    cases hx : isWritable (name x) with
    | false => rw [List.find?_cons_of_pos (by simp [hx])]; rfl
    | true =>
      rw [List.find?_cons_of_neg (by simp [hx]), ← ih]
      rfl

end Mos6502.Native
