import Mos6502.Proofs.EmissionSafety

/-!
# Locals that are used too early

The verifier asks that a local which is used is defined somewhere in the function. Emitting asks
for more: the blocks are gone through in the order in which they are written, and a local has to be
kept somewhere by then, whatever the order in which the blocks run. Here the two are compared. In a
module that verifies, and whose types all have a native form, a use before the definition is the
only thing that can stop the instructions of a function from being translated.

What a module comes to is decided by more than that. Names are looked at before any instruction, and
a function that was translated can still be refused as a whole, which ends the run before the
functions after it are looked at.

## Main definitions

* `IR.Function.UsesEarly` — an instruction uses a local that no instruction before it defines
* `IR.Function.Representable` — types have a native form and destinations exist
* `translate` — emitting a function without the checks of the function as a whole
* `IsFirst` — the first entry of a list that meets a condition

## Main results

* `Emit.Walk.defines` — what is kept while blocks are gone through is what they have defined
* `translate_cases` — translation fails exactly at an early use
* `undefinedValue_iff_usesEarly` — when translating a function and emitting a module end in that
  error
-/

namespace Mos6502

/-! ### Early uses -/

namespace IR

/-- Some instruction uses a local that is not among `known` and that no instruction before it
defines. -/
def UsesEarly (known : List Nat) (code : List Inst) : Prop :=
  ∃ before i after l, code = before ++ i :: after ∧ Value.ofLocal l ∈ i.operands ∧
    l ∉ known ++ dests before

theorem usesEarly_cons {known : List Nat} {i : Inst} {code : List Inst} :
    UsesEarly known (i :: code) ↔
      (∃ l, Value.ofLocal l ∈ i.operands ∧ l ∉ known) ∨
        UsesEarly (known ++ i.dest?.toList) code := by
  constructor
  · rintro ⟨before, j, after, l, hcode, hl, hknown⟩
    cases before with
    | nil =>
      obtain ⟨rfl, -⟩ := List.cons.inj hcode
      exact .inl ⟨l, hl, fun h => hknown (List.mem_append_left _ h)⟩
    | cons k before =>
      obtain ⟨rfl, rfl⟩ := List.cons.inj hcode
      rw [dests_cons, ← List.append_assoc] at hknown
      exact .inr ⟨before, j, after, l, rfl, hl, hknown⟩
  · rintro (⟨l, hl, hknown⟩ | ⟨before, j, after, l, rfl, hl, hknown⟩)
    · exact ⟨[], i, code, l, rfl, hl, by simpa [dests] using hknown⟩
    · rw [List.append_assoc, ← dests_cons] at hknown
      exact ⟨i :: before, j, after, l, rfl, hl, hknown⟩

theorem usesEarly_append {known : List Nat} {code more : List Inst} :
    UsesEarly known (code ++ more) ↔
      UsesEarly known code ∨ UsesEarly (known ++ dests code) more := by
  induction code generalizing known with
  | nil => simp [UsesEarly, dests]
  | cons i code ih =>
    rw [List.cons_append, usesEarly_cons, usesEarly_cons, ih, dests_cons, List.append_assoc,
      or_assoc]

/-- The instructions of blocks, in the order in which they are written. -/
def instsOf (bs : List Block) : List Inst :=
  bs.flatMap Block.insts

/-- Some instruction of the function uses a local that no instruction written before it defines. -/
def Function.UsesEarly (f : Function) : Prop :=
  IR.UsesEarly [] (instsOf f.blocks)

instance : DecidablePred Ty.IsScalar
  | .i1 | .i8 | .i32 | .ptr => isTrue trivial
  | .void | .bytes _ => isFalse id

/-- The type of what the instruction loads. -/
def Inst.loadTy? : Inst → Option Ty
  | load _ ty _ => some ty
  | _ => none

/-- The type of a constant. -/
def Value.constTy? : Value → Option Ty
  | const ty _ => some ty
  | _ => none

/-- An instruction that defines a local which exists, and that loads and uses constants of types
that fit into a register. -/
structure Inst.Representable (f : Function) (i : Inst) : Prop where
  dest : ∀ d ∈ i.dest?, d < f.locals.length
  load : ∀ ty ∈ i.loadTy?, ty.IsScalar
  const : ∀ v ∈ i.operands, ∀ ty ∈ v.constTy?, ty.IsScalar

instance (f : Function) (i : Inst) : Decidable (i.Representable f) :=
  decidable_of_iff ((∀ d ∈ i.dest?, d < f.locals.length) ∧ (∀ ty ∈ i.loadTy?, ty.IsScalar) ∧
      ∀ v ∈ i.operands, ∀ ty ∈ v.constTy?, ty.IsScalar)
    ⟨fun h => ⟨h.1, h.2.1, h.2.2⟩, fun h => ⟨h.dest, h.load, h.const⟩⟩

/-- A function whose parameters and result fit into registers, as far as there is a result, and
whose instructions are representable. -/
structure Function.Representable (f : Function) : Prop where
  params : ∀ ty ∈ f.params, ty.IsScalar
  ret : f.ret ≠ .void → f.ret.IsScalar
  insts : ∀ b ∈ f.blocks, ∀ i ∈ b.insts, i.Representable f

instance (f : Function) : Decidable f.Representable :=
  decidable_of_iff ((∀ ty ∈ f.params, ty.IsScalar) ∧ (f.ret ≠ .void → f.ret.IsScalar) ∧
      ∀ b ∈ f.blocks, ∀ i ∈ b.insts, i.Representable f)
    ⟨fun h => ⟨h.1, h.2.1, h.2.2⟩, fun h => ⟨h.params, h.ret, h.insts⟩⟩

end IR

namespace Native

/-! ### What is kept while code is gone through -/

/-- The locals that are kept somewhere are the given ones. -/
def State.Defines (s : State) (known : List Nat) : Prop :=
  ∀ l, s.storage[l]?.join ≠ none ↔ l ∈ known

namespace State.Defines

variable {s s' : State} {known : List Nat}

theorem of_storage_eq (h : s.Defines known) (hstorage : s'.storage = s.storage) :
    s'.Defines known := by
  rw [Defines, hstorage]
  exact h

theorem add (h : s.Defines known) (i : Inst) : (s.add i).Defines known :=
  h

theorem keep (h : s.Defines known) {dest : Nat} (hdest : dest < s.storage.length)
    (place : Storage) : (s.keep dest place).Defines (known ++ [dest]) := by
  intro l
  rw [List.mem_append, List.mem_singleton, ← h l, State.keep, List.getElem?_set]
  by_cases hl : dest = l
  · subst hl
    simp [hdest]
  · simp [hl, Ne.symm hl]

end State.Defines

theorem State.defines_start (f : IR.Function) (params : List Ty) :
    (State.start f params).Defines [] := by
  intro l
  by_cases hl : l < f.locals.length <;> simp [State.start, hl]

namespace Emit

variable {globals : Nat} {f : IR.Function} {s s' : State} {known : List Nat}

theorem Operand.mem_of_local {l n : Nat} (h : Operand globals s (.ofLocal l) n s')
    (hs : s.Defines known) : l ∈ known := by
  refine (hs l).mp ?_
  cases h with
  | value hl | slot hl => simp [hl]

/-- An instruction that is emitted uses what is kept. -/
theorem Step.mem_of_operand {i : IR.Inst} (h : Step globals f s i s') (hs : s.Defines known)
    {l : Nat} (hl : IR.Value.ofLocal l ∈ i.operands) : l ∈ known := by
  have hslot : ∀ {s₁ : State} {l' k : Nat}, s₁.Defines known →
      s₁.storage[l']? = some (some (.slot k)) → l' ∈ known := by
    intro s₁ l' k hs₁ hk
    exact (hs₁ l').mp (by simp [hk])
  cases h with
  | alloca | br | unreachable => cases hl
  | stackLoad _ hk =>
    simp only [IR.Inst.operands, List.mem_singleton] at hl
    cases hl
    exact hslot hs hk
  | load _ ha =>
    simp only [IR.Inst.operands, List.mem_singleton] at hl
    subst hl
    exact ha.mem_of_local hs
  | stackStore hv hk =>
    simp only [IR.Inst.operands, List.mem_cons, List.not_mem_nil, or_false] at hl
    rcases hl with rfl | hl
    · exact hv.mem_of_local hs
    · cases hl
      exact hslot (hs.of_storage_eq hv.storage) hk
  | store h₁ h₂ | binary h₁ h₂ | icmp h₁ h₂ =>
    simp only [IR.Inst.operands, List.mem_cons, List.not_mem_nil, or_false] at hl
    rcases hl with rfl | rfl
    · exact h₁.mem_of_local hs
    · exact h₂.mem_of_local (hs.of_storage_eq h₁.storage)

/-- One instruction: what it defines is kept from now on. -/
theorem Step.defines {i : IR.Inst} (h : Step globals f s i s') (hs : s.Defines known) :
    s'.Defines (known ++ i.dest?.toList) := by
  cases h with
  | alloca hdest => exact State.Defines.keep (s := s.addSlots _) hs hdest _
  | stackLoad _ _ hdest => exact State.Defines.keep (s := s.make _ _ _) hs hdest _
  | load _ ha hdest =>
    exact State.Defines.keep (s := State.make _ _ _ _) (hs.of_storage_eq ha.storage) hdest _
  | stackStore hv => simpa [IR.Inst.dest?] using (hs.of_storage_eq hv.storage).add _
  | store hv ha =>
    simpa [IR.Inst.dest?] using (hs.of_storage_eq (ha.storage.trans hv.storage)).add _
  | binary hl hr hdest | icmp hl hr hdest =>
    exact State.Defines.keep (s := State.make _ _ _ _)
      (hs.of_storage_eq (hr.storage.trans hl.storage)) hdest _
  | br | unreachable => simpa [IR.Inst.dest?] using hs.add _

/-- Code that is emitted uses nothing too early, and what it defines is kept from then on. -/
theorem Steps.defines {code : List IR.Inst} {s : State} {known : List Nat}
    (h : Steps globals f s code s') (hs : s.Defines known) :
    s'.Defines (known ++ IR.dests code) ∧ ¬IR.UsesEarly known code := by
  induction code generalizing s known with
  | nil =>
    obtain rfl := h
    refine ⟨by simpa [IR.dests] using hs, ?_⟩
    rintro ⟨before, i, after, l, hcode, -⟩
    simp at hcode
  | cons i code ih =>
    obtain ⟨s₁, hstep, hrest⟩ := h
    obtain ⟨hdefines, hearly⟩ := ih hrest (hstep.defines hs)
    refine ⟨by rwa [IR.dests_cons, ← List.append_assoc], ?_⟩
    rw [IR.usesEarly_cons]
    rintro (⟨l, hl, hknown⟩ | hcode)
    · exact hknown (hstep.mem_of_operand hs hl)
    · exact hearly hcode

/-- **Blocks that are emitted** use nothing too early, and what they define is kept from then on. -/
theorem Walk.defines {bs : List IR.Block} {blocks : List (List Inst)} {s : State}
    {known : List Nat} (h : Walk globals f s bs blocks s') (hs : s.Defines known) :
    s'.Defines (known ++ IR.dests (IR.instsOf bs)) ∧ ¬IR.UsesEarly known (IR.instsOf bs) := by
  induction bs generalizing s known blocks with
  | nil =>
    obtain ⟨-, rfl⟩ := h
    have hsteps : Steps globals f s' [] s' := rfl
    exact hsteps.defines hs
  | cons b bs ih =>
    obtain ⟨s₁, others, hsteps, -, hrest⟩ := h
    have hclear : State.Defines { s with insts := [] } known := hs
    obtain ⟨hdefines, hearly⟩ := hsteps.defines hclear
    have hnext : State.Defines { s₁ with block := s₁.block + 1 } (known ++ IR.dests b.insts) :=
      hdefines
    obtain ⟨hdefines', hearly'⟩ := ih hrest hnext
    have hcode : IR.instsOf (b :: bs) = b.insts ++ IR.instsOf bs := List.flatMap_cons
    rw [hcode, IR.dests_append, ← List.append_assoc, IR.usesEarly_append]
    exact ⟨hdefines', not_or.mpr ⟨hearly, hearly'⟩⟩

/-! ### What goes wrong in a representable function -/

/-- In a function that verifies and is representable, the only error is a local that is not kept
anywhere yet. -/
theorem StepError.undefined {i : IR.Inst} {e : EmitError} (h : StepError globals f s i e)
    (hwell : i.WellFormed globals f) (hrep : i.Representable f) :
    e = .undefinedValue f.name ∧
      ∃ l, IR.Value.ofLocal l ∈ i.operands ∧ s.storage[l]?.join = none := by
  have hscalar : ∀ {ty : IR.Ty}, ty.IsScalar → Ty.ofIR? ty ≠ none := by
    intro ty hty hnone
    obtain ⟨t, ht⟩ := exists_ofIR?_of_isScalar hty
    rw [ht] at hnone
    cases hnone
  cases h with
  | operand hv h =>
    cases h with
    | unsupported hty => exact absurd hty (hscalar (hrep.const _ hv _ rfl))
    | undefined hl => exact ⟨rfl, _, hv, hl⟩
    | missing hg =>
      have hlt : _ < globals := of_decide_eq_true (hwell.known _ hv)
      exact absurd hg (Nat.not_le.mpr hlt)
  | unsupported hty => exact absurd hty (hscalar (hrep.load _ rfl))
  | dest hd hle => exact absurd hle (Nat.not_le.mpr (hrep.dest _ hd))
  | target ht hle => exact absurd hle (Nat.not_le.mpr (hwell.target _ ht))

/-- The instruction at which emitting stops is one that uses a local too early. -/
theorem WalkError.usesEarly {e : EmitError} {bs : List IR.Block}
    (h : WalkError globals f s bs e) (hs : s.Defines known)
    (hwell : ∀ b ∈ bs, ∀ i ∈ b.insts, i.WellFormed globals f)
    (hrep : ∀ b ∈ bs, ∀ i ∈ b.insts, i.Representable f) :
    e = .undefinedValue f.name ∧ IR.UsesEarly known (IR.instsOf bs) := by
  obtain ⟨before, b, after, blocks, s₁, rfl, hwalk, code, i, rest, s₂, hb, hsteps, herror⟩ := h
  have hi : i ∈ b.insts := by simp [hb]
  have hmem : b ∈ before ++ b :: after := by simp
  obtain ⟨rfl, l, hl, hnone⟩ := herror.undefined (hwell b hmem i hi) (hrep b hmem i hi)
  have hclear : State.Defines { s₁ with insts := [] } (known ++ IR.dests (IR.instsOf before)) :=
    (hwalk.defines hs).1
  have hdefines := (hsteps.defines hclear).1
  have hknown : l ∉ known ++ IR.dests (IR.instsOf before ++ code) := by
    rw [IR.dests_append, ← List.append_assoc]
    exact fun hmem => (hdefines l).mpr hmem hnone
  refine ⟨rfl, IR.instsOf before ++ code, i, rest ++ IR.instsOf after, l, ?_, hl, hknown⟩
  simp [IR.instsOf, hb]

end Emit

/-! ### Translating a function -/

/-- The native form of a function, before it is looked at as a whole. -/
def translate (globals id : Nat) (f : IR.Function) : Except EmitError Function := do
  let (params, ret) ← signature f
  let (blocks, s) ← (f.blocks.mapM (Emit.block globals f)).run (.start f params)
  return { id, params, ret, slots := s.slots, symbols := s.symbols, values := s.values, blocks }

/-- The slots fit on the stack, and one step of the stack pointer reaches over them. -/
def Function.FitsStack (native : Function) : Prop :=
  native.frameSize < UInt32.size ∧ roundUp 16 native.frameSize < UInt32.size / 2

/-- Emitting a function is translating it and looking at the result. -/
theorem emitFunction_eq_translate (globals id : Nat) (f : IR.Function) :
    emitFunction globals id f =
      match translate globals id f with
      | .error e => .error e
      | .ok native =>
        if !native.isValid then .error (.rejected f.name)
        else if UInt32.size ≤ native.frameSize then .error (.frameOverflow f.name)
        else if UInt32.size / 2 ≤ roundUp 16 native.frameSize then .error (.frameTooLarge f.name)
        else .ok native := by
  cases hsignature : signature f with
  | error e =>
    rw [emitFunction_of_signature_error hsignature, translate, hsignature]
    rfl
  | ok r =>
    rw [emitFunction_eq hsignature, translate, hsignature]
    simp only [bind, Except.bind]
    cases (f.blocks.mapM (Emit.block globals f)).run (.start f r.1) <;> rfl

theorem mapM_nativeTy_of_isScalar (func : String) {tys : List IR.Ty}
    (h : ∀ ty ∈ tys, ty.IsScalar) : ∃ ts, tys.mapM (nativeTy func) = .ok ts := by
  induction tys with
  | nil => exact ⟨[], rfl⟩
  | cons ty tys ih =>
    obtain ⟨hty, htys⟩ := List.forall_mem_cons.mp h
    obtain ⟨t, ht⟩ := exists_ofIR?_of_isScalar hty
    obtain ⟨ts, hts⟩ := ih htys
    refine ⟨t :: ts, ?_⟩
    rw [List.mapM_cons, nativeTy, ht, hts]
    rfl

theorem exists_signature {f : IR.Function} (h : f.Representable) :
    ∃ params ret, signature f = .ok (params, ret) := by
  obtain ⟨params, hparams⟩ := mapM_nativeTy_of_isScalar f.name h.params
  by_cases hvoid : f.ret = .void
  · refine ⟨params, none, ?_⟩
    rw [signature, hparams]
    exact if_pos hvoid
  · obtain ⟨t, ht⟩ := exists_ofIR?_of_isScalar (h.ret hvoid)
    refine ⟨params, some t, ?_⟩
    rw [signature, hparams, nativeTy, ht]
    exact if_neg hvoid

/-- **Translating a function** fails exactly if it uses a local too early. -/
theorem translate_cases {globals : Nat} {f : IR.Function} (hwell : f.WellFormed globals)
    (hrep : f.Representable) (id : Nat) :
    (translate globals id f = .error (.undefinedValue f.name) ∧ f.UsesEarly) ∨
      ∃ native, translate globals id f = .ok native ∧ ¬f.UsesEarly := by
  obtain ⟨params, ret, hsignature⟩ := exists_signature hrep
  have hblocks := Emit.blocks_meets globals f.blocks (length_storage_start f params)
  have hstart := State.defines_start f params
  rw [translate, hsignature]
  simp only [bind, Except.bind]
  cases hrun : (f.blocks.mapM (Emit.block globals f)).run (.start f params) with
  | error e =>
    obtain ⟨rfl, hearly⟩ := (hblocks.error hrun).usesEarly hstart hwell.insts hrep.insts
    exact .inl ⟨rfl, hearly⟩
  | ok r =>
    exact .inr ⟨_, rfl, ((hblocks.ok hrun).defines hstart).2⟩

/-! ### Emitting a module -/

/-- The entry of a list at a place, the first one that meets a condition there. -/
def IsFirst {α : Type} (P : Nat → α → Prop) (xs : List α) (k : Nat) (x : α) : Prop :=
  xs[k]? = some x ∧ P k x ∧ ∀ j < k, ∀ y, xs[j]? = some y → ¬P j y

theorem exists_isFirst_cons {α : Type} {P : Nat → α → Prop} {Q : α → Prop} {x : α} {xs : List α} :
    (∃ k y, IsFirst P (x :: xs) k y ∧ Q y) ↔
      (P 0 x ∧ Q x) ∨ (¬P 0 x ∧ ∃ k y, IsFirst (fun k => P (k + 1)) xs k y ∧ Q y) := by
  constructor
  · rintro ⟨k, y, ⟨hy, hP, hbefore⟩, hQ⟩
    cases k with
    | zero =>
      cases hy
      exact .inl ⟨hP, hQ⟩
    | succ k =>
      refine .inr ⟨hbefore 0 (Nat.succ_pos k) x rfl, k, y, ⟨hy, hP, fun j hj z hz => ?_⟩, hQ⟩
      exact hbefore (j + 1) (Nat.succ_lt_succ hj) z hz
  · rintro (⟨hP, hQ⟩ | ⟨hx, k, y, ⟨hy, hP, hbefore⟩, hQ⟩)
    · exact ⟨0, x, ⟨rfl, hP, nofun⟩, hQ⟩
    · refine ⟨k + 1, y, ⟨hy, hP, fun j hj z hz => ?_⟩, hQ⟩
      cases j with
      | zero =>
        cases hz
        exact hx
      | succ j => exact hbefore j (Nat.lt_of_succ_lt_succ hj) z hz

/-- The function is translated, and what it becomes is not valid. -/
def Rejected (globals id : Nat) (f : IR.Function) : Prop :=
  ∃ native, translate globals id f = .ok native ∧ native.isValid = false

/-- The function is translated, and what it becomes does not fit on the stack. -/
def Oversized (globals id : Nat) (f : IR.Function) : Prop :=
  ∃ native, translate globals id f = .ok native ∧ ¬native.FitsStack

/-- A function with a body that cannot be emitted. -/
def Defective (globals id : Nat) (f : IR.Function) : Prop :=
  f.isDeclaration = false ∧ (f.UsesEarly ∨ Rejected globals id f ∨ Oversized globals id f)

/-- **Emitting a function** that verifies and is representable. -/
theorem emitFunction_cases {globals : Nat} {f : IR.Function} (hwell : f.WellFormed globals)
    (hrep : f.Representable) (id : Nat) :
    (emitFunction globals id f = .error (.undefinedValue f.name) ∧ f.UsesEarly) ∨
      (¬f.UsesEarly ∧ (Rejected globals id f ∨ Oversized globals id f) ∧
        ∃ e, emitFunction globals id f = .error e ∧ ∀ name, e ≠ .undefinedValue name) ∨
      ∃ native, emitFunction globals id f = .ok native ∧
        ¬(f.UsesEarly ∨ Rejected globals id f ∨ Oversized globals id f) := by
  rw [emitFunction_eq_translate]
  obtain ⟨herror, hearly⟩ | ⟨native, htranslate, hearly⟩ := translate_cases hwell hrep id
  · rw [herror]
    exact .inl ⟨rfl, hearly⟩
  · have hrejected : Rejected globals id f ↔ native.isValid = false := by
      simp [Rejected, htranslate]
    have hoversized : Oversized globals id f ↔ ¬native.FitsStack := by
      simp [Oversized, htranslate]
    rw [htranslate, hrejected, hoversized]
    dsimp only
    split
    · next hvalid => exact .inr (.inl ⟨hearly, .inl (by simpa using hvalid), _, rfl, nofun⟩)
    · next hvalid =>
      split
      · next hsize =>
        have hnot : ¬native.FitsStack := fun hfits => absurd hsize (Nat.not_le.mpr hfits.1)
        exact .inr (.inl ⟨hearly, .inr hnot, _, rfl, nofun⟩)
      · next hsize =>
        split
        · next hframe =>
          have hnot : ¬native.FitsStack := fun hfits => absurd hframe (Nat.not_le.mpr hfits.2)
          exact .inr (.inl ⟨hearly, .inr hnot, _, rfl, nofun⟩)
        · next hframe =>
          refine .inr (.inr ⟨native, rfl, ?_⟩)
          have hfits : native.FitsStack := ⟨Nat.not_le.mp hsize, Nat.not_le.mp hframe⟩
          simp only [hearly, hfits, not_true, or_false, false_or]
          simpa using hvalid

/-- Functions are emitted one after the other up to the first one that cannot be. -/
theorem emitFrom_eq_undefinedValue_iff {globals : Nat} {fs : List IR.Function}
    (hwell : ∀ f ∈ fs, f.WellFormed globals) (hrep : ∀ f ∈ fs, f.Representable) (id : Nat)
    (name : String) :
    emitFrom globals id fs = .error (.undefinedValue name) ↔
      ∃ k f, IsFirst (fun k => Defective globals (id + k)) fs k f ∧
        (f.UsesEarly ∧ f.name = name) := by
  induction fs generalizing id with
  | nil => simp [emitFrom, IsFirst]
  | cons f fs ih =>
    obtain ⟨hf, hfs⟩ := List.forall_mem_cons.mp hwell
    obtain ⟨hr, hrs⟩ := List.forall_mem_cons.mp hrep
    have hshift : (fun k => Defective globals (id + (k + 1))) =
        fun k => Defective globals (id + 1 + k) := by
      funext k
      rw [Nat.add_right_comm, Nat.add_assoc]
    rw [exists_isFirst_cons, hshift, ← ih hfs hrs (id + 1), Nat.add_zero, emitFrom]
    by_cases hdecl : f.isDeclaration
    · simp [Defective, hdecl]
    · have hbody : f.isDeclaration = false := by simpa using hdecl
      rw [if_neg hdecl, Defective, hbody]
      simp only [true_and]
      obtain ⟨herror, hearly⟩ | ⟨hearly, hbad, e, herror, hne⟩ | ⟨native, hok, hgood⟩ :=
        emitFunction_cases hf hr id
      · simp [herror, hearly, bind, Except.bind]
      · simp [herror, hearly, hbad, hne name, bind, Except.bind]
      · simp only [hok, hgood, false_and, false_or, not_false_eq_true, true_and]
        cases emitFrom globals (id + 1) fs <;> simp [bind, Except.bind, pure, Except.pure]

/-- Signatures of representable functions are no reason to refuse them. -/
theorem forM_signature {fs : List IR.Function} (hrep : ∀ f ∈ fs, f.Representable) :
    (fs.forM fun f => do let _ ← signature f; checkSymbol f.name) =
      fs.forM fun f => checkSymbol f.name := by
  induction fs with
  | nil => rfl
  | cons f fs ih =>
    obtain ⟨hf, hfs⟩ := List.forall_mem_cons.mp hrep
    obtain ⟨params, ret, hsignature⟩ := exists_signature hf
    show (do let _ ← signature f; checkSymbol f.name) >>= (fun _ => fs.forM _) =
      checkSymbol f.name >>= fun _ => fs.forM _
    rw [ih hfs, hsignature]
    rfl

/-- **Emitting a module** ends in that error if all names can be written and a function is the
cause. -/
theorem emit_eq_undefinedValue_iff {m : IR.Module} (hrep : ∀ f ∈ m.functions, f.Representable)
    (name : String) :
    emit m = .error (.undefinedValue name) ↔
      (∀ symbol ∈ m.symbols, isWritable symbol = true) ∧
        emitFrom m.globals.length 0 m.functions = .error (.undefinedValue name) := by
  have hsymbols : (∀ symbol ∈ m.symbols, isWritable symbol = true) ↔
      (∀ g ∈ m.globals, isWritable g.name = true) ∧
        ∀ f ∈ m.functions, isWritable f.name = true := by
    simp [IR.Module.symbols, or_imp, forall_and]
  rw [emit, forM_signature hrep, forM_checkSymbol IR.Global.name,
    forM_checkSymbol IR.Function.name, hsymbols]
  cases hglobals : m.globals.find? fun g => !isWritable g.name with
  | some g =>
    have hg : isWritable g.name = false := by simpa using List.find?_some hglobals
    refine iff_of_false (by intro h; cases h) fun h => ?_
    simp [h.1.1 g (List.mem_of_find?_eq_some hglobals)] at hg
  | none =>
    cases hfunctions : m.functions.find? fun f => !isWritable f.name with
    | some f =>
      have hf : isWritable f.name = false := by simpa using List.find?_some hfunctions
      refine iff_of_false (by intro h; cases h) fun h => ?_
      simp [h.1.2 f (List.mem_of_find?_eq_some hfunctions)] at hf
    | none =>
      rw [and_iff_right ⟨by simpa using hglobals, by simpa using hfunctions⟩]
      simp only [bind, Except.bind]
      cases emitFrom m.globals.length 0 m.functions with
      | error e => rfl
      | ok natives =>
        refine iff_of_false (fun h => ?_) (by intro h; cases h)
        dsimp only at h
        split at h <;> cases h

/-- **Early uses.** In a module that verifies and is representable, the instructions of a function
are translated unless one of them uses a local that no instruction written before it defines, and
then this is the error. Emitting the module ends in it exactly if the names of all symbols can be
written, and the first function that cannot be emitted is one with such a use. -/
theorem undefinedValue_iff_usesEarly (m : IR.Module) (hverify : m.verify = .ok ())
    (hrep : ∀ f ∈ m.functions, f.Representable) :
    (∀ f ∈ m.functions, f.isDeclaration = false → ∀ id,
      ((∃ e, translate m.globals.length id f = .error e) ↔ f.UsesEarly) ∧
        ∀ e, translate m.globals.length id f = .error e → e = .undefinedValue f.name) ∧
    ∀ name, emit m = .error (.undefinedValue name) ↔
      (∀ symbol ∈ m.symbols, isWritable symbol = true) ∧
        ∃ k f, IsFirst (Defective m.globals.length) m.functions k f ∧
          f.UsesEarly ∧ f.name = name := by
  have hwell := (IR.Module.verify_eq_ok_iff.mp hverify).functions
  refine ⟨fun f hf _ id => ?_, fun name => ?_⟩
  · obtain ⟨herror, hearly⟩ | ⟨native, hok, hearly⟩ := translate_cases (hwell f hf) (hrep f hf) id
    · simp [herror, hearly]
    · simp [hok, hearly]
  · rw [emit_eq_undefinedValue_iff hrep, emitFrom_eq_undefinedValue_iff hwell hrep]
    simp only [Nat.zero_add]

/-- A function of one block with up to two slots. -/
def slotFunction (name : String) (insts : List IR.Inst) : IR.Function :=
  { name, ret := .i32, params := [], linkage := .external
    blocks := [{ name := "Entry", insts }]
    locals := [⟨"p", .ptr⟩, ⟨"q", .ptr⟩] }

/-- It stores into a slot which it makes only then. -/
def earlyStore (name : String) : IR.Function :=
  slotFunction name [.store (.const .i8 1) (.ofLocal 0), .alloca 0 .i8, .unreachable]

theorem usesEarly_earlyStore (name : String) : (earlyStore name).UsesEarly :=
  ⟨[], .store (.const .i8 1) (.ofLocal 0), [.alloca 0 .i8, .unreachable], 0, rfl,
    by simp [IR.Inst.operands], by simp [IR.dests]⟩

/-- The second function stores too early. -/
def lateSlot : IR.Module :=
  { name := "test"
    functions :=
      [slotFunction "f" [.alloca 0 .i8, .store (.const .i8 1) (.ofLocal 0), .unreachable],
        earlyStore "g"] }

theorem undefinedValue_iff_usesEarly_lateSlot :
    lateSlot.verify = .ok () ∧ (∀ f ∈ lateSlot.functions, f.Representable) ∧
      emit lateSlot = .error (.undefinedValue "g") ∧
      ∃ k f, IsFirst (Defective lateSlot.globals.length) lateSlot.functions k f ∧
        f.UsesEarly ∧ f.name = "g" := by
  have hverify : lateSlot.verify = .ok () := by decide
  have hrep : ∀ f ∈ lateSlot.functions, f.Representable := by decide
  have hemit : emit lateSlot = .error (.undefinedValue "g") := by cbv
  exact ⟨hverify, hrep, hemit,
    (((undefinedValue_iff_usesEarly lateSlot hverify hrep).2 "g").mp hemit).2⟩

/-- The slots alone take as many bytes as there are 32-bit offsets. -/
def hugeFrame : IR.Function :=
  slotFunction "huge" [.alloca 0 (.bytes 2147483648), .alloca 1 (.bytes 2147483648), .unreachable]

/-- Of the functions with a body, the first one that uses a local too early or is rejected does use
one too early, and yet emitting the module does not end in that error. -/
def OverlooksEarlyUse (m : IR.Module) : Prop :=
  (∃ k f, IsFirst (fun k f => f.isDeclaration = false ∧
      (f.UsesEarly ∨ Rejected m.globals.length k f)) m.functions k f ∧ f.UsesEarly) ∧
    ∀ name, emit m ≠ .error (.undefinedValue name)

/-- Neither a name that cannot be written nor a function that is too large for the stack can be left
out of the condition. -/
theorem overlooksEarlyUse_badName_hugeFrame :
    let badName : IR.Module := { name := "test", functions := [earlyStore "f\x00"] }
    let tooLarge : IR.Module := { name := "test", functions := [hugeFrame, earlyStore "f"] }
    (badName.verify = .ok () ∧ (∀ f ∈ badName.functions, f.Representable) ∧
      OverlooksEarlyUse badName) ∧
    tooLarge.verify = .ok () ∧ (∀ f ∈ tooLarge.functions, f.Representable) ∧
      OverlooksEarlyUse tooLarge := by
  intro badName tooLarge
  have hverify : tooLarge.verify = .ok () := by decide
  have hrep : ∀ f ∈ tooLarge.functions, f.Representable := by decide
  have hbad : emit badName = .error (.badSymbol "f\x00") := by decide
  have hlarge : emit tooLarge = .error (.frameOverflow "huge") := by cbv
  have hhuge : ¬(hugeFrame.UsesEarly ∨ Rejected tooLarge.globals.length 0 hugeFrame) := by
    have hvalid : (translate tooLarge.globals.length 0 hugeFrame).toOption.any
        Function.isValid = true := by cbv
    have hwell := (IR.Module.verify_eq_ok_iff.mp hverify).functions hugeFrame (by simp [tooLarge])
    obtain ⟨herror, -⟩ | ⟨native, hok, hearly⟩ :=
      translate_cases hwell (hrep hugeFrame (by simp [tooLarge])) 0
    · simp [herror, Except.toOption] at hvalid
    · simp only [hok, Except.toOption, Option.any_some] at hvalid
      simp [hearly, Rejected, hok, hvalid]
  refine ⟨⟨by decide, by decide, ⟨0, _, ⟨rfl, ⟨rfl, .inl (usesEarly_earlyStore _)⟩,
      fun j hj => absurd hj (Nat.not_lt_zero j)⟩, usesEarly_earlyStore _⟩, by simp [hbad]⟩,
    hverify, hrep, ⟨1, _, ⟨rfl, ⟨rfl, .inl (usesEarly_earlyStore _)⟩, fun j hj g hg => ?_⟩,
      usesEarly_earlyStore _⟩, by simp [hlarge]⟩
  obtain rfl : j = 0 := by omega
  cases hg
  exact fun h => hhuge h.2

end Native

end Mos6502
