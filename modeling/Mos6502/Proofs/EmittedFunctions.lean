import Mos6502.Proofs.BlockRuns
import Mos6502.Proofs.EmittedMeaning

/-!
# Native functions do what they were emitted for

The blocks of a function are emitted one after the other, but they run in an order of their own. So
the record of places at the front of a block is that of the block emitted before it, which may never
have run. What saves the simulation is the slot form: a block other than the first uses only the
locals of the first block and its own, and no block changes the places of the first block's locals.
The agreement of these locals is stated for the state after the first block, and it holds at the
front of every block that a run comes to.

## Main definitions

* `Emit.Leaves` — emitting that keeps the places of some locals

## Main results

* `simulates_inner` — one block of a function in slot form
* `trapsWith_of_haltsWith` — a function in slot form
-/

namespace Mos6502

namespace Native

namespace Emit

variable {globals : Nat} {f : IR.Function} {s s' : State}

/-! ### What emitting a block leaves alone -/

/-- Emitting went on without a change to the places of the locals in `base`, and without a new
slot. -/
structure Leaves (base : List Nat) (s s' : State) : Prop where
  places : ∀ l ∈ base, s'.storage[l]? = s.storage[l]?
  slots : s'.slots = s.slots
  grows : s.values.length ≤ s'.values.length

namespace Leaves

variable {base : List Nat} {s₁ : State}

theorem refl : Leaves base s s :=
  ⟨fun _ _ => rfl, rfl, Nat.le_refl _⟩

theorem trans (h : Leaves base s s₁) (h' : Leaves base s₁ s') : Leaves base s s' where
  places l hl := (h'.places l hl).trans (h.places l hl)
  slots := h'.slots.trans h.slots
  grows := Nat.le_trans h.grows h'.grows

theorem of_eq (hstorage : s'.storage = s.storage) (hslots : s'.slots = s.slots)
    (hgrows : s.values.length ≤ s'.values.length) : Leaves base s s' :=
  ⟨fun l _ => by rw [hstorage], hslots, hgrows⟩

theorem make (ty : Ty) (imm : Option Int) (i : (dest : Nat) → Inst) :
    Leaves base s (s.make ty imm i) :=
  .of_eq rfl rfl (by simp [State.make])

theorem keep {dest : Nat} (hdest : dest ∉ base) (place : Storage) :
    Leaves base s (s.keep dest place) where
  places l hl := by
    have hne : dest ≠ l := by
      rintro rfl
      exact hdest hl
    exact List.getElem?_set_ne hne
  slots := rfl
  grows := Nat.le_refl _

end Leaves

variable {base : List Nat}

theorem Operand.leaves {v : IR.Value} {n : Nat} (h : Operand globals s v n s') :
    Leaves base s s' := by
  cases h with
  | const | slot => exact .make _ _ _
  | value => exact .refl
  | global => exact .of_eq rfl rfl (by simp [State.make, State.addSymbol])

theorem Step.leaves {i : IR.Inst} (h : Step globals f s i s')
    (hfresh : ∀ l ∈ i.dest?.toList, l ∉ base) (hslot : i.slotTy? = none) : Leaves base s s' := by
  cases h with
  | alloca => cases hslot
  | stackLoad => exact .trans (.make _ _ _) (.keep (hfresh _ List.mem_cons_self) _)
  | load _ haddress =>
    exact (haddress.leaves.trans (.make _ _ _)).trans (.keep (hfresh _ List.mem_cons_self) _)
  | stackStore hvalue => exact hvalue.leaves.trans (.of_eq rfl rfl (Nat.le_refl _))
  | store hvalue haddress =>
    exact (hvalue.leaves.trans haddress.leaves).trans (.of_eq rfl rfl (Nat.le_refl _))
  | binary hlhs hrhs | icmp hlhs hrhs =>
    exact ((hlhs.leaves.trans hrhs.leaves).trans (.make _ _ _)).trans
      (.keep (hfresh _ List.mem_cons_self) _)
  | br | unreachable => exact .of_eq rfl rfl (Nat.le_refl _)

theorem Steps.leaves {code : List IR.Inst} {s : State} (h : Steps globals f s code s')
    (hfresh : ∀ l ∈ IR.dests code, l ∉ base) (hslots : IR.slotTys code = []) :
    Leaves base s s' := by
  induction code generalizing s with
  | nil =>
    cases h
    exact .refl
  | cons i code ih =>
    obtain ⟨s₁, hstep, hrest⟩ := h
    rw [IR.dests_cons] at hfresh
    rw [IR.slotTys_cons, List.append_eq_nil_iff] at hslots
    have hi := hstep.leaves (fun l hl => hfresh l (List.mem_append_left _ hl))
      (by simpa using hslots.1)
    exact hi.trans (ih hrest (fun l hl => hfresh l (List.mem_append_right _ hl)) hslots.2)

/-- Emitting code makes the slots of its types. -/
theorem Steps.slots {code : List IR.Inst} {s : State} (h : Steps globals f s code s') :
    s'.slots = s.slots ++ (IR.slotTys code).map slotSize := by
  induction code generalizing s with
  | nil =>
    cases h
    exact (List.append_nil _).symm
  | cons i code ih =>
    obtain ⟨s₁, hstep, hrest⟩ := h
    rw [ih hrest, IR.slotTys_cons, List.map_append, ← List.append_assoc]
    congr 1
    cases hslot : i.slotTy? with
    | none =>
      have hleaves : Leaves [] s s₁ := hstep.leaves (fun _ _ => List.not_mem_nil) hslot
      rw [hleaves.slots, Option.toList_none, List.map_nil, List.append_nil]
    | some ty =>
      cases hstep with
      | alloca =>
        cases hslot
        rfl
      | _ => cases hslot

/-- Emitting a block that makes no slots, and going on to the next one. -/
theorem Steps.leaves_block {b : IR.Block} (h : Steps globals f { s with insts := [] } b.insts s')
    (hb : b.Inner base) : Leaves base s { s' with block := s'.block + 1 } := by
  have hclear : Leaves base s { s with insts := [] } := .of_eq rfl rfl (Nat.le_refl _)
  have hnext : Leaves base s' { s' with block := s'.block + 1 } := .of_eq rfl rfl (Nat.le_refl _)
  exact (hclear.trans (h.leaves hb.fresh hb.noSlots)).trans hnext

theorem Walk.leaves {bs : List IR.Block} {blocks : List (List Inst)} {s : State}
    (h : Walk globals f s bs blocks s') (hinner : ∀ b ∈ bs, b.Inner base) : Leaves base s s' := by
  induction bs generalizing s blocks with
  | nil =>
    obtain ⟨-, rfl⟩ := h
    exact .refl
  | cons b rest ih =>
    obtain ⟨s₁, others, hsteps, -, hwalk⟩ := h
    have hrest := ih hwalk fun c hc => hinner c (List.mem_cons_of_mem b hc)
    exact (hsteps.leaves_block (hinner b List.mem_cons_self)).trans hrest

/-- Each of the blocks that make no slots was emitted in a state that still has the places of the
first block. -/
theorem Walk.exists_steps {bs : List IR.Block} {blocks : List (List Inst)} {s : State}
    (h : Walk globals f s bs blocks s') (hinner : ∀ b ∈ bs, b.Inner base) {j : Nat}
    {b : IR.Block} (hb : bs[j]? = some b) :
    ∃ s₁ s₂, Leaves base s s₁ ∧ Steps globals f { s₁ with insts := [] } b.insts s₂ ∧
      blocks[j]? = some s₂.insts := by
  induction bs generalizing s blocks j with
  | nil => simp at hb
  | cons c rest ih =>
    obtain ⟨s₁, others, hsteps, rfl, hwalk⟩ := h
    cases j with
    | zero =>
      obtain rfl : c = b := by simpa using hb
      exact ⟨s, s₁, .refl, hsteps, rfl⟩
    | succ j =>
      obtain ⟨s₂, s₃, hleaves, hsteps', hget⟩ :=
        ih hwalk (fun d hd => hinner d (List.mem_cons_of_mem c hd)) hb
      have hfirst := hsteps.leaves_block (hinner c List.mem_cons_self)
      exact ⟨s₂, s₃, hfirst.trans hleaves, hsteps', hget⟩

end Emit

/-! ### Runs of a function -/

/-- Code changes no local but those it defines. -/
theorem get?_locals_of_execAll {code : List IR.Inst} {σ σ' : IR.Frame} {l : Nat}
    (h : IR.execAll code σ = some σ') (hl : l ∉ IR.dests code) :
    σ'.locals.get? l = σ.locals.get? l := by
  induction code generalizing σ with
  | nil =>
    cases h
    rfl
  | cons i code ih =>
    obtain ⟨σ₁, hi, hrest⟩ := Option.bind_eq_some_iff.mp h
    rw [IR.dests_cons, List.mem_append, not_or, Option.mem_toList] at hl
    rw [ih hrest hl.2, IR.get?_locals_of_exec hi hl.1]

theorem dests_concat {code : List IR.Inst} {t : IR.Inst} (ht : t.isTerminator = true) :
    IR.dests (code ++ [t]) = IR.dests code := by
  have hnone : t.dest? = none := by
    cases t with
    | br | unreachable => rfl
    | _ => cases ht
  rw [IR.dests_append, IR.dests_cons, hnone]
  simp [IR.dests]

section

variable {b : IR.Block} {code : List IR.Inst}

theorem mem_targets_of_br {target : Nat} (h : b.insts = code ++ [.br target]) :
    target ∈ b.targets := by
  rw [IR.Block.targets, h, List.filterMap_append]
  exact List.mem_append_right _ List.mem_cons_self

theorem bytewise_of_concat {t : IR.Inst} (hbytes : ∀ i ∈ b.insts, i.Bytewise)
    (h : b.insts = code ++ [t]) : ∀ i ∈ code, i.Bytewise := by
  intro i hi
  apply hbytes
  rw [h]
  exact List.mem_append_left _ hi

end

section

variable {globals : Nat} {f : IR.Function} {base : List Nat} {s s' : State} {inner : List IR.Block}
  {others : List (List Inst)} {σ σ' : IR.Frame} {τ : Frame}

/-- **A block that is not the first.** It runs from a frame that agrees in the locals of the first
block to one that still does, though the locals of the block itself came and went. -/
theorem simulates_inner (hwalk : Emit.Walk globals f s inner others s')
    (hinner : ∀ b ∈ inner, b.Inner base) {j : Nat} {b : IR.Block} (hb : inner[j]? = some b)
    {code : List IR.Inst} {t : IR.Inst} (hinsts : b.insts = code ++ [t])
    (ht : t.isTerminator = true) (hplain : ∀ i ∈ code, i.isTerminator = false)
    (hbytes : ∀ i ∈ code, i.Bytewise) (hagrees : Agrees s base σ τ)
    (hexec : IR.execAll code σ = some σ') :
    ∃ added τ', others[j]? = some (added ++ [Emit.terminatorOf t]) ∧
      execAll added τ = some τ' ∧ Agrees s base σ' τ' := by
  obtain ⟨hscope, hfresh, hslots⟩ := hinner b (List.mem_of_getElem? hb)
  obtain ⟨s₁, s₂, hbefore, hsteps, hget⟩ := hwalk.exists_steps hinner hb
  have hafter := hbefore.trans (hsteps.leaves_block ⟨hscope, hfresh, hslots⟩)
  rw [hinsts] at hscope hfresh hsteps
  -- the frames agree by the record at the front of the block too
  have hhere : Agrees s₁ base σ τ :=
    { slots := hagrees.slots
      made := by rw [hbefore.slots, hagrees.made]
      places := fun l hl p hp d hd => by
        rw [hbefore.places l hl] at hp
        exact (hagrees.places l hl p hp d hd).mono hbefore.grows fun _ _ => rfl }
  obtain ⟨added, τ', hadded, hrun, hthere, hkeeps⟩ := Emit.simulates_block hsteps ht hhere hplain
    (IR.scoped_append.mp hscope).1 hbytes hexec
  rw [hadded] at hget
  refine ⟨added, τ', hget, hrun, ?_⟩
  -- and by the record after the first block, whose locals and values the block left alone
  exact
    { slots := hthere.slots
      made := (congrArg List.length hafter.slots).symm.trans hthere.made
      places := fun l hl p hp d hd => by
        have hnot : l ∉ IR.dests code := fun hmem =>
          hfresh l (by rwa [dests_concat ht]) hl
        rw [get?_locals_of_execAll hexec hnot] at hd
        refine (hagrees.places l hl p hp d hd).mono (Nat.le_refl _) fun n hn => ?_
        exact hkeeps n (Nat.lt_of_lt_of_le hn hbefore.grows) }

variable {entry : IR.Block} {native : Function} {first : List Inst}

/-- The run from a block that is not the first, by induction on the blocks it goes through. -/
theorem trapsWith_of_stopsWith (hform : f.SlotForm entry inner)
    (hbytes : ∀ b ∈ f.blocks, ∀ i ∈ b.insts, i.Bytewise)
    (hwalk : Emit.Walk globals f s inner others s')
    (hbase : base = IR.dests entry.insts) (hblocks : native.blocks = first :: others)
    {b : Nat} (h : f.StopsWith b σ σ') :
    0 < b → ∀ {τ : Frame}, Agrees s base σ τ →
      ∃ τ', native.TrapsWith b τ τ' ∧ τ'.slots = σ'.slots.map .ofIR := by
  subst hbase
  -- blocks of both functions have the same numbers, and so have those after the first
  have hget : ∀ {j : Nat} {block : IR.Block}, f.blocks[j + 1]? = some block →
      inner[j]? = some block := by
    intro j block hb
    rwa [hform.blocks, List.getElem?_cons_succ] at hb
  induction h with
  | @unreachable b block code σ σ' hb hinsts hplain hs =>
    intro hpos τ hagrees
    obtain ⟨j, rfl⟩ := Nat.exists_eq_succ_of_ne_zero (Nat.ne_of_gt hpos)
    have hcode := bytewise_of_concat (hbytes block (List.mem_of_getElem? hb)) hinsts
    obtain ⟨added, τ', hothers, hrun, hagrees'⟩ := simulates_inner hwalk hform.inner (hget hb)
      hinsts rfl hplain hcode hagrees hs
    exact ⟨τ', .trap (by rw [hblocks]; exact hothers) hrun, hagrees'.slots⟩
  | @br b target block code σ σ₁ σ' hb hinsts hplain hs _ ih =>
    intro hpos τ hagrees
    obtain ⟨j, rfl⟩ := Nat.exists_eq_succ_of_ne_zero (Nat.ne_of_gt hpos)
    have hmem := List.mem_of_getElem? hb
    have hcode := bytewise_of_concat (hbytes block hmem) hinsts
    obtain ⟨added, τ₁, hothers, hrun, hagrees₁⟩ := simulates_inner hwalk hform.inner (hget hb)
      hinsts rfl hplain hcode hagrees hs
    have htarget := (hform.targets block hmem target (mem_targets_of_br hinsts)).1
    obtain ⟨τ', htraps, hslots⟩ := ih htarget hagrees₁
    exact ⟨τ', .jump (by rw [hblocks]; exact hothers) hrun htraps, hslots⟩

end

/-- The slots of a function are those of its first block. -/
theorem slots_of_emitFunction {globals id : Nat} {f : IR.Function} {entry : IR.Block}
    {inner : List IR.Block} {native : Function} (hform : f.SlotForm entry inner)
    (hemit : emitFunction globals id f = .ok native) :
    native.slots = (IR.slotTys entry.insts).map slotSize := by
  obtain ⟨params, s, hwalk, hslots⟩ := walk_of_emitFunction hemit
  rw [hform.blocks] at hwalk
  obtain ⟨s₁, others, hsteps, -, hwalk⟩ := hwalk
  rw [hslots, (hwalk.leaves hform.inner).slots]
  exact hsteps.slots

/-- **A native function does what it was emitted for**, if that has the slot form and computes with
bytes only. Whenever the one halts, the other runs into a trap, and then their slots hold the
same. -/
theorem trapsWith_of_haltsWith {globals id : Nat} {f : IR.Function} {entry : IR.Block}
    {inner : List IR.Block} {native : Function} (hform : f.SlotForm entry inner)
    (hbytes : ∀ b ∈ f.blocks, ∀ i ∈ b.insts, i.Bytewise)
    (hemit : emitFunction globals id f = .ok native) {slots : List IR.Datum} {σ' : IR.Frame}
    (hhalts : f.HaltsWith ⟨⟨0, 0⟩, { slots }⟩ σ') :
    ∃ τ', native.TrapsWith 0 { slots := slots.map .ofIR } τ' ∧ τ'.slots = σ'.slots.map .ofIR := by
  obtain ⟨params, s, hwalk, -⟩ := walk_of_emitFunction hemit
  have hstops := hhalts.stopsWith hform.closed
  have hzero : f.blocks[0]? = some entry := by rw [hform.blocks]; rfl
  rw [hform.blocks] at hwalk
  obtain ⟨s₁, others, hsteps, hblocks, hwalk⟩ := hwalk
  have hfirst : native.blocks[0]? = some s₁.insts := by rw [hblocks]; rfl
  have hstart : Agrees (.start f params) [] { slots } { slots := slots.map .ofIR } :=
    ⟨rfl, rfl, fun l hl => by cases hl⟩
  have hscope := hform.entryInScope
  have hcode := hbytes entry hform.entry_mem
  cases hstops with
  | unreachable hb hinsts hplain hs =>
    obtain rfl : entry = _ := Option.some.inj (hzero.symm.trans hb)
    rw [hinsts] at hsteps hscope
    obtain ⟨added, τ', hadded, hrun, hagrees, -⟩ := Emit.simulates_block hsteps rfl hstart hplain
      (IR.scoped_append.mp hscope).1 (bytewise_of_concat hcode hinsts) hs
    exact ⟨τ', .trap (by rw [hfirst, hadded]; rfl) hrun, hagrees.slots⟩
  | @br _ target _ code _ _ _ hb hinsts hplain hs hrest =>
    obtain rfl : entry = _ := Option.some.inj (hzero.symm.trans hb)
    rw [hinsts] at hsteps hscope
    obtain ⟨added, τ₁, hadded, hrun, hagrees, -⟩ := Emit.simulates_block hsteps rfl hstart hplain
      (IR.scoped_append.mp hscope).1 (bytewise_of_concat hcode hinsts) hs
    have htarget := (hform.targets entry hform.entry_mem target (mem_targets_of_br hinsts)).1
    have hbase : IR.dests code = IR.dests entry.insts := by rw [hinsts, dests_concat rfl]
    obtain ⟨τ', htraps, hslots⟩ := trapsWith_of_stopsWith hform hbytes hwalk hbase hblocks hrest
      htarget ⟨hagrees.slots, hagrees.made, hagrees.places⟩
    exact ⟨τ', .jump (by rw [hfirst, hadded]; rfl) hrun htraps, hslots⟩

end Native

end Mos6502
