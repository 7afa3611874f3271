import Mos6502.Proofs.LiveBlocks
import Mos6502.Proofs.SlotForm

/-!
# What pruning can break

The verifier wants every local that is used to be defined somewhere in the function, and does not
ask whether the definition is ever executed. So a local may be used in a block that is entered and
defined in blocks that are not. Pruning removes the definitions and keeps the use, and the verifier
then refuses what it had accepted. `Function.Strands` is this situation.

Nothing else that the verifier looks at can change for the worse. Names are those of fewer blocks,
blocks stay closed, types depend on the locals alone, and what a block that stays branches to stays
too.

## Main definitions

* `Function.Strands` — a block that stays uses a local whose definitions all go

## Main results

* `Function.WellFormed.prune_iff`, `Function.WellFormed.fault?_prune` — one function
* `verify_optimised` — a module
-/

namespace Mos6502.IR

namespace Function

/-- Some block that is entered defines the local. -/
def DefinesLive (f : Function) (l : Nat) : Prop :=
  ∃ (k : Nat) (b : Block), f.Entered k ∧ f.blocks[k]? = some b ∧ ∃ i ∈ b.insts, i.dest? = some l

/-- The block is entered, and it uses a local that no block defines that is entered. -/
def Strands (f : Function) (b : Block) : Prop :=
  (∃ k, f.Entered k ∧ f.blocks[k]? = some b) ∧
    ∃ i ∈ b.insts, ∃ l, Value.ofLocal l ∈ i.operands ∧ ¬f.DefinesLive l

variable {f : Function} {globals : Nat}

/-! ### What the verifier sees of a pruned function -/

/-- The blocks of a pruned function are those that are entered, renumbered. -/
theorem mem_blocks_prune_iff {c : Block} :
    c ∈ f.prune.1.blocks ↔
      ∃ (k : Nat) (b : Block), f.Entered k ∧ f.blocks[k]? = some b ∧ c = b.renumber f.live := by
  constructor
  · intro hc
    obtain ⟨k, b, hlive, hb, rfl⟩ := exists_of_mem_blocks_prune hc
    exact ⟨k, b, live_eq_true_iff.mp hlive, hb, rfl⟩
  · rintro ⟨k, b, hk, hb, rfl⟩
    have hget := getElem?_blocks_prune (live_eq_true_iff.mpr hk)
    rw [hb] at hget
    exact List.mem_of_getElem? hget

/-- The locals that are still defined. -/
theorem mem_defined_prune_iff {l : Nat} :
    l ∈ f.prune.1.defined ↔ l < f.locals.length ∧ f.DefinesLive l := by
  simp only [defined, locals_prune, List.mem_filter, List.mem_flatMap, List.mem_filterMap,
    decide_eq_true_eq, mem_blocks_prune_iff]
  constructor
  · rintro ⟨⟨_, ⟨k, b, hk, hb, rfl⟩, j, hj, hdest⟩, hlt⟩
    obtain ⟨i, hi, rfl⟩ := List.mem_map.mp hj
    exact ⟨hlt, k, b, hk, hb, i, hi, by rwa [Inst.dest?_renumber] at hdest⟩
  · rintro ⟨hlt, k, b, hk, hb, i, hi, hdest⟩
    refine ⟨⟨_, ⟨k, b, hk, hb, rfl⟩, i.renumber f.live, List.mem_map_of_mem hi, ?_⟩, hlt⟩
    rwa [Inst.dest?_renumber]

theorem typeOf_prune (f : Function) (v : Value) : f.prune.1.typeOf v = f.typeOf v := by
  rw [typeOf, typeOf, typeOf?_eq, typeOf?_eq, locals_prune]

theorem typeFault?_prune (f : Function) (i : Inst) :
    (i.renumber f.live).typeFault? f.prune.1 = i.typeFault? f := by
  cases i <;> simp only [Inst.renumber, Inst.typeFault?, typeOf_prune]

/-- A value that was known is known unless its definitions are gone. -/
theorem isKnown_prune_iff {v : Value} (h : v.isKnown globals f.defined = true) :
    v.isKnown globals f.prune.1.defined = true ↔ ∀ l, v = .ofLocal l → f.DefinesLive l := by
  cases v with
  | const | ofGlobal =>
    refine iff_of_true h ?_
    rintro l ⟨⟩
  | ofLocal l =>
    have hdefined : l ∈ f.defined := by simpa [Value.isKnown] using h
    have hlt : l < f.locals.length := by simpa using (List.mem_filter.mp hdefined).2
    simp [Value.isKnown, mem_defined_prune_iff, hlt]

/-! ### One function -/

/-- An instruction that stays is refused only for a local that is not defined any more. -/
theorem WellFormed.inst_fault?_prune (h : f.WellFormed globals) {b : Block} {k : Nat}
    (hk : f.Entered k) (hb : f.blocks[k]? = some b) {i : Inst} (hi : i ∈ b.insts)
    {e : VerifyError}
    (he : (i.renumber f.live).fault? globals f.prune.1.defined f.prune.1 b.name = some e) :
    f.Strands b ∧ e = .undefinedValue f.name b.name := by
  obtain ⟨hknown, htyped, htarget⟩ := h.insts b (List.mem_of_getElem? hb) i hi
  unfold Inst.fault? at he
  rw [Inst.operands_renumber] at he
  split at he
  · next hall =>
    obtain ⟨v, hv, hunknown⟩ : ∃ v ∈ i.operands, v.isKnown globals f.prune.1.defined = false := by
      simpa using hall
    have hlost : ¬∀ l, v = .ofLocal l → f.DefinesLive l := by
      rw [← isKnown_prune_iff (hknown v hv), hunknown]
      exact Bool.false_ne_true
    obtain ⟨l, hl⟩ := not_forall.mp hlost
    obtain ⟨rfl, hgone⟩ := Classical.not_imp.mp hl
    rw [name_prune, Option.some.injEq] at he
    exact ⟨⟨⟨k, hk, hb⟩, i, hi, l, hv, hgone⟩, he.symm⟩
  · -- what is left of the tests cannot fail
    have htyped' := (typeFault?_prune f i).trans htyped
    cases i with
    | br t =>
      have ht : f.Entered t := .branch hk hb hi (htarget t rfl)
      simp [Inst.renumber, renumber_lt_length_blocks_prune (live_eq_true_iff.mpr ht)] at he
    | _ => simp only [Inst.renumber] at he htyped'; simp [htyped'] at he

/-- What is refused of a function after pruning. -/
theorem WellFormed.fault?_prune (h : f.WellFormed globals) {e : VerifyError}
    (he : f.prune.1.fault? globals = some e) :
    ∃ b, f.Strands b ∧ e = .undefinedValue f.name b.name := by
  rw [fault?, Text.firstRepeat_eq_none_iff.mpr (nodup_blockNames_prune h.names)] at he
  obtain ⟨c, hc, hfault⟩ := List.exists_of_findSome?_eq_some he
  obtain ⟨k, b, hk, hb, rfl⟩ := mem_blocks_prune_iff.mp hc
  obtain ⟨t, ht⟩ := h.closed b (List.mem_of_getElem? hb)
  rw [Block.fault?, Block.terminatorFault?_eq_none_iff.mpr ⟨_, ht.renumber f.live⟩,
    Option.none_or] at hfault
  obtain ⟨j, hj, hinst⟩ := List.exists_of_findSome?_eq_some hfault
  obtain ⟨i, hi, rfl⟩ := List.mem_map.mp hj
  exact ⟨b, h.inst_fault?_prune hk hb hi hinst⟩

/-- **A function stays well-formed** exactly if no block is stranded. -/
theorem WellFormed.prune_iff (h : f.WellFormed globals) :
    f.prune.1.WellFormed globals ↔ ∀ b, ¬f.Strands b := by
  constructor
  · rintro hprune b ⟨⟨k, hk, hb⟩, i, hi, l, hl, hgone⟩
    have hc : b.renumber f.live ∈ f.prune.1.blocks := mem_blocks_prune_iff.mpr ⟨k, b, hk, hb, rfl⟩
    have hwell := hprune.insts _ hc _ (List.mem_map_of_mem hi)
    have hknown := hwell.known (.ofLocal l) (by rwa [Inst.operands_renumber])
    have hbefore := (h.insts b (List.mem_of_getElem? hb) i hi).known (.ofLocal l) hl
    exact hgone ((isKnown_prune_iff hbefore).mp hknown l rfl)
  · intro hnone
    rw [← fault?_eq_none_iff]
    cases he : f.prune.1.fault? globals with
    | none => rfl
    | some e =>
      obtain ⟨b, hb, -⟩ := h.fault?_prune he
      exact absurd hb (hnone b)

end Function

/-! ### Modules -/

namespace Module

variable {m : Module}

/-- A declaration has no blocks to lose, so it does not matter that it is passed over. -/
theorem functions_prune (m : Module) :
    m.prune.1.functions = m.functions.map fun f => f.prune.1 := by
  simp only [prune, List.map_map]
  refine List.map_congr_left fun f _ => ?_
  simp only [Function.comp_apply]
  split
  · next hdecl =>
    have hblocks : f.blocks = [] := by simpa [Function.isDeclaration] using hdecl
    rw [Function.prune_fst, hblocks]
    change f = { f with blocks := [] }
    rw [← hblocks]
  · rfl

theorem symbols_prune (m : Module) : m.prune.1.symbols = m.symbols := by
  rw [symbols, symbols, functions_prune, List.map_map]
  have hnames : Function.name ∘ (fun f : Function => f.prune.1) = Function.name := by
    funext f
    exact Function.name_prune f
  rw [hnames]
  rfl

/-- What is refused of a module after pruning. -/
theorem WellFormed.fault?_prune (h : m.WellFormed) {e : VerifyError}
    (he : m.prune.1.fault? = some e) :
    ∃ f ∈ m.functions, ∃ b, f.Strands b ∧ e = .undefinedValue f.name b.name := by
  rw [fault?, symbols_prune, Text.firstRepeat_eq_none_iff.mpr h.symbols, functions_prune] at he
  obtain ⟨g, hg, hfault⟩ := List.exists_of_findSome?_eq_some he
  obtain ⟨f, hf, rfl⟩ := List.mem_map.mp hg
  exact ⟨f, hf, (h.functions f hf).fault?_prune hfault⟩

theorem WellFormed.prune_iff (h : m.WellFormed) :
    m.prune.1.WellFormed ↔ ∀ f ∈ m.functions, ∀ b, ¬f.Strands b := by
  constructor
  · intro hprune f hf
    refine (h.functions f hf).prune_iff.mp (hprune.functions _ ?_)
    rw [functions_prune]
    exact List.mem_map_of_mem hf
  · intro hnone
    refine ⟨by rw [symbols_prune]; exact h.symbols, fun g hg => ?_⟩
    rw [functions_prune] at hg
    obtain ⟨f, hf, rfl⟩ := List.mem_map.mp hg
    exact (h.functions f hf).prune_iff.mpr (hnone f hf)

end Module

/-- **What optimisation can do to verification.** A module that was accepted is refused afterwards
exactly if some function strands a block, and then for a value that is not defined. -/
theorem verify_optimised (m : Module) (hm : m.verify = .ok ()) :
    ((∃ e, (m.pruneTimes OptLevel.basic.rounds).1.verify = .error e) ↔
      ∃ f ∈ m.functions, ∃ b, f.Strands b) ∧
    ∀ e, (m.pruneTimes OptLevel.basic.rounds).1.verify = .error e →
      ∃ f ∈ m.functions, ∃ b, f.Strands b ∧ e = .undefinedValue f.name b.name := by
  have hwell := Module.verify_eq_ok_iff.mp hm
  have hround : (m.pruneTimes OptLevel.basic.rounds).1 = m.prune.1 := rfl
  rw [hround]
  have herror : ∀ e, m.prune.1.verify = .error e →
      ∃ f ∈ m.functions, ∃ b, f.Strands b ∧ e = .undefinedValue f.name b.name := by
    intro e he
    refine hwell.fault?_prune ?_
    rw [Module.verify] at he
    split at he
    · cases he
    · next e' hfault => rw [hfault, Except.error.inj he]
  refine ⟨⟨?_, ?_⟩, herror⟩
  · rintro ⟨e, he⟩
    obtain ⟨f, hf, b, hb, -⟩ := herror e he
    exact ⟨f, hf, b, hb⟩
  · rintro ⟨f, hf, b, hb⟩
    cases hverify : m.prune.1.verify with
    | error e => exact ⟨e, rfl⟩
    | ok _ => exact absurd hb (hwell.prune_iff.mp (Module.verify_eq_ok_iff.mp hverify) f hf b)

/-- A module with a slot that is made in a block that nothing enters. -/
def strandedModule : Module :=
  { name := "m"
    functions := [
      { name := "f", ret := .i32, params := [], linkage := .external
        blocks := [⟨"Entry", [.store (.const .i8 1) (.ofLocal 0), .unreachable], false⟩,
          ⟨"dead", [.alloca 0 .i8, .br 0], false⟩]
        locals := [⟨"A", .ptr⟩] }] }

theorem verify_optimised_strandedModule :
    strandedModule.verify = .ok () ∧
      (strandedModule.pruneTimes OptLevel.basic.rounds).1.verify =
        .error (.undefinedValue "f" "Entry") ∧
      ∃ f ∈ strandedModule.functions, ∃ b, f.Strands b := by
  have hverify : strandedModule.verify = .ok () := by decide
  have hrefused : (strandedModule.pruneTimes OptLevel.basic.rounds).1.verify =
      .error (.undefinedValue "f" "Entry") := by cbv
  exact ⟨hverify, hrefused, (verify_optimised strandedModule hverify).1.mp ⟨_, hrefused⟩⟩

end Mos6502.IR
