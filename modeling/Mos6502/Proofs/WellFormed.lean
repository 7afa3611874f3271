import Mos6502.IR.Verify
import Mos6502.Proofs.FreshName

/-!
# Well-formed modules

`Module.fault?` looks for the first thing that is wrong. Here the conditions it tests are stated as
propositions, without an order among them, and `verify` is shown to accept exactly the modules
that satisfy all of them.

## Main definitions

* `Block.Closed` — the last instruction is the only terminator
* `Inst.WellFormed`, `Function.WellFormed`, `Module.WellFormed`

## Main results

* `Block.terminatorFault?_eq_none_iff`, `Inst.fault?_eq_none_iff`, `Function.fault?_eq_none_iff`
* `Module.verify_eq_ok_iff` — the verifier decides well-formedness
-/

namespace Mos6502.IR

open Text

/-- The last instruction of the block is `t`, and it is the only terminator. -/
def Block.EndsWith (b : Block) (t : Inst) : Prop :=
  ∃ body, b.insts = body ++ [t] ∧ t.isTerminator = true ∧ ∀ i ∈ body, i.isTerminator = false

/-- The last instruction of the block is its only terminator. -/
def Block.Closed (b : Block) : Prop :=
  ∃ t, b.EndsWith t

/-- An instruction whose operands denote something, whose types fit, and whose target exists. -/
structure Inst.WellFormed (globals : Nat) (f : Function) (i : Inst) : Prop where
  known : ∀ v ∈ i.operands, v.isKnown globals f.defined = true
  typed : i.typeFault? f = none
  target : ∀ t, i.target? = some t → t < f.blocks.length

/-- A function whose blocks have different names, are closed, and hold well-formed instructions. -/
structure Function.WellFormed (globals : Nat) (f : Function) : Prop where
  names : f.blockNames.Nodup
  closed : ∀ b ∈ f.blocks, b.Closed
  insts : ∀ b ∈ f.blocks, ∀ i ∈ b.insts, i.WellFormed globals f

/-- A module whose symbols have different names and whose functions are well-formed. -/
structure Module.WellFormed (m : Module) : Prop where
  symbols : m.symbols.Nodup
  functions : ∀ f ∈ m.functions, f.WellFormed m.globals.length

theorem Block.terminatorFault?_eq_none_iff {func : String} {b : Block} :
    b.terminatorFault? func = none ↔ b.Closed := by
  rw [terminatorFault?]
  constructor
  · intro h
    split at h
    · cases h
    · rename_i k hk
      split at h
      · rename_i hlast
        obtain ⟨hlt, hterm, hbefore⟩ := List.findIdx?_eq_some_iff_getElem.mp hk
        refine ⟨b.insts[k], b.insts.take k, ?_, hterm, fun i hi => ?_⟩
        · rw [← List.take_succ_eq_append_getElem hlt, hlast, List.take_length]
        · obtain ⟨j, hj, rfl⟩ := List.mem_take_iff_getElem.mp hi
          simpa using hbefore j (by omega)
      · cases h
  · rintro ⟨t, body, hinsts, ht, hbody⟩
    have hfind : b.insts.findIdx? Inst.isTerminator = some body.length := by
      rw [hinsts, List.findIdx?_append, List.findIdx?_eq_none_iff.mpr hbody]
      simp [ht]
    rw [hfind]
    simp [hinsts]

theorem Inst.fault?_eq_none_iff {globals : Nat} {f : Function} {block : String} {i : Inst} :
    i.fault? globals f.defined f block = none ↔ i.WellFormed globals f := by
  unfold fault?
  constructor
  · intro h
    split at h
    · cases h
    · rename_i hknown
      have hknown : ∀ v ∈ i.operands, v.isKnown globals f.defined = true := by
        simpa using hknown
      cases i with
      | br target =>
        refine ⟨hknown, rfl, fun t ht => ?_⟩
        cases ht
        by_contra hge
        simp [hge] at h
      | _ => exact ⟨hknown, by simpa using h, fun t ht => by cases ht⟩
  · rintro ⟨hknown, htyped, htarget⟩
    rw [if_neg (by simpa using hknown)]
    cases i with
    | br target => exact if_pos (htarget target rfl)
    | _ => simp [htyped]

theorem Function.fault?_eq_none_iff {globals : Nat} {f : Function} :
    f.fault? globals = none ↔ f.WellFormed globals := by
  rw [fault?]
  constructor
  · intro h
    split at h
    · cases h
    · rename_i hnames
      have hblocks := List.findSome?_eq_none_iff.mp h
      simp only [Block.fault?, Option.or_eq_none_iff] at hblocks
      refine ⟨firstRepeat_eq_none_iff.mp hnames, fun b hb => ?_, fun b hb i hi => ?_⟩
      · exact Block.terminatorFault?_eq_none_iff.mp (hblocks b hb).1
      · exact Inst.fault?_eq_none_iff.mp (List.findSome?_eq_none_iff.mp (hblocks b hb).2 i hi)
  · rintro ⟨hnames, hclosed, hinsts⟩
    rw [firstRepeat_eq_none_iff.mpr hnames]
    refine List.findSome?_eq_none_iff.mpr fun b hb => ?_
    rw [Block.fault?, Block.terminatorFault?_eq_none_iff.mpr (hclosed b hb), Option.none_or]
    exact List.findSome?_eq_none_iff.mpr fun i hi =>
      Inst.fault?_eq_none_iff.mpr (hinsts b hb i hi)

/-- **The verifier decides well-formedness.** -/
theorem Module.verify_eq_ok_iff {m : Module} : m.verify = .ok () ↔ m.WellFormed := by
  have hfault : m.verify = .ok () ↔ m.fault? = none := by
    rw [verify]
    cases m.fault? <;> simp
  rw [hfault, fault?]
  constructor
  · intro h
    split at h
    · cases h
    · rename_i hsymbols
      exact ⟨firstRepeat_eq_none_iff.mp hsymbols, fun f hf =>
        Function.fault?_eq_none_iff.mp (List.findSome?_eq_none_iff.mp h f hf)⟩
  · rintro ⟨hsymbols, hfunctions⟩
    rw [firstRepeat_eq_none_iff.mpr hsymbols]
    exact List.findSome?_eq_none_iff.mpr fun f hf =>
      Function.fault?_eq_none_iff.mpr (hfunctions f hf)

/-- A declaration has nothing that could be wrong. -/
theorem Function.wellFormed_of_blocks_eq_nil {globals : Nat} {f : Function} (h : f.blocks = []) :
    f.WellFormed globals := by
  refine ⟨by simp [blockNames, h], ?_, ?_⟩ <;> simp [h]

end Mos6502.IR
