import Mos6502.Proofs.Pruning
import Mathlib.Data.List.Forall2

/-!
# The blocks that pruning keeps

Pruning finds the blocks to keep by a walk over the function and moves them together. Both halves
are stated here without the walk and without counting. `Function.Entered` gives the blocks that are
kept by rules: a block is entered from outside, or by a branch of a block that is entered.
`Function.Relocates` says what becomes of them: they stand in the same order, with nothing between
them, and each branch leads to the block it led to before.

Later statements about pruned functions start from these two, so that they depend neither on the
marks nor on the formula for the new number of a block.

## Main definitions

* `Function.Entered` — the blocks that a function can come to
* `Inst.StandsFor`, `Block.StandsFor` — code that means the same after blocks were moved
* `Function.Relocates` — a function made of the blocks that another one enters

## Main results

* `Function.live_eq_true_iff` — the walk marks exactly the blocks that are entered
* `Function.relocates_prune` — pruning moves them together
-/

namespace Mos6502.IR

/-! ### Blocks that are entered -/

/-- A block is entered: from outside, or by a branch of a block that is entered. A branch to a block
that does not exist enters nothing. -/
inductive Function.Entered (f : Function) : Nat → Prop
  | entry {i : Nat} {b : Block} (hb : f.blocks[i]? = some b) (h : i = 0 ∨ b.pinned = true) :
      f.Entered i
  | branch {i t : Nat} {b : Block} (h : f.Entered i) (hb : f.blocks[i]? = some b)
      (ht : Inst.br t ∈ b.insts) (hlt : t < f.blocks.length) : f.Entered t

theorem Block.mem_targets_iff {b : Block} {t : Nat} : t ∈ b.targets ↔ Inst.br t ∈ b.insts := by
  rw [targets, List.mem_filterMap]
  constructor
  · rintro ⟨i, hi, ht⟩
    cases i with
    | br target =>
      obtain rfl : target = t := Option.some.inj ht
      exact hi
    | _ => cases ht
  · intro h
    exact ⟨_, h, rfl⟩

namespace Function

variable {f : Function} {i : Nat}

theorem mem_entries_iff :
    i ∈ f.entries ↔ ∃ b, f.blocks[i]? = some b ∧ (i = 0 ∨ b.pinned = true) := by
  rw [entries, List.mem_filter, List.mem_range]
  constructor
  · rintro ⟨hlt, h⟩
    refine ⟨_, List.getElem?_eq_getElem hlt, ?_⟩
    simpa [List.getElem?_eq_getElem hlt] using h
  · rintro ⟨b, hb, h⟩
    refine ⟨(List.getElem?_eq_some_iff.mp hb).1, ?_⟩
    simpa [hb] using h

/-- **The walk marks exactly the blocks that are entered.** -/
theorem live_eq_true_iff : f.live[i]? = some true ↔ f.Entered i := by
  constructor
  · refine Graph.reach_induction (fun j hj _ => ?_) fun j t hj ht hlt => ?_
    · obtain ⟨b, hb, h⟩ := mem_entries_iff.mp hj
      exact .entry hb h
    · unfold successors at ht
      split at ht
      · next b hb => exact .branch hj hb (Block.mem_targets_iff.mp ht) hlt
      · cases ht
  · intro h
    induction h with
    | entry hb h =>
      exact Graph.reach_of_mem (mem_entries_iff.mpr ⟨_, hb, h⟩) (List.getElem?_eq_some_iff.mp hb).1
    | branch _ hb ht hlt ih => exact live_target ih hb (Block.mem_targets_iff.mpr ht) hlt

theorem Entered.lt (h : f.Entered i) : i < f.blocks.length := by
  cases h with
  | entry hb _ => exact (List.getElem?_eq_some_iff.mp hb).1
  | branch _ _ _ hlt => exact hlt

end Function

/-! ### Moved blocks -/

/-- An instruction of `f` and the one that stands for it in `g`, where block `t` of `f` went to
`place t`. They are the same, or branches to the same block, or both branches to no block. -/
inductive Inst.StandsFor (f g : Function) (place : Nat → Nat) : Inst → Inst → Prop
  | same {i : Inst} (h : i.target? = none) : StandsFor f g place i i
  | br {t : Nat} (h : f.Entered t) : StandsFor f g place (br t) (br (place t))
  | nowhere {t t' : Nat} (h : f.blocks.length ≤ t) (h' : g.blocks.length ≤ t') :
      StandsFor f g place (br t) (br t')

/-- A block of `f` and the one that stands for it in `g`. -/
structure Block.StandsFor (f g : Function) (place : Nat → Nat) (b c : Block) : Prop where
  name : c.name = b.name
  pinned : c.pinned = b.pinned
  insts : List.Forall₂ (Inst.StandsFor f g place) b.insts c.insts

/-- The blocks of `g` are those that `f` enters, in their order, and block `i` went to `place i`. -/
structure Function.Relocates (f g : Function) (place : Nat → Nat) : Prop where
  mono : ∀ {i j : Nat}, f.Entered i → f.Entered j → i < j → place i < place j
  onto : ∀ k < g.blocks.length, ∃ i, f.Entered i ∧ place i = k
  blocks : ∀ {i : Nat}, f.Entered i → ∃ b c : Block,
    f.blocks[i]? = some b ∧ g.blocks[place i]? = some c ∧ b.StandsFor f g place c

/-! ### New numbers -/

theorem renumber_lt_renumber {marks : List Bool} {i j : Nat} (hi : marks[i]? = some true)
    (hj : marks[j]? = some true) (h : i < j) : renumber marks i < renumber marks j := by
  rw [renumber, renumber, if_pos hi, if_pos hj]
  have hsucc : (marks.take (i + 1)).count true = (marks.take i).count true + 1 := by
    rw [List.take_add_one, hi, List.count_append]
    rfl
  have hle : (marks.take (i + 1)).count true ≤ (marks.take j).count true :=
    (List.take_sublist_take_left h).count_le true
  omega

/-- Each place that is taken after the move is that of a marked element. -/
theorem exists_count_eq {α : Type} {marks : List Bool} {xs : List α} {k : Nat}
    (hk : k < (keepMarked marks xs).length) :
    ∃ i, marks[i]? = some true ∧ (marks.take i).count true = k := by
  induction marks generalizing xs k with
  | nil => simp [keepMarked] at hk
  | cons m marks ih =>
    cases xs with
    | nil => simp at hk
    | cons x xs =>
      rw [keepMarked_cons] at hk
      cases m with
      | false =>
        obtain ⟨i, hi, hcount⟩ := ih (by simpa using hk)
        exact ⟨i + 1, by simpa using hi, by simpa using hcount⟩
      | true =>
        cases k with
        | zero => exact ⟨0, rfl, rfl⟩
        | succ k =>
          have hrest : k < (keepMarked marks xs).length := by simpa using hk
          obtain ⟨i, hi, hcount⟩ := ih hrest
          exact ⟨i + 1, by simpa using hi, by simpa using hcount⟩

/-! ### Pruning -/

namespace Function

variable {f : Function}

theorem standsFor_renumber {b : Block} {j : Nat} (hj : f.Entered j) (hb : f.blocks[j]? = some b)
    {i : Inst} (hi : i ∈ b.insts) :
    i.StandsFor f f.prune.1 (renumber f.live) (i.renumber f.live) := by
  cases i with
  | br t =>
    rcases Nat.lt_or_ge t f.blocks.length with hlt | hge
    · exact .br (.branch hj hb hi hlt)
    · -- a number that no block has is not changed, and there are not more blocks now
      have hmark : f.live[t]? ≠ some true := by
        rw [List.getElem?_eq_none (by simpa using hge)]
        simp
      refine .nowhere hge ?_
      rw [renumber_of_ne hmark]
      exact Nat.le_trans (length_blocks_prune_le f) hge
  | _ => exact .same rfl

/-- **Pruning moves the blocks that are entered together.** -/
theorem relocates_prune (f : Function) : f.Relocates f.prune.1 (renumber f.live) where
  mono hi hj h := renumber_lt_renumber (live_eq_true_iff.mpr hi) (live_eq_true_iff.mpr hj) h
  onto k hk := by
    rw [blocks_prune, List.length_map] at hk
    obtain ⟨i, hi, hcount⟩ := exists_count_eq hk
    exact ⟨i, live_eq_true_iff.mp hi, by rw [renumber, if_pos hi, hcount]⟩
  blocks {i} hi := by
    obtain ⟨b, hb⟩ : ∃ b, f.blocks[i]? = some b := ⟨_, List.getElem?_eq_getElem hi.lt⟩
    refine ⟨b, b.renumber f.live, hb, ?_, rfl, rfl, ?_⟩
    · rw [getElem?_blocks_prune (live_eq_true_iff.mpr hi), hb]
      rfl
    · exact List.forall₂_map_right_iff.mpr
        (List.forall₂_same.mpr fun inst hinst => standsFor_renumber hi hb hinst)

end Function

end Mos6502.IR
