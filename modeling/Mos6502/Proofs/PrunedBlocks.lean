import Mos6502.Proofs.PrunedRuns
import Mathlib.Algebra.BigOperators.Group.Finset.Basic
import Mathlib.Logic.Function.Iterate

/-!
# What pruning removes, and that it is done once

Pruning is one walk over the blocks and one move of those that were met. The walk may put a block on
its list once for every branch that leads there, so the list can grow while the walk goes on; what
cannot grow is the list together with the branches of the blocks that were not met yet. Each look
takes one off this sum, and `Graph.iterate_look` turns it into a bound on the length of the walk.

A function that was pruned enters all its blocks: a way to a block in the old function is a way to
the place where the block went. So another walk over it meets everything, and nothing is moved any
more.

## Main definitions

* `Graph.look` — one look of the walk
* `Graph.unmarked` — the vertices that were not met yet

## Main results

* `Graph.iterate_look` — the walk comes to its end, and when
* `Function.Relocates.entered` — blocks that were entered are entered where they went
* `Function.prune_prune` — pruning again changes nothing
* `prune_keeps_entered`
-/

namespace Mos6502.Graph

open Finset

variable {succ : Nat → List Nat} {marks : List Bool}

/-! ### The length of a walk -/

/-- One look of a walk, at the first vertex of the list. A vertex that is met for the first time is
marked, and its successors come to the front of the list. -/
def look (succ : Nat → List Nat) : List Bool × List Nat → List Bool × List Nat
  | (marks, []) => (marks, [])
  | (marks, i :: rest) =>
    if marks[i]? = some false then (marks.set i true, succ i ++ rest) else (marks, rest)

/-- The vertices without a mark. -/
def unmarked (marks : List Bool) : Finset Nat :=
  {i ∈ range marks.length | marks[i]? = some false}

theorem mem_unmarked {i : Nat} : i ∈ unmarked marks ↔ marks[i]? = some false := by
  rw [unmarked, mem_filter, mem_range, and_iff_right_iff_imp]
  intro h
  exact (List.getElem?_eq_some_iff.mp h).1

theorem unmarked_set (marks : List Bool) (i : Nat) :
    unmarked (marks.set i true) = (unmarked marks).erase i := by
  ext j
  rw [mem_erase, mem_unmarked, mem_unmarked]
  by_cases hij : i = j
  · subst hij
    simp [List.getElem?_set]
  · rw [List.getElem?_set_ne hij]
    exact (and_iff_right (Ne.symm hij)).symm

theorem unmarked_replicate (n : Nat) : unmarked (List.replicate n false) = range n := by
  ext i
  rw [mem_unmarked, List.getElem?_replicate, mem_range]
  split <;> simp [*]

/-- **A walk comes to its end** after at most as many looks as there are vertices on the list and
edges out of vertices without a mark. -/
theorem iterate_look (succ : Nat → List Nat) (marks : List Bool) (stack : List Nat) :
    (look succ)^[stack.length + ∑ i ∈ unmarked marks, (succ i).length] (marks, stack) =
      (explore succ marks stack, []) := by
  fun_induction explore succ marks stack with
  | case1 marks =>
    -- the list is empty, and looking on changes nothing
    exact Function.iterate_fixed rfl _
  | case2 marks i rest hi _ ih =>
    -- the edges of the new vertex go from the sum to the list
    have hsum := add_sum_erase _ (fun j => (succ j).length) (mem_unmarked.mpr hi)
    have hcount : (i :: rest).length + ∑ j ∈ unmarked marks, (succ j).length =
        ((succ i ++ rest).length + ∑ j ∈ unmarked (marks.set i true), (succ j).length) + 1 := by
      rw [unmarked_set, List.length_cons, List.length_append]
      omega
    rw [hcount, Function.iterate_succ_apply]
    simpa only [look, if_pos hi] using ih
  | case3 marks i rest hi ih =>
    have hcount : (i :: rest).length + ∑ j ∈ unmarked marks, (succ j).length =
        (rest.length + ∑ j ∈ unmarked marks, (succ j).length) + 1 := by
      rw [List.length_cons]
      omega
    rw [hcount, Function.iterate_succ_apply]
    simpa only [look, if_neg hi] using ih

end Mos6502.Graph

namespace Mos6502.IR

/-! ### Blocks that went away -/

theorem length_keepMarked {α : Type} {marks : List Bool} {xs : List α}
    (h : marks.length = xs.length) : (keepMarked marks xs).length = marks.count true := by
  induction marks generalizing xs with
  | nil => cases xs <;> rfl
  | cons m marks ih =>
    cases xs with
    | nil => cases h
    | cons x xs => cases m <;> simp [keepMarked_cons, ih (Nat.succ.inj h)]

namespace Function

variable {f g : Function} {place : Nat → Nat}

/-- The walk of pruning looks at the entries and along each branch once. -/
theorem iterate_look_live (f : Function) :
    (Graph.look f.successors)^[f.entries.length +
        ∑ i ∈ Finset.range f.blocks.length, (f.successors i).length]
      (List.replicate f.blocks.length false, f.entries) = (f.live, []) := by
  rw [← Graph.unmarked_replicate]
  exact Graph.iterate_look _ _ _

/-- Pruning says that it changed something exactly if a block went away. -/
theorem prune_snd_iff : f.prune.2 = true ↔ f.prune.1.blocks.length < f.blocks.length := by
  have hcount : f.prune.1.blocks.length = f.live.count true := by
    rw [blocks_prune, List.length_map, length_keepMarked (length_live f)]
  rw [hcount, ← length_live f]
  have hflag : f.prune.2 = !f.live.all id := by
    rw [prune]
    split <;> simp [*]
  have hall : f.live.count true = f.live.length ↔ f.live.all id = true := by
    rw [List.count_eq_length, List.all_eq_true]
    exact ⟨fun h m hm => (h m hm).symm, fun h m hm => (h m hm).symm⟩
  have hle : f.live.count true ≤ f.live.length := List.count_le_length
  rw [hflag, Bool.not_eq_true', ← Bool.not_eq_true, ← hall]
  omega

/-! ### Pruning again -/

/-- A branch to a block that exists still stands where its block went. -/
theorem br_mem_of_standsFor {is js : List Inst}
    (h : List.Forall₂ (Inst.StandsFor f g place) is js) {t : Nat} (ht : Inst.br t ∈ is)
    (hlt : t < f.blocks.length) : Inst.br (place t) ∈ js := by
  induction h with
  | nil => cases ht
  | cons hij _ ih =>
    rcases List.mem_cons.mp ht with rfl | ht
    · cases hij with
      | same h => cases h
      | br _ => exact List.mem_cons_self
      | nowhere hge _ => exact absurd hlt (Nat.not_lt.mpr hge)
    · exact List.mem_cons_of_mem _ (ih ht)

namespace Relocates

/-- The first block stays the first one: no block that is entered comes before it. -/
theorem place_zero (hg : f.Relocates g place) (h : f.Entered 0) : place 0 = 0 := by
  obtain ⟨j, hj, hplace⟩ := hg.onto 0 (Nat.lt_of_le_of_lt (Nat.zero_le _) (hg.place_lt h))
  rcases Nat.eq_zero_or_pos j with rfl | hpos
  · exact hplace
  · have hlt := hg.mono h hj hpos
    omega

/-- Blocks that were entered are entered where they went. -/
theorem entered (hg : f.Relocates g place) {i : Nat} (hi : f.Entered i) : g.Entered (place i) := by
  induction hi with
  | @entry i b hb h =>
    obtain ⟨_, c, hb', hc, hbc⟩ := hg.blocks (.entry hb h)
    obtain rfl := Option.some.inj (hb.symm.trans hb')
    refine .entry hc (h.imp (fun hzero => ?_) fun hpinned => ?_)
    · subst hzero
      exact hg.place_zero (.entry hb h)
    · rw [hbc.pinned, hpinned]
  | @branch i t b hi hb ht hlt ih =>
    obtain ⟨_, c, hb', hc, hbc⟩ := hg.blocks hi
    obtain rfl := Option.some.inj (hb.symm.trans hb')
    exact .branch ih hc (br_mem_of_standsFor hbc.insts ht hlt) (hg.place_lt (.branch hi hb ht hlt))

end Relocates

/-- **Pruning again changes nothing**: every block of a pruned function is entered. -/
theorem prune_prune (f : Function) : f.prune.1.prune = (f.prune.1, false) := by
  have hall : f.prune.1.live.all id = true := by
    refine List.all_eq_true.mpr fun m hm => ?_
    obtain ⟨k, hk⟩ := List.getElem?_of_mem hm
    have hlt : k < f.prune.1.blocks.length := by
      rw [← length_live]
      exact (List.getElem?_eq_some_iff.mp hk).1
    obtain ⟨i, hi, rfl⟩ := f.relocates_prune.onto k hlt
    have hlive := live_eq_true_iff.mpr (f.relocates_prune.entered hi)
    exact Option.some.inj (hk.symm.trans hlive)
  rw [prune]
  exact if_pos hall

end Function

/-- **Pruning removes exactly the blocks that are never entered.** Its walk is over after at most as
many looks as there are entries and branches. The blocks that are entered move together and each
branch follows its block, everything else of the function is as it was, the flag tells whether a
block went away, and from then on pruning changes nothing. -/
theorem prune_keeps_entered (f : Function) :
    (∃ n ≤ f.entries.length + ∑ i ∈ Finset.range f.blocks.length, (f.successors i).length,
      (Graph.look f.successors)^[n] (List.replicate f.blocks.length false, f.entries) =
        (f.live, [])) ∧
    (∃ place : Nat → Nat, f.Relocates f.prune.1 place) ∧
    { f.prune.1 with blocks := f.blocks } = f ∧
    (f.prune.2 = true ↔ f.prune.1.blocks.length < f.blocks.length) ∧
    ∀ n, (fun r : Function × Bool => r.1.prune)^[n + 1] f.prune = (f.prune.1, false) := by
  refine ⟨⟨_, Nat.le_refl _, f.iterate_look_live⟩, ⟨_, f.relocates_prune⟩, ?_,
    Function.prune_snd_iff, fun n => ?_⟩
  · rw [Function.prune_fst]
  · have hfixed : (f.prune.1, false).1.prune = (f.prune.1, false) := f.prune_prune
    rw [Function.iterate_succ_apply, Function.prune_prune]
    exact Function.iterate_fixed hfixed n

end Mos6502.IR
