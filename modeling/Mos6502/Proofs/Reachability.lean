import Mos6502.Graph
import Mathlib.Tactic.Common

/-!
# What a walk over a graph marks

`Graph.explore` returns marks that contain the ones it was given and the vertices it was asked to
look at. Beyond that they are closed: a vertex that it marks has all its successors marked. The
last fact carries the other two through the induction, since the successors of a new vertex are
looked at in the rest of the walk.

Nothing else is marked. This is stated for any property that holds of the roots and goes along the
edges, so that a notion of reachability with other data in it can be compared directly.

## Main results

* `Graph.reach_of_mem` — the roots are reached
* `Graph.reach_succ` — what is reached is closed under edges
* `Graph.reach_induction` — and contains nothing beyond that
-/

namespace Mos6502.Graph

variable {succ : Nat → List Nat} {marks : List Bool} {stack : List Nat}

theorem explore_of_marked {i : Nat} (h : marks[i]? = some true) :
    (explore succ marks stack)[i]? = some true := by
  fun_induction explore succ marks stack with
  | case1 => exact h
  | case2 marks j rest hj _ ih =>
    refine ih ?_
    rw [List.getElem?_set_ne ?_]
    · exact h
    · rintro rfl
      rw [h] at hj
      cases hj
  | case3 marks j rest _ ih => exact ih h

theorem explore_of_mem {i : Nat} (h : i ∈ stack) (hi : i < marks.length) :
    (explore succ marks stack)[i]? = some true := by
  fun_induction explore succ marks stack with
  | case1 => simp at h
  | case2 marks j rest hj _ ih =>
    rcases List.mem_cons.mp h with rfl | h
    · exact explore_of_marked (List.getElem?_set_self hi)
    · exact ih (List.mem_append_right _ h) (by simpa using hi)
  | case3 marks j rest hj ih =>
    rcases List.mem_cons.mp h with rfl | h
    · refine explore_of_marked ?_
      rw [List.getElem?_eq_getElem hi] at hj ⊢
      simpa using hj
    · exact ih h hi

/-- A vertex that the walk marks has all its successors marked. -/
theorem explore_succ {i j : Nat} (h : (explore succ marks stack)[i]? = some true)
    (hnew : marks[i]? ≠ some true) (hj : j ∈ succ i) (hlt : j < marks.length) :
    (explore succ marks stack)[j]? = some true := by
  fun_induction explore succ marks stack with
  | case1 => exact absurd h hnew
  | case2 marks k rest hk _ ih =>
    by_cases hik : i = k
    · -- the vertex is expanded here: its successors are looked at next
      subst hik
      exact explore_of_mem (List.mem_append_left _ hj) (by simpa using hlt)
    · refine ih h ?_ (by simpa using hlt)
      rwa [List.getElem?_set_ne (Ne.symm hik)]
  | case3 marks k rest hk ih => exact ih h hnew hlt

theorem reach_of_mem {n i : Nat} {roots : List Nat} (h : i ∈ roots) (hi : i < n) :
    (reach n succ roots)[i]? = some true :=
  explore_of_mem h (by simpa using hi)

/-- What is reached is closed under edges. -/
theorem reach_succ {n i j : Nat} {roots : List Nat} (h : (reach n succ roots)[i]? = some true)
    (hj : j ∈ succ i) (hlt : j < n) : (reach n succ roots)[j]? = some true := by
  refine explore_succ h ?_ hj (by simpa using hlt)
  intro hi
  have := List.eq_of_mem_replicate (List.mem_of_getElem? hi)
  cases this

/-- The walk marks nothing but what was marked, what it was asked to look at, and what edges lead to
from there. -/
theorem explore_induction {P : Nat → Prop} (hmarks : ∀ i, marks[i]? = some true → P i)
    (hstack : ∀ i ∈ stack, i < marks.length → P i)
    (hsucc : ∀ i j, P i → j ∈ succ i → j < marks.length → P j) {i : Nat}
    (h : (explore succ marks stack)[i]? = some true) : P i := by
  fun_induction explore succ marks stack with
  | case1 => exact hmarks i h
  | case2 marks k rest hk _ ih =>
    have hlt : k < marks.length := (List.getElem?_eq_some_iff.mp hk).1
    have hPk : P k := hstack k List.mem_cons_self hlt
    rw [List.length_set] at ih
    refine ih (fun j hj => ?_) (fun j hj hlt => ?_) hsucc h
    · by_cases hjk : k = j
      · exact hjk ▸ hPk
      · rw [List.getElem?_set_ne hjk] at hj
        exact hmarks j hj
    · rcases List.mem_append.mp hj with hj | hj
      · exact hsucc k j hPk hj hlt
      · exact hstack j (List.mem_cons_of_mem k hj) hlt
  | case3 marks k rest _ ih =>
    exact ih hmarks (fun j hj => hstack j (List.mem_cons_of_mem k hj)) hsucc h

/-- What holds of the roots and goes along the edges holds of all that is reached. -/
theorem reach_induction {n i : Nat} {roots : List Nat} {P : Nat → Prop}
    (hroots : ∀ i ∈ roots, i < n → P i) (hsucc : ∀ i j, P i → j ∈ succ i → j < n → P j)
    (h : (reach n succ roots)[i]? = some true) : P i := by
  refine explore_induction (fun j hj => ?_) (by simpa using hroots) (by simpa using hsucc) h
  have := List.eq_of_mem_replicate (List.mem_of_getElem? hj)
  cases this

@[simp] theorem length_reach (n : Nat) (roots : List Nat) :
    (reach n succ roots).length = n := by
  simp [reach]

end Mos6502.Graph
