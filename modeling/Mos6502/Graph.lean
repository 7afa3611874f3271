/-!
# Reachability

Graphs on the vertices `0, …, n - 1`, given by the successors of each vertex. A successor that is
no vertex is no edge.

`explore` walks over a graph and marks what it meets. A vertex is expanded only when it is marked,
so the walk ends: each step either marks one more vertex or shortens the list of those to look at.
-/

namespace Mos6502.Graph

theorem count_set_lt {marks : List Bool} {i : Nat} (h : marks[i]? = some false) :
    (marks.set i true).count false < marks.count false := by
  obtain ⟨hi, hget⟩ := List.getElem?_eq_some_iff.mp h
  have hpos : 0 < marks.count false := List.count_pos_iff.mpr (hget ▸ List.getElem_mem hi)
  rw [List.count_set hi, hget]
  show marks.count false - 1 + 0 < marks.count false
  omega

/-- Marks what can be reached from the vertices in `stack`, given what is marked already. -/
def explore (succ : Nat → List Nat) (marks : List Bool) (stack : List Nat) : List Bool :=
  match stack with
  | [] => marks
  | i :: rest =>
    if h : marks[i]? = some false then
      have : (marks.set i true).count false < marks.count false := count_set_lt h
      explore succ (marks.set i true) (succ i ++ rest)
    else
      explore succ marks rest
termination_by (marks.count false, stack.length)

/-- Which of the first `n` vertices can be reached from the roots. -/
def reach (n : Nat) (succ : Nat → List Nat) (roots : List Nat) : List Bool :=
  explore succ (List.replicate n false) roots

/-- Can the vertex be reached from the roots? -/
def reaches (n : Nat) (succ : Nat → List Nat) (roots : List Nat) (i : Nat) : Bool :=
  (reach n succ roots)[i]?.getD false

/-- Does every way from `root` to `i` lead through `d`? It does if `i` cannot be reached any more
once `d` has no successors. -/
def dominates (n : Nat) (succ : Nat → List Nat) (root d i : Nat) : Bool :=
  d == i || d == root || !reaches n (fun j => if j = d then [] else succ j) [root] i

@[simp] theorem length_explore (succ : Nat → List Nat) (marks : List Bool) (stack : List Nat) :
    (explore succ marks stack).length = marks.length := by
  fun_induction explore succ marks stack with
  | case1 => rfl
  | case2 _ _ _ _ _ ih => simpa using ih
  | case3 _ _ _ _ ih => exact ih

end Mos6502.Graph
