import Mos6502.IR.Prune
import Mos6502.Proofs.Execution
import Mos6502.Proofs.Reachability

/-!
# Pruning does not change what a function does

Pruning keeps the blocks that are marked live and renumbers the branches. A block that is kept
stands at the renumbered place, with its branches renumbered, and what it branches to is kept too.
So a run of the function and a run of the pruned one go through the same blocks, under different
numbers.

The places a run can be at are those of live blocks, and those of blocks that do not exist: a
branch may lead there, and there it stays stuck in both functions. `Function.Tracked` is this
condition; it holds at the first block and no step leaves it.

## Main results

* `Function.blocks_prune` — the blocks of a pruned function, whether or not any block went away
* `Function.getElem?_blocks_prune` — where a live block is found
* `Function.step_prune`, `Function.HaltsWith.prune` — a step, and a whole run, of a pruned function
-/

namespace Mos6502.IR

/-! ### Marked elements -/

section

variable {α : Type}

@[simp] theorem keepMarked_nil (marks : List Bool) : keepMarked marks ([] : List α) = [] :=
  rfl

theorem keepMarked_cons (m : Bool) (marks : List Bool) (x : α) (xs : List α) :
    keepMarked (m :: marks) (x :: xs) =
      if m then x :: keepMarked marks xs else keepMarked marks xs := by
  cases m <;> rfl

theorem keepMarked_sublist (marks : List Bool) (xs : List α) :
    (keepMarked marks xs).Sublist xs := by
  induction xs generalizing marks with
  | nil => exact List.Sublist.refl _
  | cons x xs ih =>
    cases marks with
    | nil => exact List.nil_sublist _
    | cons m marks =>
      rw [keepMarked_cons]
      split
      · exact (ih marks).cons_cons x
      · exact (ih marks).cons x

theorem keepMarked_of_all {marks : List Bool} (h : marks.all id) {xs : List α}
    (hlen : marks.length = xs.length) : keepMarked marks xs = xs := by
  induction xs generalizing marks with
  | nil => rfl
  | cons x xs ih =>
    cases marks with
    | nil => cases hlen
    | cons m marks =>
      simp only [List.all_cons, id, Bool.and_eq_true] at h
      rw [keepMarked_cons, if_pos h.1, ih h.2 (Nat.succ.inj hlen)]

/-- A marked element moves up by the number of elements in front of it that have no mark. -/
theorem getElem?_keepMarked {marks : List Bool} {i : Nat} (h : marks[i]? = some true)
    (xs : List α) : (keepMarked marks xs)[(marks.take i).count true]? = xs[i]? := by
  induction marks generalizing xs i with
  | nil => simp at h
  | cons m marks ih =>
    cases xs with
    | nil => simp
    | cons x xs =>
      cases i with
      | zero =>
        obtain rfl : m = true := by simpa using h
        rfl
      | succ i =>
        have hi := ih (by simpa using h) xs
        cases m <;> simpa [keepMarked_cons] using hi

end

/-! ### Renumbering -/

@[simp] theorem renumber_zero (marks : List Bool) : renumber marks 0 = 0 := by
  simp [renumber]

theorem renumber_of_ne {marks : List Bool} {i : Nat} (h : marks[i]? ≠ some true) :
    renumber marks i = i :=
  if_neg h

theorem renumber_of_all {marks : List Bool} (h : marks.all id) (i : Nat) :
    renumber marks i = i := by
  rw [renumber]
  split
  · rename_i hi
    have hlt : i < marks.length := (List.getElem?_eq_some_iff.mp hi).1
    have hall : ∀ m ∈ marks.take i, m = true := fun m hm => by
      simpa using List.all_eq_true.mp h m (List.mem_of_mem_take hm)
    rw [List.count_eq_length.mpr fun m hm => (hall m hm).symm, List.length_take]
    omega
  · rfl

/-- The first block keeps its number to itself. -/
theorem renumber_pos {marks : List Bool} (h : marks[0]? = some true) {i : Nat} (hi : 0 < i) :
    0 < renumber marks i := by
  rw [renumber]
  split
  · obtain ⟨i, rfl⟩ := Nat.exists_eq_succ_of_ne_zero (Nat.pos_iff_ne_zero.mp hi)
    cases marks with
    | nil => simp at h
    | cons m marks =>
      obtain rfl : m = true := by simpa using h
      simp
  · exact hi

@[simp] theorem Inst.dest?_renumber (marks : List Bool) (i : Inst) :
    (i.renumber marks).dest? = i.dest? := by
  cases i <;> rfl

@[simp] theorem Inst.operands_renumber (marks : List Bool) (i : Inst) :
    (i.renumber marks).operands = i.operands := by
  cases i <;> rfl

@[simp] theorem Inst.isTerminator_renumber (marks : List Bool) (i : Inst) :
    (i.renumber marks).isTerminator = i.isTerminator := by
  cases i <;> rfl

@[simp] theorem Inst.target?_renumber (marks : List Bool) (i : Inst) :
    (i.renumber marks).target? = i.target?.map (IR.renumber marks) := by
  cases i <;> rfl

theorem Inst.exec_renumber (marks : List Bool) (i : Inst) (s : Frame) :
    (i.renumber marks).exec s = i.exec s := by
  cases i <;> rfl

theorem Block.renumber_of_all {marks : List Bool} (h : marks.all id) (b : Block) :
    b.renumber marks = b := by
  have hinst : Inst.renumber marks = id := by
    funext i
    cases i with
    | br target => simp [Inst.renumber, IR.renumber_of_all h]
    | _ => rfl
  simp [Block.renumber, hinst]

/-- The same place under the new numbers. -/
def Position.renumber (marks : List Bool) (p : Position) : Position :=
  { p with block := IR.renumber marks p.block }

/-- The same configuration under the new numbers. -/
def Config.renumber (marks : List Bool) (c : Config) : Config :=
  { c with pos := c.pos.renumber marks }

theorem Inst.next?_renumber (marks : List Bool) (i : Inst) (p : Position) :
    (i.renumber marks).next? (p.renumber marks) = (i.next? p).map (Position.renumber marks) := by
  cases i <;> rfl

/-! ### The blocks of a pruned function -/

namespace Function

variable {f : Function}

@[simp] theorem length_live (f : Function) : f.live.length = f.blocks.length := by
  simp [live]

/-- The first block is live. -/
theorem live_zero (h : f.blocks ≠ []) : f.live[0]? = some true := by
  have hpos : 0 < f.blocks.length := List.length_pos_iff.mpr h
  refine Graph.reach_of_mem ?_ hpos
  exact List.mem_filter.mpr ⟨List.mem_range.mpr hpos, by simp⟩

/-- What a live block branches to is live, if it exists. -/
theorem live_target {b : Block} {i t : Nat} (hi : f.live[i]? = some true)
    (hb : f.blocks[i]? = some b) (ht : t ∈ b.targets) (hlt : t < f.blocks.length) :
    f.live[t]? = some true :=
  Graph.reach_succ hi (by simpa [successors, hb] using ht) hlt

/-- **A pruned function** is the old one with other blocks. If nothing is pruned, then keeping all
blocks and renumbering them changes nothing. -/
theorem prune_fst (f : Function) :
    f.prune.1 =
      { f with blocks := (keepMarked f.live f.blocks).map (Block.renumber f.live) } := by
  rw [prune]
  split
  · rename_i hall
    have hsame : f.blocks.map (Block.renumber f.live) = f.blocks :=
      (List.map_congr_left fun b _ => Block.renumber_of_all hall b).trans (List.map_id _)
    rw [keepMarked_of_all hall (by simp), hsame]
  · rfl

theorem blocks_prune (f : Function) :
    f.prune.1.blocks = (keepMarked f.live f.blocks).map (Block.renumber f.live) := by
  rw [prune_fst]

@[simp] theorem locals_prune (f : Function) : f.prune.1.locals = f.locals := by
  rw [prune_fst]

@[simp] theorem name_prune (f : Function) : f.prune.1.name = f.name := by
  rw [prune_fst]

/-- The blocks that stay have different names if all blocks had. -/
theorem nodup_blockNames_prune (h : f.blockNames.Nodup) : f.prune.1.blockNames.Nodup := by
  rw [blockNames, blocks_prune, List.map_map]
  exact h.sublist ((keepMarked_sublist _ _).map _)

theorem length_blocks_prune_le (f : Function) : f.prune.1.blocks.length ≤ f.blocks.length := by
  rw [blocks_prune, List.length_map]
  exact (keepMarked_sublist _ _).length_le

/-- A live block is found at its new number. -/
theorem getElem?_blocks_prune {i : Nat} (hi : f.live[i]? = some true) :
    f.prune.1.blocks[renumber f.live i]? = f.blocks[i]?.map (Block.renumber f.live) := by
  rw [blocks_prune, List.getElem?_map, renumber, if_pos hi, getElem?_keepMarked hi]

theorem renumber_lt_length_blocks_prune {i : Nat} (hi : f.live[i]? = some true) :
    renumber f.live i < f.prune.1.blocks.length := by
  have hlt : i < f.blocks.length := by
    rw [← length_live]
    exact (List.getElem?_eq_some_iff.mp hi).1
  have hget := getElem?_blocks_prune hi
  rw [List.getElem?_eq_getElem hlt, Option.map_some] at hget
  exact (List.getElem?_eq_some_iff.mp hget).1

/-- A block of a pruned function is a live one, renumbered. -/
theorem exists_of_mem_blocks_prune {b : Block} (hb : b ∈ f.prune.1.blocks) :
    ∃ (i : Nat) (b₀ : Block), f.live[i]? = some true ∧ f.blocks[i]? = some b₀ ∧
      b = b₀.renumber f.live := by
  rw [blocks_prune] at hb
  obtain ⟨b₀, hmem, rfl⟩ := List.mem_map.mp hb
  simp only [keepMarked, List.mem_filterMap, Option.ite_none_right_eq_some,
    Option.some.injEq] at hmem
  obtain ⟨⟨_, m⟩, hzip, hm, rfl⟩ := hmem
  obtain ⟨i, hi⟩ := List.getElem?_of_mem hzip
  obtain ⟨hblock, hmark⟩ := List.getElem?_zip_eq_some.mp hi
  exact ⟨i, _, hmark.trans (congrArg some hm), hblock, rfl⟩

/-! ### Runs of a pruned function -/

/-- Runs of a function and of the pruned one agree at such a place: its block is live, or there is
no such block. -/
def Tracked (f : Function) (p : Position) : Prop :=
  f.live[p.block]? = some true ∨ f.blocks.length ≤ p.block

theorem inst?_prune {p : Position} (hp : f.Tracked p) :
    f.prune.1.inst? (p.renumber f.live) = (f.inst? p).map (Inst.renumber f.live) := by
  rcases hp with hlive | hout
  · simp only [inst?, Position.renumber, getElem?_blocks_prune hlive]
    cases f.blocks[p.block]? with
    | none => rfl
    | some b => simp [Block.renumber]
  · have hmark : f.live[p.block]? ≠ some true := by
      rw [List.getElem?_eq_none (by simpa using hout)]
      simp
    have hout' := Nat.le_trans (length_blocks_prune_le f) hout
    simp [inst?, Position.renumber, renumber_of_ne hmark, List.getElem?_eq_none hout,
      List.getElem?_eq_none hout']

theorem Tracked.next {p p' : Position} {i : Inst} (hp : f.Tracked p) (hi : f.inst? p = some i)
    (hnext : i.next? p = some p') : f.Tracked p' := by
  obtain ⟨b, hb, hib⟩ := Option.bind_eq_some_iff.mp hi
  cases i with
  | br target =>
    cases hnext
    rcases Nat.lt_or_ge target f.blocks.length with hlt | hge
    · have hlive : f.live[p.block]? = some true := by
        refine hp.resolve_right (Nat.not_le.mpr ?_)
        exact (List.getElem?_eq_some_iff.mp hb).1
      refine Or.inl (live_target hlive hb ?_ hlt)
      exact List.mem_filterMap.mpr ⟨_, List.mem_of_getElem? hib, rfl⟩
    · exact Or.inr hge
  | unreachable => cases hnext
  | alloca | load | store | binary | icmp => cases hnext; exact hp

theorem Tracked.step {c c' : Config} (hc : f.Tracked c.pos) (h : f.step c = some c') :
    f.Tracked c'.pos := by
  unfold Function.step at h
  split at h
  · rename_i i hi
    split at h
    · rename_i p s hp _
      cases h
      exact hc.next hi hp
    · cases h
  · cases h

/-- **A step of a pruned function** is a step of the function, under the new numbers. -/
theorem step_prune {c : Config} (hc : f.Tracked c.pos) :
    f.prune.1.step (c.renumber f.live) = (f.step c).map (Config.renumber f.live) := by
  rw [Function.step, Function.step]
  simp only [Config.renumber, inst?_prune hc]
  cases f.inst? c.pos with
  | none => rfl
  | some i =>
    simp only [Option.map_some, Inst.next?_renumber, Inst.exec_renumber]
    cases i.next? c.pos <;> cases i.exec c.frame <;> rfl

theorem run_prune {c : Config} (hc : f.Tracked c.pos) (n : Nat) :
    f.prune.1.run n (c.renumber f.live) = (f.run n c).map (Config.renumber f.live) := by
  induction n generalizing c with
  | zero => rfl
  | succ n ih =>
    rw [run_succ, run_succ, step_prune hc]
    cases h : f.step c with
    | none => rfl
    | some c' => exact ih (hc.step h)

theorem Tracked.run {c c' : Config} (hc : f.Tracked c.pos) {n : Nat} (h : f.run n c = some c') :
    f.Tracked c'.pos := by
  induction n generalizing c with
  | zero => cases h; exact hc
  | succ n ih =>
    obtain ⟨c₁, h₁, hrest⟩ := Option.bind_eq_some_iff.mp h
    exact ih (hc.step h₁) hrest

/-- **A run of a pruned function** from its first block halts with what the function halts with. -/
theorem HaltsWith.prune (hf : f.blocks ≠ []) {s s' : Frame} (h : f.HaltsWith ⟨⟨0, 0⟩, s⟩ s') :
    f.prune.1.HaltsWith ⟨⟨0, 0⟩, s⟩ s' := by
  obtain ⟨n, p, hrun, hp⟩ := h
  have hstart : f.Tracked ⟨0, 0⟩ := Or.inl (live_zero hf)
  refine ⟨n, p.renumber f.live, ?_, ?_⟩
  · have hpruned := run_prune (c := ⟨⟨0, 0⟩, s⟩) hstart n
    rw [hrun] at hpruned
    simpa [Config.renumber, Position.renumber] using hpruned
  · rw [inst?_prune (hstart.run (c := ⟨⟨0, 0⟩, s⟩) hrun), hp]
    rfl

end Function

end Mos6502.IR
