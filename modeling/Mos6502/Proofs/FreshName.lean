import Mos6502.IR.Basic
import Mathlib

/-!
# Fresh names are free

`freshName` tries as many alternatives as there are taken names, and takes the one after them
without looking. It never has to: the alternatives differ from each other, so that all of them and
the one after cannot be taken at once.

So the bound plays no part in the answer. `Search` is the search without one, and a fresh name is
what it ends with: the first free one of the candidates, after no more than one try for each taken
name and one for the free one.

## Main definitions

* `candidate` — the names that are tried for a requested one, in their order
* `Search` — trying them until one is free

## Main results

* `le_card_of_candidate_mem` — no more candidates are taken than there are taken names
* `freshName_not_mem` — a fresh name is free
* `exists_isLeast_freshName` — in place of a taken name there is its first free alternative
* `freshName_ends_search` — a fresh name is the first free candidate, and the search for it ends
* `freshName_perm` — the order of the taken names does not matter
* `firstRepeat_eq_none_iff` — the search for a repeated name finds nothing exactly in lists without
  repetition
* `nodup_symbols_addGlobal`, `nodup_symbols_addFunction`, `nodup_blockNames_appendBlock` — what is
  added to a module takes no name that is in use
-/

namespace Mos6502.Text

theorem suffixed_injective (name : String) : Function.Injective (suffixed name) := by
  intro i j h
  exact Nat.repr_injective ((String.append_right_inj _).mp h)

/-- The names that are tried for a requested one, in their order: the name itself, and then its
alternatives. -/
def candidate (name : String) : Nat → String
  | 0 => name
  | i + 1 => suffixed name (i + 1)

theorem candidate_injective (name : String) : Function.Injective (candidate name) := by
  -- An alternative is longer than the name.
  have hlonger : ∀ i, name ≠ suffixed name i := by
    intro i h
    have hlength := congrArg String.length h
    simp only [suffixed, String.length_append] at hlength
    have : ".".length = 1 := rfl
    omega
  intro i j h
  match i, j with
  | 0, 0 => rfl
  | 0, j + 1 => exact absurd h (hlonger (j + 1))
  | i + 1, 0 => exact absurd h.symm (hlonger (i + 1))
  | i + 1, j + 1 => exact suffixed_injective name h

/-- No more candidates are taken than there are taken names. -/
theorem le_card_of_candidate_mem {name : String} {taken : List String} {k : Nat}
    (h : ∀ i < k, candidate name i ∈ taken) : k ≤ taken.toFinset.card := by
  have hsubset : (Finset.range k).image (candidate name) ⊆ taken.toFinset := by
    intro x hx
    obtain ⟨i, hi, rfl⟩ := Finset.mem_image.mp hx
    exact List.mem_toFinset.mpr (h i (Finset.mem_range.mp hi))
  calc k = ((Finset.range k).image (candidate name)).card := by
        rw [Finset.card_image_of_injective _ (candidate_injective name), Finset.card_range]
    _ ≤ taken.toFinset.card := Finset.card_le_card hsubset

/-- If the search ends at a taken name, then all that it tried were taken. -/
theorem suffixed_mem_of_freshFrom_mem {name : String} {taken : List String} :
    ∀ {tries i : Nat}, freshFrom name taken tries i ∈ taken →
      ∀ k ≤ tries, suffixed name (i + k) ∈ taken := by
  intro tries
  induction tries with
  | zero =>
    intro i h k hk
    obtain rfl : k = 0 := by omega
    exact h
  | succ tries ih =>
    intro i h k hk
    rw [freshFrom] at h
    split at h
    · rename_i hi
      cases k with
      | zero => exact hi
      | succ k =>
        have := ih h k (by omega)
        rwa [show i + (k + 1) = i + 1 + k by omega]
    · exact absurd h ‹_›

/-- **A fresh name is free.** -/
theorem freshName_not_mem (name : String) (taken : List String) : freshName name taken ∉ taken := by
  rw [freshName]
  split
  next hname =>
    intro h
    have hall : ∀ i < taken.length + 2, candidate name i ∈ taken := by
      intro i hi
      cases i with
      | zero => exact hname
      | succ i =>
        rw [candidate, Nat.add_comm]
        exact suffixed_mem_of_freshFrom_mem h i (by omega)
    have hcard := le_card_of_candidate_mem hall
    have hlength := taken.toFinset_card_le
    omega
  next hname => exact hname

/-! ### The search without a bound -/

/-- Trying candidates until one is free. `Search name taken i tries found` says that from the
`i`-th candidate on so many are tried, and that the last of them is the one found. -/
inductive Search (name : String) (taken : List String) : (i tries : Nat) → String → Prop where
  | free {i : Nat} : candidate name i ∉ taken → Search name taken i 1 (candidate name i)
  | next {i tries : Nat} {found : String} : candidate name i ∈ taken →
      Search name taken (i + 1) tries found → Search name taken i (tries + 1) found

namespace Search

variable {name found found' : String} {taken : List String} {i tries tries' : Nat}

/-- What is found is free, and all that was tried before it is taken. -/
theorem exists_eq_candidate (h : Search name taken i tries found) :
    ∃ k, tries = k + 1 ∧ found = candidate name (i + k) ∧ found ∉ taken ∧
      ∀ j < k, candidate name (i + j) ∈ taken := by
  induction h with
  | free hfree => exact ⟨0, rfl, rfl, hfree, fun j hj => absurd hj (Nat.not_lt_zero j)⟩
  | @next i tries found htaken _ ih =>
    obtain ⟨k, rfl, hfound, hfree, hall⟩ := ih
    refine ⟨k + 1, rfl, by rw [hfound, Nat.add_right_comm, Nat.add_assoc], hfree, ?_⟩
    intro j hj
    cases j with
    | zero => exact htaken
    | succ j =>
      rw [← Nat.add_assoc, Nat.add_right_comm]
      exact hall j (by omega)

/-- A search has one end. -/
theorem unique (h : Search name taken i tries found) (h' : Search name taken i tries' found') :
    tries = tries' ∧ found = found' := by
  induction h generalizing tries' with
  | free hfree =>
    cases h' with
    | free => exact ⟨rfl, rfl⟩
    | next htaken => exact absurd htaken hfree
  | next htaken _ ih =>
    cases h' with
    | free hfree => exact absurd htaken hfree
    | next _ h' =>
      obtain ⟨rfl, rfl⟩ := ih h'
      exact ⟨rfl, rfl⟩

end Search

/-- The bounded search among the alternatives is the search without a bound, if it ends at a free
one. -/
theorem exists_search_freshFrom {name : String} {taken : List String} {tries i : Nat}
    (hfree : freshFrom name taken tries (i + 1) ∉ taken) :
    ∃ n, Search name taken (i + 1) n (freshFrom name taken tries (i + 1)) := by
  induction tries generalizing i with
  | zero => exact ⟨1, .free hfree⟩
  | succ tries ih =>
    rw [freshFrom] at hfree ⊢
    split
    next htaken =>
      rw [if_pos htaken] at hfree
      obtain ⟨n, hsearch⟩ := ih hfree
      exact ⟨n + 1, .next htaken hsearch⟩
    next hnext => exact ⟨1, .free hnext⟩

theorem exists_search_freshName (name : String) (taken : List String) :
    ∃ n, Search name taken 0 n (freshName name taken) := by
  have hfree := freshName_not_mem name taken
  rw [freshName] at hfree ⊢
  split
  next htaken =>
    rw [if_pos htaken] at hfree
    obtain ⟨n, hsearch⟩ := exists_search_freshFrom hfree
    exact ⟨n + 1, .next htaken hsearch⟩
  next hname => exact ⟨1, .free hname⟩

/-- In place of a taken name there is the first of its alternatives that is free. -/
theorem exists_isLeast_freshName {name : String} {taken : List String} (h : name ∈ taken) :
    ∃ i, IsLeast {i | 1 ≤ i ∧ suffixed name i ∉ taken} i ∧
      freshName name taken = suffixed name i := by
  obtain ⟨tries, hsearch⟩ := exists_search_freshName name taken
  obtain ⟨k, -, hfound, hfree, hall⟩ := hsearch.exists_eq_candidate
  simp only [Nat.zero_add] at hfound hall
  cases k with
  | zero => exact absurd (hfound ▸ h) hfree
  | succ i =>
    refine ⟨i + 1, ⟨⟨Nat.le_add_left 1 i, by rwa [hfound] at hfree⟩, ?_⟩, hfound⟩
    rintro j ⟨hj, hjfree⟩
    by_contra hlt
    obtain ⟨j, rfl⟩ := Nat.exists_eq_add_of_le' hj
    exact hjfree (hall (j + 1) (Nat.lt_of_not_le hlt))

theorem exists_freshName_eq_suffixed {name : String} {taken : List String} (h : name ∈ taken) :
    ∃ i, 0 < i ∧ freshName name taken = suffixed name i := by
  obtain ⟨i, hleast, heq⟩ := exists_isLeast_freshName h
  exact ⟨i, hleast.1.1, heq⟩

/-- **The first free candidate.** The search ends, after at most one try more than there are taken
names, and what it ends with is the fresh name. That is the requested name if it is free, else its
alternative with the least number that is free. -/
theorem freshName_ends_search (name : String) (taken : List String) :
    (∃ tries ≤ taken.toFinset.card + 1, ∀ n found,
      Search name taken 0 n found ↔ n = tries ∧ found = freshName name taken) ∧
    freshName name taken ∉ taken ∧
    (name ∉ taken → freshName name taken = name) ∧
    (name ∈ taken → ∃ i, IsLeast {i | 1 ≤ i ∧ suffixed name i ∉ taken} i ∧
      freshName name taken = suffixed name i) := by
  refine ⟨?_, freshName_not_mem name taken, freshName_of_not_mem, exists_isLeast_freshName⟩
  obtain ⟨tries, hsearch⟩ := exists_search_freshName name taken
  obtain ⟨k, rfl, -, -, hall⟩ := hsearch.exists_eq_candidate
  simp only [Nat.zero_add] at hall
  refine ⟨k + 1, Nat.succ_le_succ (le_card_of_candidate_mem hall), fun n found => ?_⟩
  constructor
  · exact fun h => h.unique hsearch
  · rintro ⟨rfl, rfl⟩
    exact hsearch

example : freshName "loop" ["loop.2", "loop", "loop.1", "loop", "loop.4"] = "loop.3" := by
  decide +kernel

/-! ### The order of the taken names -/

theorem freshFrom_congr {name : String} {taken taken' : List String}
    (h : ∀ x, x ∈ taken ↔ x ∈ taken') (tries i : Nat) :
    freshFrom name taken tries i = freshFrom name taken' tries i := by
  induction tries generalizing i with
  | zero => rfl
  | succ tries ih => simp only [freshFrom, h, ih]

/-- The order of the taken names does not matter. -/
theorem freshName_perm (name : String) {taken taken' : List String} (h : taken.Perm taken') :
    freshName name taken = freshName name taken' := by
  have hmem : ∀ x, x ∈ taken ↔ x ∈ taken' := fun x => h.mem_iff
  rw [freshName, freshName, h.length_eq, freshFrom_congr hmem]
  exact if_congr (hmem name) rfl rfl

/-! ### Repeated names -/

theorem firstRepeatAfter_eq_none_iff {seen xs : List String} :
    firstRepeatAfter seen xs = none ↔ xs.Nodup ∧ ∀ x ∈ xs, x ∉ seen := by
  induction xs generalizing seen with
  | nil => simp [firstRepeatAfter]
  | cons x xs ih =>
    rw [firstRepeatAfter]
    split
    · rename_i hx
      simp [hx]
    · rename_i hx
      rw [ih, List.nodup_cons]
      simp only [List.mem_cons, forall_eq_or_imp, not_or]
      constructor
      · rintro ⟨hnodup, hfree⟩
        exact ⟨⟨fun hmem => (hfree x hmem).1 rfl, hnodup⟩, hx, fun y hy => (hfree y hy).2⟩
      · rintro ⟨⟨hmem, hnodup⟩, -, hfree⟩
        exact ⟨hnodup, fun y hy => ⟨fun hyx => hmem (hyx ▸ hy), hfree y hy⟩⟩

/-- The search for a repeated name finds nothing exactly in lists without repetition. -/
theorem firstRepeat_eq_none_iff {xs : List String} : firstRepeat xs = none ↔ xs.Nodup := by
  simp [firstRepeat, firstRepeatAfter_eq_none_iff]

end Mos6502.Text

namespace Mos6502.IR

/-! ### Names in a module -/

/-- A new constant takes no name that is in use. -/
theorem Module.nodup_symbols_addGlobal {m : Module} (h : m.symbols.Nodup) (name : String)
    (linkage : Linkage) (init : List UInt8) : (m.addGlobal name linkage init).symbols.Nodup := by
  have hsymbols : (m.addGlobal name linkage init).symbols =
      m.globals.map Global.name ++
        Text.freshName name m.symbols :: m.functions.map Function.name := by
    simp [addGlobal, symbols]
  rw [hsymbols, List.perm_middle.nodup_iff, List.nodup_cons]
  exact ⟨Text.freshName_not_mem name m.symbols, h⟩

/-- Nor does a new function. -/
theorem Module.nodup_symbols_addFunction {m : Module} (h : m.symbols.Nodup) (name : String)
    (ret : Ty) (params : List Ty) (linkage : Linkage) :
    (m.addFunction name ret params linkage).symbols.Nodup := by
  have hsymbols : (m.addFunction name ret params linkage).symbols =
      m.symbols ++ [Text.freshName name m.symbols] := by
    simp [addFunction, symbols]
  rw [hsymbols, ← List.concat_eq_append]
  exact h.concat (Text.freshName_not_mem name m.symbols)

/-- A new block takes no name that is in use in its function. -/
theorem Function.nodup_blockNames_appendBlock {f : Function} (h : f.blockNames.Nodup)
    (name : String) : (f.appendBlock name).blockNames.Nodup := by
  have hnames : (f.appendBlock name).blockNames =
      f.blockNames ++ [Text.freshName name f.blockNames] := by
    simp [appendBlock, blockNames]
  rw [hnames, ← List.concat_eq_append]
  exact h.concat (Text.freshName_not_mem name f.blockNames)

end Mos6502.IR
