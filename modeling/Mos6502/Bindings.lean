/-!
# Bindings

A finite map kept as the list of the bindings made so far, newest first. Looking a key up takes
the newest binding, so a later binding of a key hides the earlier ones and nothing is ever
removed.
-/

namespace Mos6502

/-- Bindings of keys to values, newest first. -/
structure Bindings (κ α : Type) where
  entries : List (κ × α) := []
deriving DecidableEq

namespace Bindings

variable {κ α : Type} [BEq κ]

/-- No bindings. -/
def empty : Bindings κ α :=
  ⟨[]⟩

/-- Binds a key, hiding what it was bound to. -/
def insert (b : Bindings κ α) (k : κ) (v : α) : Bindings κ α :=
  ⟨(k, v) :: b.entries⟩

/-- The value a key is bound to. -/
def get? (b : Bindings κ α) (k : κ) : Option α :=
  b.entries.lookup k

/-- Is the key bound? -/
def contains (b : Bindings κ α) (k : κ) : Bool :=
  (b.get? k).isSome

/-- The bindings that count: the newest one of each key. -/
def visible (b : Bindings κ α) : List (κ × α) :=
  b.entries.foldr (fun e shown => e :: shown.filter fun f => !(f.1 == e.1)) []

/-- Number of bound keys. -/
def size (b : Bindings κ α) : Nat :=
  b.visible.length

/-- The bindings that count, in ascending order of their keys. -/
def sorted (b : Bindings κ α) (le : κ → κ → Bool) : List (κ × α) :=
  b.visible.mergeSort fun x y => le x.1 y.1

omit [BEq κ] in
@[simp] theorem entries_insert (b : Bindings κ α) (k : κ) (v : α) :
    (b.insert k v).entries = (k, v) :: b.entries :=
  rfl

@[simp] theorem get?_empty (k : κ) : (empty : Bindings κ α).get? k = none :=
  rfl

theorem get?_insert [LawfulBEq κ] [DecidableEq κ] (b : Bindings κ α) (k k' : κ) (v : α) :
    (b.insert k v).get? k' = if k' = k then some v else b.get? k' := by
  by_cases h : k' = k
  · simp [get?, h]
  · have hk : (k' == k) = false := by simp [h]
    simp [get?, h, List.lookup_cons, hk]

end Bindings

end Mos6502
