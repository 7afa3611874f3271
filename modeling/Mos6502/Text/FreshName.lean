/-!
# Fresh names

A requested name that is already taken gets the first free one of the suffixes `.1`, `.2`, ….
Among as many candidates as there are taken names, one more than can be taken exists once the
plain name is counted, so the search below never runs out: `taken.length` tries are enough.
-/

namespace Mos6502.Text

/-- The `i`-th alternative to a name. -/
def suffixed (name : String) (i : Nat) : String :=
  name ++ "." ++ Nat.repr i

/-- The first free alternative among the `tries` ones from the `i`-th, else the one after them. -/
def freshFrom (name : String) (taken : List String) : (tries i : Nat) → String
  | 0, i => suffixed name i
  | tries + 1, i =>
    if suffixed name i ∈ taken then freshFrom name taken tries (i + 1) else suffixed name i

/-- The name itself if it is free, else its first free alternative. -/
def freshName (name : String) (taken : List String) : String :=
  if name ∈ taken then freshFrom name taken taken.length 1 else name

theorem freshName_of_not_mem {name : String} {taken : List String} (h : name ∉ taken) :
    freshName name taken = name := by
  simp [freshName, h]

/-- The first element that already stands earlier in the list, given what was seen before it. -/
def firstRepeatAfter (seen : List String) : List String → Option String
  | [] => none
  | x :: xs => if x ∈ seen then some x else firstRepeatAfter (x :: seen) xs

/-- The first element that already stands earlier in the list. -/
def firstRepeat (xs : List String) : Option String :=
  firstRepeatAfter [] xs

end Mos6502.Text
