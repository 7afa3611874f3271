import Mos6502.Proofs.Construction
import Mos6502.Proofs.LegibleNames

/-!
# Names of locals

Two schemes share the names of the locals. A stack slot gets the name that was asked for, or a
numbered one if that is taken. Every other value is named after its index, and that name is not
compared with the names there are. So the two schemes can meet: a slot may have asked for `t7` while
there were fewer than seven locals, and then local 7 is a value that nobody named.

That is the only way. A numbered name has a dot in it and no generated one has, generated names
differ among themselves, and a slot that comes later gives way. So whether the locals of a function
can be told apart in its text is decided by the names that were asked for, in their order.

## Main definitions

* `chooseNames` — the names that locals end up with, from what was asked for
* `NamesMeet` — a value gets the name of a local that is there already

## Main results

* `localNames_of_calls?` — the names of locals are chosen by what was asked for
* `nodup_chooseNames_iff` — chosen names differ unless the two schemes meet
* `printsApart_iff` — the text tells locals apart exactly if their names differ
* `localNames_differ_iff` — when the locals of a function have different names
-/

namespace Mos6502.IR

open Text

/-! ### What is asked for -/

/-- The name that a call asks for, where it makes a local. Only slots can be named. -/
def Build.Call.wish? : Build.Call → Option (Option String)
  | alloca _ name => some (some name)
  | load _ _ | binary _ _ _ | icmp _ _ _ => some none
  | store _ _ | br _ | unreachable => none

/-- The name that a call asks for, where it makes a local. -/
def Function.Call.wish? : Function.Call → Option (Option String)
  | appendBlock _ => none
  | build _ c => c.wish?

/-- The name that a local gets next to the names there are. -/
def chooseName (names : List String) : Option String → String
  | some requested => freshName requested names
  | none => generatedName names.length

/-- The names that locals get one after the other. -/
def chooseNames (names : List String) (wishes : List (Option String)) : List String :=
  wishes.foldl (fun names wish => names ++ [chooseName names wish]) names

theorem chooseNames_concat (names : List String) (wishes : List (Option String))
    (wish : Option String) :
    chooseNames names (wishes ++ [wish]) =
      chooseNames names wishes ++ [chooseName (chooseNames names wishes) wish] := by
  rw [chooseNames, List.foldl_append]
  rfl

theorem length_chooseNames (names : List String) (wishes : List (Option String)) :
    (chooseNames names wishes).length = names.length + wishes.length := by
  induction wishes using List.reverseRecOn with
  | nil => rfl
  | append_singleton wishes wish ih =>
    rw [chooseNames_concat, List.length_append, ih, List.length_append]
    rfl

/-- The names of the locals. -/
def Function.localNames (f : Function) : List String :=
  f.locals.map Local.name

theorem Build.Call.name_newLocal? (c : Build.Call) (locals : List Local) :
    (c.newLocal? locals).map Local.name =
      c.wish?.map (chooseName (locals.map Local.name)) := by
  cases c with
  | alloca | store | br | unreachable => rfl
  | load | binary | icmp => simp [newLocal?, wish?, chooseName]

/-- One call names at most one local, after those there are. -/
theorem Function.localNames_of_call? {f f' : Function} {c : Call} {v : Option Value}
    (h : f.call? c = some (v, f')) :
    f'.localNames = chooseNames f.localNames c.wish?.toList := by
  obtain ⟨name, rfl, -, rfl⟩ | ⟨block, b, call, rfl, -, -, rfl⟩ := call?_cases h
  · rfl
  · have hnew := call.name_newLocal? f.locals
    have hnames : (f.built block b call).localNames =
        f.localNames ++ ((call.newLocal? f.locals).map Local.name).toList := by
      rw [localNames, built, List.map_append]
      cases call.newLocal? f.locals <;> rfl
    rw [hnames, hnew, Call.wish?]
    cases call.wish? with
    | none => exact List.append_nil _
    | some wish => rfl

/-- **The names of locals** are chosen by what was asked for. -/
theorem Function.localNames_of_calls? {f f' : Function} {cs : List Call} {vs : List Value}
    (h : f.calls? cs = some (vs, f')) :
    f'.localNames = chooseNames f.localNames (cs.filterMap Call.wish?) := by
  induction cs generalizing f vs with
  | nil =>
    cases h
    rfl
  | cons c cs ih =>
    obtain ⟨v, f₁, vs', hcall, hcalls, -⟩ := calls?_cons_eq_some_iff.mp h
    rw [ih hcalls, localNames_of_call? hcall]
    cases hwish : c.wish? with
    | none => simp [hwish, chooseNames]
    | some wish => simp [hwish, chooseNames]

/-! ### Where the two schemes meet -/

theorem generatedName_injective : Function.Injective generatedName := by
  intro i j h
  exact Nat.repr_injective ((String.append_right_inj _).mp h)

/-- A generated name has no dot. -/
theorem suffixed_ne_generatedName (name : String) (i index : Nat) :
    suffixed name i ≠ generatedName index := by
  intro h
  have hdot : '.' ∈ (suffixed name i).toList := by simp [suffixed]
  rw [h, generatedName, String.toList_append] at hdot
  rcases List.mem_append.mp hdot with hdot | hdot
  · exact absurd hdot (by decide)
  · exact absurd (isDigit_of_mem_repr hdot) (by decide)

/-- A slot has a generated name only if it was asked for. -/
theorem eq_of_freshName_eq_generatedName {name : String} {taken : List String} {index : Nat}
    (h : freshName name taken = generatedName index) : name = generatedName index := by
  by_cases hmem : name ∈ taken
  · obtain ⟨i, -, hi⟩ := exists_freshName_eq_suffixed hmem
    rw [hi] at h
    exact absurd h (suffixed_ne_generatedName name i index)
  · rwa [freshName_of_not_mem hmem] at h

/-- Some local that nobody named comes after one that has, or asked for, the name which it gets. -/
def NamesMeet (names : List String) (wishes : List (Option String)) : Prop :=
  ∃ before after, wishes = before ++ none :: after ∧
    some (generatedName (names.length + before.length)) ∈ names.map some ++ before

theorem namesMeet_concat {names : List String} {wishes : List (Option String)}
    {wish : Option String} :
    NamesMeet names (wishes ++ [wish]) ↔ NamesMeet names wishes ∨
      (wish = none ∧
        some (generatedName (names.length + wishes.length)) ∈ names.map some ++ wishes) := by
  constructor
  · rintro ⟨before, after, heq, hmem⟩
    induction after using List.reverseRecOn with
    | nil =>
      obtain ⟨rfl, hwish⟩ := List.append_inj' heq rfl
      exact .inr ⟨(List.cons.inj hwish).1, hmem⟩
    | append_singleton after last _ =>
      rw [← List.cons_append, ← List.append_assoc] at heq
      obtain ⟨rfl, -⟩ := List.append_inj' heq rfl
      exact .inl ⟨before, after, rfl, hmem⟩
  · rintro (⟨before, after, rfl, hmem⟩ | ⟨rfl, hmem⟩)
    · exact ⟨before, after ++ [wish], by simp, hmem⟩
    · exact ⟨wishes, [], rfl, hmem⟩

/-- A name that is generated for none of the locals so far is among theirs only if it was asked
for. -/
theorem generatedName_mem_chooseNames_iff {names : List String} {wishes : List (Option String)}
    {index : Nat} (hindex : names.length + wishes.length ≤ index) :
    generatedName index ∈ chooseNames names wishes ↔
      some (generatedName index) ∈ names.map some ++ wishes := by
  induction wishes using List.reverseRecOn with
  | nil => simp [chooseNames]
  | append_singleton wishes wish ih =>
    rw [List.length_append, List.length_singleton] at hindex
    have ih := ih (by omega)
    rw [chooseNames_concat, ← List.append_assoc, List.mem_append, List.mem_append, ih,
      List.mem_singleton, List.mem_singleton]
    cases wish with
    | none =>
      have hne : generatedName index ≠ generatedName (chooseNames names wishes).length := by
        intro h
        have := generatedName_injective h
        rw [length_chooseNames] at this
        omega
      simp [chooseName, hne]
    | some requested =>
      rw [← ih, chooseName, Option.some.injEq]
      constructor
      · rintro (h | h)
        · exact .inl h
        · exact .inr (eq_of_freshName_eq_generatedName h.symm).symm
      · rintro (h | rfl)
        · exact .inl h
        -- A slot that finds its name taken leaves it to the one that has it.
        · by_cases hmem : generatedName index ∈ chooseNames names wishes
          · exact .inl hmem
          · exact .inr (freshName_of_not_mem hmem).symm

/-- **Chosen names differ** unless the two schemes meet. -/
theorem nodup_chooseNames_iff {names : List String} {wishes : List (Option String)} :
    (chooseNames names wishes).Nodup ↔ names.Nodup ∧ ¬NamesMeet names wishes := by
  induction wishes using List.reverseRecOn with
  | nil => simp [chooseNames, NamesMeet]
  | append_singleton wishes wish ih =>
    have hfree : chooseName (chooseNames names wishes) wish ∉ chooseNames names wishes ↔
        ¬(wish = none ∧
          some (generatedName (names.length + wishes.length)) ∈ names.map some ++ wishes) := by
      cases wish with
      | some requested => simp [chooseName, freshName_not_mem]
      | none =>
        rw [chooseName, length_chooseNames, generatedName_mem_chooseNames_iff (Nat.le_refl _)]
        simp
    rw [chooseNames_concat, ← List.concat_eq_append, List.nodup_concat, ih, hfree,
      namesMeet_concat, not_or]
    exact and_comm.trans and_assoc

/-! ### Names in the text -/

/-- Two different locals are written differently. -/
def Function.PrintsApart (globals : List Global) (f : Function) : Prop :=
  ∀ i j, i < f.locals.length → j < f.locals.length →
    (Value.ofLocal i).render globals f = (Value.ofLocal j).render globals f → i = j

/-- **The text tells locals apart** exactly if their names differ. -/
theorem Function.printsApart_iff (globals : List Global) (f : Function) :
    f.PrintsApart globals ↔ f.localNames.Nodup := by
  have hrender : ∀ i (hi : i < f.locals.length),
      (Value.ofLocal i).render globals f = renderName "%" f.locals[i].name := by
    intro i hi
    rw [Value.render, List.getElem?_eq_getElem hi]
  constructor
  · intro h
    refine List.pairwise_iff_getElem.mpr fun i j hi hj hij heq => ?_
    rw [localNames, List.length_map] at hi hj
    simp only [localNames, List.getElem_map] at heq
    have := h i j hi hj (by rw [hrender i hi, hrender j hj, heq])
    omega
  · intro hnodup i j hi hj heq
    rw [hrender i hi, hrender j hj] at heq
    have hi' : i < f.localNames.length := by rwa [localNames, List.length_map]
    have hj' : j < f.localNames.length := by rwa [localNames, List.length_map]
    have hnames : f.localNames[i] = f.localNames[j] := by
      simpa only [localNames, List.getElem_map] using renderName_inj heq
    exact hnodup.getElem_inj_iff.mp hnames

/-- **Names of locals.** Whatever calls are made on a function, its locals have different names
afterwards, and are written differently in its text, exactly if they had different names before and
no value that nobody named comes after a local which has the name that it gets, or a slot which
asked for that name. -/
theorem Function.localNames_differ_iff (f : Function) (calls : List Call) (vs : List Value)
    (f' : Function) (h : f.calls? calls = some (vs, f')) :
    (f'.localNames.Nodup ↔
        f.localNames.Nodup ∧ ¬NamesMeet f.localNames (calls.filterMap Call.wish?)) ∧
      ∀ globals, f'.PrintsApart globals ↔
        f.localNames.Nodup ∧ ¬NamesMeet f.localNames (calls.filterMap Call.wish?) := by
  have hnodup : f'.localNames.Nodup ↔
      f.localNames.Nodup ∧ ¬NamesMeet f.localNames (calls.filterMap Call.wish?) := by
    rw [localNames_of_calls? h]
    exact nodup_chooseNames_iff
  exact ⟨hnodup, fun globals => (f'.printsApart_iff globals).trans hnodup⟩

/-- A slot that asks for `t1`, and then a value. -/
def slotBeforeValue : List Function.Call :=
  [.appendBlock "Entry", .build 0 (.alloca .i8 "t1"), .build 0 (.load .i8 (.ofLocal 0)),
    .build 0 .unreachable]

/-- What is read from the slot is local 1, and gets the name that the slot asked for. -/
theorem localNames_differ_iff_slotBeforeValue : ∃ vs f',
    { name := "f", ret := .i32, params := [], linkage := .external : Function }.calls?
      slotBeforeValue = some (vs, f') ∧
    f'.localNames = ["t1", "t1"] ∧ ¬f'.PrintsApart [] := by
  obtain ⟨vs, f', h⟩ : ∃ vs f',
      { name := "f", ret := .i32, params := [], linkage := .external : Function }.calls?
        slotBeforeValue = some (vs, f') := ⟨_, _, rfl⟩
  have hmeet : NamesMeet [] (slotBeforeValue.filterMap Function.Call.wish?) :=
    ⟨[some "t1"], [], rfl, by decide +kernel⟩
  refine ⟨vs, f', h, ?_, fun happart => ?_⟩
  · rw [Function.localNames_of_calls? h]
    decide +kernel
  · exact (((Function.localNames_differ_iff _ _ _ _ h).2 []).mp happart).2 hmeet

end Mos6502.IR
