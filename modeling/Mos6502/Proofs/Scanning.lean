import Mos6502.Source.Scanner
import Mathlib

/-!
# What scanners read

Two judgements say all that is needed of a scanner. `Reads p cs rest Q` is the good case: put in
front of `cs ++ rest`, the scanner takes exactly `cs`, and `Q` holds of what it makes of it. `Fails`
is the other one. Both name the text that is left, since where a run of characters ends depends on
what follows it, and since an alternative is only reached if all before it fail on the whole text.

Both hold at every offset, so they can be put together without keeping track of where a line
stands.

## Main results

* `Reads.bind`, `Reads.bind_fails` — one scanner after the other
* `Reads.orElse_left`, `Reads.orElse_right`, `Fails.orElse` — ordered choice
* `reads_run`, `reads_padded_char`, `fails_padded_char` — runs, and signs with blanks around them
-/

namespace Mos6502.Scanner

open Text

variable {α β : Type}

/-- The scanner takes `cs` off the front of `cs ++ rest`, and `Q` holds of its value. -/
def Reads (p : Scanner α) (cs rest : List Char) (Q : α → Prop) : Prop :=
  ∀ pos, ∃ a, p ⟨pos, cs ++ rest⟩ = some (a, ⟨pos + byteLength cs, rest⟩) ∧ Q a

/-- The scanner reads nothing off the front of the text. -/
def Fails (p : Scanner α) (text : List Char) : Prop :=
  ∀ pos, p ⟨pos, text⟩ = none

section

variable {p : Scanner α} {f : α → Scanner β} {c c' : Cursor} {a : α} {b : β}

/-! ### Results -/

theorem bind_of_some (h : p c = some (a, c')) : (p >>= f) c = f a c' := by
  rw [bind_apply, h]

theorem bind_of_none (h : p c = none) : (p >>= f) c = none := by
  rw [bind_apply, h]

/-- If one scanner after the other reads something, both of them do. -/
theorem exists_of_bind (h : (p >>= f) c = some (b, c')) :
    ∃ a c₁, p c = some (a, c₁) ∧ f a c₁ = some (b, c') := by
  cases hfirst : p c with
  | none =>
    rw [bind_of_none hfirst] at h
    cases h
  | some r =>
    rw [bind_of_some hfirst] at h
    exact ⟨r.1, r.2, rfl, h⟩

/-- What a choice reads, one of the alternatives reads. -/
theorem eq_some_of_orElse {q : Scanner α} (h : (p <|> q) c = some (a, c')) :
    p c = some (a, c') ∨ q c = some (a, c') := by
  rw [orElse_apply] at h
  split at h
  · exact .inr h
  · next hfirst => exact .inl (hfirst.trans h)

theorem spanned_of_some (h : p c = some (a, c')) :
    spanned p c = some (⟨a, ⟨c.pos, c'.pos⟩⟩, c') := by
  rw [spanned, h]

theorem exists_of_spanned {x : Spanned α} (h : spanned p c = some (x, c')) :
    ∃ a, p c = some (a, c') ∧ x = ⟨a, ⟨c.pos, c'.pos⟩⟩ := by
  rw [spanned] at h
  cases hfirst : p c with
  | none => simp [hfirst] at h
  | some r =>
    rw [hfirst] at h
    obtain ⟨rfl, rfl⟩ := Prod.mk.inj (Option.some.inj h)
    exact ⟨r.1, rfl, rfl⟩

end

section

variable {p q : Scanner α} {f : α → Scanner β} {cs ds rest text : List Char} {Q R : α → Prop}
  {S : β → Prop}

/-! ### Sequences -/

theorem Reads.mono (h : Reads p cs rest Q) (hQ : ∀ a, Q a → R a) : Reads p cs rest R := by
  intro pos
  obtain ⟨a, ha, hq⟩ := h pos
  exact ⟨a, ha, hQ a hq⟩

theorem reads_pure {a : α} (h : Q a) : Reads (Pure.pure a) [] rest Q := by
  intro pos
  exact ⟨a, rfl, h⟩

/-- One scanner after the other takes one text after the other. -/
theorem Reads.bind (hp : Reads p cs (ds ++ rest) Q) (hf : ∀ a, Q a → Reads (f a) ds rest S) :
    Reads (p >>= f) (cs ++ ds) rest S := by
  intro pos
  obtain ⟨a, ha, hq⟩ := hp pos
  obtain ⟨b, hb, hs⟩ := hf a hq (pos + byteLength cs)
  refine ⟨b, ?_, hs⟩
  rw [bind_apply, List.append_assoc, ha, byteLength_append, ← Nat.add_assoc]
  exact hb

/-- What a scanner reads, looked at by one that takes nothing. -/
theorem Reads.bind_nil (hp : Reads p cs rest Q) (hf : ∀ a, Q a → Reads (f a) [] rest S) :
    Reads (p >>= f) cs rest S := by
  have h : Reads (p >>= f) (cs ++ []) rest S := Reads.bind hp hf
  rwa [List.append_nil] at h

/-- What a scanner reads, made into something else. -/
theorem Reads.bind_pure {g : α → β} (hp : Reads p cs rest Q) (hg : ∀ a, Q a → S (g a)) :
    Reads (p >>= fun a => Pure.pure (g a)) cs rest S :=
  hp.bind_nil fun a ha => reads_pure (hg a ha)

theorem Fails.bind (hp : Fails p text) : Fails (p >>= f) text := by
  intro pos
  rw [bind_apply, hp pos]

/-- A sequence fails where its second part fails on what the first one leaves. -/
theorem Reads.bind_fails (hp : Reads p cs rest Q) (hf : ∀ a, Q a → Fails (f a) rest) :
    Fails (p >>= f) (cs ++ rest) := by
  intro pos
  obtain ⟨a, ha, hq⟩ := hp pos
  rw [bind_apply, ha]
  exact hf a hq _

/-! ### Choice -/

theorem Reads.orElse_left (hp : Reads p cs rest Q) : Reads (p <|> q) cs rest Q := by
  intro pos
  obtain ⟨a, ha, hq⟩ := hp pos
  exact ⟨a, by rw [orElse_apply, ha], hq⟩

theorem Reads.orElse_right (hq : Reads q cs rest Q) (hp : Fails p (cs ++ rest)) :
    Reads (p <|> q) cs rest Q := by
  intro pos
  obtain ⟨a, ha, hqa⟩ := hq pos
  exact ⟨a, by rw [orElse_apply, hp pos]; exact ha, hqa⟩

theorem Fails.orElse (hp : Fails p text) (hq : Fails q text) : Fails (p <|> q) text := by
  intro pos
  rw [orElse_apply, hp pos]
  exact hq pos

theorem Reads.optional (hp : Reads p cs rest Q) :
    Reads (optional p) cs rest fun o => ∃ a, o = some a ∧ Q a :=
  (hp.bind_pure fun a ha => ⟨a, rfl, ha⟩).orElse_left

/-- An optional part that is not there takes nothing. -/
theorem Fails.optional (hp : Fails p rest) : Reads (optional p) [] rest (· = none) := by
  have hnone : Reads (Pure.pure none : Scanner (Option α)) [] rest (· = none) := reads_pure rfl
  exact hnone.orElse_right hp.bind

theorem Reads.spanned (hp : Reads p cs rest Q) : Reads (spanned p) cs rest fun x => Q x.val := by
  intro pos
  obtain ⟨a, ha, hq⟩ := hp pos
  exact ⟨⟨a, ⟨pos, pos + byteLength cs⟩⟩, by rw [Scanner.spanned, ha], hq⟩

theorem Fails.spanned (hp : Fails p text) : Fails (spanned p) text := by
  intro pos
  rw [Scanner.spanned, hp pos]

end

/-! ### Runs of characters -/

/-- A run of characters of a class ends in front of the text. -/
def Stops (p : Char → Bool) (text : List Char) : Prop :=
  ∀ c ∈ text.head?, p c = false

section

variable {p : Char → Bool} {cs rest text : List Char}

theorem stops_nil : Stops p [] := by
  simp [Stops]

theorem stops_cons {c : Char} : Stops p (c :: text) ↔ p c = false := by
  simp [Stops]

/-- A run is cut off where the class ends. -/
theorem takeWhile_append_of_stops (h : Stops p rest) :
    (cs ++ rest).takeWhile p = cs.takeWhile p := by
  induction cs with
  | nil =>
    cases rest with
    | nil => rfl
    | cons c rest => simp [stops_cons.mp h]
  | cons c cs ih =>
    rw [List.cons_append, List.takeWhile_cons, List.takeWhile_cons, ih]

theorem stops_dropWhile (p : Char → Bool) (text : List Char) : Stops p (text.dropWhile p) := by
  induction text with
  | nil => exact stops_nil
  | cons c text ih =>
    rw [List.dropWhile_cons]
    split
    · exact ih
    · next hc => exact stops_cons.mpr (by simpa using hc)

theorem dropWhile_of_stops (h : Stops p text) : text.dropWhile p = text := by
  cases text with
  | nil => rfl
  | cons c text => exact List.dropWhile_cons_of_neg (by simp [stops_cons.mp h])

theorem reads_run (hcs : ∀ c ∈ cs, p c = true) (hrest : Stops p rest) :
    Reads (run p) cs rest (· = cs) := by
  intro pos
  have htaken : (cs ++ rest).takeWhile p = cs := by
    rw [takeWhile_append_of_stops hrest, List.takeWhile_eq_self_iff.mpr hcs]
  have hleft : (cs ++ rest).dropWhile p = rest := by
    rw [List.dropWhile_append_of_pos hcs, dropWhile_of_stops hrest]
  exact ⟨cs, by rw [run, htaken, hleft], rfl⟩

theorem reads_run₁ (hne : cs ≠ []) (hcs : ∀ c ∈ cs, p c = true) (hrest : Stops p rest) :
    Reads (run₁ p) cs rest (· = cs) := by
  refine (reads_run hcs hrest).bind_nil fun taken htaken => ?_
  subst htaken
  rw [if_neg (by simpa using hne)]
  exact reads_pure rfl

theorem fails_run₁ (h : Stops p text) : Fails (run₁ p) text := by
  have hnone : Reads (run p) [] text (· = []) := reads_run (by simp) h
  refine Reads.bind_fails hnone fun taken htaken pos => ?_
  rw [htaken]
  rfl

end

section

variable {x : Char} {text rest : List Char}

theorem reads_satisfy {p : Char → Bool} (h : p x = true) : Reads (satisfy p) [x] rest (· = x) := by
  intro pos
  refine ⟨x, ?_, rfl⟩
  rw [List.singleton_append]
  simp [satisfy, h]

theorem fails_satisfy {p : Char → Bool} (h : Stops p text) : Fails (satisfy p) text := by
  intro pos
  cases text with
  | nil => rfl
  | cons c text => simp [satisfy, stops_cons.mp h]

theorem reads_char (x : Char) (rest : List Char) : Reads (char x) [x] rest fun _ => True :=
  (reads_satisfy (beq_self_eq_true x)).bind_pure fun _ _ => trivial

theorem fails_char (h : text.head? ≠ some x) : Fails (char x) text := by
  refine (fails_satisfy fun c hc => ?_).bind
  rw [beq_eq_false_iff_ne]
  rintro rfl
  exact h hc

end

/-! ### Blanks -/

/-- Spaces and tabs. -/
def isGap (c : Char) : Bool :=
  c == ' ' || c == '\t'

/-- Blanks between the parts of a line. -/
def Gap (cs : List Char) : Prop :=
  ∀ c ∈ cs, isGap c = true

instance (cs : List Char) : Decidable (Gap cs) :=
  decidable_of_iff (cs.all isGap = true) List.all_eq_true

/-- The first character that is not a blank. -/
def next? (text : List Char) : Option Char :=
  (text.dropWhile isGap).head?

section

variable {p : Scanner α} {x c : Char} {bs bs' text rest : List Char}

theorem next?_append (h : Gap bs) (text : List Char) : next? (bs ++ text) = next? text := by
  rw [next?, List.dropWhile_append_of_pos h, next?]

theorem next?_of_stops (h : Stops isGap text) : next? text = text.head? := by
  rw [next?, dropWhile_of_stops h]

theorem reads_blanks (h : Gap bs) (hrest : Stops isGap rest) :
    Reads blanks bs rest fun _ => True :=
  (reads_run h hrest).bind_pure fun _ _ => trivial

/-- Blanks are read as far as they go, whatever follows them. -/
theorem reads_blanks_takeWhile (text : List Char) :
    Reads blanks (text.takeWhile isGap) (text.dropWhile isGap) fun _ => True :=
  reads_blanks (fun _ hc => List.mem_takeWhile_imp hc) (stops_dropWhile isGap text)

/-- What fails after the blanks fails with the blanks before it. -/
theorem fails_blanks_bind {f : Unit → Scanner α}
    (h : ∀ u, Fails (f u) (text.dropWhile isGap)) : Fails (blanks >>= f) text := by
  have hfails := (reads_blanks_takeWhile text).bind_fails fun u _ => h u
  rwa [List.takeWhile_append_dropWhile] at hfails

theorem reads_padded_char (hbs : Gap bs) (hx : isGap x = false) (hbs' : Gap bs')
    (hrest : Stops isGap rest) :
    Reads (padded (char x)) (bs ++ ([x] ++ bs')) rest fun _ => True := by
  refine (reads_blanks hbs ?_).bind fun _ _ => ?_
  · exact stops_cons.mpr hx
  · refine (reads_char x _).bind fun _ _ => ?_
    exact (reads_blanks hbs' hrest).bind_pure fun _ _ => trivial

theorem fails_padded_char (h : next? text ≠ some x) : Fails (padded (char x)) text :=
  fails_blanks_bind fun _ => (fails_char h).bind

end

end Mos6502.Scanner
