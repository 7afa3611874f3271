import Mos6502.Text.Bytes
import Mos6502.Text.Span

/-!
# Parts laid out in a text

A text is cut into parts at several levels: a text into statements, a statement into a mnemonic and
a register or into items. At each level the same is known of the parts: they stand in the text one
after the other, with something or nothing between them, each has the span of the bytes it covers,
and something is known of its characters. `Laid` says this once for all levels.

What is wanted of spans follows from it, whatever the parts are: they are in range and cut no
character, they do not overlap and are in order, and the text they cut out is that of the part.

## Main definitions

* `Laid` — parts of a text, in order
* `Span.Fits` — a span that can be cut out of a text

## Main results

* `Text.slice?_append`, `Text.slice?_eq_some_iff` — what a span cuts out of a text
* `Laid.append`, `Laid.gap`, `Laid.more` — longer texts with more parts
* `Laid.exists_slice?`, `Laid.pairwise` — what a layout says of one part, and of two
-/

namespace Mos6502

open Text

/-! ### Cutting a text -/

namespace Text

/-- The text cut at the end of its first part. -/
theorem splitAtByte?_append (xs ys : List Char) :
    splitAtByte? (byteLength xs) (xs ++ ys) = some (xs, ys) := by
  induction xs with
  | nil =>
    cases ys <;> rfl
  | cons c xs ih =>
    have hpos : 0 < c.utf8Size := Char.utf8Size_pos c
    obtain ⟨n, hn⟩ : ∃ n, byteLength (c :: xs) = n + 1 :=
      Nat.exists_eq_succ_of_ne_zero (by rw [byteLength_cons]; omega)
    have hlength : byteLength (c :: xs) = c.utf8Size + byteLength xs := byteLength_cons c xs
    rw [List.cons_append, hn, splitAtByte?, if_pos (by omega),
      show n + 1 - c.utf8Size = byteLength xs by omega, ih]
    rfl

/-- Where a text can be cut, its first part has that many bytes. -/
theorem splitAtByte?_eq_some_iff {n : Nat} {text xs ys : List Char} :
    splitAtByte? n text = some (xs, ys) ↔ text = xs ++ ys ∧ n = byteLength xs := by
  constructor
  · intro h
    fun_induction splitAtByte? n text generalizing xs ys with
    | case1 => simp_all
    | case2 => cases h
    | case3 n c cs hle ih =>
      obtain ⟨⟨as, bs⟩, hsplit, hparts⟩ := Option.map_eq_some_iff.mp h
      obtain ⟨rfl, hn⟩ := ih hsplit
      obtain ⟨rfl, rfl⟩ := Prod.mk.inj hparts
      refine ⟨rfl, ?_⟩
      show n + 1 = c.utf8Size + byteLength as
      omega
    | case4 => cases h
  · rintro ⟨rfl, rfl⟩
    exact splitAtByte?_append xs ys

/-- The text between two parts of a text. -/
theorem slice?_append (xs ys zs : List Char) :
    slice? (byteLength xs) (byteLength xs + byteLength ys) (xs ++ (ys ++ zs)) = some ys := by
  rw [slice?, if_pos (Nat.le_add_right _ _), splitAtByte?_append, Nat.add_sub_cancel_left]
  simp [splitAtByte?_append]

/-- What is cut out of a text stands in it, as far into it as the cut says. -/
theorem slice?_eq_some_iff {start stop : Nat} {text part : List Char} :
    slice? start stop text = some part ↔
      ∃ before after, text = before ++ (part ++ after) ∧ start = byteLength before ∧
        stop = byteLength before + byteLength part := by
  constructor
  · intro h
    rw [slice?] at h
    split at h
    · next hle =>
      obtain ⟨⟨before, rest⟩, hbefore, h⟩ := Option.bind_eq_some_iff.mp h
      obtain ⟨⟨part', after⟩, hpart, h⟩ := Option.bind_eq_some_iff.mp h
      obtain rfl : part' = part := Option.some.inj h
      obtain ⟨rfl, hstart⟩ := splitAtByte?_eq_some_iff.mp hbefore
      obtain ⟨rfl, hstop⟩ := splitAtByte?_eq_some_iff.mp hpart
      exact ⟨before, after, rfl, hstart, by omega⟩
    · cases h
  · rintro ⟨before, after, rfl, rfl, rfl⟩
    exact slice?_append before part after

/-- A text starts with what is left of it when the end is dropped. -/
theorem exists_dropWhileEnd_append (class? : Char → Bool) (cs : List Char) :
    ∃ ending, dropWhileEnd class? cs ++ ending = cs :=
  ⟨(cs.reverse.takeWhile class?).reverse, by
    rw [dropWhileEnd, ← List.reverse_append, List.takeWhile_append_dropWhile,
      List.reverse_reverse]⟩

end Text

/-- A span that can be cut out of a text: it does not end before it starts or behind the text, and
it starts and ends between two characters. -/
structure Span.Fits (text : List Char) (span : Span) : Prop where
  start_le_stop : span.start ≤ span.stop
  stop_le : span.stop ≤ byteLength text
  start_boundary : (splitAtByte? span.start text).isSome
  stop_boundary : (splitAtByte? span.stop text).isSome

/-- What can be cut out of a text has a span that fits. -/
theorem Span.fits_of_slice? {text part : List Char} {span : Span}
    (h : slice? span.start span.stop text = some part) : span.Fits text := by
  obtain ⟨before, after, rfl, hstart, hstop⟩ := slice?_eq_some_iff.mp h
  have hstop' : span.stop = byteLength (before ++ part) := by rw [hstop, byteLength_append]
  refine ⟨by omega, ?_, ?_, ?_⟩
  · rw [hstop]
    simp only [byteLength_append]
    omega
  · rw [hstart, splitAtByte?_append]
    rfl
  · rw [hstop', ← List.append_assoc, splitAtByte?_append]
    rfl

/-! ### Parts in order -/

section

variable {α β : Type} {span : α → Span} {holds : α → List Char → Prop} {pos : Nat}
  {cs ds : List Char} {x : α} {xs ys : List α}

/-- The parts stand one after the other in the text, which itself starts at `pos`. Each part has
the span of its characters, and `holds` is true of them. -/
inductive Laid (span : α → Span) (holds : α → List Char → Prop) :
    Nat → List Char → List α → Prop where
  | nil {pos : Nat} {cs : List Char} : Laid span holds pos cs []
  | cons {pos : Nat} {gap part rest : List Char} {x : α} {xs : List α}
    (hspan : span x = ⟨pos + byteLength gap, pos + byteLength gap + byteLength part⟩)
    (hpart : holds x part)
    (hrest : Laid span holds (pos + byteLength gap + byteLength part) rest xs) :
    Laid span holds pos (gap ++ (part ++ rest)) (x :: xs)

/-- A part that is the whole text. -/
theorem Laid.single (hspan : span x = ⟨pos, pos + byteLength cs⟩) (hx : holds x cs) :
    Laid span holds pos cs [x] := by
  have h : Laid span holds pos ([] ++ (cs ++ [])) [x] := .cons hspan hx .nil
  rwa [List.append_nil, List.nil_append] at h

/-- Text in front of the parts. -/
theorem Laid.gap (h : Laid span holds (pos + byteLength cs) ds xs) :
    Laid span holds pos (cs ++ ds) xs := by
  cases h with
  | nil => exact .nil
  | @cons _ gap part rest _ _ hspan hpart hrest =>
    have hlength : pos + byteLength cs + byteLength gap = pos + byteLength (cs ++ gap) := by
      rw [byteLength_append, Nat.add_assoc]
    rw [hlength] at hspan hrest
    rw [← List.append_assoc]
    exact .cons hspan hpart hrest

/-- One text with its parts after the other. -/
theorem Laid.append (hxs : Laid span holds pos cs xs)
    (hys : Laid span holds (pos + byteLength cs) ds ys) :
    Laid span holds pos (cs ++ ds) (xs ++ ys) := by
  induction hxs with
  | nil => exact hys.gap
  | @cons pos gap part rest x xs hspan hpart hrest ih =>
    rw [List.append_assoc, List.append_assoc]
    refine .cons hspan hpart (ih ?_)
    rwa [byteLength_append, byteLength_append, ← Nat.add_assoc, ← Nat.add_assoc] at hys

/-- Text behind the parts. -/
theorem Laid.more (h : Laid span holds pos cs xs) : Laid span holds pos (cs ++ ds) xs := by
  have happend : Laid span holds pos (cs ++ ds) (xs ++ []) := h.append .nil
  rwa [List.append_nil] at happend

/-- Parts of the parts' kind, further into the text. -/
theorem Laid.map {span' : β → Span} {holds' : β → List Char → Prop} {f : α → β} (bytes : Nat)
    (h : Laid span holds pos cs xs) (hspan : ∀ x, span' (f x) = (span x).shift bytes)
    (hholds : ∀ x part, holds x part → holds' (f x) part) :
    Laid span' holds' (pos + bytes) cs (xs.map f) := by
  induction h with
  | nil => exact .nil
  | @cons pos gap part rest x xs hx hpart hrest ih =>
    have hmove : ∀ n, pos + n + bytes = pos + bytes + n := fun n => Nat.add_right_comm _ _ _
    refine .cons ?_ (hholds x part hpart) ?_
    · rw [hspan, hx, Span.shift, hmove, ← hmove, Nat.add_right_comm (pos + byteLength gap)]
    · rwa [Nat.add_right_comm, hmove] at ih

/-- **One part** stands in the text where its span says. -/
theorem Laid.exists_part (h : Laid span holds pos cs xs) (hx : x ∈ xs) :
    ∃ before part after, cs = before ++ (part ++ after) ∧ holds x part ∧
      span x = ⟨pos + byteLength before, pos + byteLength before + byteLength part⟩ := by
  induction h with
  | nil => cases hx
  | @cons pos gap part rest y ys hspan hpart hrest ih =>
    rcases List.mem_cons.mp hx with rfl | hx
    · exact ⟨gap, part, rest, rfl, hpart, hspan⟩
    · obtain ⟨before, part', after, rfl, hholds, hspan'⟩ := ih hx
      refine ⟨gap ++ (part ++ before), part', after, by simp, hholds, ?_⟩
      rw [hspan']
      simp only [byteLength_append, Nat.add_assoc]

/-- A part is what its span cuts out of the text, also if that is itself a part of a larger one. -/
theorem Laid.exists_slice? {text before after : List Char} (htext : text = before ++ (cs ++ after))
    (h : Laid span holds (byteLength before) cs xs) (hx : x ∈ xs) :
    ∃ part, slice? (span x).start (span x).stop text = some part ∧ holds x part := by
  obtain ⟨front, part, back, rfl, hholds, hspan⟩ := h.exists_part hx
  subst htext
  refine ⟨part, slice?_eq_some_iff.mpr ⟨before ++ front, back ++ after, by simp, ?_, ?_⟩, hholds⟩
  · rw [hspan, byteLength_append]
  · rw [hspan, byteLength_append]

/-- Parts lie inside the text. -/
theorem Laid.within (h : Laid span holds pos cs xs) (hx : x ∈ xs) :
    pos ≤ (span x).start ∧ (span x).start ≤ (span x).stop ∧
      (span x).stop ≤ pos + byteLength cs := by
  obtain ⟨before, part, after, rfl, -, hspan⟩ := h.exists_part hx
  rw [hspan]
  simp only [byteLength_append]
  omega

/-- **Two parts** do not overlap, and stand in their order. -/
theorem Laid.pairwise (h : Laid span holds pos cs xs) :
    xs.Pairwise fun x y => (span x).stop ≤ (span y).start := by
  induction h with
  | nil => exact .nil
  | cons hspan hpart hrest ih =>
    refine .cons (fun y hy => ?_) ih
    rw [hspan]
    exact (hrest.within hy).1

end

end Mos6502
