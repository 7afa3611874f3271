import Mos6502.Proofs.LineLocality
import Mos6502.Proofs.Placement
import Mos6502.Text.Position

/-!
# Lines by offsets

There are two ways to tell the lines of a text apart. Reading cuts the text behind each newline.
The index of a text keeps the offsets just after newlines, and looks the line of an offset up in
them. `position?_of_line` says that the index finds the line that the text was cut into, for every
offset up to the newline that ends the line. The newline is what makes the difference between the
end of a line and the start of the next one: an offset that is not behind it belongs to the line.

## Main results

* `Text.lineStartsFrom_append`, `Text.length_lineStartsFrom` — line starts of longer texts
* `exists_body_of_rawLines` — what is known of a line of a text, and of the lines before it
* `Text.LineIndex.position?_of_line` — the position of an offset on a line
* `Text.exists_slice?` — between two places where a text can be cut there is some text
-/

namespace Mos6502

open Text

namespace Text

/-! ### Line starts -/

theorem lineStartsFrom_append (offset : Nat) (xs ys : List Char) :
    lineStartsFrom offset (xs ++ ys) =
      lineStartsFrom offset xs ++ lineStartsFrom (offset + byteLength xs) ys := by
  induction xs generalizing offset with
  | nil => rfl
  | cons c xs ih =>
    rw [List.cons_append, lineStartsFrom, lineStartsFrom, ih, byteLength_cons, ← Nat.add_assoc]
    split <;> rfl

/-- Each newline starts a line. -/
theorem length_lineStartsFrom (offset : Nat) (cs : List Char) :
    (lineStartsFrom offset cs).length = cs.count '\n' := by
  induction cs generalizing offset with
  | nil => rfl
  | cons c cs ih =>
    rw [lineStartsFrom]
    split
    · next hc => rw [hc, List.count_cons_self, List.length_cons, ih]
    · next hc => rw [List.count_cons_of_ne hc, ih]

theorem lineStartsFrom_eq_nil (offset : Nat) {cs : List Char} (h : '\n' ∉ cs) :
    lineStartsFrom offset cs = [] := by
  rw [← List.length_eq_zero_iff, length_lineStartsFrom, List.count_eq_zero.mpr h]

theorem bounds_of_mem_lineStartsFrom {offset n : Nat} {cs : List Char}
    (h : n ∈ lineStartsFrom offset cs) : offset < n ∧ n ≤ offset + byteLength cs := by
  induction cs generalizing offset with
  | nil => cases h
  | cons c cs ih =>
    have hpos : 0 < c.utf8Size := Char.utf8Size_pos c
    have hlater : n ∈ lineStartsFrom (offset + c.utf8Size) cs →
        offset < n ∧ n ≤ offset + byteLength (c :: cs) := by
      intro h
      obtain ⟨hlt, hle⟩ := ih h
      rw [byteLength_cons]
      omega
    rw [lineStartsFrom] at h
    split at h
    · rcases List.mem_cons.mp h with rfl | h
      · rw [byteLength_cons]
        omega
      · exact hlater h
    · exact hlater h

/-- After complete lines, the last line that starts is the one behind them. -/
theorem getLastD_lineStartsFrom {before : List Char} (h : EndsLine before) :
    (0 :: lineStartsFrom 0 before).getLastD 0 = byteLength before := by
  rcases h with rfl | h
  · rfl
  · obtain ⟨xs, rfl⟩ := List.getLast?_eq_some_iff.mp h
    rw [lineStartsFrom_append, Nat.zero_add, byteLength_append, ← List.cons_append,
      show lineStartsFrom (byteLength xs) ['\n'] = [byteLength xs + byteLength ['\n']] from rfl,
      List.getLastD_concat]

namespace LineIndex

/-- The position of an offset, where the line starts up to it and behind it are known. -/
theorem position?_of_starts {lines : LineIndex} {upTo later : List Nat} {index : Nat}
    (hstarts : lines.starts = upTo ++ later) (hupTo : ∀ n ∈ upTo, n ≤ index)
    (hlater : ∀ n ∈ later, index < n) (hlength : index ≤ lines.length) :
    lines.position? index =
      some ⟨upTo.length - 1, index - upTo.getLastD 0, upTo.getLastD 0,
        later.headD lines.length⟩ := by
  have hnone : later.takeWhile (· ≤ index) = [] := by
    cases later with
    | nil => rfl
    | cons n later => simp [hlater n List.mem_cons_self]
  have htake : lines.starts.takeWhile (· ≤ index) = upTo := by
    rw [hstarts, List.takeWhile_append_of_pos (by simpa using hupTo), hnone, List.append_nil]
  rw [position?, if_pos hlength]
  simp only [htake]
  rw [hstarts, List.drop_left]

variable {text before body ending after : List Char} {index : Nat}

/-- **The position of an offset** on a line, which ends with a newline or is the last one. -/
theorem position?_of_line (htext : text = before ++ (body ++ ending ++ after))
    (hbefore : EndsLine before) (hbody : '\n' ∉ body)
    (hending : ending = ['\n'] ∨ ending = [] ∧ after = []) (hstart : byteLength before ≤ index)
    (hstop : index ≤ byteLength before + byteLength body) :
    (ofText text).position? index =
      some ⟨before.count '\n', index - byteLength before, byteLength before,
        byteLength before + byteLength (body ++ ending)⟩ := by
  have hstarts : (ofText text).starts = 0 :: lineStartsFrom 0 before ++
      lineStartsFrom (byteLength before + byteLength body) (ending ++ after) := by
    rw [ofText, htext, List.append_assoc, lineStartsFrom_append, lineStartsFrom_append,
      lineStartsFrom_eq_nil _ hbody, Nat.zero_add]
    rfl
  have hnext : (lineStartsFrom (byteLength before + byteLength body) (ending ++ after)).headD
      (byteLength text) = byteLength before + byteLength (body ++ ending) := by
    rcases hending with rfl | ⟨rfl, rfl⟩
    · rw [byteLength_append, ← Nat.add_assoc]
      rfl
    · rw [htext]
      simp [lineStartsFrom]
  rw [position?_of_starts hstarts, getLastD_lineStartsFrom hbefore, List.length_cons,
    length_lineStartsFrom, Nat.add_sub_cancel]
  · exact congrArg (fun n => some (Position.mk _ _ _ n)) hnext
  · intro n hn
    rcases List.mem_cons.mp hn with rfl | hn
    · exact Nat.zero_le _
    · have := (bounds_of_mem_lineStartsFrom hn).2
      omega
  · intro n hn
    exact Nat.lt_of_le_of_lt hstop (bounds_of_mem_lineStartsFrom hn).1
  · show index ≤ byteLength text
    rw [htext]
    simp only [byteLength_append]
    omega

end LineIndex

/-! ### Places where a text can be cut -/

variable {text xs ys : List Char} {i j : Nat}

theorem isSome_splitAtByte?_iff :
    (splitAtByte? i text).isSome ↔ ∃ xs ys, text = xs ++ ys ∧ i = byteLength xs := by
  simp only [Option.isSome_iff_exists, Prod.exists, splitAtByte?_eq_some_iff]

/-- A cut in the first part of a text, or behind it. -/
theorem splitAtByte?_min (h : (splitAtByte? i (xs ++ ys)).isSome) :
    (splitAtByte? (min i (byteLength xs)) xs).isSome := by
  obtain ⟨as, bs, happend, rfl⟩ := isSome_splitAtByte?_iff.mp h
  rw [isSome_splitAtByte?_iff]
  rcases List.append_eq_append_iff.mp happend with ⟨cs, rfl, -⟩ | ⟨cs, rfl, -⟩
  · exact ⟨xs, [], by simp, by simp⟩
  · exact ⟨as, cs, rfl, by simp⟩

/-- A cut in the second part of a text. -/
theorem splitAtByte?_sub (h : (splitAtByte? i (xs ++ ys)).isSome) (hi : byteLength xs ≤ i) :
    (splitAtByte? (i - byteLength xs) ys).isSome := by
  obtain ⟨as, bs, happend, rfl⟩ := isSome_splitAtByte?_iff.mp h
  rw [isSome_splitAtByte?_iff]
  rcases List.append_eq_append_iff.mp happend with ⟨cs, rfl, rfl⟩ | ⟨cs, rfl, rfl⟩
  · exact ⟨cs, bs, rfl, by simp⟩
  · refine ⟨[], ys, rfl, ?_⟩
    rw [byteLength_append] at hi ⊢
    rw [byteLength_nil]
    omega

/-- Between two cuts there is some text, and a place for it. -/
theorem exists_parts (hi : (splitAtByte? i text).isSome) (hj : (splitAtByte? j text).isSome)
    (hij : i ≤ j) :
    ∃ before part after, text = before ++ (part ++ after) ∧ i = byteLength before ∧
      j = byteLength before + byteLength part := by
  obtain ⟨before, rest, rfl, rfl⟩ := isSome_splitAtByte?_iff.mp hi
  obtain ⟨part, after, rfl, hpart⟩ := isSome_splitAtByte?_iff.mp (splitAtByte?_sub hj hij)
  exact ⟨before, part, after, rfl, rfl, by omega⟩

end Text

/-! ### Lines of a text -/

/-- **A line of a text** has no newline but at its end, and has one there unless it is the last
line. The lines before it are complete. -/
theorem exists_body_of_rawLines {text line : List Char} {before after : List (List Char)}
    (h : rawLines text = before ++ line :: after) :
    EndsLine before.flatten ∧ before.flatten.count '\n' = before.length ∧
      ∃ body ending, line = body ++ ending ∧ '\n' ∉ body ∧
        (ending = ['\n'] ∨ ending = [] ∧ after = []) := by
  induction text generalizing before line with
  | nil => simp [rawLines] at h
  | cons c cs ih =>
    rw [rawLines] at h
    split at h
    · next hc =>
      subst hc
      cases before with
      | nil =>
        obtain ⟨rfl, rfl⟩ := List.cons.inj h
        exact ⟨.inl rfl, rfl, [], ['\n'], rfl, List.not_mem_nil, .inl rfl⟩
      | cons l before =>
        obtain ⟨rfl, hlines⟩ := List.cons.inj h
        obtain ⟨hends, hcount, hbody⟩ := ih hlines
        refine ⟨EndsLine.append (.inr rfl) hends, ?_, hbody⟩
        simp [hcount]
    · next hc =>
      split at h
      · -- the text ends here
        obtain ⟨rfl, hnil⟩ | ⟨_, -, hnil⟩ := List.cons_eq_append_iff.mp h
        · obtain ⟨rfl, rfl⟩ := List.cons.inj hnil
          exact ⟨.inl rfl, rfl, [c], [], rfl, by simpa [eq_comm] using hc, .inr ⟨rfl, rfl⟩⟩
        · simp at hnil
      · next l ls hlines =>
        cases before with
        | nil =>
          obtain ⟨rfl, rfl⟩ := List.cons.inj h
          obtain ⟨-, -, body, ending, rfl, hbody, hending⟩ := @ih l [] hlines
          exact ⟨.inl rfl, rfl, c :: body, ending, rfl, by simp [hbody, Ne.symm hc], hending⟩
        | cons l' before =>
          obtain ⟨rfl, rfl⟩ := List.cons.inj h
          obtain ⟨hends, hcount, hbody⟩ := @ih line (l :: before) hlines
          refine ⟨.inr ?_, ?_, hbody⟩
          · rcases hends with hnil | hlast
            · rw [hnil] at hcount
              cases hcount
            · show (c :: (l :: before).flatten).getLast? = some '\n'
              rw [List.getLast?_cons, hlast]
              rfl
          · simpa [List.count_cons_of_ne hc] using hcount

end Mos6502
