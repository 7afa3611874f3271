import Mos6502.Proofs.Positions
import Mathlib

/-!
# Positions by bytes

Lines are told apart by characters, but an offset counts bytes and may fall into the middle of a
character. That does no harm: the byte that ends a line is part of no other character, so the line
starts of a text are the places just after those bytes. With this, what a position says is a matter
of bytes alone, for every offset.

Each line is given by a half-open range of offsets. A line ends where the next one starts, the
first one starts at zero and the last one ends with the text, so the ranges hold every byte once.
An offset is found again from its line and the place in it.

## Main definitions

* `Position.Locates` — a position is right about an offset into bytes
* `LineIndex.ranges` — the half-open ranges of the lines

## Main results

* `lineStartsFrom_eq_map_idxsOf` — the line starts of a text, by its bytes
* `LineIndex.locates_of_position?` — every position is right
* `LineIndex.flatMap_ranges_ofText` — the ranges of the lines are one after another
* `LineIndex.position?_ofText_exact` — which offsets have a position, and what it says
-/

namespace Mos6502.Text

/-- The byte that ends a line. -/
def newline : UInt8 :=
  0x0A

/-- The byte that ends a line is part of no other character. -/
theorem newline_not_mem_utf8EncodeChar {c : Char} (h : c ≠ '\n') :
    newline ∉ String.utf8EncodeChar c := by
  have hval : c.val.toNat ≠ 10 := fun hval => h (Char.ext (UInt32.toNat_inj.mp hval))
  have hbyte : ∀ n < 256, n ≠ 10 → newline ≠ UInt8.ofNat n := by
    intro n hn hne heq
    have htoNat := congrArg UInt8.toNat heq
    rw [UInt8.toNat_ofNat_of_lt' hn] at htoNat
    exact hne htoNat.symm
  fun_cases String.utf8EncodeChar c with
  | case1 =>
    rw [List.mem_singleton]
    exact hbyte _ (by omega) hval
  -- All bytes of a longer character are beyond ASCII.
  | case2 | case3 | case4 =>
    simp only [List.mem_cons, List.not_mem_nil, or_false, not_or]
    and_intros <;> exact hbyte _ (by omega) (by omega)

/-- The lines of a text start just after the bytes that end one. -/
theorem lineStartsFrom_eq_map_idxsOf (offset : Nat) (cs : List Char) :
    lineStartsFrom offset cs =
      ((cs.flatMap String.utf8EncodeChar).idxsOf newline offset).map (· + 1) := by
  induction cs generalizing offset with
  | nil => rfl
  | cons c cs ih =>
    rw [lineStartsFrom, ih, List.flatMap_cons, List.idxsOf_append, List.map_append,
      String.length_utf8EncodeChar]
    split
    next hc =>
      subst hc
      rfl
    next hc =>
      have hnone : (String.utf8EncodeChar c).idxsOf newline offset = [] := by
        rw [List.idxsOf_eq_nil_iff]
        rintro b hb
        exact beq_false_of_ne fun heq => newline_not_mem_utf8EncodeChar hc (heq ▸ hb)
      rw [hnone, List.map_nil, List.nil_append]

/-! ### What a position says -/

/-- A position is right about an offset into bytes. Its line has as many newlines before it as its
number says, starts just after the last newline before the offset, and ends just after the first
one that is not before it. -/
structure Position.Locates (p : Position) (bytes : List UInt8) (index : Nat) : Prop where
  line_eq : p.line = (bytes.take index).count newline
  start : p.lineStart = 0 ∧ newline ∉ bytes.take index ∨
    ∃ k, IsGreatest {k | k < index ∧ bytes[k]? = some newline} k ∧ p.lineStart = k + 1
  stop : p.lineEnd = bytes.length ∧ newline ∉ bytes.drop index ∨
    ∃ k, IsLeast {k | index ≤ k ∧ bytes[k]? = some newline} k ∧ p.lineEnd = k + 1
  character_eq : p.character = index - p.lineStart
  lineStart_le : p.lineStart ≤ index
  le_lineEnd : index ≤ p.lineEnd

/-- The offsets of the newlines before an offset. -/
def newlinesBefore (bytes : List UInt8) (index : Nat) : List Nat :=
  (bytes.take index).idxsOf newline

/-- The offsets of the newlines that are not before an offset. -/
def newlinesFrom (bytes : List UInt8) (index : Nat) : List Nat :=
  (bytes.drop index).idxsOf newline index

/-- Where the line starts that an offset lies on. -/
def lineStartAt (bytes : List UInt8) (index : Nat) : Nat :=
  (0 :: (newlinesBefore bytes index).map (· + 1)).getLastD 0

/-- Where the line ends that an offset lies on. -/
def lineEndAt (bytes : List UInt8) (index : Nat) : Nat :=
  ((newlinesFrom bytes index).map (· + 1)).headD bytes.length

variable {bytes : List UInt8} {index k : Nat}

theorem mem_newlinesBefore_iff :
    k ∈ newlinesBefore bytes index ↔ k < index ∧ bytes[k]? = some newline := by
  rw [newlinesBefore, List.mem_idxsOf_iff_exists_getElem_pos]
  constructor
  · rintro ⟨hk, hbyte⟩
    rw [List.length_take] at hk
    rw [List.getElem_take, beq_iff_eq] at hbyte
    exact ⟨by omega, List.getElem?_eq_some_iff.mpr ⟨by omega, hbyte⟩⟩
  · rintro ⟨hk, hbyte⟩
    obtain ⟨hlength, hbyte⟩ := List.getElem?_eq_some_iff.mp hbyte
    refine ⟨by rw [List.length_take]; omega, ?_⟩
    rw [List.getElem_take, beq_iff_eq, hbyte]

theorem mem_newlinesFrom_iff :
    k ∈ newlinesFrom bytes index ↔ index ≤ k ∧ bytes[k]? = some newline := by
  rw [newlinesFrom, List.mem_idxsOf_iff_getElem_sub_pos]
  refine and_congr_right fun hk => ?_
  rw [← Nat.add_sub_cancel' hk, ← List.getElem?_drop, List.getElem?_eq_some_iff,
    Nat.add_sub_cancel_left]
  simp only [beq_iff_eq]

theorem newline_not_mem_of_idxsOf_eq_nil {offset : Nat} (h : bytes.idxsOf newline offset = []) :
    newline ∉ bytes := by
  intro hmem
  exact absurd (List.idxsOf_eq_nil_iff.mp h newline hmem) (by simp)

/-- A line starts with the text, or just after the last newline before an offset on it. -/
theorem lineStartAt_cases (bytes : List UInt8) (index : Nat) :
    lineStartAt bytes index = 0 ∧ newline ∉ bytes.take index ∨
      ∃ k, IsGreatest {k | k < index ∧ bytes[k]? = some newline} k ∧
        lineStartAt bytes index = k + 1 := by
  rw [lineStartAt]
  rcases List.eq_nil_or_concat (newlinesBefore bytes index) with hnone | ⟨ks, k, hks⟩
  · rw [hnone]
    exact .inl ⟨rfl, newline_not_mem_of_idxsOf_eq_nil hnone⟩
  · rw [List.concat_eq_append] at hks
    have hlast : (0 :: (newlinesBefore bytes index).map (· + 1)).getLastD 0 = k + 1 := by
      rw [hks, List.map_append, List.map_singleton, ← List.cons_append, List.getLastD_concat]
    have hpairwise : (ks ++ [k]).Pairwise (· < ·) := hks ▸ List.pairwise_idxsOf
    refine .inr ⟨k, ⟨mem_newlinesBefore_iff.mp (by simp [hks]), ?_⟩, hlast⟩
    intro j hj
    have hmem := mem_newlinesBefore_iff.mpr hj
    rw [hks] at hmem
    rcases List.mem_append.mp hmem with hmem | hmem
    · exact Nat.le_of_lt ((List.pairwise_append.mp hpairwise).2.2 j hmem k List.mem_cons_self)
    · exact Nat.le_of_eq (List.mem_singleton.mp hmem)

/-- A line ends with the text, or just after the first newline that is not before an offset on
it. -/
theorem lineEndAt_cases (bytes : List UInt8) (index : Nat) :
    lineEndAt bytes index = bytes.length ∧ newline ∉ bytes.drop index ∨
      ∃ k, IsLeast {k | index ≤ k ∧ bytes[k]? = some newline} k ∧
        lineEndAt bytes index = k + 1 := by
  rw [lineEndAt]
  cases hks : newlinesFrom bytes index with
  | nil => exact .inl ⟨rfl, newline_not_mem_of_idxsOf_eq_nil hks⟩
  | cons k ks =>
    have hpairwise : (k :: ks).Pairwise (· < ·) := hks ▸ List.pairwise_idxsOf
    refine .inr ⟨k, ⟨mem_newlinesFrom_iff.mp (by simp [hks]), ?_⟩, rfl⟩
    intro j hj
    have hmem := mem_newlinesFrom_iff.mpr hj
    rw [hks] at hmem
    rcases List.mem_cons.mp hmem with rfl | hmem
    · exact Nat.le_refl j
    · exact Nat.le_of_lt (List.rel_of_pairwise_cons hpairwise hmem)

namespace LineIndex

theorem starts_ofText (text : String) :
    (ofText text.toList).starts = 0 :: ((encode text).idxsOf newline).map (· + 1) := by
  rw [ofText, lineStartsFrom_eq_map_idxsOf, encode]

theorem length_ofText (text : String) : (ofText text.toList).length = (encode text).length :=
  (length_encode text).symm

/-- The position of an offset, by the bytes before it and those from it on. -/
theorem position?_ofText {text : String} (h : index ≤ (encode text).length) :
    (ofText text.toList).position? index =
      some ⟨((encode text).take index).count newline, index - lineStartAt (encode text) index,
        lineStartAt (encode text) index, lineEndAt (encode text) index⟩ := by
  have hstarts : (ofText text.toList).starts =
      0 :: (newlinesBefore (encode text) index).map (· + 1) ++
        (newlinesFrom (encode text) index).map (· + 1) := by
    rw [starts_ofText, List.cons_append, ← List.map_append]
    nth_rewrite 1 [← List.take_append_drop index (encode text)]
    rw [List.idxsOf_append, List.length_take_of_le h, Nat.zero_add]
    rfl
  have hupTo : ∀ n ∈ 0 :: (newlinesBefore (encode text) index).map (· + 1), n ≤ index := by
    simp only [List.forall_mem_cons, List.forall_mem_map, mem_newlinesBefore_iff]
    exact ⟨Nat.zero_le index, fun k hk => hk.1⟩
  have hlater : ∀ n ∈ (newlinesFrom (encode text) index).map (· + 1), index < n := by
    simp only [List.forall_mem_map, mem_newlinesFrom_iff]
    exact fun k hk => Nat.lt_succ_of_le hk.1
  rw [position?_of_starts hstarts hupTo hlater (by rwa [length_ofText]), List.length_cons,
    List.length_map, newlinesBefore, List.length_idxsOf, Nat.add_sub_cancel, length_ofText]
  rfl

theorem position?_ofText_eq_none_iff {text : String} :
    (ofText text.toList).position? index = none ↔ (encode text).length < index := by
  rw [position?, length_ofText]
  split <;> simp <;> omega

/-- **Every position is right.** -/
theorem locates_of_position? {text : String} {p : Position}
    (h : (ofText text.toList).position? index = some p) : p.Locates (encode text) index := by
  have hindex : index ≤ (encode text).length := by
    rw [← not_lt, ← position?_ofText_eq_none_iff, h]
    exact Option.some_ne_none p
  rw [position?_ofText hindex] at h
  obtain rfl := Option.some.inj h
  have hstart := lineStartAt_cases (encode text) index
  have hstop := lineEndAt_cases (encode text) index
  refine ⟨rfl, hstart, hstop, rfl, ?_, ?_⟩
  · rcases hstart with ⟨heq, -⟩ | ⟨k, hk, heq⟩
    · exact heq.trans_le (Nat.zero_le index)
    · exact heq.trans_le hk.1.1
  · rcases hstop with ⟨heq, -⟩ | ⟨k, hk, heq⟩
    · exact hindex.trans_eq heq.symm
    · exact (Nat.le_succ_of_le hk.1.1).trans_eq heq.symm

/-! ### The ranges of the lines -/

/-- The half-open ranges of the lines, in their order. -/
def ranges (lines : LineIndex) : List (Nat × Nat) :=
  lines.starts.zip (lines.starts.tail ++ [lines.length])

/-- The offsets in a half-open range. -/
def offsets (range : Nat × Nat) : List Nat :=
  List.range' range.1 (range.2 - range.1)

variable {lines : LineIndex} {p : Position} {a b : Nat}

/-- A line ends where the next one starts, and the last one with the text. -/
theorem getElem?_ranges_of_starts {front later : List Nat}
    (h : lines.starts = front ++ a :: later) :
    lines.ranges[front.length]? = some (a, later.headD lines.length) := by
  rw [ranges, h, List.getElem?_zip_eq_some]
  refine ⟨by simp, ?_⟩
  cases front <;> cases later <;> simp

/-- A position names its line. -/
theorem getElem?_ranges_of_position? (hfirst : lines.starts.head? = some 0)
    (h : lines.position? index = some p) :
    lines.ranges[p.line]? = some (p.lineStart, p.lineEnd) := by
  obtain ⟨later, hlater⟩ := List.takeWhile_prefix (l := lines.starts) (· ≤ index)
  rw [position?] at h
  split at h
  next =>
    rcases List.eq_nil_or_concat (lines.starts.takeWhile (· ≤ index)) with
      hnone | ⟨front, a, hfront⟩
    -- The first line starts up to every offset.
    · obtain ⟨starts, hstarts⟩ := List.head?_eq_some_iff.mp hfirst
      simp [hstarts] at hnone
    · rw [hfront, List.concat_eq_append] at hlater h
      obtain rfl := Option.some.inj h
      have hranges := getElem?_ranges_of_starts (hlater.symm.trans (List.append_cons ..).symm)
      rw [← hlater, List.drop_left, List.getLastD_concat, List.length_append,
        List.length_singleton, Nat.add_sub_cancel]
      exact hranges
  next => cases h

/-- A line is named by the position of its start. -/
theorem position?_of_getElem?_ranges (hsorted : lines.starts.Pairwise (· < ·))
    (hlength : ∀ n ∈ lines.starts, n ≤ lines.length) (h : lines.ranges[k]? = some (a, b)) :
    lines.position? a = some ⟨k, 0, a, b⟩ := by
  have hk : lines.starts[k]? = some a := (List.getElem?_zip_eq_some.mp h).1
  obtain ⟨front, later, hstarts, rfl⟩ : ∃ front later,
      lines.starts = front ++ a :: later ∧ front.length = k := by
    obtain ⟨hlt, rfl⟩ := List.getElem?_eq_some_iff.mp hk
    refine ⟨lines.starts.take k, lines.starts.drop (k + 1), ?_, List.length_take_of_le hlt.le⟩
    rw [← List.drop_eq_getElem_cons, List.take_append_drop]
  obtain rfl : later.headD lines.length = b :=
    congrArg Prod.snd (Option.some.inj ((getElem?_ranges_of_starts hstarts).symm.trans h))
  rw [hstarts] at hsorted
  obtain ⟨-, hafter, hbefore⟩ := List.pairwise_append.mp hsorted
  have hupTo : ∀ n ∈ front ++ [a], n ≤ a := by
    intro n hn
    rcases List.mem_append.mp hn with hn | hn
    · exact Nat.le_of_lt (hbefore n hn a List.mem_cons_self)
    · exact Nat.le_of_eq (List.mem_singleton.mp hn)
  rw [position?_of_starts (by simpa using hstarts) hupTo (List.pairwise_cons.mp hafter).1
    (hlength a (by simp [hstarts])), List.getLastD_concat, Nat.sub_self, List.length_append,
    List.length_singleton, Nat.add_sub_cancel]

/-- Ranges that start where the one before ends hold what lies between their ends. -/
theorem flatMap_offsets_zip {starts : List Nat} {stop : Nat}
    (h : (a :: starts ++ [stop]).Pairwise (· ≤ ·)) :
    ((a :: starts).zip (starts ++ [stop])).flatMap offsets = List.range' a (stop - a) := by
  induction starts generalizing a with
  | nil => simp [offsets]
  | cons b starts ih =>
    obtain ⟨ha, hrest⟩ := List.pairwise_cons.mp h
    have hab : a ≤ b := ha b List.mem_cons_self
    have hbstop : b ≤ stop := (List.pairwise_cons.mp hrest).1 stop (by simp)
    rw [List.cons_append, List.zip_cons_cons, List.flatMap_cons, ih hrest, offsets]
    calc List.range' a (b - a) ++ List.range' b (stop - b)
        = List.range' a (b - a) ++ List.range' (a + 1 * (b - a)) (stop - b) := by
          rw [Nat.one_mul, Nat.add_sub_cancel' hab]
      _ = List.range' a (stop - a) := by
          rw [List.range'_append, show b - a + (stop - b) = stop - a by omega]

theorem pairwise_starts_ofText (text : String) :
    (ofText text.toList).starts.Pairwise (· < ·) := by
  rw [starts_ofText, List.pairwise_cons, List.pairwise_map]
  refine ⟨?_, List.pairwise_idxsOf.imp Nat.succ_lt_succ⟩
  simp only [List.forall_mem_map]
  exact fun k _ => Nat.succ_pos k

theorem le_length_of_mem_starts {text : String} {n : Nat} (h : n ∈ (ofText text.toList).starts) :
    n ≤ (ofText text.toList).length := by
  rcases List.mem_cons.mp h with rfl | h
  · exact Nat.zero_le _
  · exact (bounds_of_mem_lineStartsFrom h).2.trans_eq (Nat.zero_add _)

/-- **The lines are one after another** and leave nothing out. -/
theorem flatMap_ranges_ofText (text : String) :
    (ofText text.toList).ranges.flatMap offsets = List.range (encode text).length := by
  have hsorted :
      ((ofText text.toList).starts ++ [(ofText text.toList).length]).Pairwise (· ≤ ·) := by
    refine List.pairwise_append.mpr ⟨(pairwise_starts_ofText text).imp Nat.le_of_lt,
      List.pairwise_singleton _ _, ?_⟩
    intro n hn m hm
    rw [List.mem_singleton.mp hm]
    exact le_length_of_mem_starts hn
  rw [List.range_eq_range', ← length_ofText]
  exact flatMap_offsets_zip hsorted

/-- **Positions are exact.** Every offset up to the length of a text has a position, and no other
one has. The position is right about the bytes of the text. The lines that positions name have
ranges which hold every byte of the text once, in order. And an offset is determined by its line
and its place in the line. -/
theorem position?_ofText_exact (text : String) :
    (∀ index, (ofText text.toList).position? index = none ↔ (encode text).length < index) ∧
    (∀ index p, (ofText text.toList).position? index = some p → p.Locates (encode text) index) ∧
    (∀ k a b, (ofText text.toList).ranges[k]? = some (a, b) ↔
      ∃ index p, (ofText text.toList).position? index = some p ∧
        p.line = k ∧ p.lineStart = a ∧ p.lineEnd = b) ∧
    (ofText text.toList).ranges.flatMap offsets = List.range (encode text).length ∧
    ∀ i j p q, (ofText text.toList).position? i = some p →
      (ofText text.toList).position? j = some q → p.line = q.line →
        p.character = q.character → i = j := by
  have hfirst : (ofText text.toList).starts.head? = some 0 := rfl
  refine ⟨fun _ => position?_ofText_eq_none_iff, fun _ _ => locates_of_position?, ?_,
    flatMap_ranges_ofText text, ?_⟩
  · intro k a b
    constructor
    · intro h
      exact ⟨a, _, position?_of_getElem?_ranges (pairwise_starts_ofText text)
        (fun _ => le_length_of_mem_starts) h, rfl, rfl, rfl⟩
    · rintro ⟨index, p, h, rfl, rfl, rfl⟩
      exact getElem?_ranges_of_position? hfirst h
  · intro i j p q hp hq hline hcharacter
    have hranges := getElem?_ranges_of_position? hfirst hp
    rw [hline, getElem?_ranges_of_position? hfirst hq] at hranges
    have hstart : q.lineStart = p.lineStart := congrArg Prod.fst (Option.some.inj hranges)
    have hi := locates_of_position? hp
    have hj := locates_of_position? hq
    calc i = p.lineStart + p.character := by
          rw [hi.character_eq, Nat.add_sub_cancel' hi.lineStart_le]
      _ = q.lineStart + q.character := by rw [hstart, hcharacter]
      _ = j := by rw [hj.character_eq, Nat.add_sub_cancel' hj.lineStart_le]

/-- An offset in the middle of a character, and the one behind the last newline. -/
example : (ofText "é\n".toList).position? 1 = some ⟨0, 1, 0, 3⟩ ∧
    (ofText "é\n".toList).position? 3 = some ⟨1, 0, 3, 3⟩ := by
  decide +kernel

end LineIndex

end Mos6502.Text
