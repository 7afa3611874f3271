import Mos6502.Proofs.LineLocality
import Mos6502.Proofs.TakenText

/-!
# Spans are faithful

Everything that is read keeps its line and its bytes, and diagnostics point there. This file says
that they point at the right place: the spans of statements, of their parts and of syntax errors
can be cut out of the text, they lie on the line that is named with them, they do not overlap, and
what they cut out is what was read there.

A line is read as if the text started with it, and is moved to its place afterwards. So there are
two steps. What stands on a line is known from the scanners; moving it keeps that, and lines in a
row make up the text.

## Main definitions

* `Span.LiesOn` — a span lies on a line
* `Parsed.IsLine` — what a line can yield
* `Faithful` — all that is known of what a text says

## Main results

* `Parsed.stands_ofLinesFrom` — what lines say is laid out in their text
* `Parsed.liesOn_ofLinesFrom` — and lies on its line
* `Parsed.isLine_onLine` — what one line yields
* `faithful_parse`
-/

namespace Mos6502

open Text

/-! ### Moving what stands in a text -/

theorem Operand.register?_shift (bytes : Nat) (o : Operand) :
    (o.shift bytes).register? = o.register?.map (Spanned.shift bytes) := by
  cases o <;> rfl

section

variable {pos : Nat} {cs : List Char}

theorem Node.Stands.shift {n : Node} (h : n.Stands pos cs) (bytes : Nat) :
    (n.shift bytes).Stands (pos + bytes) cs := by
  cases n with
  | label | assign | org => exact h
  | data width items => exact Laid.map bytes h (fun _ => rfl) fun _ _ hitem => hitem
  | instr i =>
    have hmap : Laid Spanned.span Spanned.IsWritten (pos + bytes) cs
        ((i.mnemonic :: i.operand.register?.toList).map (Spanned.shift bytes)) :=
      Laid.map bytes h (fun _ => rfl) fun _ _ hname => hname
    rwa [List.map_cons, ← Option.toList_map, ← Operand.register?_shift] at hmap

theorem Stmt.Stands.shift {s : Stmt} (h : s.Stands cs) (bytes lines : Nat) :
    (s.shift bytes lines).Stands cs :=
  Node.Stands.shift h bytes

end

theorem Stmt.label?_shift (bytes lines : Nat) (s : Stmt) :
    (s.shift bytes lines).label? = s.label? := by
  obtain ⟨line, span, node⟩ := s
  cases node <;> rfl

/-- What is found at an error is the character it names. -/
def SyntaxError.Stands (e : SyntaxError) (cs : List Char) : Prop :=
  cs = [e.found]

/-- Statements and errors are laid out in the text, which starts at `pos`. -/
structure Parsed.Stands (pos : Nat) (cs : List Char) (p : Parsed) : Prop where
  stmts : Laid Stmt.span Stmt.Stands pos cs p.stmts
  errors : Laid SyntaxError.span SyntaxError.Stands pos cs p.errors

/-- One error and nothing else, or no error, at most one label and then at most one other
statement. -/
def Parsed.IsLine (p : Parsed) : Prop :=
  p.stmts = [] ∧ p.errors.length = 1 ∨ p.errors = [] ∧ IsLineOf p.stmts

namespace Parsed

section

variable {pos : Nat} {cs ds : List Char} {p q : Parsed}

theorem Stands.append (hp : p.Stands pos cs) (hq : q.Stands (pos + byteLength cs) ds) :
    (p.append q).Stands pos (cs ++ ds) :=
  ⟨hp.stmts.append hq.stmts, hp.errors.append hq.errors⟩

theorem Stands.more (h : p.Stands pos cs) : p.Stands pos (cs ++ ds) :=
  ⟨h.stmts.more, h.errors.more⟩

theorem Stands.shift (h : p.Stands pos cs) (bytes lines : Nat) :
    (p.shift bytes lines).Stands (pos + bytes) cs where
  stmts := h.stmts.map bytes (fun _ => rfl) fun _ _ hs => hs.shift bytes lines
  errors := h.errors.map bytes (fun _ => rfl) fun _ _ he => he

theorem IsLine.shift (h : p.IsLine) (bytes lines : Nat) : (p.shift bytes lines).IsLine := by
  rcases h with ⟨hstmts, herrors⟩ | ⟨herrors, labels, others, hstmts, hl, ho, hlabels, hothers⟩
  · exact .inl ⟨by rw [Parsed.shift, hstmts]; rfl, by rw [Parsed.shift, List.length_map, herrors]⟩
  · refine .inr ⟨by rw [Parsed.shift, herrors]; rfl, labels.map (Stmt.shift bytes lines),
      others.map (Stmt.shift bytes lines), ?_, ?_, ?_, ?_, ?_⟩
    · rw [Parsed.shift, hstmts, List.map_append]
    · rwa [List.length_map]
    · rwa [List.length_map]
    · simpa [Stmt.label?_shift] using hlabels
    · simpa [Stmt.label?_shift] using hothers

end

/-! ### One line -/

/-- **What a line says** stands in it, in front of what ends it. -/
theorem ofLine_spec (line : List Char) :
    (ofLine line).Stands 0 (withoutLineEnd line) ∧ (ofLine line).IsLine ∧
      (∀ s ∈ (ofLine line).stmts, s.line = 0) ∧ ∀ e ∈ (ofLine line).errors, e.line = 0 := by
  unfold ofLine
  rcases Line.readLine_cases (withoutLineEnd line) with
    ⟨stmts, hread, hstands⟩ | ⟨before, c, after, htext, hread⟩
  · rw [hread]
    exact ⟨⟨hstands.laid, .nil⟩, .inr ⟨rfl, hstands.isLineOf⟩, hstands.line, by simp⟩
  · have herror : Laid SyntaxError.span SyntaxError.Stands (0 + byteLength before) [c]
        [⟨0, ⟨byteLength before, byteLength before + c.utf8Size⟩, c⟩] := by
      refine .single ?_ rfl
      rw [Nat.zero_add]
      rfl
    rw [hread]
    refine ⟨⟨.nil, ?_⟩, .inl ⟨rfl, rfl⟩, by simp, by simp⟩
    rw [htext]
    exact herror.more.gap

/-! ### Lines in a row -/

/-- The lines and spans of all that was read. -/
def places (p : Parsed) : List (Nat × Span) :=
  p.stmts.map (fun s => (s.line, s.span)) ++ p.errors.map fun e => (e.line, e.span)

theorem mem_places_append {p q : Parsed} {x : Nat × Span} :
    x ∈ (p.append q).places ↔ x ∈ p.places ∨ x ∈ q.places := by
  simp only [places, append, List.map_append, List.mem_append]
  constructor
  · rintro ((h | h) | (h | h)) <;> simp [h]
  · rintro ((h | h) | (h | h)) <;> simp [h]

/-- What a line says is on that line, in front of what ends it. -/
theorem place_ofLine {line : List Char} {bytes n : Nat} {x : Nat × Span}
    (hx : x ∈ ((ofLine line).shift bytes n).places) :
    x.1 = n ∧ bytes ≤ x.2.start ∧ x.2.stop ≤ bytes + byteLength (withoutLineEnd line) := by
  obtain ⟨hstands, -, hstmts, herrors⟩ := ofLine_spec line
  have hmoved := hstands.shift bytes n
  rw [Nat.zero_add] at hmoved
  rcases List.mem_append.mp hx with hx | hx
  · obtain ⟨s, hs, rfl⟩ := List.mem_map.mp hx
    obtain ⟨hstart, -, hstop⟩ := hmoved.stmts.within hs
    obtain ⟨t, ht, rfl⟩ := List.mem_map.mp hs
    refine ⟨?_, hstart, hstop⟩
    show t.line + n = n
    rw [hstmts t ht, Nat.zero_add]
  · obtain ⟨e, he, rfl⟩ := List.mem_map.mp hx
    obtain ⟨hstart, -, hstop⟩ := hmoved.errors.within he
    obtain ⟨d, hd, rfl⟩ := List.mem_map.mp he
    refine ⟨?_, hstart, hstop⟩
    show d.line + n = n
    rw [herrors d hd, Nat.zero_add]

end Parsed

/-- The span lies on line `n`, counted from one, in front of what ends that line. -/
def Span.LiesOn (lines : List (List Char)) (n : Nat) (span : Span) : Prop :=
  ∃ before line after, lines = before ++ line :: after ∧ n = before.length + 1 ∧
    byteLength before.flatten ≤ span.start ∧
    span.stop ≤ byteLength before.flatten + byteLength (withoutLineEnd line)

namespace Parsed

/-- **What lines say** is laid out in their text. -/
theorem stands_ofLinesFrom (bytes n : Nat) (lines : List (List Char)) :
    (ofLinesFrom bytes n lines).Stands bytes lines.flatten := by
  induction lines generalizing bytes n with
  | nil => exact ⟨.nil, .nil⟩
  | cons line lines ih =>
    obtain ⟨ending, hline⟩ : ∃ ending, withoutLineEnd line ++ ending = line :=
      exists_dropWhileEnd_append _ line
    have hhere : ((ofLine line).shift bytes n).Stands bytes (withoutLineEnd line ++ ending) := by
      have hmoved := (ofLine_spec line).1.shift bytes n
      rw [Nat.zero_add] at hmoved
      exact hmoved.more
    rw [hline] at hhere
    exact hhere.append (ih _ _)

/-- **What lines say** lies on them. -/
theorem liesOn_ofLinesFrom (before lines : List (List Char)) :
    ∀ x ∈ (ofLinesFrom (byteLength before.flatten) (before.length + 1) lines).places,
      x.2.LiesOn (before ++ lines) x.1 := by
  induction lines generalizing before with
  | nil => simp [ofLinesFrom, places]
  | cons line lines ih =>
    intro x hx
    rcases mem_places_append.mp hx with hx | hx
    · obtain ⟨hline, hstart, hstop⟩ := place_ofLine hx
      exact ⟨before, line, lines, rfl, hline, hstart, hstop⟩
    · have hbytes : byteLength (before ++ [line]).flatten =
          byteLength before.flatten + byteLength line := by simp
      have hrest := ih (before ++ [line])
      rw [hbytes, List.length_append, List.length_singleton, List.append_assoc,
        List.singleton_append] at hrest
      exact hrest x hx

/-- Lines are counted upwards. -/
theorem le_of_mem_places {bytes n : Nat} {lines : List (List Char)} {x : Nat × Span}
    (hx : x ∈ (ofLinesFrom bytes n lines).places) : n ≤ x.1 := by
  induction lines generalizing bytes n with
  | nil => simp [ofLinesFrom, places] at hx
  | cons line lines ih =>
    rcases mem_places_append.mp hx with hx | hx
    · exact Nat.le_of_eq (place_ofLine hx).1.symm
    · exact Nat.le_of_succ_le (ih hx)

/-- What was read on one line. -/
def onLine (n : Nat) (p : Parsed) : Parsed :=
  ⟨p.stmts.filter fun s => s.line = n, p.errors.filter fun e => e.line = n⟩

theorem onLine_append (n : Nat) (p q : Parsed) :
    (p.append q).onLine n = (p.onLine n).append (q.onLine n) := by
  simp [onLine, append]

theorem onLine_eq_self {n : Nat} {p : Parsed} (h : ∀ x ∈ p.places, x.1 = n) : p.onLine n = p := by
  simp only [places, List.forall_mem_append, List.forall_mem_map] at h
  have hstmts : (p.stmts.filter fun s => s.line = n) = p.stmts :=
    List.filter_eq_self.mpr fun s hs => decide_eq_true (h.1 s hs)
  have herrors : (p.errors.filter fun e => e.line = n) = p.errors :=
    List.filter_eq_self.mpr fun e he => decide_eq_true (h.2 e he)
  rw [onLine, hstmts, herrors]

theorem onLine_eq_empty {n : Nat} {p : Parsed} (h : ∀ x ∈ p.places, x.1 ≠ n) :
    p.onLine n = {} := by
  simp only [places, List.forall_mem_append, List.forall_mem_map] at h
  have hstmts : (p.stmts.filter fun s => s.line = n) = [] :=
    List.filter_eq_nil_iff.mpr fun s hs => by simpa using h.1 s hs
  have herrors : (p.errors.filter fun e => e.line = n) = [] :=
    List.filter_eq_nil_iff.mpr fun e he => by simpa using h.2 e he
  rw [onLine, hstmts, herrors]

/-- **What one line yields.** -/
theorem isLine_onLine (bytes n k : Nat) (lines : List (List Char)) :
    ((ofLinesFrom bytes n lines).onLine k).IsLine := by
  induction lines generalizing bytes n with
  | nil => exact .inr ⟨rfl, [], [], rfl, by simp⟩
  | cons line lines ih =>
    rw [ofLinesFrom, onLine_append]
    by_cases hk : n = k
    · subst hk
      have hhere : ((ofLine line).shift bytes n).onLine n = (ofLine line).shift bytes n :=
        onLine_eq_self fun x hx => (place_ofLine hx).1
      have hlater : (ofLinesFrom (bytes + byteLength line) (n + 1) lines).onLine n = {} :=
        onLine_eq_empty fun x hx => Nat.ne_of_gt (le_of_mem_places hx)
      have hline := (ofLine_spec line).2.1.shift bytes n
      rw [hhere, hlater]
      simpa [append] using hline
    · have hhere : ((ofLine line).shift bytes n).onLine k = {} :=
        onLine_eq_empty fun x hx => (place_ofLine hx).1.trans_ne hk
      rw [hhere]
      simpa [append] using ih _ _

end Parsed

/-! ### A whole text -/

/-- The text that a span covers. -/
def Span.cut? (text : List Char) (span : Span) : Option (List Char) :=
  slice? span.start span.stop text

/-- The spans inside a statement: of its items, or of its mnemonic and its register. -/
def Node.parts : Node → List Span
  | label _ | assign _ _ | org _ => []
  | data _ items => items.map Spanned.span
  | instr i => (i.mnemonic :: i.operand.register?.toList).map Spanned.span

theorem Node.Stands.laid {n : Node} {pos : Nat} {cs : List Char} (h : n.Stands pos cs) :
    Laid id (fun _ _ => True) pos cs n.parts := by
  cases n with
  | label | assign | org => exact .nil
  | data | instr => exact Laid.map 0 h (fun _ => rfl) fun _ _ _ => trivial

/-- The statement and its parts, with the line they stand on. -/
def Stmt.marks (s : Stmt) : List (Nat × Span) :=
  (s.span :: s.node.parts).map fun span => (s.line, span)

/-- Whatever has a span, with its line. -/
def Parsed.marks (p : Parsed) : List (Nat × Span) :=
  p.stmts.flatMap Stmt.marks ++ p.errors.map fun e => (e.line, e.span)

/-- What the lines and spans of a text have to do with it. Spans can be cut out of the text, lie on
the lines that are named with them and do not overlap, and what they cut out is what was read. -/
structure Faithful (text : List Char) (p : Parsed) : Prop where
  /-- A line yields one error, or at most one label and at most one other statement behind it. -/
  line (n : Nat) : (p.onLine n).IsLine
  fits : ∀ x ∈ p.marks, x.2.Fits text
  liesOn : ∀ x ∈ p.marks, x.2.LiesOn (rawLines text) x.1
  ordered : p.stmts.Pairwise fun s t => s.span.stop ≤ t.span.start
  inside : ∀ s ∈ p.stmts, ∀ part ∈ s.node.parts,
    s.span.start ≤ part.start ∧ part.stop ≤ s.span.stop
  apart : ∀ s ∈ p.stmts, s.node.parts.Pairwise fun x y => x.stop ≤ y.start
  label : ∀ s ∈ p.stmts, ∀ name, s.node = .label name →
    s.span.cut? text = some (name.toList ++ [':'])
  mnemonic : ∀ s ∈ p.stmts, ∀ i, s.node = .instr i →
    i.mnemonic.span.cut? text = some i.mnemonic.val.toList
  register : ∀ s ∈ p.stmts, ∀ i, s.node = .instr i → ∀ r ∈ i.operand.register?,
    r.span.cut? text = some r.val.toList
  item : ∀ s ∈ p.stmts, ∀ width items, s.node = .data width items → ∀ item ∈ items,
    ∃ cs, item.span.cut? text = some cs ∧ item.val.Writes cs
  error : ∀ e ∈ p.errors, e.span.cut? text = some [e.found]

theorem Parsed.stands_parse (text : List Char) : (parse text).Stands 0 text := by
  have h := stands_ofLinesFrom 0 1 (rawLines text)
  rwa [flatten_rawLines] at h

section

variable {text : List Char} {s : Stmt}

/-- A statement of a text, with what stands in front of it and behind it. -/
theorem Stmt.exists_stands (hs : s ∈ (parse text).stmts) :
    ∃ before cs after, text = before ++ (cs ++ after) ∧ s.node.Stands (byteLength before) cs ∧
      s.span = ⟨byteLength before, byteLength before + byteLength cs⟩ := by
  obtain ⟨before, cs, after, htext, hstands, hspan⟩ :=
    (Parsed.stands_parse text).stmts.exists_part hs
  rw [Nat.zero_add] at hspan
  refine ⟨before, cs, after, htext, ?_, hspan⟩
  rwa [Stmt.Stands, hspan] at hstands

theorem Stmt.part_within (hs : s ∈ (parse text).stmts) {part : Span} (hpart : part ∈ s.node.parts) :
    s.span.start ≤ part.start ∧ part.stop ≤ s.span.stop := by
  obtain ⟨before, cs, after, -, hstands, hspan⟩ := exists_stands hs
  obtain ⟨hstart, -, hstop⟩ := hstands.laid.within hpart
  rw [hspan]
  exact ⟨hstart, hstop⟩

/-- The mnemonic and the register stand where their spans say. -/
theorem Stmt.cut?_name (hs : s ∈ (parse text).stmts) {i : Instr} (hnode : s.node = .instr i)
    {name : Spanned String} (hname : name ∈ i.mnemonic :: i.operand.register?.toList) :
    name.span.cut? text = some name.val.toList := by
  obtain ⟨before, cs, after, htext, hstands, -⟩ := exists_stands hs
  rw [hnode] at hstands
  obtain ⟨written, hcut, rfl⟩ := Laid.exists_slice? htext hstands hname
  exact hcut

end

namespace Parsed

variable {text : List Char} {x : Nat × Span}

theorem mem_marks_cases (hx : x ∈ (parse text).marks) :
    x ∈ (parse text).places ∨
      ∃ s ∈ (parse text).stmts, ∃ part ∈ s.node.parts, x = (s.line, part) := by
  rcases List.mem_append.mp hx with hx | hx
  · obtain ⟨s, hs, hx⟩ := List.mem_flatMap.mp hx
    rcases List.mem_cons.mp hx with rfl | hx
    · exact .inl (List.mem_append_left _ (List.mem_map.mpr ⟨s, hs, rfl⟩))
    · obtain ⟨part, hpart, rfl⟩ := List.mem_map.mp hx
      exact .inr ⟨s, hs, part, hpart, rfl⟩
  · exact .inl (List.mem_append_right _ hx)

theorem fits_of_mem_marks (hx : x ∈ (parse text).marks) : x.2.Fits text := by
  rcases mem_marks_cases hx with hx | ⟨s, hs, part, hpart, rfl⟩
  · have hall := stands_parse text
    have htext : text = [] ++ (text ++ []) := by simp
    rcases List.mem_append.mp hx with hx | hx
    · obtain ⟨s, hs, rfl⟩ := List.mem_map.mp hx
      obtain ⟨cs, hcut, -⟩ := hall.stmts.exists_slice? htext hs
      exact Span.fits_of_slice? hcut
    · obtain ⟨e, he, rfl⟩ := List.mem_map.mp hx
      obtain ⟨cs, hcut, -⟩ := hall.errors.exists_slice? htext he
      exact Span.fits_of_slice? hcut
  · obtain ⟨before, cs, after, htext, hstands, -⟩ := Stmt.exists_stands hs
    obtain ⟨_, hcut, -⟩ := Laid.exists_slice? htext hstands.laid hpart
    exact Span.fits_of_slice? hcut

theorem liesOn_of_mem_marks (hx : x ∈ (parse text).marks) : x.2.LiesOn (rawLines text) x.1 := by
  have hplaces : ∀ y ∈ (parse text).places, y.2.LiesOn (rawLines text) y.1 :=
    liesOn_ofLinesFrom [] (rawLines text)
  rcases mem_marks_cases hx with hx | ⟨s, hs, part, hpart, rfl⟩
  · exact hplaces x hx
  · obtain ⟨before, line, after, hlines, hn, hstart, hstop⟩ :=
      hplaces (s.line, s.span) (List.mem_append_left _ (List.mem_map.mpr ⟨s, hs, rfl⟩))
    obtain ⟨hstart', hstop'⟩ := Stmt.part_within hs hpart
    exact ⟨before, line, after, hlines, hn, Nat.le_trans hstart hstart',
      Nat.le_trans hstop' hstop⟩

end Parsed

/-- **Spans and lines are faithful**, in every text. -/
theorem faithful_parse (text : List Char) : Faithful text (parse text) where
  line n := Parsed.isLine_onLine 0 1 n (rawLines text)
  fits _ hx := Parsed.fits_of_mem_marks hx
  liesOn _ hx := Parsed.liesOn_of_mem_marks hx
  ordered := (Parsed.stands_parse text).stmts.pairwise
  inside _ hs _ hpart := Stmt.part_within hs hpart
  apart s hs := by
    obtain ⟨before, cs, after, -, hstands, -⟩ := Stmt.exists_stands hs
    exact hstands.laid.pairwise
  label s hs name hnode := by
    obtain ⟨before, cs, after, htext, hstands, hspan⟩ := Stmt.exists_stands hs
    rw [hnode] at hstands
    rw [Span.cut?, hspan, htext, slice?_append, hstands]
  mnemonic s hs i hnode := Stmt.cut?_name hs hnode List.mem_cons_self
  register s hs i hnode r hr :=
    Stmt.cut?_name hs hnode (List.mem_cons_of_mem _ (Option.mem_toList.mpr hr))
  item s hs width items hnode item hitem := by
    obtain ⟨before, cs, after, htext, hstands, -⟩ := Stmt.exists_stands hs
    rw [hnode] at hstands
    exact Laid.exists_slice? htext hstands hitem
  error e he := by
    obtain ⟨cs, hcut, rfl⟩ :=
      (Parsed.stands_parse text).errors.exists_slice? (by simp : text = [] ++ (text ++ [])) he
    exact hcut

end Mos6502
