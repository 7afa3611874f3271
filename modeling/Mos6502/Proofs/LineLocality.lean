import Mos6502.Source.Parse

/-!
# Reading is local to lines

A text that ends with a newline can be read before what follows it is known. What follows yields
the same statements and errors as it would on its own, only further into the text: by the bytes of
the first part, and by as many lines as that has newlines.

Nothing here looks into a line. The lines of the two parts together are the lines of the whole, and
what a line says is moved to its place afterwards; so the only thing to keep in step are the offset
and the line number, which `ofLinesFrom` carries along.

## Main results

* `rawLines_append` — the lines of two texts, the first of which ends with a newline
* `Parsed.ofLinesFrom_eq_shift` — where lines start only moves what they say
* `parse_append_of_endsLine` — reading one text after the other
-/

namespace Mos6502

open Text

/-! ### Moving twice -/

@[simp] theorem Spanned.shift_shift {α : Type} (a b : Nat) (x : Spanned α) :
    (x.shift a).shift b = x.shift (a + b) := by
  rw [Spanned.shift, Spanned.shift, Span.shift_shift]
  rfl

theorem Operand.shift_shift (a b : Nat) (o : Operand) :
    (o.shift a).shift b = o.shift (a + b) := by
  cases o <;> simp [shift]

theorem Node.shift_shift (a b : Nat) (n : Node) : (n.shift a).shift b = n.shift (a + b) := by
  cases n with
  | data width items =>
    have hitems : Spanned.shift b ∘ Spanned.shift a = Spanned.shift (α := Datum) (a + b) := by
      funext x
      exact Spanned.shift_shift a b x
    rw [shift, shift, shift, List.map_map, hitems]
  | instr i => simp [shift, Instr.shift, Operand.shift_shift]
  | label | assign | org => rfl

theorem Stmt.shift_shift (a b m n : Nat) (s : Stmt) :
    (s.shift a m).shift b n = s.shift (a + b) (m + n) := by
  rw [shift, shift, shift, Span.shift_shift, Node.shift_shift, Nat.add_assoc]

theorem SyntaxError.shift_shift (a b m n : Nat) (e : SyntaxError) :
    (e.shift a m).shift b n = e.shift (a + b) (m + n) := by
  rw [shift, shift, shift, Span.shift_shift, Nat.add_assoc]

namespace Parsed

theorem shift_shift (a b m n : Nat) (p : Parsed) :
    (p.shift a m).shift b n = p.shift (a + b) (m + n) := by
  have hstmts : Stmt.shift b n ∘ Stmt.shift a m = Stmt.shift (a + b) (m + n) := by
    funext s
    exact Stmt.shift_shift a b m n s
  have herrors : SyntaxError.shift b n ∘ SyntaxError.shift a m =
      SyntaxError.shift (a + b) (m + n) := by
    funext e
    exact SyntaxError.shift_shift a b m n e
  rw [shift, shift, shift, List.map_map, List.map_map, hstmts, herrors]

theorem shift_append (a m : Nat) (p q : Parsed) :
    (p.append q).shift a m = (p.shift a m).append (q.shift a m) := by
  rw [shift, append, List.map_append, List.map_append]
  rfl

theorem append_assoc (p q r : Parsed) : (p.append q).append r = p.append (q.append r) := by
  simp [append]

/-! ### Lines in a row -/

/-- **Where lines start** only moves what they say. -/
theorem ofLinesFrom_eq_shift (ls : List (List Char)) (bytes line a m : Nat) :
    ofLinesFrom (bytes + a) (line + m) ls = (ofLinesFrom bytes line ls).shift a m := by
  induction ls generalizing bytes line with
  | nil => rfl
  | cons l ls ih =>
    rw [ofLinesFrom, ofLinesFrom, shift_append, shift_shift, ← ih]
    congr 2 <;> omega

/-- The lines after the first ones start where those end. -/
theorem ofLinesFrom_append (ls ls' : List (List Char)) (bytes line : Nat) :
    ofLinesFrom bytes line (ls ++ ls') =
      (ofLinesFrom bytes line ls).append
        (ofLinesFrom (bytes + byteLength ls.flatten) (line + ls.length) ls') := by
  induction ls generalizing bytes line with
  | nil => rfl
  | cons l ls ih =>
    rw [List.cons_append, ofLinesFrom, ofLinesFrom, ih, append_assoc, List.flatten_cons,
      byteLength_append, List.length_cons]
    congr 3 <;> omega

end Parsed

/-! ### The lines of a text -/

/-- The text is empty or its last line is complete. -/
def EndsLine (text : List Char) : Prop :=
  text = [] ∨ text.getLast? = some '\n'

instance (text : List Char) : Decidable (EndsLine text) :=
  inferInstanceAs (Decidable (_ ∨ _))

theorem EndsLine.tail {c : Char} {cs : List Char} (h : EndsLine (c :: cs)) : EndsLine cs := by
  rcases h with h | h
  · exact absurd h (List.cons_ne_nil c cs)
  · cases cs with
    | nil => exact .inl rfl
    | cons d cs => exact .inr (by rwa [List.getLast?_cons_cons] at h)

theorem EndsLine.append {xs ys : List Char} (hxs : EndsLine xs) (hys : EndsLine ys) :
    EndsLine (xs ++ ys) := by
  rcases hys with rfl | hys
  · rwa [List.append_nil]
  · exact .inr (by rw [List.getLast?_append, hys, Option.some_or])

theorem rawLines_ne_nil {text : List Char} (h : text ≠ []) : rawLines text ≠ [] := by
  cases text with
  | nil => exact absurd rfl h
  | cons c cs =>
    rw [rawLines]
    split
    · exact List.cons_ne_nil _ _
    · split <;> exact List.cons_ne_nil _ _

/-- The lines of a text make it up. -/
theorem flatten_rawLines (text : List Char) : (rawLines text).flatten = text := by
  induction text with
  | nil => rfl
  | cons c cs ih =>
    rw [rawLines]
    split
    · rw [List.flatten_cons, ih, List.singleton_append]
    · split
      · next hlines =>
        rw [hlines] at ih
        rw [← ih]
        rfl
      · next l ls hlines =>
        rw [hlines] at ih
        rw [← ih]
        rfl

/-- **The lines of two texts**, the first of which ends with a newline, are those of both. -/
theorem rawLines_append {xs : List Char} (h : EndsLine xs) (ys : List Char) :
    rawLines (xs ++ ys) = rawLines xs ++ rawLines ys := by
  induction xs with
  | nil => rfl
  | cons c cs ih =>
    rw [List.cons_append, rawLines, rawLines, ih h.tail]
    split
    · rfl
    · next hc =>
      -- the line that `c` stands on goes on, since the text does not end here
      have hcs : cs ≠ [] := by
        rintro rfl
        simp [EndsLine, hc] at h
      obtain ⟨l, ls, hlines⟩ := List.exists_cons_of_ne_nil (rawLines_ne_nil hcs)
      rw [hlines]
      rfl

/-- There are as many lines as newlines, if the last line is complete. -/
theorem length_rawLines {text : List Char} (h : EndsLine text) :
    (rawLines text).length = text.count '\n' := by
  induction text with
  | nil => rfl
  | cons c cs ih =>
    have hlength := ih h.tail
    rw [rawLines]
    split
    · next hc => rw [hc, List.count_cons_self, List.length_cons, hlength]
    · next hc =>
      rw [List.count_cons_of_ne hc]
      have hcs : cs ≠ [] := by
        rintro rfl
        simp [EndsLine, hc] at h
      obtain ⟨l, ls, hlines⟩ := List.exists_cons_of_ne_nil (rawLines_ne_nil hcs)
      rw [hlines] at hlength ⊢
      exact hlength

/-- A text of one complete line is that line. -/
theorem rawLines_of_count {line : List Char} (h : EndsLine line) (hcount : line.count '\n' = 1) :
    rawLines line = [line] := by
  obtain ⟨l, hl⟩ := List.length_eq_one_iff.mp ((length_rawLines h).trans hcount)
  have hflatten := flatten_rawLines line
  rw [hl, List.flatten_singleton] at hflatten
  rw [hl, hflatten]

/-! ### Reading -/

/-- A line that cannot be read says nothing. -/
theorem Parsed.stmts_ofLine {line : List Char} (h : (ofLine line).errors ≠ []) :
    (ofLine line).stmts = [] := by
  unfold ofLine at h ⊢
  split
  · next stmts hread =>
    rw [hread] at h
    exact absurd rfl h
  · rfl

/-- One text after the other: the second starts where the first ends. -/
theorem parse_append {text : List Char} (h : EndsLine text) (more : List Char) :
    parse (text ++ more) =
      (parse text).append ((parse more).shift (byteLength text) (text.count '\n')) := by
  rw [parse, rawLines_append h, Parsed.ofLinesFrom_append, flatten_rawLines, length_rawLines h,
    Parsed.ofLinesFrom_eq_shift]
  rfl

/-- **Reading is local to lines.** What follows a complete line is read as if it stood alone, and
then moved behind what stands before it. So a line that cannot be read takes nothing with it: the
statements before it and after it are those of the text without that line, moved by its length. -/
theorem parse_append_of_endsLine (before after : List Char) (h : EndsLine before) :
    parse (before ++ after) =
      (parse before).append ((parse after).shift (byteLength before) (before.count '\n')) ∧
    ∀ line, EndsLine line → line.count '\n' = 1 → (parse line).errors ≠ [] →
      (parse (before ++ line ++ after)).stmts =
        (parse before).stmts ++ (parse after).stmts.map
          (Stmt.shift (byteLength (before ++ line)) ((before ++ line).count '\n')) := by
  refine ⟨parse_append h after, fun line hline hcount herrors => ?_⟩
  have hone : parse line = ((Parsed.ofLine line).shift 0 1).append {} := by
    rw [parse, rawLines_of_count hline hcount]
    rfl
  have hsilent : (parse line).stmts = [] := by
    rw [hone] at herrors ⊢
    have hbad : (Parsed.ofLine line).errors ≠ [] := by
      intro hnil
      exact herrors (by simp [Parsed.append, Parsed.shift, hnil])
    simp [Parsed.append, Parsed.shift, Parsed.stmts_ofLine hbad]
  rw [parse_append (h.append hline), parse_append h]
  simp [Parsed.append, Parsed.shift, hsilent]

/-- A line with letters of two bytes and a carriage return, then one that cannot be read, then one
that is not complete. -/
theorem parse_append_of_endsLine_brokenLine :
    EndsLine "é: inx\r\n".toList ∧ (parse " lda (\n".toList).errors ≠ [] ∧
      (parse "é: inx\r\n lda (\ndb 1".toList).stmts =
        [⟨1, ⟨0, 3⟩, .label "é"⟩, ⟨1, ⟨4, 7⟩, .instr ⟨⟨"inx", ⟨4, 7⟩⟩, .implied⟩⟩,
          ⟨3, ⟨16, 20⟩, .data .byte [⟨.int 1, ⟨19, 20⟩⟩]⟩] := by
  have hbefore : EndsLine "é: inx\r\n".toList := by decide
  have hbroken : (parse " lda (\n".toList).errors ≠ [] := by decide
  refine ⟨hbefore, hbroken, ?_⟩
  have hstmts := (parse_append_of_endsLine "é: inx\r\n".toList "db 1".toList hbefore).2
    " lda (\n".toList (by decide) (by decide) hbroken
  exact hstmts.trans (by decide)

end Mos6502
