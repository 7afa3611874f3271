import Mos6502.Proofs.Reading
import Mos6502.Proofs.TakenText

/-!
# Where a directive ends

A directive is a whole run of letters, digits, underscores and dots, so that `dba` is no `db` with
something behind it. But that run is one of ASCII characters, and names are not: `dbé` is read as
`db` and the name `é`, while `dba` is a name of its own. Here it is shown that this is all that can
happen. What follows a directive is a character of names exactly if the directive declares data, its
first item is a name, and nothing stands between the two; and then the character lies beyond ASCII.

Both the word and the character behind it are those of the text, at the place where the statement
starts. `Opens` says this of the text that a scanner was put in front of, and it is kept when the
line is put back into its text.

## Main definitions

* `Node.keywords?` — the words that a statement can start with, if it is a directive
* `Node.LabelAt` — the first item is a name, and it stands at an offset
* `Opens` — the text starts with a directive, and what follows it

## Main results

* `Line.opens_of_node` — statements open as they should
* `keyword_of_mem_parse` — the directives of a text
-/

namespace Mos6502

open Text Scanner

/-! ### Characters -/

section

variable {c : Char}

theorem le_of_isIdentContinue (h : isIdentContinue c = true) (hword : isWordChar c = false) :
    0x80 ≤ c.toNat := by
  by_contra hlt
  rw [isIdentContinue, if_pos (Nat.not_le.mp hlt)] at h
  simp only [isWordChar, Bool.or_eq_false_iff] at hword
  simp [hword.1.1, hword.1.2] at h

theorem isIdentContinue_of_isGap (h : isGap c = true) : isIdentContinue c = false := by
  rw [isGap, Bool.or_eq_true, beq_iff_eq, beq_iff_eq] at h
  rcases h with rfl | rfl <;> decide

/-- Digits are word characters, so only the other signs of numbers can follow a word. -/
theorem isIdentContinue_of_startsNumber (h : startsNumber c = true) (hword : isWordChar c = false) :
    isIdentContinue c = false := by
  have hdigit : ¬digitValue c < 10 := by
    intro hlt
    rw [digitValue] at hlt
    split at hlt
    · next hc => simp [isWordChar, Char.isAlphanum, hc] at hword
    · split at hlt
      · omega
      · split at hlt <;> omega
  have hsign : c = '$' ∨ c = '%' := by simpa [startsNumber, hdigit] using h
  rcases hsign with rfl | rfl <;> decide

end

/-! ### The first character of what is read -/

/-- A scanner that fails in front of all other characters has read one of its class. -/
theorem exists_head_of_read {α : Type} {p : Scanner α} {class? : Char → Bool} {c : Cursor}
    {r : α × Cursor} (hfails : ∀ text, Stops class? text → Fails p text) (h : p c = some r) :
    ∃ x ∈ c.rest.head?, class? x = true := by
  by_contra hnone
  have hstops : Stops class? c.rest := by
    intro x hx
    rw [Bool.eq_false_iff]
    exact fun hclass => hnone ⟨x, hx, hclass⟩
  have hread : p c = none := hfails c.rest hstops c.pos
  rw [hread] at h
  cases h

namespace Line

/-- An item that does not start like a word starts with a character of names exactly if it is a
name. -/
theorem exists_head_of_datum {c c' : Cursor} {d : Datum} (h : datum c = some (d, c')) :
    ∃ x ∈ c.rest.head?,
      isWordChar x = false → (isIdentContinue x = true ↔ ∃ name, d = .label name) := by
  obtain h | h := eq_some_of_orElse h
  · obtain ⟨s, c₁, hquoted, hread⟩ := exists_of_bind h
    obtain ⟨rfl, -⟩ := Prod.mk.inj (Option.some.inj hread)
    have hfails : ∀ text, Stops (· == '"') text → Fails quoted text := fun text hstops =>
      (fails_satisfy hstops).bind.bind
    obtain ⟨x, hx, hquote⟩ := exists_head_of_read hfails hquoted
    refine ⟨x, hx, fun _ => iff_of_false ?_ (by simp)⟩
    rw [eq_of_beq hquote]
    decide
  obtain h | h := eq_some_of_orElse h
  · obtain ⟨n, c₁, hnumber, hread⟩ := exists_of_bind h
    obtain ⟨rfl, -⟩ := Prod.mk.inj (Option.some.inj hread)
    obtain ⟨x, hx, hstart⟩ := exists_head_of_read (fun _ => fails_number) hnumber
    refine ⟨x, hx, fun hword => iff_of_false ?_ (by simp)⟩
    rw [isIdentContinue_of_startsNumber hstart hword]
    exact Bool.false_ne_true
  · obtain ⟨s, c₁, hident, hread⟩ := exists_of_bind h
    obtain ⟨rfl, -⟩ := Prod.mk.inj (Option.some.inj hread)
    obtain ⟨x, hx, hstart⟩ := exists_head_of_read (fun _ => fails_ident) hident
    exact ⟨x, hx, fun _ => iff_of_true (isIdentContinue_of_isIdentStart hstart) ⟨s, rfl⟩⟩

end Line

/-! ### Directives -/

/-- The words that a statement can start with, if it is a directive. -/
def Node.keywords? : Node → Option (List String)
  | org _ => some orgWords
  | data width _ => some (dataWords width)
  | label _ | assign _ _ | instr _ => none

/-- The first item of a data declaration is a name, and it starts at the given offset. -/
def Node.LabelAt (pos : Nat) : Node → Prop
  | data _ (item :: _) => (∃ name, item.val = .label name) ∧ item.span.start = pos
  | _ => False

/-- The text starts with one of the words, all of it, and the character behind it is one of names
exactly if the statement has a name there. -/
def Opens (words : List String) (pos : Nat) (text : List Char) (n : Node) : Prop :=
  ∃ ks x more, text = ks ++ x :: more ∧ KeywordText words ks ∧ isWordChar x = false ∧
    (isIdentContinue x = true ↔ n.LabelAt (pos + byteLength ks))

section

variable {words : List String} {pos : Nat} {text : List Char} {n : Node}

theorem Node.keywords?_shift (bytes : Nat) (n : Node) :
    (n.shift bytes).keywords? = n.keywords? := by
  cases n <;> rfl

theorem Node.labelAt_shift (bytes : Nat) (n : Node) :
    (n.shift bytes).LabelAt (pos + bytes) ↔ n.LabelAt pos := by
  cases n with
  | label | assign | org | instr => rfl
  | data width items =>
    cases items with
    | nil => rfl
    | cons => exact and_congr_right fun _ => Nat.add_right_cancel_iff

theorem Opens.append (h : Opens words pos text n) (after : List Char) :
    Opens words pos (text ++ after) n := by
  obtain ⟨ks, x, more, rfl, h⟩ := h
  exact ⟨ks, x, more ++ after, by simp, h⟩

theorem Opens.shift (h : Opens words pos text n) (bytes : Nat) :
    Opens words (pos + bytes) text (n.shift bytes) := by
  obtain ⟨ks, x, more, htext, hword, hx, hlabel⟩ := h
  refine ⟨ks, x, more, htext, hword, hx, ?_⟩
  rw [hlabel, Nat.add_right_comm, Node.labelAt_shift]

end

namespace Line

section

variable {words : List String} {c c' : Cursor} {n : Node}

/-- Behind a word stands what is read next, or a blank in front of it. -/
theorem opens_of_word {x : Char} {named : Prop}
    (hword : KeywordText words (c.rest.takeWhile isWordChar))
    (hx : x ∈ next? (c.rest.dropWhile isWordChar))
    (hnamed : isWordChar x = false → (isIdentContinue x = true ↔ named))
    (hlabel : n.LabelAt (c.pos + byteLength (c.rest.takeWhile isWordChar)) ↔
      named ∧ byteLength ((c.rest.dropWhile isWordChar).takeWhile isGap) = 0) :
    Opens words c.pos c.rest n := by
  have hstops : Stops isWordChar (c.rest.dropWhile isWordChar) := stops_dropWhile _ _
  have htext : c.rest.takeWhile isWordChar ++ c.rest.dropWhile isWordChar = c.rest :=
    List.takeWhile_append_dropWhile
  cases hrest : c.rest.dropWhile isWordChar with
  | nil =>
    rw [hrest] at hx
    cases hx
  | cons y more =>
    rw [hrest] at hx hlabel hstops htext
    have hy : isWordChar y = false := stops_cons.mp hstops
    refine ⟨_, y, more, htext.symm, hword, hy, ?_⟩
    rw [hlabel]
    cases hgap : isGap y with
    | false =>
      rw [next?_of_stops (stops_cons.mpr hgap)] at hx
      obtain rfl : y = x := Option.some.inj hx
      simp [hgap, hnamed hy]
    | true =>
      have hpos : 0 < byteLength ((y :: more).takeWhile isGap) := by
        rw [List.takeWhile_cons_of_pos hgap, byteLength_cons]
        exact Nat.add_pos_left (Char.utf8Size_pos y) _
      rw [isIdentContinue_of_isGap hgap]
      exact iff_of_false Bool.false_ne_true fun h => hpos.ne' h.2

theorem opens_org (h : org c = some (n, c')) :
    ∃ a, n = .org a ∧ Opens orgWords c.pos c.rest n := by
  obtain ⟨_, c₁, hread, h⟩ := exists_of_bind h
  obtain ⟨hword, rfl⟩ := keywordText_of_word hread
  obtain ⟨_, c₂, hblanks, h⟩ := exists_of_bind h
  obtain ⟨-, rfl⟩ := Prod.mk.inj (Option.some.inj hblanks)
  obtain ⟨a, c₃, hnumber, h⟩ := exists_of_bind h
  obtain ⟨rfl, rfl⟩ := Prod.mk.inj (Option.some.inj h)
  obtain ⟨x, hx, hstart⟩ := exists_head_of_read (fun _ => fails_number) hnumber
  have hnamed : isWordChar x = false → (isIdentContinue x = true ↔ False) := fun hword => by
    simp [isIdentContinue_of_startsNumber hstart hword]
  exact ⟨a, rfl, opens_of_word hword hx hnamed (by simp [Node.LabelAt])⟩

theorem opens_data (h : data c = some (n, c')) :
    ∃ width items, n = .data width items ∧ Opens (dataWords width) c.pos c.rest n := by
  obtain ⟨width, c₁, hwidth, h⟩ := exists_of_bind h
  obtain ⟨hword, rfl⟩ := keywordText_of_dataWidth hwidth
  obtain ⟨_, c₂, hblanks, h⟩ := exists_of_bind h
  obtain ⟨-, rfl⟩ := Prod.mk.inj (Option.some.inj hblanks)
  obtain ⟨items, c₃, hitems, h⟩ := exists_of_bind h
  obtain ⟨rfl, rfl⟩ := Prod.mk.inj (Option.some.inj h)
  obtain ⟨item, c₄, hitem, hitems⟩ := exists_of_bind hitems
  obtain ⟨others, c₅, -, hitems⟩ := exists_of_bind hitems
  obtain ⟨rfl, rfl⟩ := Prod.mk.inj (Option.some.inj hitems)
  obtain ⟨d, hdatum, rfl⟩ := exists_of_spanned hitem
  obtain ⟨x, hx, hnamed⟩ := exists_head_of_datum hdatum
  refine ⟨width, _, rfl, opens_of_word hword hx hnamed ?_⟩
  exact and_congr_right fun _ => Nat.add_eq_left

end

/-- **A directive at the front of a text**, and the character behind it. -/
theorem opens_of_node {c c' : Cursor} {n : Node} {words : List String}
    (h : node c = some (n, c')) (hwords : n.keywords? = some words) :
    Opens words c.pos c.rest n := by
  obtain h | h := eq_some_of_orElse h
  · obtain ⟨_, _, -, h⟩ := exists_of_bind h
    obtain ⟨_, _, -, h⟩ := exists_of_bind h
    obtain ⟨_, _, -, h⟩ := exists_of_bind h
    obtain ⟨rfl, -⟩ := Prod.mk.inj (Option.some.inj h)
    cases hwords
  obtain h | h := eq_some_of_orElse h
  · obtain ⟨a, rfl, hopens⟩ := opens_org h
    obtain rfl := Option.some.inj hwords
    exact hopens
  obtain h | h := eq_some_of_orElse h
  · obtain ⟨width, items, rfl, hopens⟩ := opens_data h
    obtain rfl := Option.some.inj hwords
    exact hopens
  · obtain ⟨_, _, -, h⟩ := exists_of_bind h
    obtain ⟨_, _, -, h⟩ := exists_of_bind h
    obtain ⟨rfl, -⟩ := Prod.mk.inj (Option.some.inj h)
    cases hwords

end Line

/-! ### Statements in the text -/

/-- The statement stands in the text, which starts at `pos`, and opens with one of the words
there. -/
def Stmt.OpensIn (words : List String) (pos : Nat) (text : List Char) (s : Stmt) : Prop :=
  ∃ before rest, text = before ++ rest ∧ s.span.start = pos + byteLength before ∧
    Opens words s.span.start rest s.node

namespace Stmt.OpensIn

variable {words : List String} {pos : Nat} {text : List Char} {s : Stmt}

theorem append (h : s.OpensIn words pos text) (after : List Char) :
    s.OpensIn words pos (text ++ after) := by
  obtain ⟨before, rest, rfl, hspan, hopens⟩ := h
  exact ⟨before, rest ++ after, by simp, hspan, hopens.append after⟩

theorem gap {before : List Char} (h : s.OpensIn words (pos + byteLength before) text) :
    s.OpensIn words pos (before ++ text) := by
  obtain ⟨between, rest, rfl, hspan, hopens⟩ := h
  refine ⟨before ++ between, rest, by simp, ?_, hopens⟩
  rw [hspan, byteLength_append, Nat.add_assoc]

theorem shift (h : s.OpensIn words pos text) (bytes lines : Nat) :
    (s.shift bytes lines).OpensIn words (pos + bytes) text := by
  obtain ⟨before, rest, htext, hspan, hopens⟩ := h
  refine ⟨before, rest, htext, ?_, hopens.shift bytes⟩
  show s.span.start + bytes = pos + bytes + byteLength before
  rw [hspan, Nat.add_right_comm]

end Stmt.OpensIn

section

variable {words : List String} {s : Stmt}

namespace Line

theorem exists_label_of_optional {pos : Nat} {text : List Char} {l : Option (Spanned Node)}
    {c : Cursor}
    (h : optional (do let l ← spanned label; blanks; return l) ⟨pos, text⟩ = some (l, c)) :
    ∃ ls, text = ls ++ c.rest ∧ c.pos = pos + byteLength ls ∧
      ∀ x ∈ l, x.val.keywords? = none := by
  have htakes : Takes (do let l ← spanned label; blanks; return l) pos
      fun _ x => x.val.keywords? = none := by
    refine takes_label.spanned.bind fun _ x hx => moves_blanks.bind_pure fun _ _ _ => ?_
    obtain ⟨⟨-, name, hname⟩, -⟩ := hx
    rw [hname, Node.keywords?]
  obtain ⟨ls, htext, hpos, hl⟩ := htakes.optional _ _ _ h
  refine ⟨ls, htext, hpos, ?_⟩
  rintro x rfl
  obtain ⟨hnone, -⟩ | ⟨y, hy, hlabel⟩ := hl
  · cases hnone
  · obtain rfl := Option.some.inj hy
    exact hlabel

theorem opensIn_content {pos : Nat} {text : List Char} {c' : Cursor} {stmts : List Stmt}
    (h : content ⟨pos, text⟩ = some (stmts, c')) (hs : s ∈ stmts)
    (hwords : s.node.keywords? = some words) : s.OpensIn words pos text := by
  obtain ⟨_, ⟨_, rest⟩, hblanks, hstmts⟩ := exists_of_bind h
  obtain ⟨bs, rfl, rfl, -⟩ := moves_blanks _ _ _ hblanks
  obtain ⟨l, ⟨_, rest⟩, hlabel, hothers⟩ := exists_of_bind hstmts
  obtain ⟨ls, rfl, rfl, hl⟩ := exists_label_of_optional hlabel
  obtain ⟨o, _, hnode, hend⟩ := exists_of_bind hothers
  obtain ⟨_, _, -, hend⟩ := exists_of_bind hend
  obtain ⟨rfl, -⟩ := Prod.mk.inj (Option.some.inj hend)
  refine (Stmt.OpensIn.gap ?_).gap
  obtain hs | hs := List.mem_append.mp hs <;> obtain ⟨x, hx, rfl⟩ := List.mem_map.mp hs
  · -- a label is no directive
    have hnone := hl x (Option.mem_toList.mp hx)
    rw [stmtOf, hnone] at hwords
    cases hwords
  · obtain rfl : o = some x := Option.mem_toList.mp hx
    obtain hread | hread := eq_some_of_orElse hnode
    · obtain ⟨y, _, hspanned, hread⟩ := exists_of_bind hread
      obtain ⟨hy, rfl⟩ := Prod.mk.inj (Option.some.inj hread)
      obtain rfl := Option.some.inj hy
      obtain ⟨n, hn, rfl⟩ := exists_of_spanned hspanned
      exact ⟨[], rest, rfl, rfl, opens_of_node hn hwords⟩
    · cases hread

theorem exists_content_of_readLine {text : List Char} {stmts : List Stmt}
    (h : readLine text = .ok stmts) (hne : stmts ≠ []) :
    ∃ c, content ⟨0, text⟩ = some (stmts, c) := by
  rw [readLine] at h
  split at h
  · exact absurd (Except.ok.inj h).symm hne
  · next stmts' pos rest hread =>
    split at h
    · obtain rfl := Except.ok.inj h
      exact ⟨_, hread⟩
    · split at h
      · obtain rfl := Except.ok.inj h
        exact ⟨_, hread⟩
      · cases h

end Line

theorem Parsed.opensIn_ofLine {line : List Char} (hs : s ∈ (ofLine line).stmts)
    (hwords : s.node.keywords? = some words) : s.OpensIn words 0 line := by
  obtain ⟨ending, hline⟩ := exists_dropWhileEnd_append (fun c => c == '\r' || c == '\n') line
  rw [← hline]
  refine Stmt.OpensIn.append ?_ ending
  rw [ofLine] at hs
  split at hs
  · next stmts hread =>
    obtain ⟨c, hcontent⟩ := Line.exists_content_of_readLine hread (List.ne_nil_of_mem hs)
    exact Line.opensIn_content hcontent hs hwords
  · cases hs

theorem Parsed.opensIn_ofLinesFrom {pos first : Nat} {lines : List (List Char)}
    (hs : s ∈ (ofLinesFrom pos first lines).stmts) (hwords : s.node.keywords? = some words) :
    s.OpensIn words pos lines.flatten := by
  induction lines generalizing pos first with
  | nil => cases hs
  | cons line lines ih =>
    rw [List.flatten_cons]
    obtain hs | hs := List.mem_append.mp hs
    · obtain ⟨t, ht, rfl⟩ := List.mem_map.mp hs
      have hopens := opensIn_ofLine ht ((Node.keywords?_shift pos t.node).symm.trans hwords)
      have hshift := (hopens.append lines.flatten).shift pos first
      rwa [Nat.zero_add] at hshift
    · exact (ih hs).gap

end

/-- **The directive at the front of a statement**, and the character behind it. -/
theorem keyword_of_mem_parse {text : List Char} {s : Stmt} {words : List String}
    (hs : s ∈ (parse text).stmts) (hwords : s.node.keywords? = some words) :
    ∃ before ks x after, text = before ++ (ks ++ x :: after) ∧
      s.span.start = byteLength before ∧ KeywordText words ks ∧ isWordChar x = false ∧
      (isIdentContinue x = true ↔ s.node.LabelAt (s.span.start + byteLength ks)) ∧
      (isIdentContinue x = true → 0x80 ≤ x.toNat) := by
  obtain ⟨before, rest, htext, hspan, ks, x, after, rfl, hword, hx, hlabel⟩ :=
    Parsed.opensIn_ofLinesFrom hs hwords
  rw [flatten_rawLines] at htext
  rw [Nat.zero_add] at hspan
  exact ⟨before, ks, x, after, htext, hspan, hword, hx, hlabel,
    fun hident => le_of_isIdentContinue hident hx⟩

/-- Nothing stands between the directive `db` and the name `é`. -/
theorem keyword_of_mem_parse_gluedName :
    let text := "dbé\n".toList
    let s : Stmt := ⟨1, ⟨0, 4⟩, .data .byte [⟨.label "é", ⟨2, 4⟩⟩]⟩
    let words := ["dc.b", ".byte", "db"]
    s ∈ (parse text).stmts ∧ s.node.keywords? = some words ∧
      text = "db".toList ++ 'é' :: ['\n'] ∧ isIdentContinue 'é' = true ∧
      ∃ before ks x after, text = before ++ (ks ++ x :: after) ∧
        s.span.start = byteLength before ∧ KeywordText words ks ∧ isWordChar x = false ∧
        (isIdentContinue x = true ↔ s.node.LabelAt (s.span.start + byteLength ks)) ∧
        (isIdentContinue x = true → 0x80 ≤ x.toNat) := by
  intro text s words
  have hs : s ∈ (parse text).stmts := by decide +kernel
  exact ⟨hs, rfl, rfl, by decide +kernel, keyword_of_mem_parse hs rfl⟩

end Mos6502
