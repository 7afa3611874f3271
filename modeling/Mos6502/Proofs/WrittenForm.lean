import Mos6502.Source.Parse
import Mos6502.Proofs.Scanning

/-!
# How statements are written

The syntax of the language as relations between what is said and the characters that say it. They
are the second side of reading: nothing here mentions an order of alternatives, what a run of
characters takes with it, or where a line could be misread. A statement has many written forms,
since blanks, the radix of a number, leading zeros and the case of digits and directives are free.

Spans are no part of what is said. The relations hold for every span, and `unplaced` forgets them.

## Main definitions

* `NumberText`, `NameText`, `OperandText`, `ItemsText`, `NodeText` — the parts of a line
* `LineText` — a line with its label, its statement and its comment
* `Node.unplaced` — a statement without its places

## Main results

* `LineText.newline_not_mem`, `LineText.withoutLineEnd` — a written line is one line, and what ends
  it can be told apart from it
-/

namespace Mos6502

open Text Scanner

/-! ### Statements without their places -/

/-- The value, as if it stood nowhere. -/
def Spanned.unplaced {α : Type} (x : Spanned α) : Spanned α :=
  ⟨x.val, ⟨0, 0⟩⟩

/-- The operand without the place of its register. -/
def Operand.unplaced : Operand → Operand
  | indexed a r => indexed a r.unplaced
  | labelIndexed n r => labelIndexed n r.unplaced
  | indirectX a r => indirectX a r.unplaced
  | indirectY a r => indirectY a r.unplaced
  | o => o

/-- What a statement says, without the places of what it says. -/
def Node.unplaced : Node → Node
  | data width items => data width (items.map Spanned.unplaced)
  | instr i => instr ⟨i.mnemonic.unplaced, i.operand.unplaced⟩
  | n => n

/-- A statement on its line, without its place on it. -/
def Stmt.unplaced (s : Stmt) : Stmt :=
  ⟨s.line, ⟨0, 0⟩, s.node.unplaced⟩

/-! ### Numbers and names -/

/-- Digits of a number in the given radix, the first one first, with as many zeros in front as one
likes. Letters among them are small or capital. -/
def DigitsText (radix n : Nat) (cs : List Char) : Prop :=
  ∃ vs : List Nat, vs ≠ [] ∧ (∀ v ∈ vs, v < radix) ∧ cs.map Char.toLower = vs.map Nat.digitChar ∧
    Nat.ofDigits radix vs.reverse = n

/-- The ways to write a number. -/
inductive NumberText (n : UInt32) : List Char → Prop where
  /-- `$ff` -/
  | dollar {cs : List Char} (h : DigitsText 16 n.toNat cs) : NumberText n (['$'] ++ cs)
  /-- `0xff` -/
  | zeroX {cs : List Char} (h : DigitsText 16 n.toNat cs) : NumberText n (['0'] ++ (['x'] ++ cs))
  /-- `%1010` -/
  | percent {cs : List Char} (h : DigitsText 2 n.toNat cs) : NumberText n (['%'] ++ cs)
  /-- `255` -/
  | decimal {cs : List Char} (h : DigitsText 10 n.toNat cs) : NumberText n cs

/-- A name is an identifier and is written as it is. -/
def NameText (name : String) (cs : List Char) : Prop :=
  cs = name.toList ∧ isIdent cs = true

instance (name : String) (cs : List Char) : Decidable (NameText name cs) :=
  inferInstanceAs (Decidable (_ ∧ _))

/-- A number, or the name of one. -/
inductive ExprText : Expr → List Char → Prop where
  | int {n : UInt32} {cs : List Char} (h : NumberText n cs) : ExprText (.int n) cs
  | name {s : String} {cs : List Char} (h : NameText s cs) : ExprText (.name s) cs

/-! ### Operands -/

/-- A sign with blanks around it. -/
def PaddedText (sign : Char) (cs : List Char) : Prop :=
  ∃ bs bs', Gap bs ∧ Gap bs' ∧ cs = bs ++ ([sign] ++ bs')

/-- An opening parenthesis. -/
def OpenText (cs : List Char) : Prop :=
  ∃ bs, Gap bs ∧ cs = ['('] ++ bs

/-- A closing parenthesis. -/
def CloseText (cs : List Char) : Prop :=
  ∃ bs, Gap bs ∧ cs = bs ++ [')']

/-- The operand of an instruction, if it is written at all. -/
inductive OperandText : Operand → List Char → Prop where
  /-- `#v` -/
  | immediate {e : Expr} {cs : List Char} (h : ExprText e cs) :
    OperandText (.immediate e) (['#'] ++ cs)
  /-- `v`, a number -/
  | direct {n : UInt32} {cs : List Char} (h : NumberText n cs) : OperandText (.direct n) cs
  /-- `v`, a name -/
  | label {s : String} {cs : List Char} (h : NameText s cs) : OperandText (.label s) cs
  /-- `v, R`, with a number -/
  | indexed {n : UInt32} {r : Spanned String} {cs sep rs : List Char} (h : NumberText n cs)
    (hsep : PaddedText ',' sep) (hr : NameText r.val rs) :
    OperandText (.indexed n r) (cs ++ (sep ++ rs))
  /-- `v, R`, with a name -/
  | labelIndexed {s : String} {r : Spanned String} {cs sep rs : List Char} (h : NameText s cs)
    (hsep : PaddedText ',' sep) (hr : NameText r.val rs) :
    OperandText (.labelIndexed s r) (cs ++ (sep ++ rs))
  /-- `(v, R)` -/
  | indirectX {e : Expr} {r : Spanned String} {os cs sep rs ds : List Char} (hopen : OpenText os)
    (h : ExprText e cs) (hsep : PaddedText ',' sep) (hr : NameText r.val rs)
    (hclose : CloseText ds) :
    OperandText (.indirectX e r) (os ++ (cs ++ (sep ++ (rs ++ ds))))
  /-- `(v), R` -/
  | indirectY {e : Expr} {r : Spanned String} {os cs ds sep rs : List Char} (hopen : OpenText os)
    (h : ExprText e cs) (hclose : CloseText ds) (hsep : PaddedText ',' sep)
    (hr : NameText r.val rs) :
    OperandText (.indirectY e r) (os ++ (cs ++ (ds ++ (sep ++ rs))))
  /-- `(v)` -/
  | indirect {e : Expr} {os cs ds : List Char} (hopen : OpenText os) (h : ExprText e cs)
    (hclose : CloseText ds) :
    OperandText (.indirect e) (os ++ (cs ++ ds))

/-! ### Statements -/

/-- An item of a data declaration. -/
inductive DatumText : Datum → List Char → Prop where
  | int {n : UInt32} {cs : List Char} (h : NumberText n cs) : DatumText (.int n) cs
  | str {s : String} (hquote : '"' ∉ s.toList) (hline : '\n' ∉ s.toList) :
    DatumText (.str s) (['"'] ++ (s.toList ++ ['"']))
  | label {s : String} {cs : List Char} (h : NameText s cs) : DatumText (.label s) cs

/-- The items of a data declaration, at least one. -/
inductive ItemsText : List (Spanned Datum) → List Char → Prop where
  | one {d : Spanned Datum} {cs : List Char} (h : DatumText d.val cs) : ItemsText [d] cs
  | cons {d : Spanned Datum} {items : List (Spanned Datum)} {cs sep ds : List Char}
    (h : DatumText d.val cs) (hsep : PaddedText ',' sep) (hitems : ItemsText items ds) :
    ItemsText (d :: items) (cs ++ (sep ++ ds))

/-- One of the given words, in any case of its letters. -/
def KeywordText (names : List String) (cs : List Char) : Prop :=
  cs.map Char.toLower ∈ names.map String.toList

instance (names : List String) (cs : List Char) : Decidable (KeywordText names cs) :=
  inferInstanceAs (Decidable (_ ∈ _))

/-- The words that move the location counter. -/
def orgWords : List String :=
  ["org", ".org"]

/-- The words that declare data of a width. -/
def dataWords : DataWidth → List String
  | .byte => ["dc.b", ".byte", "db"]
  | .word => ["dc.w", ".word", "dw"]

/-- The mnemonic starts with a directive, which takes precedence over it: the letters, digits and
signs of directives at its front are one. -/
def StartsDirective (cs : List Char) : Prop :=
  KeywordText ["org", "db", "dw"] (cs.takeWhile isWordChar)

instance (cs : List Char) : Decidable (StartsDirective cs) :=
  inferInstanceAs (Decidable (KeywordText _ _))

/-- A statement other than a label. -/
inductive NodeText : Node → List Char → Prop where
  /-- `NAME = number` -/
  | assign {s : String} {n : UInt32} {cs sep ds : List Char} (hname : NameText s cs)
    (hsep : PaddedText '=' sep) (h : NumberText n ds) :
    NodeText (.assign s n) (cs ++ (sep ++ ds))
  /-- `org number` -/
  | org {n : UInt32} {ks bs cs : List Char} (hword : KeywordText orgWords ks) (hbs : Gap bs)
    (hne : bs ≠ []) (h : NumberText n cs) :
    NodeText (.org n) (ks ++ (bs ++ cs))
  /-- `dc.b item, item, …` -/
  | data {width : DataWidth} {items : List (Spanned Datum)} {ks bs cs : List Char}
    (hword : KeywordText (dataWords width) ks) (hbs : Gap bs) (hne : bs ≠ [])
    (h : ItemsText items cs) :
    NodeText (.data width items) (ks ++ (bs ++ cs))
  /-- A mnemonic without operand. -/
  | implied {m : Spanned String} {cs : List Char} (hname : NameText m.val cs)
    (hword : ¬StartsDirective cs) :
    NodeText (.instr ⟨m, .implied⟩) cs
  /-- A mnemonic and its operand. -/
  | instr {m : Spanned String} {o : Operand} {cs bs os : List Char} (hname : NameText m.val cs)
    (hword : ¬StartsDirective cs) (hbs : Gap bs) (hne : bs ≠ []) (h : OperandText o os) :
    NodeText (.instr ⟨m, o⟩) (cs ++ (bs ++ os))

/-! ### Lines -/

/-- `name:`, or nothing. -/
inductive LabelText : Option String → List Char → Prop where
  | none : LabelText none []
  | some {s : String} {cs bs : List Char} (h : NameText s cs) (hbs : Gap bs) :
    LabelText (some s) ((cs ++ [':']) ++ bs)

/-- A statement, or nothing. -/
inductive StatementText : Option Node → List Char → Prop where
  | none : StatementText none []
  | some {n : Node} {cs : List Char} (h : NodeText n cs) : StatementText (some n) cs

/-- A semicolon and what follows it up to the end of the line, or nothing. -/
inductive CommentText : List Char → Prop where
  | none : CommentText []
  | some {cs : List Char} (h : '\n' ∉ cs) : CommentText (';' :: cs)

/-- A line with an optional label, an optional statement and an optional comment. -/
inductive LineText (label : Option String) (node : Option Node) : List Char → Prop where
  | mk {bs ls ns bs' cs : List Char} (hbs : Gap bs) (hlabel : LabelText label ls)
    (hnode : StatementText node ns) (hbs' : Gap bs') (hcomment : CommentText cs) :
    LineText label node (bs ++ (ls ++ (ns ++ (bs' ++ cs))))

/-! ### Characters of numbers and names -/

/-- Lowering the case of a letter can be undone. -/
theorem eq_or_eq_toUpper_toLower (c : Char) : c = c.toLower ∨ c = c.toLower.toUpper := by
  by_cases hc : c.isUpper = true
  · right
    rw [Char.toUpper_toLower_eq_toUpper,
      Char.toUpper_eq_of_not_isLower (Char.not_isLower_of_isUpper hc)]
  · left
    exact (Char.toLower_eq_of_not_isUpper hc).symm

section

variable {radix n : Nat} {cs : List Char} {c : Char}

/-- A digit is the sign of its value, small or capital. -/
theorem DigitsText.exists_of_mem (h : DigitsText radix n cs) (hc : c ∈ cs) :
    ∃ v < radix, c = Nat.digitChar v ∨ c = (Nat.digitChar v).toUpper := by
  obtain ⟨vs, -, hvs, hmap, -⟩ := h
  have hlower : c.toLower ∈ vs.map Nat.digitChar := by
    rw [← hmap]
    exact List.mem_map_of_mem hc
  obtain ⟨v, hv, hdigit⟩ := List.mem_map.mp hlower
  refine ⟨v, hvs v hv, ?_⟩
  rw [hdigit]
  exact eq_or_eq_toUpper_toLower c

theorem DigitsText.ne_nil (h : DigitsText radix n cs) : cs ≠ [] := by
  rintro rfl
  obtain ⟨vs, hne, -, hmap, -⟩ := h
  exact hne (List.map_eq_nil_iff.mp hmap.symm)

theorem DigitsText.isIdentContinue (h : DigitsText radix n cs) (hradix : radix ≤ 16)
    (hc : c ∈ cs) : Text.isIdentContinue c = true := by
  have hdigit : ∀ v < 16, Text.isIdentContinue (Nat.digitChar v) = true ∧
      Text.isIdentContinue (Nat.digitChar v).toUpper = true := by decide
  obtain ⟨v, hv, rfl | rfl⟩ := h.exists_of_mem hc
  · exact (hdigit v (by omega)).1
  · exact (hdigit v (by omega)).2

theorem NameText.isIdentContinue {s : String} (h : NameText s cs) (hc : c ∈ cs) :
    Text.isIdentContinue c = true := by
  obtain ⟨-, hident⟩ := h
  cases cs with
  | nil => cases hident
  | cons d cs =>
    rw [isIdent, Bool.and_eq_true] at hident
    rcases List.mem_cons.mp hc with rfl | hc
    · exact isIdentContinue_of_isIdentStart hident.1
    · exact List.all_eq_true.mp hident.2 c hc

theorem NameText.ne_nil {s : String} (h : NameText s cs) : cs ≠ [] := by
  rintro rfl
  cases h.2

theorem isWordChar_toLower (c : Char) : isWordChar c.toLower = isWordChar c := by
  by_cases hc : c.isUpper = true
  · have halpha : c.isAlpha = true := by simp [Char.isAlpha, hc]
    simp [isWordChar, Char.isAlphanum, halpha]
  · rw [Char.toLower_eq_of_not_isUpper hc]

theorem KeywordText.isWordChar {names : List String} (h : KeywordText names cs)
    (hnames : ∀ name ∈ names, name.toList.all Scanner.isWordChar = true) (hc : c ∈ cs) :
    Scanner.isWordChar c = true := by
  obtain ⟨name, hname, hcs⟩ := List.mem_map.mp h
  rw [← isWordChar_toLower]
  refine List.all_eq_true.mp (hnames name hname) _ ?_
  rw [hcs]
  exact List.mem_map_of_mem hc

theorem isWordChar_of_mem_orgWords : ∀ name ∈ orgWords, name.toList.all isWordChar = true := by
  decide

theorem isWordChar_of_mem_dataWords (width : DataWidth) :
    ∀ name ∈ dataWords width, name.toList.all isWordChar = true := by
  cases width <;> decide

end

/-! ### A written line is one line -/

/-- A piece of a line does not end it: there is no newline in it, and no carriage return at its
end. -/
def Piece (cs : List Char) : Prop :=
  '\n' ∉ cs ∧ ∀ c ∈ cs.getLast?, c ≠ '\r'

section

variable {xs ys cs : List Char}

theorem Piece.append (hxs : Piece xs) (hys : Piece ys) : Piece (xs ++ ys) := by
  refine ⟨by simp [hxs.1, hys.1], fun c hc => ?_⟩
  rw [Option.mem_def, List.getLast?_append, Option.or_eq_some_iff] at hc
  rcases hc with hc | ⟨-, hc⟩
  · exact hys.2 c hc
  · exact hxs.2 c hc

theorem Piece.of_forall (h : ∀ c ∈ cs, c ≠ '\n' ∧ c ≠ '\r') : Piece cs :=
  ⟨fun hmem => (h _ hmem).1 rfl, fun c hc => (h c (List.mem_of_getLast? hc)).2⟩

theorem Piece.singleton {c : Char} (hline : c ≠ '\n') (hreturn : c ≠ '\r') : Piece [c] :=
  .of_forall (by simp [hline, hreturn])

theorem Piece.of_gap (h : Gap cs) : Piece cs := by
  refine .of_forall fun c hc => ⟨?_, ?_⟩ <;>
  · rintro rfl
    exact absurd (h _ hc) (by decide)

/-- Characters of identifiers end no line. -/
theorem Piece.of_isIdentContinue (h : ∀ c ∈ cs, Text.isIdentContinue c = true) : Piece cs := by
  refine .of_forall fun c hc => ⟨?_, ?_⟩ <;>
  · rintro rfl
    exact absurd (h _ hc) (by decide)

end

section

variable {cs : List Char}

theorem DigitsText.piece {radix n : Nat} (h : DigitsText radix n cs) (hradix : radix ≤ 16) :
    Piece cs :=
  .of_isIdentContinue fun _ hc => h.isIdentContinue hradix hc

theorem NumberText.piece {n : UInt32} (h : NumberText n cs) : Piece cs := by
  have hsign : ∀ c ∈ ['$', '0', 'x', '%'], Piece [c] := by
    intro c hc
    refine .singleton ?_ ?_ <;>
    · rintro rfl
      exact absurd hc (by decide)
  cases h with
  | dollar h => exact (hsign _ (by decide)).append (h.piece (by decide))
  | zeroX h =>
    exact (hsign _ (by decide)).append ((hsign _ (by decide)).append (h.piece (by decide)))
  | percent h => exact (hsign _ (by decide)).append (h.piece (by decide))
  | decimal h => exact h.piece (by decide)

theorem NameText.piece {s : String} (h : NameText s cs) : Piece cs :=
  .of_isIdentContinue fun _ hc => h.isIdentContinue hc

theorem ExprText.piece {e : Expr} (h : ExprText e cs) : Piece cs := by
  cases h with
  | int h => exact h.piece
  | name h => exact h.piece

theorem PaddedText.piece {sign : Char} (h : PaddedText sign cs) (hline : sign ≠ '\n')
    (hreturn : sign ≠ '\r') : Piece cs := by
  obtain ⟨bs, bs', hbs, hbs', rfl⟩ := h
  exact (Piece.of_gap hbs).append ((Piece.singleton hline hreturn).append (.of_gap hbs'))

theorem OpenText.piece (h : OpenText cs) : Piece cs := by
  obtain ⟨bs, hbs, rfl⟩ := h
  exact (Piece.singleton (by decide) (by decide)).append (.of_gap hbs)

theorem CloseText.piece (h : CloseText cs) : Piece cs := by
  obtain ⟨bs, hbs, rfl⟩ := h
  exact (Piece.of_gap hbs).append (.singleton (by decide) (by decide))

theorem OperandText.piece {o : Operand} (h : OperandText o cs) : Piece cs := by
  have hcomma : ∀ {sep}, PaddedText ',' sep → Piece sep := fun hsep =>
    hsep.piece (by decide) (by decide)
  cases h with
  | immediate h => exact (Piece.singleton (by decide) (by decide)).append h.piece
  | direct h => exact h.piece
  | label h => exact h.piece
  | indexed h hsep hr => exact h.piece.append ((hcomma hsep).append hr.piece)
  | labelIndexed h hsep hr => exact h.piece.append ((hcomma hsep).append hr.piece)
  | indirectX hopen h hsep hr hclose =>
    have hregister := (hcomma hsep).append (hr.piece.append hclose.piece)
    exact hopen.piece.append (h.piece.append hregister)
  | indirectY hopen h hclose hsep hr =>
    have hregister := (hcomma hsep).append hr.piece
    exact hopen.piece.append (h.piece.append (hclose.piece.append hregister))
  | indirect hopen h hclose => exact hopen.piece.append (h.piece.append hclose.piece)

theorem DatumText.piece {d : Datum} (h : DatumText d cs) : Piece cs := by
  cases h with
  | int h => exact h.piece
  | str hquote hline =>
    -- the text may end with a carriage return, but the quote stands behind it
    refine ⟨by simp [hline], fun c hc => ?_⟩
    rw [← List.append_assoc, List.getLast?_concat] at hc
    cases hc
    decide
  | label h => exact h.piece

theorem ItemsText.piece {items : List (Spanned Datum)} (h : ItemsText items cs) : Piece cs := by
  induction h with
  | one h => exact h.piece
  | cons h hsep hitems ih => exact h.piece.append ((hsep.piece (by decide) (by decide)).append ih)

theorem KeywordText.piece {names : List String} (h : KeywordText names cs)
    (hnames : ∀ name ∈ names, name.toList.all Scanner.isWordChar = true) : Piece cs := by
  refine .of_forall fun c hc => ⟨?_, ?_⟩ <;>
  · rintro rfl
    exact absurd (h.isWordChar hnames hc) (by decide)

theorem NodeText.piece {node : Node} (h : NodeText node cs) : Piece cs := by
  cases h with
  | assign hname hsep h =>
    exact hname.piece.append ((hsep.piece (by decide) (by decide)).append h.piece)
  | org hword hbs hne h =>
    exact (hword.piece isWordChar_of_mem_orgWords).append ((Piece.of_gap hbs).append h.piece)
  | @data width items _ _ _ hword hbs hne h =>
    have hwords := hword.piece (isWordChar_of_mem_dataWords width)
    exact hwords.append ((Piece.of_gap hbs).append h.piece)
  | implied hname hword => exact hname.piece
  | instr hname hword hbs hne h => exact hname.piece.append ((Piece.of_gap hbs).append h.piece)

theorem LabelText.piece {label : Option String} (h : LabelText label cs) : Piece cs := by
  cases h with
  | none => exact .of_forall (by simp)
  | some h hbs => exact (h.piece.append (.singleton (by decide) (by decide))).append (.of_gap hbs)

theorem StatementText.piece {node : Option Node} (h : StatementText node cs) : Piece cs := by
  cases h with
  | none => exact .of_forall (by simp)
  | some h => exact h.piece

end

/-! ### What ends a line -/

section

variable {p : Char → Bool} {xs ys : List Char}

theorem dropWhileEnd_append_of_forall (h : ∀ c ∈ ys, p c = true) :
    dropWhileEnd p (xs ++ ys) = dropWhileEnd p xs := by
  have hys : ∀ c ∈ ys.reverse, p c = true := fun c hc => h c (List.mem_reverse.mp hc)
  rw [dropWhileEnd, List.reverse_append, List.dropWhile_append_of_pos hys, dropWhileEnd]

/-- A character that stays keeps everything before it. -/
theorem dropWhileEnd_append_cons {c : Char} (h : p c = false) :
    dropWhileEnd p (xs ++ c :: ys) = xs ++ c :: dropWhileEnd p ys := by
  rw [dropWhileEnd, dropWhileEnd, List.reverse_append, List.reverse_cons, List.append_assoc,
    List.dropWhile_append]
  split
  · next hempty => simp [List.isEmpty_iff.mp hempty, h]
  · simp

theorem dropWhileEnd_of_getLast? (h : ∀ c ∈ xs.getLast?, p c = false) :
    dropWhileEnd p xs = xs := by
  have hstops : Stops p xs.reverse := by
    intro c hc
    rw [List.head?_reverse] at hc
    exact h c hc
  rw [dropWhileEnd, dropWhile_of_stops hstops, List.reverse_reverse]

end

/-- The ways in which a line ends. -/
def lineEnds : List (List Char) :=
  [[], ['\n'], ['\r', '\n']]

section

variable {label : Option String} {node : Option Node} {line ending : List Char}

/-- **A written line is one line.** -/
theorem LineText.newline_not_mem (h : LineText label node line) : '\n' ∉ line := by
  cases h with
  | mk hbs hlabel hnode hbs' hcomment =>
    have hpiece :=
      (Piece.of_gap hbs).append (hlabel.piece.append (hnode.piece.append (.of_gap hbs')))
    cases hcomment with
    | none => simpa using hpiece.1
    | some h => simpa [h] using hpiece.1

/-- What ends a line can be told apart from it. Only a comment can lose something with it. -/
theorem LineText.withoutLineEnd (h : LineText label node line) (hending : ending ∈ lineEnds) :
    LineText label node (withoutLineEnd (line ++ ending)) := by
  have hends : ∀ c ∈ ending, (c == '\r' || c == '\n') = true := by
    rcases List.mem_cons.mp hending with rfl | hending
    · simp
    · rcases List.mem_pair.mp hending with rfl | rfl <;> simp
  rw [Mos6502.withoutLineEnd, dropWhileEnd_append_of_forall hends]
  cases h with
  | @mk bs ls ns bs' cs hbs hlabel hnode hbs' hcomment =>
    cases hcomment with
    | none =>
      have hpiece :=
        (Piece.of_gap hbs).append (hlabel.piece.append (hnode.piece.append (.of_gap hbs')))
      rw [List.append_nil, dropWhileEnd_of_getLast?]
      · simpa using LineText.mk hbs hlabel hnode hbs' .none
      · intro c hc
        have hline : c ≠ '\n' := by
          rintro rfl
          exact hpiece.1 (List.mem_of_getLast? hc)
        simp [hline, hpiece.2 c hc]
    | @some cs hcs =>
      have hkept : '\n' ∉ dropWhileEnd (fun c => c == '\r' || c == '\n') cs := by
        intro hmem
        exact hcs (List.mem_reverse.mp (List.dropWhile_sublist _ |>.mem (List.mem_reverse.mp hmem)))
      have htext : bs ++ (ls ++ (ns ++ (bs' ++ ';' :: cs))) =
          (bs ++ (ls ++ (ns ++ bs'))) ++ ';' :: cs := by simp
      rw [htext, dropWhileEnd_append_cons (by decide)]
      simpa using LineText.mk hbs hlabel hnode hbs' (.some hkept)

end

end Mos6502
