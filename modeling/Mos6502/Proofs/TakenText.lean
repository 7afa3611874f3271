import Mos6502.Source.Line
import Mos6502.Proofs.Cpu
import Mos6502.Proofs.Placement

/-!
# The text that scanners take

Whatever a scanner reads, it takes from the front of the text, and it moves the cursor by the bytes
of that. `Takes p pos Q` says so of a scanner that is put at `pos`, and that `Q` holds of the
characters it takes and of what it makes of them. Unlike a statement about which text is read in
which way, this needs no knowledge of what follows and of the alternatives that were tried before:
each scanner has one lemma, and choice takes the lemmas of both sides.

The spans in what is read are then known from where each scanner was put. `Node.Stands` says what
the spans inside a statement are, given the characters of the statement and where it starts.

## Main definitions

* `Scanner.Takes` — what a scanner takes, wherever it succeeds
* `Node.Stands` — the parts of a statement stand in its text

## Main results

* `Takes.bind`, `Takes.orElse`, `Takes.spanned`, `Takes.optional` — scanners put together
* `Line.takes_node` — statements
* `Line.readLine_cases` — lines
-/

namespace Mos6502

open Text

namespace Scanner

variable {α β : Type} {p q : Scanner α} {f : α → Scanner β} {pos : Nat}
  {Q R : List Char → α → Prop} {S : List Char → β → Prop}

/-- Put at `pos`, the scanner takes some characters off the front of the text if it reads anything,
and `Q` holds of them and of its value. -/
def Takes (p : Scanner α) (pos : Nat) (Q : List Char → α → Prop) : Prop :=
  ∀ text a c, p ⟨pos, text⟩ = some (a, c) →
    ∃ cs, text = cs ++ c.rest ∧ c.pos = pos + byteLength cs ∧ Q cs a

theorem Takes.mono (h : Takes p pos Q) (hQ : ∀ cs a, Q cs a → R cs a) : Takes p pos R := by
  intro text a c hread
  obtain ⟨cs, htext, hpos, hq⟩ := h text a c hread
  exact ⟨cs, htext, hpos, hQ cs a hq⟩

theorem takes_pure {a : α} (h : Q [] a) : Takes (Pure.pure a) pos Q := by
  intro text b c hread
  obtain ⟨rfl, rfl⟩ := Prod.mk.inj (Option.some.inj hread)
  exact ⟨[], rfl, rfl, h⟩

theorem takes_fail : Takes (fail : Scanner α) pos Q := by
  intro text a c hread
  cases hread

/-- One scanner after the other: the second is put where the first one ends. -/
theorem Takes.bind (hp : Takes p pos Q)
    (hf : ∀ cs a, Q cs a → Takes (f a) (pos + byteLength cs) fun ds b => S (cs ++ ds) b) :
    Takes (p >>= f) pos S := by
  intro text b c hread
  rw [bind_apply] at hread
  split at hread
  · cases hread
  · next a c' hfirst =>
    obtain ⟨cs, rfl, hpos, hq⟩ := hp text a c' hfirst
    have hrest : f a ⟨pos + byteLength cs, c'.rest⟩ = some (b, c) := hpos ▸ hread
    obtain ⟨ds, hds, hpos', hs⟩ := hf cs a hq c'.rest b c hrest
    refine ⟨cs ++ ds, by rw [hds, List.append_assoc], ?_, hs⟩
    rw [hpos', byteLength_append, Nat.add_assoc]

/-- What a scanner reads, made into something else. -/
theorem Takes.bind_pure {g : α → β} (hp : Takes p pos Q) (h : ∀ cs a, Q cs a → S cs (g a)) :
    Takes (p >>= fun a => Pure.pure (g a)) pos S :=
  hp.bind fun cs a ha => takes_pure (by rw [List.append_nil]; exact h cs a ha)

theorem Takes.orElse (hp : Takes p pos Q) (hq : Takes q pos Q) : Takes (p <|> q) pos Q := by
  intro text a c hread
  rw [orElse_apply] at hread
  split at hread
  · exact hq text a c hread
  · next hfirst => exact hp text a c (hfirst.trans hread)

/-- An optional part that is not there takes nothing. -/
theorem Takes.optional (hp : Takes p pos Q) :
    Takes (optional p) pos fun cs o => (o = none ∧ cs = []) ∨ ∃ a, o = some a ∧ Q cs a :=
  (hp.bind_pure fun _ a ha => .inr ⟨a, rfl, ha⟩).orElse (takes_pure (.inl ⟨rfl, rfl⟩))

/-- An optional part that is laid out in the text it takes. -/
theorem Takes.optional_laid {γ : Type} {span : γ → Span} {holds : γ → List Char → Prop}
    {g : α → γ} {P : α → Prop} (hp : Takes p pos fun cs a => Laid span holds pos cs [g a] ∧ P a) :
    Takes (Scanner.optional p) pos fun cs o =>
      Laid span holds pos cs (o.toList.map g) ∧ ∀ a ∈ o, P a := by
  refine hp.optional.mono ?_
  rintro cs o (⟨rfl, rfl⟩ | ⟨a, rfl, hlaid, ha⟩)
  · exact ⟨.nil, by simp⟩
  · exact ⟨hlaid, by simpa using ha⟩

/-- **The span of what is read** starts where the scanner was put and covers what it takes. -/
theorem Takes.spanned (hp : Takes p pos Q) :
    Takes (spanned p) pos fun cs x => Q cs x.val ∧ x.span = ⟨pos, pos + byteLength cs⟩ := by
  intro text x c hread
  rw [Scanner.spanned] at hread
  split at hread
  · cases hread
  · next a c' hfirst =>
    obtain ⟨rfl, rfl⟩ := Prod.mk.inj (Option.some.inj hread)
    obtain ⟨cs, htext, hpos, hq⟩ := hp text a c' hfirst
    exact ⟨cs, htext, hpos, hq, by rw [hpos]⟩

/-! ### Characters and tokens -/

/-- Something is taken, and it does not matter what it is. -/
abbrev Moves (p : Scanner α) (pos : Nat) : Prop :=
  Takes p pos fun _ _ => True

theorem Takes.moves (h : Takes p pos Q) : Moves p pos :=
  h.mono fun _ _ _ => trivial

theorem takes_run (class? : Char → Bool) : Takes (run class?) pos fun cs taken => cs = taken := by
  intro text taken c hread
  obtain ⟨rfl, rfl⟩ := Prod.mk.inj (Option.some.inj hread)
  exact ⟨_, (List.takeWhile_append_dropWhile).symm, rfl, rfl⟩

theorem takes_run₁ (class? : Char → Bool) :
    Takes (run₁ class?) pos fun cs taken => cs = taken := by
  refine (takes_run class?).bind fun cs taken hcs => ?_
  split
  · exact takes_fail
  · exact takes_pure (by rw [List.append_nil]; exact hcs)

theorem takes_satisfy (class? : Char → Bool) : Takes (satisfy class?) pos fun cs x => cs = [x] := by
  intro text x c hread
  cases text with
  | nil => cases hread
  | cons y text =>
    by_cases hy : class? y = true
    · simp only [satisfy, hy, if_true] at hread
      obtain ⟨rfl, rfl⟩ := Prod.mk.inj (Option.some.inj hread)
      exact ⟨[y], rfl, rfl, rfl⟩
    · simp [satisfy, hy] at hread

theorem takes_char (x : Char) : Takes (char x) pos fun cs _ => cs = [x] := by
  intro text u c hread
  cases text with
  | nil => cases hread
  | cons y text =>
    by_cases hy : y = x
    · simp only [char, bind_apply, satisfy, hy, beq_self_eq_true, if_true] at hread
      obtain ⟨-, rfl⟩ := Prod.mk.inj (Option.some.inj hread)
      exact ⟨[y], rfl, by rw [hy]; rfl, by rw [hy]⟩
    · simp [char, bind_apply, satisfy, hy] at hread

theorem moves_blanks : Moves blanks pos :=
  (takes_run _).bind_pure fun _ _ _ => trivial

theorem moves_padded (h : ∀ pos, Moves p pos) : Moves (padded p) pos :=
  moves_blanks.bind fun _ _ _ =>
    (h _).bind fun _ _ _ => moves_blanks.bind fun _ _ _ => takes_pure trivial

/-- A name takes its own characters. -/
theorem takes_ident : Takes ident pos fun cs s => cs = s.toList := by
  refine (takes_satisfy _).bind fun cs x hcs => ?_
  refine (takes_run _).bind_pure fun ds others hds => ?_
  rw [hcs, hds, String.toList_ofList]
  rfl

theorem moves_word (names : List String) : Moves (word names) pos := by
  refine (takes_run₁ _).bind fun _ w _ => ?_
  split
  · exact takes_pure trivial
  · exact takes_fail

theorem moves_digits (radix : Nat) : Moves (digits radix) pos := by
  refine (takes_run₁ _).bind fun _ ds _ => ?_
  dsimp only
  split
  · exact takes_pure trivial
  · exact takes_fail

theorem moves_number : Moves number pos := by
  have hchar : ∀ x pos, Moves (char x) pos := fun x _ => (takes_char x).moves
  refine Takes.orElse ?_ (Takes.orElse ?_ (Takes.orElse ?_ (moves_digits 10)))
  · exact (hchar '$' _).bind fun _ _ _ => moves_digits 16
  · exact (hchar '0' _).bind fun _ _ _ => (hchar 'x' _).bind fun _ _ _ => moves_digits 16
  · exact (hchar '%' _).bind fun _ _ _ => moves_digits 2

/-! ### Lists of items -/

section

variable {item : Scanner α} {separator : Scanner Unit} {span : α → Span}
  {holds : α → List Char → Prop}
  (hitem : ∀ pos, Takes item pos fun cs a => holds a cs ∧ span a = ⟨pos, pos + byteLength cs⟩)
  (hseparator : ∀ pos, Moves separator pos)

include hitem hseparator

theorem takes_moreItems (rounds pos : Nat) :
    Takes (moreItems item separator rounds) pos fun cs as => Laid span holds pos cs as := by
  induction rounds generalizing pos with
  | zero => exact takes_pure .nil
  | succ rounds ih =>
    refine Takes.orElse ?_ (takes_pure .nil)
    refine (hseparator pos).bind fun sep _ _ => ?_
    refine (hitem _).bind fun cs a ha => ?_
    refine (ih _).bind_pure fun ds as has => ?_
    exact Laid.gap ((Laid.single ha.2 ha.1).append has)

/-- Items are laid out in the text of their list. -/
theorem takes_sepBy₁ (pos : Nat) :
    Takes (sepBy₁ item separator) pos fun cs as => Laid span holds pos cs as := by
  refine (hitem pos).bind fun cs a ha => ?_
  have hmore : ∀ pos, Takes (fun c => moreItems item separator c.rest.length c) pos
      fun ds as => Laid span holds pos ds as := by
    intro pos text as c hread
    exact takes_moreItems hitem hseparator text.length pos text as c hread
  refine (hmore _).bind_pure fun ds as has => ?_
  exact (Laid.single ha.2 ha.1).append has

end

end Scanner

/-! ### The parts of statements -/

/-- The index register of an operand. -/
def Operand.register? : Operand → Option (Spanned String)
  | indexed _ r | labelIndexed _ r | indirectX _ r | indirectY _ r => some r
  | _ => none

/-- How an item is written that is no number. -/
def Datum.Writes : Datum → List Char → Prop
  | int _, _ => True
  | str s, cs => cs = '"' :: (s.toList ++ ['"'])
  | label s, cs => cs = s.toList

/-- A name is written as it is. -/
def Spanned.IsWritten (x : Spanned String) (cs : List Char) : Prop :=
  cs = x.val.toList

/-- The parts of a statement stand in its text, which starts at `pos`. -/
def Node.Stands (pos : Nat) (cs : List Char) : Node → Prop
  | label name => cs = name.toList ++ [':']
  | assign _ _ | org _ => True
  | data _ items => Laid Spanned.span (fun item => item.val.Writes) pos cs items
  | instr i =>
    Laid Spanned.span Spanned.IsWritten pos cs (i.mnemonic :: i.operand.register?.toList)

/-- The statement stands in the text that its span covers. -/
def Stmt.Stands (s : Stmt) (cs : List Char) : Prop :=
  s.node.Stands s.span.start cs

namespace Line

open Scanner

variable {pos : Nat}

theorem moves_expr : Moves expr pos :=
  (moves_number.bind_pure fun _ _ _ => trivial).orElse (takes_ident.bind_pure fun _ _ _ => trivial)

theorem takes_register :
    Takes register pos fun cs r => Laid Spanned.span Spanned.IsWritten pos cs [r] :=
  takes_ident.spanned.mono fun _ _ h => Laid.single h.2 h.1

theorem moves_comma : Moves comma pos :=
  moves_padded fun _ => (takes_char ',').moves

theorem moves_opening : Moves opening pos :=
  (takes_char '(').bind fun _ _ _ => moves_blanks

theorem moves_closing : Moves closing pos :=
  moves_blanks.bind fun _ _ _ => (takes_char ')').moves

/-- The register of an operand stands in its text, if there is one. -/
def RegisterStands (pos : Nat) (cs : List Char) (o : Operand) : Prop :=
  Laid Spanned.span Spanned.IsWritten pos cs o.register?.toList

theorem takes_operand : Takes operand pos (RegisterStands pos) := by
  refine Takes.orElse ?_ (Takes.orElse ?_ (Takes.orElse ?_ (Takes.orElse ?_ (Takes.orElse ?_ ?_))))
  · -- `#value`
    exact (takes_char '#').bind fun _ _ _ => moves_expr.bind_pure fun _ _ _ => Laid.nil
  · -- `(value, register)`
    refine moves_opening.bind fun _ _ _ => moves_expr.bind fun _ _ _ => ?_
    refine moves_comma.bind fun _ _ _ => takes_register.bind fun rs r hr => ?_
    refine moves_closing.bind_pure fun ds _ _ => ?_
    exact Laid.gap (Laid.gap (Laid.gap hr.more))
  · -- `(value), register`
    refine moves_opening.bind fun _ _ _ => moves_expr.bind fun _ _ _ => ?_
    refine moves_closing.bind fun _ _ _ => moves_comma.bind fun _ _ _ => ?_
    refine takes_register.bind_pure fun rs r hr => ?_
    exact Laid.gap (Laid.gap (Laid.gap (Laid.gap hr)))
  · -- `(value)`
    refine moves_opening.bind fun _ _ _ => moves_expr.bind fun _ _ _ => ?_
    exact moves_closing.bind_pure fun _ _ _ => Laid.nil
  · -- `value, register`
    refine moves_expr.bind fun _ e _ => moves_comma.bind fun _ _ _ => ?_
    refine takes_register.bind_pure fun rs r hr => ?_
    cases e <;> exact Laid.gap (Laid.gap hr)
  · -- `value`
    refine moves_expr.bind_pure fun _ e _ => ?_
    cases e <;> exact Laid.nil

theorem takes_datum : Takes datum pos fun cs d => d.Writes cs := by
  refine Takes.orElse ?_ (Takes.orElse ?_ ?_)
  · refine Takes.bind (Q := fun cs s => Datum.Writes (.str s) cs) ?_ fun cs s hs => ?_
    · refine (takes_char '"').bind fun opening _ hopening => ?_
      refine (takes_run _).bind fun cs s hs => ?_
      refine (takes_char '"').bind_pure fun closing _ hclosing => ?_
      rw [hopening, hs, hclosing, Datum.Writes, String.toList_ofList]
      rfl
    · exact takes_pure (by rwa [List.append_nil])
  · exact moves_number.bind_pure fun _ _ _ => trivial
  · exact takes_ident.bind_pure fun _ _ hs => hs

/-- **The parts of a statement** stand in the text that it is read from. -/
theorem takes_node : Takes node pos fun cs n => n.Stands pos cs ∧ ∀ name, n ≠ .label name := by
  refine Takes.orElse ?_ (Takes.orElse ?_ (Takes.orElse ?_ ?_))
  · -- `name = number`
    refine takes_ident.bind fun _ _ _ => ?_
    refine (moves_padded fun _ => (takes_char '=').moves).bind fun _ _ _ => ?_
    exact moves_number.bind_pure fun _ _ _ => ⟨trivial, by simp⟩
  · -- `org number`
    refine (moves_word _).bind fun _ _ _ => moves_blanks.bind fun _ _ _ => ?_
    exact moves_number.bind_pure fun _ _ _ => ⟨trivial, by simp⟩
  · -- `dc.b item, item, …`
    have hwidth : Moves dataWidth pos := by
      refine Takes.orElse ?_ ?_ <;> exact (moves_word _).bind_pure fun _ _ _ => trivial
    refine hwidth.bind fun _ _ _ => moves_blanks.bind fun _ _ _ => ?_
    refine (takes_sepBy₁ (fun _ => takes_datum.spanned) (fun _ => moves_comma) _).bind_pure ?_
    intro cs items hitems
    exact ⟨Laid.gap (Laid.gap hitems), by simp⟩
  · -- a mnemonic and what follows it
    refine takes_ident.spanned.bind fun cs m hm => ?_
    have hmnemonic : Laid Spanned.span Spanned.IsWritten pos cs [m] := Laid.single hm.2 hm.1
    refine Takes.bind_pure (Takes.optional (Q := RegisterStands (pos + byteLength cs)) ?_) ?_
    · exact moves_blanks.bind fun _ _ _ => takes_operand.mono fun _ _ ho => Laid.gap ho
    · rintro ds o (⟨rfl, rfl⟩ | ⟨o, rfl, ho⟩)
      · exact ⟨hmnemonic.more, by simp⟩
      · exact ⟨hmnemonic.append ho, by simp⟩

theorem takes_label :
    Takes label pos fun cs n => n.Stands pos cs ∧ ∃ name, n = .label name := by
  refine takes_ident.bind fun cs s hs => ?_
  refine (takes_char ':').bind_pure fun ds _ hds => ⟨?_, s, rfl⟩
  rw [hs, hds]
  rfl

/-- What is read with its span stands there as a statement. -/
theorem laid_stmtOf {cs : List Char} {x : Spanned Node} (h : x.val.Stands pos cs)
    (hspan : x.span = ⟨pos, pos + byteLength cs⟩) :
    Laid Stmt.span Stmt.Stands pos cs [stmtOf x] := by
  refine Laid.single hspan ?_
  rw [Stmt.Stands, stmtOf, hspan]
  exact h

end Line

/-! ### Lines -/

/-- At most one label, and then at most one other statement. -/
def IsLineOf (stmts : List Stmt) : Prop :=
  ∃ labels others, stmts = labels ++ others ∧ labels.length ≤ 1 ∧ others.length ≤ 1 ∧
    (∀ s ∈ labels, s.label?.isSome) ∧ ∀ s ∈ others, s.label? = none

/-- What is known of the statements of a line that starts at `pos`. -/
structure LineStands (pos : Nat) (cs : List Char) (stmts : List Stmt) : Prop where
  laid : Laid Stmt.span Stmt.Stands pos cs stmts
  isLineOf : IsLineOf stmts
  line : ∀ s ∈ stmts, s.line = 0

namespace Line

open Scanner

theorem takes_content {pos : Nat} : Takes content pos (LineStands pos) := by
  refine moves_blanks.bind fun bs _ _ => ?_
  have hlabel : Takes (do let l ← spanned label; blanks; return l) (pos + byteLength bs)
      fun cs l => Laid Stmt.span Stmt.Stands (pos + byteLength bs) cs [stmtOf l] ∧
        (stmtOf l).label?.isSome := by
    refine takes_label.spanned.bind fun cs l hl => moves_blanks.bind_pure fun ds _ _ => ?_
    obtain ⟨⟨hstands, name, hname⟩, hspan⟩ := hl
    exact ⟨(laid_stmtOf hstands hspan).more, by rw [stmtOf, hname]; rfl⟩
  refine (Takes.optional_laid hlabel).bind fun ls l hl => ?_
  have hnode : Takes (spanned node) (pos + byteLength bs + byteLength ls)
      fun cs s => Laid Stmt.span Stmt.Stands (pos + byteLength bs + byteLength ls) cs [stmtOf s] ∧
        (stmtOf s).label? = none := by
    refine takes_node.spanned.mono fun cs s hs => ?_
    obtain ⟨⟨hstands, hname⟩, hspan⟩ := hs
    refine ⟨laid_stmtOf hstands hspan, ?_⟩
    obtain ⟨node, span⟩ := s
    cases node with
    | label name => exact absurd rfl (hname name)
    | assign | org | data | instr => rfl
  refine (Takes.optional_laid hnode).bind fun ns s hs => ?_
  refine moves_blanks.bind_pure fun ds _ _ => ⟨?_, ?_, ?_⟩
  · rw [← List.append_assoc ls]
    exact Laid.gap (hl.1.append hs.1).more
  · refine ⟨_, _, rfl, ?_, ?_, ?_, ?_⟩
    · cases l <;> simp
    · cases s <;> simp
    · simpa using hl.2
    · simpa using hs.2
  · intro t ht
    rw [← List.map_append] at ht
    obtain ⟨x, -, rfl⟩ := List.mem_map.mp ht
    rfl

/-- **A line** says what stands in it, or there is a character at the place where it should have
ended. -/
theorem readLine_cases (cs : List Char) :
    (∃ stmts, readLine cs = .ok stmts ∧ LineStands 0 cs stmts) ∨
    ∃ before c after, cs = before ++ ([c] ++ after) ∧
      readLine cs = .error ⟨byteLength before, c⟩ := by
  unfold readLine
  cases hread : content ⟨0, cs⟩ with
  | none => exact .inl ⟨[], rfl, .nil, ⟨[], [], rfl, by simp⟩, by simp⟩
  | some r =>
    obtain ⟨stmts, pos, rest⟩ := r
    obtain ⟨taken, rfl, hpos, hline⟩ := takes_content _ _ _ hread
    have hstands : LineStands 0 (taken ++ rest) stmts :=
      ⟨hline.laid.more, hline.isLineOf, hline.line⟩
    cases rest with
    | nil => exact .inl ⟨stmts, rfl, hstands⟩
    | cons c rest =>
      by_cases hc : c = ';'
      · exact .inl ⟨stmts, if_pos hc, hstands⟩
      · obtain rfl : pos = byteLength taken := hpos.trans (Nat.zero_add _)
        exact .inr ⟨taken, c, rest, rfl, if_neg hc⟩

end Line

end Mos6502
