import Mos6502.Proofs.Reading
import Mos6502.Proofs.TakenText

/-!
# Blanks and comments behind a line

A line that is read says the same with blanks and a comment behind it. Choice is committed, so what
is added could matter to alternatives that were tried and given up: a comma, a closing quote or an
equals sign in the comment might let one of them go on. None of them looks that far. Each scanner
stops in front of a blank or a semicolon, with two exceptions, and these are what the argument is
about.

The first exception are blanks, which are read to their end. So a scanner that starts with blanks is
only as steady as what comes after them, and that must find nothing in blanks and comments. The
second one is a string that is not closed, since it would take in the comment up to a quote. Where
that happens the line had no meaning before: what is left of it begins with the quote or with what
stands before it, and that is an error.

## Main definitions

* `Scanner.Steady` — a scanner makes the same of every text with a tail behind it
* `Scanner.Quiet` — a scanner finds nothing in a tail
* `Scanner.KeepsIf`, `Scanner.Keeps`, `Scanner.Settles` — what a scanner reads it reads again, under
  a condition on what it leaves, always, or in front of a tail
* `Line.Ignores` — a scanner reads the same and leaves a tail, whatever tail it is given

## Main results

* `Scanner.Steady.blanks_bind` — what may stand behind blanks
* `Line.settles_node` — statements
* `Line.readLine_append`, `parse_append_tail` — lines, and texts of one line
-/

namespace Mos6502

open Text Scanner

/-! ### Tails -/

section

variable {p : Char → Bool} {text more : List Char}

theorem tail_nil : Tail [] := by
  simp [Tail, next?]

theorem Tail.append (h : Tail text) (hmore : Tail more) : Tail (text ++ more) := by
  rw [Tail, next?, List.dropWhile_append]
  split
  · exact hmore
  · next hne =>
    intro c hc
    rw [List.head?_append_of_ne_nil _ (by simpa using hne)] at hc
    exact h c hc

/-- What blanks leave of a tail is a tail. -/
theorem tail_dropWhile_iff : Tail (text.dropWhile isGap) ↔ Tail text := by
  rw [Tail, Tail, next?, dropWhile_of_stops (stops_dropWhile isGap text), next?]

/-- The characters that a tail can start with. -/
def tailStarts : List Char :=
  [' ', '\t', ';']

theorem Tail.stops (h : Tail text) (hp : tailStarts.all (!p ·) = true) : Stops p text := by
  cases text with
  | nil => exact stops_nil
  | cons c text =>
    rw [stops_cons]
    suffices hc : c ∈ tailStarts by simpa using List.all_eq_true.mp hp c hc
    by_cases hgap : isGap c = true
    · rw [isGap, Bool.or_eq_true, beq_iff_eq, beq_iff_eq] at hgap
      rcases hgap with rfl | rfl <;> decide
    · have hstops : Stops isGap (c :: text) := stops_cons.mpr (Bool.eq_false_iff.mpr hgap)
      rw [h c (by rw [next?_of_stops hstops]; rfl)]
      decide

theorem dropWhile_append_of_stops {cs : List Char} (h : Stops p more) :
    (cs ++ more).dropWhile p = cs.dropWhile p ++ more := by
  rw [List.dropWhile_append]
  split
  · next hempty => rw [List.isEmpty_iff.mp hempty, dropWhile_of_stops h, List.nil_append]
  · rfl

end

/-- The same place, with more text behind what is left. -/
def Cursor.extend (c : Cursor) (more : List Char) : Cursor :=
  ⟨c.pos, c.rest ++ more⟩

namespace Scanner

variable {α β : Type} {p q : Scanner α} {f : α → Scanner β} {c : Cursor}

instance : LawfulMonad Scanner :=
  LawfulMonad.mk' Scanner
    (fun p => by
      funext c
      show (match p c with | none => none | some (a, c') => some (id a, c')) = p c
      cases p c <;> rfl)
    (fun _ _ => rfl)
    (fun p f g => by
      funext c
      rw [bind_apply, bind_apply, bind_apply]
      cases p c <;> rfl)

/-! ### Steady scanners -/

/-- The scanner makes the same of every text with a tail behind it. -/
def Steady (p : Scanner α) : Prop :=
  ∀ c more, Tail more → p (c.extend more) = (p c).map fun r => (r.1, r.2.extend more)

/-- The scanner finds nothing in a tail. -/
def Quiet (p : Scanner α) : Prop :=
  ∀ text, Tail text → Fails p text

theorem steady_pure (a : α) : Steady (Pure.pure a) :=
  fun _ _ _ => rfl

theorem steady_fail : Steady (fail : Scanner α) :=
  fun _ _ _ => rfl

theorem Steady.bind (hp : Steady p) (hf : ∀ a, Steady (f a)) : Steady (p >>= f) := by
  intro c more hmore
  rw [bind_apply, bind_apply, hp c more hmore]
  cases p c with
  | none => rfl
  | some r => exact hf r.1 r.2 more hmore

theorem Steady.orElse (hp : Steady p) (hq : Steady q) : Steady (p <|> q) := by
  intro c more hmore
  rw [orElse_apply, orElse_apply, hp c more hmore]
  cases p c with
  | none => exact hq c more hmore
  | some r => rfl

theorem Steady.optional (hp : Steady p) : Steady (optional p) :=
  (hp.bind fun a => steady_pure (some a)).orElse (steady_pure none)

theorem Steady.spanned (hp : Steady p) : Steady (spanned p) := by
  intro c more hmore
  rw [Scanner.spanned, Scanner.spanned, hp c more hmore]
  cases p c <;> rfl

theorem Quiet.bind (hp : Quiet p) : Quiet (p >>= f) :=
  fun text htext => (hp text htext).bind

theorem Quiet.orElse (hp : Quiet p) (hq : Quiet q) : Quiet (p <|> q) :=
  fun text htext => (hp text htext).orElse (hq text htext)

theorem Quiet.spanned (hp : Quiet p) : Quiet (spanned p) :=
  fun text htext => (hp text htext).spanned

theorem Quiet.apply_eq_none (hp : Quiet p) (hc : Tail c.rest) : p c = none :=
  hp c.rest hc c.pos

/-! ### Characters -/

section

variable {class? : Char → Bool} {x : Char}

theorem steady_run (h : tailStarts.all (!class? ·) = true) : Steady (run class?) := by
  intro c more hmore
  have hstops := hmore.stops h
  rw [Cursor.extend, run, run, takeWhile_append_of_stops hstops, dropWhile_append_of_stops hstops]
  rfl

theorem steady_run₁ (h : tailStarts.all (!class? ·) = true) : Steady (run₁ class?) :=
  (steady_run h).bind fun taken => by
    split
    · exact steady_fail
    · exact steady_pure taken

theorem quiet_satisfy (h : tailStarts.all (!class? ·) = true) : Quiet (satisfy class?) :=
  fun _ htext => fails_satisfy (htext.stops h)

theorem steady_satisfy (h : tailStarts.all (!class? ·) = true) : Steady (satisfy class?) := by
  rintro ⟨pos, _ | ⟨x, rest⟩⟩ more hmore
  · exact (quiet_satisfy h).apply_eq_none hmore
  · by_cases hx : class? x = true <;> simp [satisfy, Cursor.extend, hx]

theorem all_tailStarts_ne (h : x ∉ tailStarts) : tailStarts.all (fun c => !(c == x)) = true := by
  rw [List.all_eq_true]
  intro c hc
  simpa using fun hcx : c = x => h (hcx ▸ hc)

theorem steady_char (h : x ∉ tailStarts) : Steady (char x) :=
  (steady_satisfy (all_tailStarts_ne h)).bind fun _ => steady_pure ()

theorem quiet_char (h : x ∉ tailStarts) : Quiet (char x) :=
  (quiet_satisfy (all_tailStarts_ne h)).bind

end

/-! ### Blanks -/

theorem blanks_apply (c : Cursor) :
    blanks c =
      some ((), ⟨c.pos + byteLength (c.rest.takeWhile isGap), c.rest.dropWhile isGap⟩) :=
  rfl

/-- Blanks end before the tail, or nothing but a tail is left. -/
theorem blanks_extend (c : Cursor) {more : List Char} (hmore : Tail more) :
    (∃ c', blanks c = some ((), c') ∧ blanks (c.extend more) = some ((), c'.extend more)) ∨
      ∃ c' c'', blanks c = some ((), c') ∧ blanks (c.extend more) = some ((), c'') ∧
        Tail c'.rest ∧ Tail c''.rest := by
  by_cases hall : ∀ x ∈ c.rest, isGap x = true
  · have hnil : c.rest.dropWhile isGap = [] := List.dropWhile_eq_nil_iff.mpr hall
    refine .inr ⟨_, _, blanks_apply c, blanks_apply _, ?_, ?_⟩
    · rw [hnil]
      exact tail_nil
    · rw [Cursor.extend, List.dropWhile_append_of_pos hall]
      exact tail_dropWhile_iff.mpr hmore
  · refine .inl ⟨_, blanks_apply c, ?_⟩
    have hne : c.rest.dropWhile isGap ≠ [] := mt List.dropWhile_eq_nil_iff.mp hall
    have hshort : (c.rest.takeWhile isGap).length ≠ c.rest.length := fun h =>
      hall (List.takeWhile_eq_self_iff.mp ((List.takeWhile_prefix isGap).eq_of_length h))
    rw [blanks_apply, Cursor.extend, List.takeWhile_append, List.dropWhile_append, if_neg hshort,
      if_neg (by simpa using hne)]
    rfl

/-- Nothing is read behind blanks if only a tail is left. -/
theorem blanks_bind_cases {f : Unit → Scanner β} (hquiet : Quiet (f ())) (c : Cursor)
    {more : List Char} (hmore : Tail more) :
    ((blanks >>= f) c = none ∧ (blanks >>= f) (c.extend more) = none) ∨
      ∃ c', blanks c = some ((), c') ∧ (blanks >>= f) c = f () c' ∧
        (blanks >>= f) (c.extend more) = f () (c'.extend more) := by
  rw [bind_apply, bind_apply]
  obtain ⟨c', hc, hext⟩ | ⟨c', c'', hc, hext, htail, htail'⟩ := blanks_extend c hmore
  · exact .inr ⟨c', hc, by rw [hc], by rw [hext]⟩
  · exact .inl ⟨by simp [hc, hquiet.apply_eq_none htail],
      by simp [hext, hquiet.apply_eq_none htail']⟩

/-- **Behind blanks** there must be something that is not found in a tail. -/
theorem Steady.blanks_bind {f : Unit → Scanner β} (hf : Steady (f ())) (hquiet : Quiet (f ())) :
    Steady (blanks >>= f) := by
  intro c more hmore
  obtain ⟨hnone, hnone'⟩ | ⟨c', -, heq, heq'⟩ := blanks_bind_cases hquiet c hmore
  · rw [hnone, hnone']
    rfl
  · rw [heq, heq']
    exact hf c' more hmore

theorem Quiet.blanks_bind {f : Unit → Scanner β} (hf : Quiet (f ())) : Quiet (blanks >>= f) :=
  fun _ htext => fails_blanks_bind fun _ => hf _ (tail_dropWhile_iff.mpr htext)

theorem padded_bind (p : Scanner α) (f : α → Scanner β) :
    (padded p >>= f) = blanks >>= fun _ => p >>= fun a => blanks >>= fun _ => f a := by
  simp only [padded, bind_assoc, pure_bind]

theorem Steady.padded_bind (hp : Steady p) (hquiet : Quiet p) (hf : ∀ a, Steady (f a))
    (hquiet' : ∀ a, Quiet (f a)) : Steady (padded p >>= f) := by
  rw [Scanner.padded_bind]
  exact (hp.bind fun a => (hf a).blanks_bind (hquiet' a)).blanks_bind hquiet.bind

/-! ### Tokens -/

theorem steady_ident : Steady ident :=
  (steady_satisfy (by decide)).bind fun first =>
    (steady_run (by decide)).bind fun others => steady_pure (String.ofList (first :: others))

theorem quiet_ident : Quiet ident :=
  (quiet_satisfy (by decide)).bind

theorem steady_word (names : List String) : Steady (word names) :=
  (steady_run₁ (by decide)).bind fun w => by
    split
    · exact steady_pure ()
    · exact steady_fail

theorem steady_digits {radix : Nat} (h : radix ≤ 16) : Steady (digits radix) := by
  refine (steady_run₁ ?_).bind fun ds => ?_
  · have hlarge : tailStarts.all (digitValue · == 16) = true := by decide
    rw [List.all_eq_true] at hlarge ⊢
    intro c hc
    have hvalue := hlarge c hc
    rw [beq_iff_eq] at hvalue
    rw [hvalue]
    simpa using h
  · dsimp only
    split
    · exact steady_pure _
    · exact steady_fail

theorem steady_number : Steady number := by
  refine Steady.orElse ?_ (Steady.orElse ?_ (Steady.orElse ?_ (steady_digits (by decide))))
  · exact (steady_char (by decide)).bind fun _ => steady_digits (by decide)
  · exact (steady_char (by decide)).bind fun _ =>
      (steady_char (by decide)).bind fun _ => steady_digits (by decide)
  · exact (steady_char (by decide)).bind fun _ => steady_digits (by decide)

theorem quiet_number : Quiet number :=
  fun _ htext => fails_number (htext.ends.stops (by decide))

end Scanner

namespace Line

/-! ### Operands -/

theorem steady_expr : Steady expr :=
  (steady_number.bind fun n => steady_pure (Expr.int n)).orElse
    (steady_ident.bind fun s => steady_pure (Expr.name s))

theorem quiet_expr : Quiet expr :=
  fun _ htext => fails_expr htext.ends

theorem steady_register : Steady register :=
  steady_ident.spanned

theorem quiet_register : Quiet register :=
  quiet_ident.spanned

section

variable {β : Type}

theorem steady_comma_bind {f : Unit → Scanner β} (hf : ∀ u, Steady (f u))
    (hquiet : ∀ u, Quiet (f u)) : Steady (comma >>= f) :=
  (steady_char (by decide)).padded_bind (quiet_char (by decide)) hf hquiet

theorem quiet_comma : Quiet comma :=
  (quiet_char (by decide)).bind.blanks_bind

theorem steady_opening_bind {f : Unit → Scanner β} (hf : ∀ u, Steady (f u))
    (hquiet : ∀ u, Quiet (f u)) : Steady (opening >>= f) := by
  rw [opening, bind_assoc]
  exact (steady_char (by decide)).bind fun _ => (hf ()).blanks_bind (hquiet ())

theorem steady_closing : Steady closing :=
  (steady_char (by decide)).blanks_bind (quiet_char (by decide))

end

theorem steady_operand : Steady operand := by
  refine Steady.orElse ?_ (Steady.orElse ?_ (Steady.orElse ?_ (Steady.orElse ?_
    (Steady.orElse ?_ ?_))))
  · -- `#value`
    exact (steady_char (by decide)).bind fun _ => steady_expr.bind fun e => steady_pure _
  · -- `(value, register)`
    refine steady_opening_bind (fun _ => steady_expr.bind fun e => ?_) fun _ => quiet_expr.bind
    refine steady_comma_bind (fun _ => steady_register.bind fun r => ?_) fun _ =>
      quiet_register.bind
    exact steady_closing.bind fun _ => steady_pure _
  · -- `(value), register`
    refine steady_opening_bind (fun _ => steady_expr.bind fun e => ?_) fun _ => quiet_expr.bind
    refine steady_closing.bind fun _ => ?_
    exact steady_comma_bind (fun _ => steady_register.bind fun r => steady_pure _) fun _ =>
      quiet_register.bind
  · -- `(value)`
    refine steady_opening_bind (fun _ => steady_expr.bind fun e => ?_) fun _ => quiet_expr.bind
    exact steady_closing.bind fun _ => steady_pure _
  · -- `value, register`
    refine steady_expr.bind fun e => ?_
    exact steady_comma_bind (fun _ => steady_register.bind fun r => steady_pure _) fun _ =>
      quiet_register.bind
  · -- `value`
    exact steady_expr.bind fun e => steady_pure _

theorem quiet_operand : Quiet operand :=
  fun _ htext => fails_operand (htext.ends.stops (by decide))

/-! ### Statements without strings -/

theorem steady_assignment : Steady assignment := by
  refine steady_ident.bind fun name => ?_
  exact (steady_char (by decide)).padded_bind (quiet_char (by decide))
    (fun _ => steady_number.bind fun n => steady_pure _) fun _ => quiet_number.bind

theorem steady_org : Steady org :=
  (steady_word _).bind fun _ =>
    (steady_number.bind fun n => steady_pure (Node.org n)).blanks_bind quiet_number.bind

theorem steady_instr : Steady instr :=
  steady_ident.spanned.bind fun _ =>
    (steady_operand.blanks_bind quiet_operand).optional.bind fun _ => steady_pure _

theorem steady_label : Steady label :=
  steady_ident.bind fun name =>
    (steady_char (by decide)).bind fun _ => steady_pure (Node.label name)

theorem quiet_label : Quiet label :=
  quiet_ident.bind

theorem quiet_node : Quiet node :=
  fun _ htext => fails_node htext.ends

theorem steady_dataWidth : Steady dataWidth :=
  ((steady_word _).bind fun _ => steady_pure DataWidth.byte).orElse
    ((steady_word _).bind fun _ => steady_pure DataWidth.word)

end Line

/-! ### What is read is read again -/

namespace Scanner

variable {α β : Type} {p q : Scanner α} {f : α → Scanner β} {c : Cursor} {P R : List Char → Prop}

/-- What the scanner reads it also reads with a tail behind the text, if `P` holds of what it
leaves. -/
def KeepsIf (P : List Char → Prop) (p : Scanner α) : Prop :=
  ∀ c a c', p c = some (a, c') → P c'.rest →
    ∀ more, Tail more → p (c.extend more) = some (a, c'.extend more)

/-- What the scanner reads it also reads with a tail behind the text. -/
abbrev Keeps (p : Scanner α) : Prop :=
  KeepsIf (fun _ => True) p

/-- What the scanner reads in front of a tail it also reads with another tail behind that. -/
abbrev Settles (p : Scanner α) : Prop :=
  KeepsIf Tail p

theorem Steady.keepsIf (hp : Steady p) : KeepsIf P p := by
  intro c a c' hread _ more hmore
  rw [hp c more hmore, hread]
  rfl

theorem KeepsIf.bind (hp : KeepsIf R p) (hf : ∀ a, KeepsIf P (f a))
    (hR : ∀ a c r, f a c = some r → R c.rest) : KeepsIf P (p >>= f) := by
  intro c b c' hread hc' more hmore
  obtain ⟨a, c₁, hfirst, hread⟩ := exists_of_bind hread
  rw [bind_of_some (hp c a c₁ hfirst (hR a c₁ _ hread) more hmore)]
  exact hf a c₁ b c' hread hc' more hmore

theorem Keeps.bind (hp : Keeps p) (hf : ∀ a, KeepsIf P (f a)) : KeepsIf P (p >>= f) :=
  KeepsIf.bind hp hf fun _ _ _ _ => trivial

theorem KeepsIf.bind_pure {g : α → β} (hp : KeepsIf P p) :
    KeepsIf P (p >>= fun a => Pure.pure (g a)) := by
  intro c b c' hread hc' more hmore
  obtain ⟨a, c₁, hfirst, hread⟩ := exists_of_bind hread
  obtain ⟨rfl, rfl⟩ := Prod.mk.inj (Option.some.inj hread)
  exact bind_of_some (hp c a c₁ hfirst hc' more hmore)

/-- Of two alternatives, the first must not come to read something after all. -/
theorem KeepsIf.orElse (hp : KeepsIf P p) (hq : KeepsIf P q)
    (hnone : ∀ c a c', p c = none → q c = some (a, c') → P c'.rest →
      ∀ more, Tail more → p (c.extend more) = none) : KeepsIf P (p <|> q) := by
  intro c a c' hread hc' more hmore
  rw [orElse_apply] at hread ⊢
  cases hfirst : p c with
  | none =>
    rw [hfirst] at hread
    rw [hnone c a c' hfirst hread hc' more hmore]
    exact hq c a c' hread hc' more hmore
  | some r =>
    rw [hfirst] at hread
    obtain rfl := Option.some.inj hread
    rw [hp c a c' hfirst hc' more hmore]

theorem Steady.orElse_keepsIf (hp : Steady p) (hq : KeepsIf P q) : KeepsIf P (p <|> q) := by
  refine hp.keepsIf.orElse hq fun c a c' hnone _ _ more hmore => ?_
  rw [hp c more hmore, hnone]
  rfl

theorem KeepsIf.spanned (hp : KeepsIf P p) : KeepsIf P (spanned p) := by
  intro c x c' hread hc' more hmore
  obtain ⟨a, hfirst, rfl⟩ := exists_of_spanned hread
  exact spanned_of_some (hp c a c' hfirst hc' more hmore)

theorem Settles.optional (hp : Settles p) (hquiet : Quiet p) : Settles (optional p) := by
  refine KeepsIf.orElse hp.bind_pure (steady_pure none).keepsIf ?_
  rintro c o c' - hread htail more hmore
  obtain ⟨-, rfl⟩ := Prod.mk.inj (Option.some.inj hread)
  exact hquiet.bind.apply_eq_none (htail.append hmore)

/-- A run of any class is kept if it ends before the text does. -/
theorem keepsIf_run (class? : Char → Bool) : KeepsIf (· ≠ []) (run class?) := by
  intro c taken c' hread hne more _
  obtain ⟨rfl, rfl⟩ := Prod.mk.inj (Option.some.inj hread)
  have hshort : (c.rest.takeWhile class?).length ≠ c.rest.length := fun h =>
    hne (List.dropWhile_eq_nil_iff.mpr
      (List.takeWhile_eq_self_iff.mp ((List.takeWhile_prefix class?).eq_of_length h)))
  rw [run, Cursor.extend, List.takeWhile_append, if_neg hshort, List.dropWhile_append,
    if_neg (by simpa using hne)]
  rfl

theorem Quiet.rest_ne_nil (hp : Quiet p) {r : α × Cursor} (h : p c = some r) : c.rest ≠ [] := by
  intro hnil
  have htail : Tail c.rest := hnil ▸ tail_nil
  rw [hp.apply_eq_none htail] at h
  cases h

theorem KeepsIf.blanks_bind {f : Unit → Scanner β} (hf : KeepsIf P (f ()))
    (hquiet : Quiet (f ())) : KeepsIf P (blanks >>= f) :=
  (keepsIf_run isGap).bind_pure.bind (fun _ => hf) fun _ _ _ h => hquiet.rest_ne_nil h

end Scanner

namespace Line

/-! ### Strings and items -/

/-- A string that is closed is not read any further. -/
theorem keeps_quoted : Keeps quoted := by
  have hquote : ('"' : Char) ∉ tailStarts := by decide
  refine Keeps.bind (steady_char hquote).keepsIf fun _ => ?_
  refine (keepsIf_run _).bind (fun s => ?_) fun _ _ _ h => (quiet_char hquote).bind.rest_ne_nil h
  exact Keeps.bind (steady_char hquote).keepsIf fun _ => (steady_pure _).keepsIf

/-- A number or a name as an item. -/
def plainDatum : Scanner Datum :=
  (do return .int (← number)) <|> (do return .label (← ident))

theorem steady_plainDatum : Steady plainDatum :=
  (steady_number.bind fun n => steady_pure (Datum.int n)).orElse
    (steady_ident.bind fun s => steady_pure (Datum.label s))

theorem fails_quoted {text : List Char} (h : text.head? ≠ some '"') : Fails quoted text :=
  (fails_char h).bind

/-- A tail does not start with a quote. -/
theorem head?_append_ne_quote {text more : List Char} (h : text.head? ≠ some '"')
    (hmore : Tail more) : (text ++ more).head? ≠ some '"' := by
  cases text with
  | nil => exact hmore.ends.head?_ne (by decide)
  | cons x text => exact h

theorem fails_plainDatum {text : List Char} (h : text.head? = some '"') :
    Fails plainDatum text := by
  have hstops : ∀ {class? : Char → Bool}, class? '"' = false → Stops class? text := by
    intro class? hclass x hx
    rw [h] at hx
    cases hx
    exact hclass
  exact (fails_number (hstops (by decide))).bind.orElse (fails_ident (hstops (by decide))).bind

theorem quiet_datum : Quiet datum :=
  (quiet_char (by decide)).bind.bind.orElse (quiet_number.bind.orElse quiet_ident.bind)

theorem keeps_datum : Keeps datum := by
  refine KeepsIf.orElse keeps_quoted.bind_pure steady_plainDatum.keepsIf ?_
  intro c d c' _ hread _ more hmore
  refine (fails_quoted (head?_append_ne_quote (fun hhead => ?_) hmore)).bind _
  have hnone : plainDatum c = none := fails_plainDatum hhead c.pos
  exact Option.some_ne_none _ (hread.symm.trans hnone)

/-- An item that is not there does not come up with a tail, unless a string is left open. -/
theorem datum_extend_eq_none {c : Cursor} (h : datum c = none) (hquote : c.rest.head? ≠ some '"')
    {more : List Char} (hmore : Tail more) : datum (c.extend more) = none := by
  have hplain : ∀ {c : Cursor}, c.rest.head? ≠ some '"' → datum c = plainDatum c := by
    intro c hhead
    have hquoted : (do return Datum.str (← quoted)) c = none := (fails_quoted hhead).bind c.pos
    rw [datum, orElse_apply, hquoted]
    rfl
  rw [hplain hquote] at h
  rw [hplain (head?_append_ne_quote hquote hmore), steady_plainDatum c more hmore, h]
  rfl

/-- An item of a data declaration with its place. -/
abbrev item : Scanner (Spanned Datum) :=
  spanned datum

theorem takes_step {pos : Nat} :
    Takes (comma >>= fun _ => item) pos fun cs _ => cs ≠ [] := by
  have hcomma : Takes comma pos fun cs _ => cs ≠ [] := by
    refine moves_blanks.bind fun bs _ _ => (takes_char ',').bind fun cs _ hcs => ?_
    exact moves_blanks.bind_pure fun ds _ _ => by simp [hcs]
  refine hcomma.bind fun cs _ hcs => ?_
  exact takes_datum.spanned.mono fun ds _ _ => by simp [hcs]

theorem keeps_step : Keeps (comma >>= fun _ => item) := by
  have hcomma : (',' : Char) ∉ tailStarts := by decide
  rw [comma, padded_bind]
  refine KeepsIf.blanks_bind ?_ (quiet_char hcomma).bind
  refine Keeps.bind (steady_char hcomma).keepsIf fun _ => ?_
  exact keeps_datum.spanned.blanks_bind quiet_datum.spanned

/-- The end of a list can always be read. -/
theorem exists_moreItems (rounds : Nat) (c : Cursor) :
    ∃ r, moreItems item comma rounds c = some r := by
  cases rounds with
  | zero => exact ⟨_, rfl⟩
  | succ rounds =>
    rw [moreItems, orElse_apply]
    split <;> exact ⟨_, rfl⟩

/-- One more item, or the end of the list. -/
theorem moreItems_succ (rounds : Nat) (c : Cursor) :
    moreItems item comma (rounds + 1) c =
      match (comma >>= fun _ => item) c with
      | none => some ([], c)
      | some (a, c') => (moreItems item comma rounds c').map fun r => (a :: r.1, r.2) := by
  have hassoc : (do comma; let a ← item; let as ← moreItems item comma rounds; return a :: as) =
      (comma >>= fun _ => item) >>= fun a => do
        let as ← moreItems item comma rounds
        return a :: as := by
    rw [bind_assoc]
  rw [moreItems, hassoc, orElse_apply, bind_apply]
  cases (comma >>= fun _ => item) c with
  | none => rfl
  | some r =>
    obtain ⟨r', hr'⟩ := exists_moreItems rounds r.2
    simp only [bind_apply, hr']
    rfl

/-- **Items** are read one by one, and the list ends in front of a tail as it did. More characters
allow for more items, but there are none. -/
theorem settles_moreItems {rounds rounds' : Nat} {c c' : Cursor} {as : List (Spanned Datum)}
    (hrounds : c.rest.length ≤ rounds) {more : List Char} (hmore : Tail more)
    (hrounds' : (c.extend more).rest.length ≤ rounds')
    (hread : moreItems item comma rounds c = some (as, c')) (htail : Tail c'.rest) :
    moreItems item comma rounds' (c.extend more) = some (as, c'.extend more) := by
  have hend : ∀ {c : Cursor}, Tail c.rest → ∀ rounds,
      moreItems item comma rounds (c.extend more) = some ([], c.extend more) := by
    intro c hc rounds
    cases rounds with
    | zero => rfl
    | succ rounds => rw [moreItems_succ, quiet_comma.bind.apply_eq_none (hc.append hmore)]
  induction rounds generalizing c rounds' as with
  | zero =>
    obtain ⟨rfl, rfl⟩ := Prod.mk.inj (Option.some.inj hread)
    exact hend htail rounds'
  | succ rounds ih =>
    rw [moreItems_succ] at hread
    cases hstep : (comma >>= fun _ => item) c with
    | none =>
      rw [hstep] at hread
      obtain ⟨rfl, rfl⟩ := Prod.mk.inj (Option.some.inj hread)
      exact hend htail rounds'
    | some r =>
      obtain ⟨a, c₁⟩ := r
      obtain ⟨cs, hcs, -, hne⟩ := takes_step c.rest a c₁ hstep
      have hshorter : c₁.rest.length < c.rest.length := by
        have hpos : 0 < cs.length := List.length_pos_iff.mpr hne
        rw [hcs, List.length_append]
        omega
      rw [hstep] at hread
      obtain ⟨⟨as', c₂⟩, hmoreItems, heq⟩ := Option.map_eq_some_iff.mp hread
      obtain ⟨rfl, rfl⟩ := Prod.mk.inj heq
      rw [Cursor.extend, List.length_append] at hrounds'
      obtain ⟨rounds', rfl⟩ : ∃ n, rounds' = n + 1 := ⟨rounds' - 1, by omega⟩
      rw [moreItems_succ, keeps_step c a c₁ hstep trivial more hmore]
      have hrounds₁ : (c₁.extend more).rest.length ≤ rounds' := by
        rw [Cursor.extend, List.length_append]
        omega
      show (moreItems item comma rounds' (c₁.extend more)).map _ = _
      rw [ih (by omega) hrounds₁ hmoreItems]
      rfl

theorem settles_sepBy₁ : Settles (sepBy₁ item comma) := by
  refine Keeps.bind keeps_datum.spanned fun a => ?_
  have hmoreItems : Settles fun c => moreItems item comma c.rest.length c :=
    fun c as c' hread htail more hmore => settles_moreItems le_rfl hmore le_rfl hread htail
  exact hmoreItems.bind_pure

/-! ### Data declarations -/

/-- The items of a data declaration of a width. -/
def items (width : DataWidth) : Scanner Node := do
  return .data width (← sepBy₁ item comma)

theorem data_eq : data = dataWidth >>= fun width => blanks >>= fun _ => items width :=
  rfl

theorem settles_items (width : DataWidth) : Settles (items width) :=
  settles_sepBy₁.bind_pure

theorem quiet_items (width : DataWidth) : Quiet (items width) :=
  quiet_datum.spanned.bind.bind

/-- The first item is what fails, since the others are optional. -/
theorem items_eq_none_iff {width : DataWidth} {c : Cursor} :
    items width c = none ↔ datum c = none := by
  cases hdatum : datum c with
  | none =>
    have hitem : item c = none := by rw [item, Scanner.spanned, hdatum]
    exact iff_of_true (bind_of_none (bind_of_none hitem)) rfl
  | some r =>
    obtain ⟨⟨as, c'⟩, hmore⟩ := exists_moreItems r.2.rest.length r.2
    have hlist : sepBy₁ item comma c = some (⟨r.1, ⟨c.pos, r.2.pos⟩⟩ :: as, c') := by
      rw [sepBy₁, bind_of_some (spanned_of_some hdatum),
        bind_of_some (p := fun c => moreItems item comma c.rest.length c) hmore]
      rfl
    rw [items, bind_of_some hlist]
    exact iff_of_false (Option.some_ne_none _) (Option.some_ne_none _)

theorem settles_data : Settles data := by
  rw [data_eq]
  refine Keeps.bind steady_dataWidth.keepsIf fun width => ?_
  exact (settles_items width).blanks_bind (quiet_items width)

/-- A word that opens a data declaration, and a string behind it. -/
def OpensString (text : List Char) : Prop :=
  ∃ width ks gs rest, KeywordText (dataWords width) ks ∧ Gap gs ∧
    text = ks ++ (gs ++ '"' :: rest)

/-- A data declaration that is not there does not come up with a tail, unless a string is left
open. -/
theorem data_extend_eq_none {c : Cursor} (h : data c = none) {more : List Char}
    (hmore : Tail more) : data (c.extend more) = none ∨ OpensString c.rest := by
  rw [data_eq, bind_apply] at h ⊢
  rw [steady_dataWidth c more hmore]
  cases hwidth : dataWidth c with
  | none => exact .inl rfl
  | some r =>
    obtain ⟨width, c₁⟩ := r
    rw [hwidth] at h
    obtain ⟨-, hend⟩ | ⟨c₂, hblanks, heq, heq'⟩ := blanks_bind_cases (f := fun _ => items width)
      (quiet_items width) c₁ hmore
    · exact .inl hend
    · have hdatum : datum c₂ = none := items_eq_none_iff.mp (heq.symm.trans h)
      obtain ⟨-, rfl⟩ := Prod.mk.inj (Option.some.inj hblanks)
      by_cases hquote : (c₁.rest.dropWhile isGap).head? = some '"'
      · right
        obtain ⟨rest, hrest⟩ := List.head?_eq_some_iff.mp hquote
        obtain ⟨hword, rfl⟩ := keywordText_of_dataWidth hwidth
        refine ⟨width, _, (c.rest.dropWhile isWordChar).takeWhile isGap, rest, hword,
          fun _ hx => List.mem_takeWhile_imp hx, ?_⟩
        rw [← hrest, List.takeWhile_append_dropWhile, List.takeWhile_append_dropWhile]
      · left
        exact heq'.trans (items_eq_none_iff.mpr (datum_extend_eq_none hdatum hquote hmore))

/-! ### Statements -/

theorem rest_of_ident {c c' : Cursor} {s : String} (h : ident c = some (s, c')) :
    c'.rest = c.rest.dropWhile isIdentContinue := by
  obtain ⟨pos, _ | ⟨x, rest⟩⟩ := c
  · cases h
  · by_cases hx : isIdentStart x = true
    · simp only [ident, bind_apply, satisfy, hx, if_true, run] at h
      obtain ⟨-, rfl⟩ := Prod.mk.inj (Option.some.inj h)
      rw [List.dropWhile_cons_of_pos (isIdentContinue_of_isIdentStart hx)]
    · simp [ident, bind_apply, satisfy, hx] at h

/-- Behind a name at the front of a data declaration stands a dot or the string. -/
theorem OpensString.following {text : List Char} (h : OpensString text) :
    following text = some '.' ∨ following text = some '"' := by
  obtain ⟨width, ks, gs, rest, hword, hgs, rfl⟩ := h
  have hks : ∀ c ∈ ks, isIdentContinue c = true ∨ c = '.' := fun c hc =>
    isIdentContinue_of_isWordChar (hword.isWordChar (isWordChar_of_mem_dataWords width) hc)
  clear hword
  induction ks with
  | nil =>
    right
    have hstops : Stops isIdentContinue (gs ++ '"' :: rest) := by
      cases gs with
      | nil => exact stops_cons.mpr (by decide)
      | cons g gs =>
        have hends : Ends ([g] ++ (gs ++ '"' :: rest)) :=
          ends_cons (mem_delimiters_of_isGap (hgs g List.mem_cons_self)) _
        exact hends.stops_isIdentContinue
    rw [List.nil_append, Line.following, dropWhile_of_stops hstops, next?_append hgs]
    exact next?_of_stops (stops_cons.mpr (by decide))
  | cons c ks ih =>
    obtain ⟨hc, hks⟩ := List.forall_mem_cons.mp hks
    by_cases hident : isIdentContinue c = true
    · rw [Line.following, List.cons_append, List.dropWhile_cons_of_pos hident]
      exact ih hks
    · left
      have hstops : Stops isGap ('.' :: (ks ++ (gs ++ '"' :: rest))) := stops_cons.mpr (by decide)
      rw [Line.following, List.cons_append, List.dropWhile_cons_of_neg hident,
        hc.resolve_left hident, next?_of_stops hstops]
      rfl

/-- Where a string is left open, no other statement goes up to a tail. -/
theorem OpensString.not_tail {c c' : Cursor} {n : Node} (h : OpensString c.rest)
    (hread : instr c = some (n, c')) : ¬Tail c'.rest := by
  obtain ⟨m, c₁, hident, hread⟩ := exists_of_bind hread
  obtain ⟨s, hident, -⟩ := exists_of_spanned hident
  have hnext : next? c₁.rest = some '.' ∨ next? c₁.rest = some '"' := by
    rw [rest_of_ident hident]
    exact h.following
  have hoperand : Fails (do blanks; operand) c₁.rest := by
    refine fails_blanks_bind fun _ => fails_operand fun x hx => ?_
    rcases hnext with hdot | hquote
    · cases hdot.symm.trans hx
      decide
    · cases hquote.symm.trans hx
      decide
  obtain ⟨o, hnone, ho⟩ := hoperand.optional c₁.pos
  have hoptional : optional (do blanks; operand) c₁ = some (o, c₁) := hnone
  rw [bind_of_some hoptional] at hread
  obtain ⟨-, rfl⟩ := Prod.mk.inj (Option.some.inj hread)
  intro htail
  rcases hnext with hdot | hquote
  · exact absurd (htail '.' hdot) (by decide)
  · exact absurd (htail '"' hquote) (by decide)

/-- **A statement** that is read in front of a tail is read in front of every longer one. -/
theorem settles_node : Settles node := by
  refine steady_assignment.orElse_keepsIf (steady_org.orElse_keepsIf ?_)
  refine settles_data.orElse steady_instr.keepsIf fun c n c' hdata hinstr htail more hmore => ?_
  exact (data_extend_eq_none hdata hmore).resolve_right fun h => h.not_tail hinstr htail

/-! ### Lines -/

/-- The scanner always reads something, and the blanks behind it. What it reads in front of a tail
it also reads with another tail behind that, and it leaves a tail then too; and of tails it makes
nothing but `a`. -/
structure Ignores {α : Type} (p : Scanner α) (a : α) : Prop where
  total : ∀ c, ∃ b c', p c = some (b, c') ∧ Stops isGap c'.rest
  same : ∀ c b c', p c = some (b, c') → Tail c'.rest →
    ∀ more, Tail more → ∃ c'', p (c.extend more) = some (b, c'') ∧ Tail c''.rest
  idle : ∀ c, Tail c.rest → ∃ c', p c = some (a, c') ∧ Tail c'.rest

theorem Ignores.blanks_bind {α : Type} {f : Unit → Scanner α} {a : α} (h : Ignores (f ()) a) :
    Ignores (blanks >>= f) a where
  total c := by
    rw [bind_of_some (blanks_apply c)]
    exact h.total _
  same := by
    intro c b c' hread htail more hmore
    obtain ⟨c₁, hc, hext⟩ | ⟨c₁, c₂, hc, hext, htail₁, htail₂⟩ := blanks_extend c hmore
    · rw [bind_of_some hc] at hread
      rw [bind_of_some hext]
      exact h.same c₁ b c' hread htail more hmore
    · obtain ⟨_, hidle, -⟩ := h.idle c₁ htail₁
      rw [bind_of_some hc, hidle] at hread
      obtain ⟨rfl, -⟩ := Prod.mk.inj (Option.some.inj hread)
      rw [bind_of_some hext]
      exact h.idle c₂ htail₂
  idle c hc := by
    rw [bind_of_some (blanks_apply c)]
    exact h.idle _ (tail_dropWhile_iff.mpr hc)

/-- The rest of a line behind its label. -/
def statement (l : Option (Spanned Node)) : Scanner (List Stmt) := do
  let s ← optional (spanned node)
  blanks
  return l.toList.map stmtOf ++ s.toList.map stmtOf

theorem statement_of_optional {l s : Option (Spanned Node)} {c c₁ : Cursor}
    (h : optional (spanned node) c = some (s, c₁)) :
    statement l c = some (l.toList.map stmtOf ++ s.toList.map stmtOf,
      ⟨c₁.pos + byteLength (c₁.rest.takeWhile isGap), c₁.rest.dropWhile isGap⟩) := by
  rw [statement, bind_of_some h]
  rfl

theorem ignores_statement (l : Option (Spanned Node)) :
    Ignores (statement l) (l.toList.map stmtOf) where
  total c := by
    obtain ⟨s, c₁, h⟩ : ∃ s c₁, optional (spanned node) c = some (s, c₁) := by
      rw [Scanner.optional, orElse_apply]
      split <;> exact ⟨_, _, rfl⟩
    exact ⟨_, _, statement_of_optional h, stops_dropWhile isGap c₁.rest⟩
  same := by
    intro c b c' hread htail more hmore
    obtain ⟨s, c₁, hnode, -⟩ := exists_of_bind hread
    rw [statement_of_optional hnode] at hread
    obtain ⟨rfl, rfl⟩ := Prod.mk.inj (Option.some.inj hread)
    have htail₁ : Tail c₁.rest := tail_dropWhile_iff.mp htail
    have hsettles : Settles (optional (spanned node)) :=
      Settles.optional settles_node.spanned quiet_node.spanned
    refine ⟨_, statement_of_optional (hsettles c s c₁ hnode htail₁ more hmore), ?_⟩
    exact tail_dropWhile_iff.mpr (htail₁.append hmore)
  idle c hc := by
    obtain ⟨s, hnode, rfl⟩ := (quiet_node.spanned c.rest hc).optional c.pos
    have hread := statement_of_optional (l := l) hnode
    rw [Option.toList_none, List.map_nil, List.append_nil] at hread
    exact ⟨_, hread, tail_dropWhile_iff.mpr hc⟩

/-- A line from its label on. -/
def labelled : Scanner (List Stmt) := do
  let l ← optional (do let l ← spanned label; blanks; return l)
  statement l

theorem content_eq : content = blanks >>= fun _ => labelled :=
  rfl

theorem labelled_apply (c : Cursor) :
    labelled c = match spanned label c with
      | none => statement none c
      | some (l, c₁) => (blanks >>= fun _ => statement (some l)) c₁ := by
  cases h : spanned label c with
  | none =>
    have hnone : optional (do let l ← spanned label; blanks; return l) c = some (none, c) := by
      rw [Scanner.optional, orElse_apply, bind_of_none (bind_of_none h)]
      rfl
    exact bind_of_some hnone
  | some r =>
    have hsome : optional (do let l ← spanned label; blanks; return l) c = some (some r.1,
        ⟨r.2.pos + byteLength (r.2.rest.takeWhile isGap), r.2.rest.dropWhile isGap⟩) := by
      rw [Scanner.optional, orElse_apply, bind_apply, bind_of_some h]
      rfl
    exact bind_of_some hsome

theorem ignores_labelled : Ignores labelled [] where
  total c := by
    rw [labelled_apply]
    cases spanned label c with
    | none => exact (ignores_statement none).total c
    | some r => exact (ignores_statement (some r.1)).blanks_bind.total r.2
  same := by
    intro c b c' hread htail more hmore
    rw [labelled_apply] at hread ⊢
    rw [steady_label.spanned c more hmore]
    cases hlabel : spanned label c with
    | none =>
      rw [hlabel] at hread
      exact (ignores_statement none).same c b c' hread htail more hmore
    | some r =>
      rw [hlabel] at hread
      exact (ignores_statement (some r.1)).blanks_bind.same r.2 b c' hread htail more hmore
  idle c hc := by
    rw [labelled_apply, quiet_label.spanned.apply_eq_none hc]
    exact (ignores_statement none).idle c hc

/-- A line is read if nothing but a tail is left of it. -/
theorem readLine_eq_ok_iff {text : List Char} {stmts stmts' : List Stmt} {c : Cursor}
    (hread : content ⟨0, text⟩ = some (stmts, c)) (hstops : Stops isGap c.rest) :
    readLine text = .ok stmts' ↔ stmts = stmts' ∧ Tail c.rest := by
  obtain ⟨pos, rest⟩ := c
  rw [readLine, hread, Tail, next?_of_stops hstops]
  cases rest with
  | nil => simp
  | cons x rest => by_cases hx : x = ';' <;> simp [hx]

/-- **A line** that is read says the same with a tail behind it. -/
theorem readLine_append {line more : List Char} {stmts : List Stmt}
    (h : readLine line = .ok stmts) (hmore : Tail more) : readLine (line ++ more) = .ok stmts := by
  have hignores : Ignores content [] := by
    rw [content_eq]
    exact ignores_labelled.blanks_bind
  obtain ⟨said, c', hread, hstops⟩ := hignores.total ⟨0, line⟩
  obtain ⟨rfl, htail⟩ := (readLine_eq_ok_iff hread hstops).mp h
  obtain ⟨c'', hread', htail'⟩ := hignores.same ⟨0, line⟩ said c' hread htail more hmore
  obtain ⟨said', c₁, hread₁, hstops'⟩ := hignores.total (Cursor.extend ⟨0, line⟩ more)
  obtain ⟨rfl, rfl⟩ := Prod.mk.inj (Option.some.inj (hread'.symm.trans hread₁))
  exact (readLine_eq_ok_iff hread' hstops').mpr ⟨rfl, htail'⟩

end Line

/-! ### Texts -/

section

variable {line gap comment : List Char}

theorem parse_of_readLine {stmts : List Stmt} (hline : '\n' ∉ line)
    (hread : Line.readLine (withoutLineEnd line) = .ok stmts) :
    parse line = Parsed.shift 0 1 ⟨stmts, []⟩ := by
  have hparse := parse_of_newline_not_mem hline (show [] ∈ lineEnds by decide)
  rw [List.append_nil] at hparse
  rw [hparse, Parsed.ofLine, hread]

theorem exists_readLine (hline : '\n' ∉ line) (herrors : (parse line).errors = []) :
    ∃ stmts, Line.readLine (withoutLineEnd line) = .ok stmts := by
  have hparse := parse_of_newline_not_mem hline (show [] ∈ lineEnds by decide)
  rw [List.append_nil] at hparse
  cases hread : Line.readLine (withoutLineEnd line) with
  | ok stmts => exact ⟨stmts, rfl⟩
  | error e =>
    rw [hparse, Parsed.ofLine, hread] at herrors
    cases herrors

/-- Blanks do not end a line, and neither does what stands before them. -/
theorem withoutLineEnd_append_gap (hline : '\n' ∉ line) (hlast : line.getLast? ≠ some '\r')
    (hgap : Gap gap) : withoutLineEnd (line ++ gap) = line ++ gap := by
  refine dropWhileEnd_of_getLast? fun c hc => ?_
  rw [List.getLast?_append, Option.mem_def, Option.or_eq_some_iff] at hc
  rcases hc with hc | ⟨-, hc⟩
  · have hc := hgap c (List.mem_of_getLast? hc)
    rw [isGap, Bool.or_eq_true, beq_iff_eq, beq_iff_eq] at hc
    rcases hc with rfl | rfl <;> decide
  · have hreturn : c ≠ '\r' := by
      rintro rfl
      exact hlast hc
    have hnewline : c ≠ '\n' := by
      rintro rfl
      exact hline (List.mem_of_getLast? hc)
    simp [hreturn, hnewline]

/-- **Blanks and comments behind a line** change nothing: neither blanks alone, nor blanks and a
comment, whatever the comment says. -/
theorem parse_append_tail (line gap comment : List Char) (hline : '\n' ∉ line)
    (hlast : line.getLast? ≠ some '\r') (herrors : (parse line).errors = []) (hgap : Gap gap)
    (hcomment : '\n' ∉ comment) :
    parse (line ++ gap) = parse line ∧ parse (line ++ gap ++ ';' :: comment) = parse line := by
  have hgap' : '\n' ∉ gap := fun hmem => absurd (hgap _ hmem) (by decide)
  have hself : withoutLineEnd line = line := by
    simpa using withoutLineEnd_append_gap hline hlast (show Gap [] by decide)
  obtain ⟨stmts, hread⟩ := exists_readLine hline herrors
  rw [parse_of_readLine hline hread]
  rw [hself] at hread
  constructor
  · refine parse_of_readLine (by simp [hline, hgap']) ?_
    rw [withoutLineEnd_append_gap hline hlast hgap]
    refine Line.readLine_append hread ?_
    simpa using CommentText.none.tail hgap
  · refine parse_of_readLine (by simp [hline, hgap', hcomment]) ?_
    rw [withoutLineEnd, dropWhileEnd_append_cons (by decide), List.append_assoc]
    refine Line.readLine_append hread fun c hc => ?_
    rw [next?_append hgap, next?_of_stops (stops_cons.mpr (by decide))] at hc
    cases hc
    rfl

end

/-- A string with a semicolon in it, and a comment that could go on with the list, close a string
and start an operand. -/
theorem parse_append_tail_strings :
    let line := "é: dc.b \"a;\" , b".toList
    (parse line).errors = [] ∧
      parse (line ++ [' ', '\t']) = parse line ∧
      parse (line ++ [' ', '\t'] ++ ';' :: ", \"c\" = ($10),y\r".toList) = parse line := by
  intro line
  have herrors : (parse line).errors = [] := by decide +kernel
  exact ⟨herrors,
    parse_append_tail line _ _ (by decide) (by decide) herrors (by decide) (by decide)⟩

end Mos6502
