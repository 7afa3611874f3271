import Mos6502.Cli.Report
import Mos6502.Proofs.EntryVectors
import Mos6502.Proofs.FaithfulSpans
import Mos6502.Proofs.OwnedData
import Mos6502.Proofs.Positions

/-!
# Reports point at the right place

A diagnostic is made from the line and the spans of a statement, far from the text that the
statement was read from, and is shown with the text much later. This file closes the circle. Every
diagnostic is about a statement or about a character that was not expected, by
`mem_marks_of_reported`. So its span is one that reading gave out, and it lies on the line that the
diagnostic names. Such a span can be shown: both of its ends have a position on that line, and the
line can be cut there.

The line is shown without the blanks at its end, while spans may reach into them: a no-break space
is a blank in that sense, but not for the scanners. So both ends of a span are moved back to the
last character that is shown (`Span.clip`).

## Main definitions

* `Reported` — the lines and spans of all diagnostics of a text
* `Shows` — what a report shows of a span

## Main results

* `mem_marks_of_reported` — diagnostics are about something that was read
* `exists_shows` — what lies on a line can be shown
* `excerpt?_of_reported`
-/

namespace Mos6502

open Text

/-! ### What diagnostics are about -/

namespace Select

variable {α β : Type} {line : Nat} {spans : List Span}

/-- An error is on the line, and it points at one of the spans. -/
def Blames (line : Nat) (spans : List Span) (r : Except AsmError α) : Prop :=
  ∀ e, r = .error e → e.line = line ∧ e.span ∈ spans

theorem blames_pure (a : α) : Blames line spans (pure a) := by
  intro e h
  cases h

theorem Blames.bind {r : Except AsmError α} {f : α → Except AsmError β}
    (hr : Blames line spans r) (hf : ∀ a, Blames line spans (f a)) :
    Blames line spans (r >>= f) := by
  intro e h
  rcases error_of_bind h with h | ⟨a, -, h⟩
  · exact hr e h
  · exact hf a e h

theorem blames_firstOf {mnemonic : Spanned String} (h : mnemonic.span ∈ spans)
    (modes : List AddressingMode) (report : AddressingMode) :
    Blames line spans (firstOf line mnemonic modes report) := by
  intro e he
  unfold firstOf at he
  split at he <;> cases he
  exact ⟨rfl, h⟩

theorem blames_checkNumber {span : Span} (h : span ∈ spans) (max value : UInt32) :
    Blames line spans (checkNumber line span max value) := by
  intro e he
  unfold checkNumber at he
  split at he <;> cases he
  exact ⟨rfl, h⟩

theorem blames_checkExpr {span : Span} (h : span ∈ spans) (max : UInt32) (value : Expr) :
    Blames line spans (checkExpr line span max value) := by
  cases value with
  | int n => exact blames_checkNumber h max n
  | name s => exact blames_pure ()

theorem blames_anyRegister {register : Spanned String} (h : register.span ∈ spans) :
    Blames line spans (anyRegister line register) := by
  intro e he
  unfold anyRegister at he
  split at he <;> cases he
  exact ⟨rfl, h⟩

theorem blames_expectRegister {register : Spanned String} (h : register.span ∈ spans)
    (expected : IndexRegister) : Blames line spans (expectRegister line register expected) := by
  intro e he
  unfold expectRegister at he
  split at he <;> cases he
  exact ⟨rfl, h⟩

end Select

open Select in
/-- **Instruction selection** blames the instruction, its mnemonic or its register. -/
theorem Instr.blames_select (line : Nat) (span : Span) (i : Instr) :
    Blames line (span :: (Node.instr i).parts) (i.select line span) := by
  obtain ⟨mnemonic, operand⟩ := i
  have hspan : span ∈ span :: (Node.instr ⟨mnemonic, operand⟩).parts := List.mem_cons_self
  have hmnemonic : mnemonic.span ∈ span :: (Node.instr ⟨mnemonic, operand⟩).parts :=
    List.mem_cons_of_mem _ List.mem_cons_self
  have hregister : ∀ r ∈ operand.register?,
      r.span ∈ span :: (Node.instr ⟨mnemonic, operand⟩).parts := by
    intro r hr
    simp [Node.parts, Option.mem_def.mp hr]
  cases operand with
  | implied | label => exact blames_firstOf hmnemonic _ _
  | direct => exact (blames_checkNumber hspan _ _).bind fun _ => blames_firstOf hmnemonic _ _
  | immediate | indirect =>
    refine (blames_firstOf hmnemonic _ _).bind fun e => ?_
    exact (blames_checkExpr hspan _ _).bind fun _ => blames_pure e
  | indexed address r =>
    refine (blames_anyRegister (hregister r rfl)).bind fun _ => ?_
    exact (blames_checkNumber hspan _ _).bind fun _ => blames_firstOf hmnemonic _ _
  | labelIndexed name r =>
    exact (blames_anyRegister (hregister r rfl)).bind fun _ => blames_firstOf hmnemonic _ _
  | indirectX address r | indirectY address r =>
    refine (blames_expectRegister (hregister r rfl) _).bind fun _ => ?_
    refine (blames_firstOf hmnemonic _ _).bind fun e => ?_
    exact (blames_checkExpr hspan _ _).bind fun _ => blames_pure e

/-- The diagnostic is about the statement: it is on its line, and points at it or at a part. -/
def Located.IsAbout {κ : Type} (d : Located κ) (s : Stmt) : Prop :=
  (d.line, d.span) ∈ s.marks

section

variable {κ : Type} {d : Located κ} {s : Stmt}

theorem Located.isAbout_of_mem (hline : d.line = s.line) (hspan : d.span ∈ s.span :: s.node.parts) :
    d.IsAbout s :=
  List.mem_map.mpr ⟨d.span, hspan, by rw [hline]⟩

theorem Located.isAbout_of_eq (hline : d.line = s.line) (hspan : d.span = s.span) : d.IsAbout s :=
  isAbout_of_mem hline (hspan ▸ List.mem_cons_self)

end

/-- What becomes of an instruction is reported where it stands. -/
theorem CodeLine.place_of_fate (vars : String → Option UInt32) (isOpen : Bool) (next : Nat)
    (c : CodeLine) :
    (∀ e ∈ (c.fate vars isOpen next).error?, e.line = c.line ∧ e.span = c.span) ∧
      ∀ w ∈ (c.fate vars isOpen next).warning?, w.line = c.line ∧ w.span = c.span := by
  unfold fate
  split
  · simp [Fate.error?, Fate.warning?, notLowered]
  · split
    · simp [Fate.error?, Fate.warning?]
    · split
      · simp [Fate.error?, Fate.warning?]
      · split
        · simp [Fate.error?, Fate.warning?]
        · split <;> simp [Fate.error?, Fate.warning?]
      · simp [Fate.error?, Fate.warning?]

theorem Stmt.place_of_codeLine? {s : Stmt} {c : CodeLine} (h : s.codeLine? = some c) :
    c.line = s.line ∧ c.span = s.span := by
  unfold codeLine? at h
  split at h
  · split at h <;> cases h
    exact ⟨rfl, rfl⟩
  · cases h

/-- An account reports nothing but its own instruction. -/
theorem isAbout_of_mem_accounts {entries : EntryPoints} {ownsData : String → Bool}
    {vars : String → Option UInt32} {labels : List String} {next : Nat} {stmts : List Stmt}
    {a : Account} (h : a ∈ accounts entries ownsData vars labels next stmts) :
    ∃ s ∈ stmts, (∀ e ∈ a.fate.error?, e.IsAbout s) ∧ ∀ w ∈ a.fate.warning?, w.IsAbout s := by
  induction stmts generalizing labels next with
  | nil => cases h
  | cons s rest ih =>
    have hlater : ∀ {labels next}, a ∈ accounts entries ownsData vars labels next rest →
        ∃ t ∈ s :: rest, (∀ e ∈ a.fate.error?, e.IsAbout t) ∧
          ∀ w ∈ a.fate.warning?, w.IsAbout t := by
      intro labels next h
      obtain ⟨t, ht, habout⟩ := ih h
      exact ⟨t, List.mem_cons_of_mem s ht, habout⟩
    rw [accounts] at h
    split at h
    · exact hlater h
    · next c hc _ =>
      rcases List.mem_cons.mp h with rfl | h
      · obtain ⟨herror, hwarning⟩ := c.place_of_fate vars (isOpenAfter entries labels) next
        obtain ⟨hline, hspan⟩ := Stmt.place_of_codeLine? hc
        rw [hline, hspan] at herror hwarning
        refine ⟨s, List.mem_cons_self, fun e he => ?_, fun w hw => ?_⟩
        · exact Located.isAbout_of_eq (herror e he).1 (herror e he).2
        · exact Located.isAbout_of_eq (hwarning w hw).1 (hwarning w hw).2
      · exact hlater h
    · exact hlater h

theorem exists_of_mem_findings {α β : Type} {found : List α → α → List β} {before xs : List α}
    {y : β} (h : y ∈ findings found before xs) : ∃ x ∈ xs, ∃ seen, y ∈ found seen x := by
  induction xs generalizing before with
  | nil => cases h
  | cons x xs ih =>
    rcases List.mem_append.mp h with h | h
    · exact ⟨x, List.mem_cons_self, before, h⟩
    · obtain ⟨x', hx', hfound⟩ := ih h
      exact ⟨x', List.mem_cons_of_mem x hx', hfound⟩

section

variable {stmts : List Stmt} {e : AsmError} {w : Warning}

theorem isAbout_of_mem_layoutErrors (h : e ∈ layoutErrors stmts) : ∃ s ∈ stmts, e.IsAbout s := by
  obtain ⟨s, hs, before, hfound⟩ := exists_of_mem_findings h
  refine ⟨s, hs, ?_⟩
  unfold layoutFindings at hfound
  split at hfound
  · split at hfound
    · obtain rfl := List.mem_singleton.mp hfound
      exact Located.isAbout_of_eq rfl rfl
    · cases hfound
  · next i hnode =>
    split at hfound
    · cases hfound
    · next e' hselect =>
      obtain rfl := List.mem_singleton.mp hfound
      obtain ⟨hline, hspan⟩ := i.blames_select s.line s.span e hselect
      exact Located.isAbout_of_mem hline (hnode ▸ hspan)
  · cases hfound

/-- What is found in data, by the statements it is found in. -/
theorem exists_stmt_of_mem_findings {β : Type} {found : List Placed → Placed → List β} {y : β}
    (h : y ∈ findings found [] (placedOf stmts)) :
    ∃ p : Placed, p.stmt ∈ stmts ∧ ∃ before, y ∈ found before p := by
  obtain ⟨p, hp, before, hfound⟩ := exists_of_mem_findings h
  refine ⟨p, ?_, before, hfound⟩
  rw [← map_stmt_placedOf stmts]
  exact List.mem_map_of_mem hp

theorem isAbout_of_mem_dataErrors (h : e ∈ dataErrors stmts) : ∃ s ∈ stmts, e.IsAbout s := by
  obtain ⟨p, hp, before, hfound⟩ := exists_stmt_of_mem_findings h
  refine ⟨p.stmt, hp, ?_⟩
  unfold dataFindings at hfound
  split at hfound
  · next items hnode =>
    split at hfound
    · obtain ⟨item, hitem, herror⟩ :=
        List.exists_of_findSome?_eq_some (Option.mem_toList.mp hfound)
      have hpart : item.span ∈ p.stmt.node.parts := by
        rw [hnode]
        exact List.mem_map_of_mem hitem
      have he : e.line = p.stmt.line ∧ e.span = item.span := by
        unfold itemError at herror
        split at herror
        · split at herror <;> cases herror
          exact ⟨rfl, rfl⟩
        · cases herror
        · cases herror
          exact ⟨rfl, rfl⟩
      exact Located.isAbout_of_mem he.1 (List.mem_cons_of_mem _ (he.2 ▸ hpart))
    · cases hfound
  · cases hfound

theorem isAbout_of_mem_dataWarnings (h : w ∈ dataWarnings stmts) : ∃ s ∈ stmts, w.IsAbout s := by
  obtain ⟨p, hp, before, hfound⟩ := exists_stmt_of_mem_findings h
  refine ⟨p.stmt, hp, ?_⟩
  unfold trashFindings at hfound
  split at hfound
  · split at hfound
    · cases hfound
    · obtain rfl := List.mem_singleton.mp hfound
      exact Located.isAbout_of_eq rfl rfl
  · cases hfound

theorem isAbout_of_mem_codeErrors (h : e ∈ codeErrors stmts) : ∃ s ∈ stmts, e.IsAbout s := by
  unfold codeErrors at h
  split at h
  · obtain ⟨a, ha, herror⟩ := List.mem_filterMap.mp h
    obtain ⟨s, hs, habout, -⟩ := isAbout_of_mem_accounts ha
    exact ⟨s, hs, habout e herror⟩
  · cases h

theorem isAbout_of_mem_codeWarnings (h : w ∈ codeWarnings stmts) : ∃ s ∈ stmts, w.IsAbout s := by
  unfold codeWarnings at h
  split at h
  · obtain ⟨a, ha, hwarning⟩ := List.mem_filterMap.mp h
    obtain ⟨s, hs, -, habout⟩ := isAbout_of_mem_accounts ha
    exact ⟨s, hs, habout w hwarning⟩
  · cases h

theorem mem_of_lastPlacedAt? {a : UInt32} {s : Stmt} (h : lastPlacedAt? stmts a = some s) :
    s ∈ stmts := by
  obtain ⟨p, hp, rfl⟩ := Option.map_eq_some_iff.mp h
  rw [← map_stmt_placedOf stmts]
  exact List.mem_map_of_mem (List.mem_of_mem_filter (List.mem_of_getLast? hp))

end

/-! ### The diagnostics of a text -/

/-- The line of an error that lies somewhere in the text. -/
def CompileError.line? : CompileError → Option Nat
  | entryPointNotWord _ line _ | entryPointNotLabel _ line _ => some line
  | missingEntryPoint _ | unresolvedEntryPoint _ | invalidModule _ => none

/-- The lines and spans that a text is reported at: where it cannot be read, in the layout of what
was read, in its compilation, and at a vector without a label. -/
inductive Reported (options : Options) (text : List Char) : Nat → Span → Prop where
  | unreadable {e : SyntaxError} (h : e ∈ (parse text).errors) : Reported options text e.line e.span
  | layout {e : AsmError} (h : e ∈ (Layout.ofStmts (parse text).stmts).errors) :
    Reported options text e.line e.span
  | faulty {e : AsmError} (h : e ∈ (compile options (parse text).stmts).errors) :
    Reported options text e.line e.span
  | warned {w : Warning} (h : w ∈ (compile options (parse text).stmts).warnings) :
    Reported options text w.line w.span
  | stopped {e : CompileError} {line : Nat} {span : Span}
    (h : (compile options (parse text).stmts).module = .error e) (hline : e.line? = some line)
    (hspan : e.span? = some span) : Reported options text line span

section

variable {options : Options} {text : List Char} {line : Nat} {span : Span}

theorem mem_marks_of_isAbout {κ : Type} {d : Located κ}
    (h : ∃ s ∈ (parse text).stmts, d.IsAbout s) : (d.line, d.span) ∈ (parse text).marks := by
  obtain ⟨s, hs, habout⟩ := h
  exact List.mem_append_left _ (List.mem_flatMap.mpr ⟨s, hs, habout⟩)

/-- A compilation that stops at a statement stops at one that was read. -/
theorem mem_marks_of_entryFault {e : CompileError} (h : EntryFault (parse text).stmts e)
    (hline : e.line? = some line) (hspan : e.span? = some span) :
    (line, span) ∈ (parse text).marks := by
  cases h with
  | noLabel hfails =>
    cases hfails with
    | missing => cases hline
    | notWord hplaced | notLabel hplaced =>
      cases hline
      cases hspan
      have hs := mem_of_lastPlacedAt? hplaced
      exact List.mem_append_left _ (List.mem_flatMap.mpr ⟨_, hs, List.mem_cons_self⟩)
  | noCode => cases hline

/-- **Diagnostics are about something that was read.** -/
theorem mem_marks_of_reported (h : Reported options text line span) :
    (line, span) ∈ (parse text).marks := by
  obtain ⟨herrors, hwarnings⟩ := diagnostics_eq options (parse text).stmts
  cases h with
  | unreadable h => exact List.mem_append_right _ (List.mem_map.mpr ⟨_, h, rfl⟩)
  | layout h =>
    rw [Layout.errors_ofStmts] at h
    exact mem_marks_of_isAbout (isAbout_of_mem_layoutErrors h)
  | faulty h =>
    rw [herrors, List.mem_append, List.mem_append] at h
    rcases h with (h | h) | h
    · exact mem_marks_of_isAbout (isAbout_of_mem_layoutErrors h)
    · exact mem_marks_of_isAbout (isAbout_of_mem_dataErrors h)
    · exact mem_marks_of_isAbout (isAbout_of_mem_codeErrors h)
  | warned h =>
    rw [hwarnings, List.mem_append] at h
    rcases h with h | h
    · exact mem_marks_of_isAbout (isAbout_of_mem_dataWarnings h)
    · exact mem_marks_of_isAbout (isAbout_of_mem_codeWarnings h)
  | stopped h hline hspan =>
    exact mem_marks_of_entryFault ((module_compile_eq_error_iff _ _ _).mp h) hline hspan

end

/-! ### Showing a span -/

/-- The span as far as it lies before an offset. -/
def Span.clip (limit : Nat) (span : Span) : Span :=
  ⟨min span.start limit, min span.stop limit⟩

open Cli in
/-- What a report shows of a span on a line: the ends of the span have positions on that line, and
the line is shown without the blanks at its end, with the part of the span that is left of it
marked. -/
structure Shows (text : List Char) (line : Nat) (span : Span) (start stop : Position)
    (e : Excerpt) : Prop where
  start_eq : (LineIndex.ofText text).position? span.start = some start
  stop_eq : (LineIndex.ofText text).position? span.stop = some stop
  line_eq : start.line + 1 = line
  line_stop : stop.line = start.line
  character_eq : start.lineStart + start.character = span.start
  cut : Excerpt.of? text start stop = some e
  marked : ∃ shown, (rawLines text)[start.line]? = some shown ∧
    slice? start.lineStart start.lineEnd text = some shown ∧
    e.before ++ e.marked ++ e.after = dropWhileEnd isBlank shown ∧
    (span.clip (start.lineStart + byteLength (dropWhileEnd isBlank shown))).cut? text =
      some e.marked

/-- A line without what ends it is no longer than without its newline. -/
theorem byteLength_withoutLineEnd_le (body : List Char) {ending : List Char}
    (h : ending = ['\n'] ∨ ending = []) :
    byteLength (withoutLineEnd (body ++ ending)) ≤ byteLength body := by
  have hsame : withoutLineEnd (body ++ ending) = withoutLineEnd body := by
    rcases h with rfl | rfl
    · simp [withoutLineEnd, dropWhileEnd]
    · rw [List.append_nil]
  obtain ⟨rest, hrest⟩ : ∃ rest, withoutLineEnd body ++ rest = body :=
    exists_dropWhileEnd_append _ body
  rw [hsame]
  nth_rewrite 2 [← hrest]
  rw [byteLength_append]
  exact Nat.le_add_right _ _

/-- **What lies on a line** has its position there, from one end to the other. -/
theorem Span.LiesOn.exists_line {text : List Char} {n : Nat} {span : Span}
    (h : span.LiesOn (rawLines text) n) :
    ∃ number before line after, number + 1 = n ∧ (rawLines text)[number]? = some line ∧
      text = before ++ (line ++ after) ∧ byteLength before ≤ span.start ∧
      ∀ index, byteLength before ≤ index → index ≤ span.stop →
        (LineIndex.ofText text).position? index =
          some ⟨number, index - byteLength before, byteLength before,
            byteLength before + byteLength line⟩ := by
  obtain ⟨before, line, after, hlines, rfl, hstart, hstop⟩ := h
  obtain ⟨hends, hcount, body, ending, rfl, hbody, hending⟩ := exists_body_of_rawLines hlines
  have htext : text = before.flatten ++ (body ++ ending ++ after.flatten) := by
    rw [← flatten_rawLines text, hlines, List.flatten_append, List.flatten_cons]
  refine ⟨before.length, before.flatten, body ++ ending, after.flatten, rfl, by simp [hlines],
    htext, hstart, fun index hge hle => ?_⟩
  have hbody_le := byteLength_withoutLineEnd_le body (hending.imp_right And.left)
  rw [← hcount]
  refine LineIndex.position?_of_line htext hends hbody ?_ hge
    (hle.trans (hstop.trans (Nat.add_le_add_left hbody_le _)))
  exact hending.imp_right fun h => ⟨h.1, by rw [h.2]; rfl⟩

section

open Cli

variable {text before line after : List Char} {span : Span}

/-- An excerpt is cut where the positions say, and at the end of what is shown at the latest. -/
theorem Cli.Excerpt.of?_eq {front marked back : List Char} {start stop : Position}
    (hline : slice? start.lineStart start.lineEnd text = some line)
    (hsame : stop.line = start.line)
    (hshown : dropWhileEnd isBlank line = front ++ (marked ++ back))
    (hfirst : min start.character (byteLength (dropWhileEnd isBlank line)) = byteLength front)
    (hlast : min stop.character (byteLength (dropWhileEnd isBlank line)) =
      byteLength front + byteLength marked) :
    Excerpt.of? text start stop = some ⟨front, marked, back⟩ := by
  have hmarked : min (max stop.character (byteLength front))
      (byteLength (dropWhileEnd isBlank line)) - byteLength front = byteLength marked := by
    omega
  simp only [Excerpt.of?, hline, Option.bind_eq_bind, Option.bind_some, hsame, if_true, hfirst,
    hmarked]
  rw [hshown, splitAtByte?_append]
  simp only [Option.bind_some]
  rw [splitAtByte?_append]
  rfl

/-- What is shown of a line falls into what stands before a span, the rest of the span that is
shown, and what stands behind it. -/
theorem Span.Fits.exists_parts (hfits : span.Fits text) (htext : text = before ++ (line ++ after))
    (hstart : byteLength before ≤ span.start) :
    ∃ front marked back, dropWhileEnd isBlank line = front ++ (marked ++ back) ∧
      min (span.start - byteLength before) (byteLength (dropWhileEnd isBlank line)) =
        byteLength front ∧
      min (span.stop - byteLength before) (byteLength (dropWhileEnd isBlank line)) =
        byteLength front + byteLength marked ∧
      (span.clip (byteLength before + byteLength (dropWhileEnd isBlank line))).cut? text =
        some marked := by
  obtain ⟨blanks, hblanks⟩ := exists_dropWhileEnd_append isBlank line
  generalize dropWhileEnd isBlank line = shown at hblanks ⊢
  rw [← hblanks, List.append_assoc] at htext
  subst htext
  have hcut : ∀ {index}, byteLength before ≤ index →
      (splitAtByte? index (before ++ (shown ++ (blanks ++ after)))).isSome →
      (splitAtByte? (min (index - byteLength before) (byteLength shown)) shown).isSome :=
    fun hge hboundary => splitAtByte?_min (splitAtByte?_sub hboundary hge)
  have hle := hfits.start_le_stop
  obtain ⟨front, marked, back, rfl, hfirst, hlast⟩ :=
    Text.exists_parts (hcut hstart hfits.start_boundary)
      (hcut (hstart.trans hle) hfits.stop_boundary) (by omega)
  refine ⟨front, marked, back, rfl, hfirst, hlast, slice?_eq_some_iff.mpr
    ⟨before ++ front, back ++ (blanks ++ after), by simp, ?_, ?_⟩⟩
  · rw [byteLength_append before, Span.clip]
    dsimp only
    omega
  · rw [byteLength_append before, Span.clip]
    dsimp only
    omega

/-- **What lies on a line can be shown.** -/
theorem exists_shows {n : Nat} (hfits : span.Fits text) (hlies : span.LiesOn (rawLines text) n) :
    ∃ start stop e, Shows text n span start stop e := by
  obtain ⟨number, before, line, after, hn, hline, htext, hstart, hposition⟩ := hlies.exists_line
  obtain ⟨front, marked, back, hshown, hfirst, hlast, hclip⟩ := hfits.exists_parts htext hstart
  have hslice : slice? (byteLength before) (byteLength before + byteLength line) text =
      some line := by
    rw [htext, slice?_append]
  exact ⟨_, _, ⟨front, marked, back⟩,
    { start_eq := hposition span.start hstart hfits.start_le_stop
      stop_eq := hposition span.stop (hstart.trans hfits.start_le_stop) (Nat.le_refl _)
      line_eq := hn
      line_stop := rfl
      character_eq := Nat.add_sub_cancel' hstart
      cut := Excerpt.of?_eq hslice rfl hshown hfirst hlast
      marked := ⟨line, hline, hslice, by rw [hshown, List.append_assoc], hclip⟩ }⟩

end

/-- **Reports point at the right place**: each diagnostic of a text with a span has an excerpt,
which shows that span on the line that the diagnostic names. -/
theorem excerpt?_of_reported (source : Cli.Source) (options : Options) (line : Nat) (span : Span)
    (h : Reported options source.text line span) :
    ∃ start stop e, source.excerpt? span = some (start, e) ∧
      Shows source.text line span start stop e := by
  have hmark := mem_marks_of_reported h
  obtain ⟨start, stop, e, hshows⟩ :=
    exists_shows (Parsed.fits_of_mem_marks hmark) (Parsed.liesOn_of_mem_marks hmark)
  refine ⟨start, stop, e, ?_, hshows⟩
  simp [Cli.Source.excerpt?, hshows.start_eq, hshows.stop_eq, hshows.cut]

/-- A register of two bytes that is none, and a no-break space at the end of the next line. -/
def wideText : List Char :=
  "é: lda é, ü\r\n lda\u00a0\r\n".toList

/-- The register is underlined; of the no-break space nothing is left to underline. -/
theorem excerpt?_of_reported_wideText :
    Reported {} wideText 1 ⟨12, 14⟩ ∧ Reported {} wideText 2 ⟨20, 22⟩ ∧
      (∃ stop, Shows wideText 1 ⟨12, 14⟩ ⟨0, 12, 0, 16⟩ stop ⟨"é: lda é, ".toList, ['ü'], []⟩) ∧
      ∃ stop, Shows wideText 2 ⟨20, 22⟩ ⟨1, 4, 16, 24⟩ stop ⟨" lda".toList, [], []⟩ := by
  have hregister : Reported {} wideText 1 ⟨12, 14⟩ := by
    have h : (⟨1, ⟨12, 14⟩, .invalidRegister .either⟩ : AsmError) ∈
        (Layout.ofStmts (parse wideText).stmts).errors := by decide +kernel
    exact .layout h
  have hblank : Reported {} wideText 2 ⟨20, 22⟩ := by
    have h : (⟨2, ⟨20, 22⟩, '\u00a0'⟩ : SyntaxError) ∈ (parse wideText).errors := by
      decide +kernel
    exact .unreadable h
  refine ⟨hregister, hblank, ?_, ?_⟩
  · obtain ⟨start, stop, e, hexcerpt, hshows⟩ :=
      excerpt?_of_reported ⟨"wide.asm", wideText⟩ {} 1 ⟨12, 14⟩ hregister
    have hvalue : Cli.Source.excerpt? ⟨"wide.asm", wideText⟩ ⟨12, 14⟩ =
        some (⟨0, 12, 0, 16⟩, ⟨"é: lda é, ".toList, ['ü'], []⟩) := by decide +kernel
    obtain ⟨rfl, rfl⟩ := Prod.mk.inj (Option.some.inj (hexcerpt.symm.trans hvalue))
    exact ⟨stop, hshows⟩
  · obtain ⟨start, stop, e, hexcerpt, hshows⟩ :=
      excerpt?_of_reported ⟨"wide.asm", wideText⟩ {} 2 ⟨20, 22⟩ hblank
    have hvalue : Cli.Source.excerpt? ⟨"wide.asm", wideText⟩ ⟨20, 22⟩ =
        some (⟨1, 4, 16, 24⟩, ⟨" lda".toList, [], []⟩) := by decide +kernel
    obtain ⟨rfl, rfl⟩ := Prod.mk.inj (Option.some.inj (hexcerpt.symm.trans hvalue))
    exact ⟨stop, hshows⟩

end Mos6502
