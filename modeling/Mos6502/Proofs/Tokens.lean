import Mos6502.Proofs.WrittenForm

/-!
# Reading tokens

Numbers, names and words are read back from every form in which they are written.

Two facts about the characters around a token carry the argument, here and for whole lines. What
follows a token starts with a delimiter (`Ends`), so that no run of characters goes on beyond it;
and a token itself does not (`Begins`), so that blanks before it are read to their end and it is
not mistaken for a sign.

## Main results

* `reads_number`, `fails_number` — a number, in whatever radix it is written
* `reads_ident`, `fails_ident_bind` — a name, and what fails behind one
* `reads_word`, `fails_word` — a directive
-/

namespace Mos6502

open Text Scanner

/-! ### Before and after a token -/

/-- The characters that can follow a token. None of them can start one. -/
def delimiters : List Char :=
  [' ', '\t', ',', ')', ';', ':', '=']

/-- What follows a token: nothing, or a delimiter. -/
def Ends (text : List Char) : Prop :=
  ∀ c ∈ text.head?, c ∈ delimiters

/-- The text starts with something, and not with a delimiter. -/
def Begins (text : List Char) : Prop :=
  ∃ c ∈ text.head?, c ∉ delimiters

/-- What follows a statement: blanks, and then nothing or a comment. -/
def Tail (text : List Char) : Prop :=
  ∀ c ∈ next? text, c = ';'

section

variable {p : Char → Bool} {x : Char} {bs cs sep rest text : List Char}

theorem mem_delimiters_of_isGap {c : Char} (h : isGap c = true) : c ∈ delimiters := by
  rw [isGap, Bool.or_eq_true, beq_iff_eq, beq_iff_eq] at h
  rcases h with rfl | rfl <;> decide

theorem Ends.stops (h : Ends text) (hp : delimiters.all (!p ·) = true) : Stops p text := by
  intro c hc
  simpa using List.all_eq_true.mp hp c (h c hc)

theorem Ends.stops_isIdentContinue (h : Ends text) : Stops isIdentContinue text :=
  h.stops (by decide)

theorem Ends.stops_isWordChar (h : Ends text) : Stops isWordChar text :=
  h.stops (by decide)

theorem Ends.head?_ne (h : Ends text) (hx : x ∉ delimiters) : text.head? ≠ some x :=
  fun hhead => hx (h x hhead)

theorem Ends.gap_append (h : Ends text) (hbs : Gap bs) : Ends (bs ++ text) := by
  cases bs with
  | nil => exact h
  | cons b bs =>
    rintro c ⟨⟩
    exact mem_delimiters_of_isGap (hbs _ List.mem_cons_self)

/-- Blanks that are there end a token, whatever follows them. -/
theorem ends_gap_append (hbs : Gap bs) (hne : bs ≠ []) (text rest : List Char) :
    Ends (bs ++ text ++ rest) := by
  cases bs with
  | nil => exact absurd rfl hne
  | cons b bs =>
    rintro c ⟨⟩
    exact mem_delimiters_of_isGap (hbs _ List.mem_cons_self)

theorem ends_cons (hx : x ∈ delimiters) (text : List Char) : Ends ([x] ++ text) := by
  rintro c ⟨⟩
  exact hx

theorem Begins.append (h : Begins cs) (rest : List Char) : Begins (cs ++ rest) := by
  obtain ⟨c, hc, hdelimiter⟩ := h
  refine ⟨c, ?_, hdelimiter⟩
  rw [List.head?_append, Option.mem_def.mp hc]
  rfl

theorem Begins.stops_isGap (h : Begins text) : Stops isGap text := by
  obtain ⟨c, hc, hdelimiter⟩ := h
  intro d hd
  obtain rfl := Option.mem_unique hc hd
  exact Bool.eq_false_iff.mpr fun hgap => hdelimiter (mem_delimiters_of_isGap hgap)

theorem Begins.next?_ne (h : Begins text) (hx : x ∈ delimiters) : next? text ≠ some x := by
  rw [next?_of_stops h.stops_isGap]
  obtain ⟨c, hc, hdelimiter⟩ := h
  intro hhead
  obtain rfl := Option.mem_unique hc hhead
  exact hdelimiter hx

theorem Tail.next?_ne (h : Tail text) (hx : x ≠ ';') : next? text ≠ some x :=
  fun hnext => hx (h x hnext)

theorem Tail.ends (h : Tail text) : Ends text := by
  cases text with
  | nil => rintro c ⟨⟩
  | cons d text =>
    rintro c ⟨⟩
    by_cases hgap : isGap d = true
    · exact mem_delimiters_of_isGap hgap
    · have hstops : Stops isGap (d :: text) := stops_cons.mpr (Bool.eq_false_iff.mpr hgap)
      rw [h d (by rw [next?_of_stops hstops]; rfl)]
      decide

/-- Behind the blanks there is no token either. -/
theorem Tail.dropWhile (h : Tail text) : Ends (text.dropWhile isGap) := by
  intro c hc
  rw [h c hc]
  decide

theorem CommentText.stops_isGap (h : CommentText text) : Stops isGap text := by
  cases h with
  | none => exact stops_nil
  | some h => exact stops_cons.mpr (by decide)

theorem CommentText.tail (h : CommentText text) (hbs : Gap bs) : Tail (bs ++ text) := by
  intro c hc
  rw [next?_append hbs, next?_of_stops h.stops_isGap] at hc
  cases h with
  | none => cases hc
  | some h =>
    cases hc
    rfl

theorem PaddedText.ends (h : PaddedText x sep) (hx : x ∈ delimiters) (text rest : List Char) :
    Ends (sep ++ text ++ rest) := by
  obtain ⟨bs, bs', hbs, -, rfl⟩ := h
  rw [List.append_assoc, List.append_assoc, List.append_assoc]
  exact (ends_cons hx _).gap_append hbs

theorem PaddedText.next? (h : PaddedText x sep) (hx : isGap x = false) (text : List Char) :
    next? (sep ++ text) = some x := by
  obtain ⟨bs, bs', hbs, -, rfl⟩ := h
  have hstops : Stops isGap ([x] ++ (bs' ++ text)) := stops_cons.mpr hx
  rw [List.append_assoc, List.append_assoc, next?_append hbs, next?_of_stops hstops]
  rfl

theorem CloseText.next? (h : CloseText cs) (text : List Char) :
    next? (cs ++ text) = some ')' := by
  obtain ⟨bs, hbs, rfl⟩ := h
  have hstops : Stops isGap ([')'] ++ text) := stops_cons.mpr (by decide)
  rw [List.append_assoc, next?_append hbs, next?_of_stops hstops]
  rfl

theorem CloseText.ends (h : CloseText cs) (text : List Char) : Ends (cs ++ text) := by
  obtain ⟨bs, hbs, rfl⟩ := h
  rw [List.append_assoc]
  exact (ends_cons (by decide) text).gap_append hbs

end

/-! ### The first character of a value -/

/-- The characters that can start a number or a name. -/
def startsValue (c : Char) : Bool :=
  isIdentContinue c || c == '$' || c == '%'

/-- The text starts like a number or a name. -/
def StartsValue (text : List Char) : Prop :=
  ∃ c ∈ text.head?, startsValue c = true

section

variable {x : Char} {cs : List Char}

theorem StartsValue.begins (h : StartsValue cs) : Begins cs := by
  obtain ⟨c, hc, hvalue⟩ := h
  refine ⟨c, hc, fun hmem => ?_⟩
  have hdelimiter : delimiters.all (!startsValue ·) = true := by decide
  have hnone := List.all_eq_true.mp hdelimiter c hmem
  rw [hvalue] at hnone
  cases hnone

theorem StartsValue.append (h : StartsValue cs) (rest : List Char) : StartsValue (cs ++ rest) := by
  obtain ⟨c, hc, hvalue⟩ := h
  refine ⟨c, ?_, hvalue⟩
  rw [List.head?_append, Option.mem_def.mp hc]
  rfl

theorem StartsValue.head?_ne (h : StartsValue cs) (hx : startsValue x = false)
    (rest : List Char) : (cs ++ rest).head? ≠ some x := by
  obtain ⟨c, hc, hvalue⟩ := h
  rw [List.head?_append, Option.mem_def.mp hc, Option.some_or, Ne, Option.some_inj]
  rintro rfl
  rw [hvalue] at hx
  cases hx

theorem startsValue_of_isIdentContinue (hne : cs ≠ [])
    (h : ∀ c ∈ cs, isIdentContinue c = true) : StartsValue cs := by
  obtain ⟨c, cs, rfl⟩ := List.exists_cons_of_ne_nil hne
  exact ⟨c, rfl, by rw [startsValue, h c List.mem_cons_self]; rfl⟩

theorem NumberText.startsValue {n : UInt32} (h : NumberText n cs) : StartsValue cs := by
  cases h with
  | dollar h => exact ⟨'$', rfl, by decide⟩
  | zeroX h => exact ⟨'0', rfl, by decide⟩
  | percent h => exact ⟨'%', rfl, by decide⟩
  | decimal h =>
    exact startsValue_of_isIdentContinue h.ne_nil fun _ hc => h.isIdentContinue (by decide) hc

theorem NameText.startsValue {s : String} (h : NameText s cs) : StartsValue cs :=
  startsValue_of_isIdentContinue h.ne_nil fun _ hc => h.isIdentContinue hc

theorem ExprText.startsValue {e : Expr} (h : ExprText e cs) : StartsValue cs := by
  cases h with
  | int h => exact h.startsValue
  | name h => exact h.startsValue

end

/-! ### Numbers -/

section

variable {radix n : Nat} {cs rest text : List Char}

/-- A digit has the value that it is the sign of. -/
theorem digitValue_of_toLower {c : Char} {v : Nat} (hv : v < 16)
    (h : c.toLower = Nat.digitChar v) : digitValue c = v := by
  have hdigit : ∀ v < 16, digitValue (Nat.digitChar v) = v ∧
      digitValue (Nat.digitChar v).toUpper = v := by decide
  rcases eq_or_eq_toUpper_toLower c with hc | hc
  · rw [hc, h, (hdigit v hv).1]
  · rw [hc, h, (hdigit v hv).2]

theorem map_digitValue {vs : List Nat} (hvs : ∀ v ∈ vs, v < 16)
    (h : cs.map Char.toLower = vs.map Nat.digitChar) : cs.map digitValue = vs := by
  induction cs generalizing vs with
  | nil =>
    rw [List.map_nil, eq_comm, List.map_eq_nil_iff] at h
    rw [h, List.map_nil]
  | cons c cs ih =>
    obtain _ | ⟨v, vs⟩ := vs
    · cases h
    · rw [List.map_cons, List.map_cons, List.cons.injEq] at h
      rw [List.map_cons, digitValue_of_toLower (hvs v List.mem_cons_self) h.1,
        ih (fun w hw => hvs w (List.mem_cons_of_mem v hw)) h.2]

theorem ofDigits_eq (radix : Nat) (cs : List Char) :
    Scanner.ofDigits radix cs = Nat.ofDigits radix (cs.map digitValue).reverse := by
  rw [Nat.ofDigits_eq_foldr, List.foldr_reverse, List.foldl_map, Scanner.ofDigits]
  congr 1
  funext n d
  simp only [Nat.cast_id]
  ring

/-- **Digits** are read as the number they write. -/
theorem reads_digits (h : DigitsText radix n cs) (hradix : radix ≤ 16) (hn : n < UInt32.size)
    (hrest : Ends rest) : Reads (digits radix) cs rest (· = UInt32.ofNat n) := by
  obtain ⟨vs, hne, hvs, hmap, hvalue⟩ := h
  have hvalues : cs.map digitValue = vs :=
    map_digitValue (fun v hv => (hvs v hv).trans_le hradix) hmap
  have hcs : ∀ c ∈ cs, decide (digitValue c < radix) = true := by
    intro c hc
    rw [decide_eq_true_eq]
    exact hvs _ (hvalues ▸ List.mem_map_of_mem hc)
  have hnil : cs ≠ [] := by
    rintro rfl
    exact hne hvalues.symm
  have hstops : Stops (fun c => decide (digitValue c < radix)) rest := by
    intro c hc
    have hlarge : delimiters.all (digitValue · == 16) = true := by decide
    have hvalue := List.all_eq_true.mp hlarge c (hrest c hc)
    rw [beq_iff_eq] at hvalue
    rw [decide_eq_false_iff_not, hvalue]
    omega
  refine (reads_run₁ hnil hcs hstops).bind_nil fun ds hds => ?_
  subst hds
  rw [ofDigits_eq, hvalues, hvalue, if_pos hn]
  exact reads_pure rfl

/-- The characters that can start a number. -/
def startsNumber (c : Char) : Bool :=
  c == '$' || c == '%' || decide (digitValue c < 10)

theorem fails_number (h : Stops startsNumber text) : Fails number text := by
  have hhead : ∀ x, startsNumber x = true → text.head? ≠ some x := by
    intro x hx hhead
    rw [h x hhead] at hx
    cases hx
  have hdigits : Stops (fun c => decide (digitValue c < 10)) text := by
    intro c hc
    have hc := h c hc
    rw [startsNumber, Bool.or_eq_false_iff] at hc
    exact hc.2
  refine (fails_char (hhead '$' (by decide))).bind.orElse ?_
  refine (fails_char (hhead '0' (by decide))).bind.orElse ?_
  refine (fails_char (hhead '%' (by decide))).bind.orElse ?_
  exact (fails_run₁ hdigits).bind

theorem DigitsText.ne_of_mem (h : DigitsText 10 n cs) {c : Char} (hc : c ∈ cs) :
    c ≠ '$' ∧ c ≠ '%' ∧ c ≠ 'x' := by
  have hdigit : ∀ v < 10, ∀ c, c = Nat.digitChar v ∨ c = (Nat.digitChar v).toUpper →
      c ≠ '$' ∧ c ≠ '%' ∧ c ≠ 'x' := by
    intro v hv c hc
    interval_cases v <;> rcases hc with rfl | rfl <;> decide
  obtain ⟨v, hv, hc⟩ := h.exists_of_mem hc
  exact hdigit v hv c hc

/-- **A number** is read back in whatever radix it is written. -/
theorem reads_number {n : UInt32} (h : NumberText n cs) (hrest : Ends rest) :
    Reads number cs rest (· = n) := by
  have hn : n.toNat < UInt32.size := n.toNat_lt_size
  have hsixteen : ∀ {ds}, DigitsText 16 n.toNat ds → Reads (digits 16) ds rest (· = n) := by
    intro ds hds
    simpa using reads_digits hds (by decide) hn hrest
  cases h with
  | dollar h => exact ((reads_char '$' _).bind fun _ _ => hsixteen h).orElse_left
  | zeroX h =>
    refine Reads.orElse_right (Reads.orElse_left ?_) (fails_char (by simp)).bind
    exact (reads_char '0' _).bind fun _ _ => (reads_char 'x' _).bind fun _ _ => hsixteen h
  | percent h =>
    refine Reads.orElse_right (Reads.orElse_right (Reads.orElse_left ?_) ?_) ?_
    · refine (reads_char '%' _).bind fun _ _ => ?_
      simpa using reads_digits h (by decide) hn hrest
    · exact (fails_char (by simp)).bind
    · exact (fails_char (by simp)).bind
  | decimal h =>
    obtain ⟨c, cs, rfl⟩ := List.exists_cons_of_ne_nil h.ne_nil
    have hc := h.ne_of_mem List.mem_cons_self
    refine Reads.orElse_right (Reads.orElse_right (Reads.orElse_right ?_ ?_) ?_) ?_
    · simpa using reads_digits h (by decide) hn hrest
    · exact (fails_char (by simpa using hc.2.1)).bind
    · -- a leading zero is no `0x`, since another digit or a delimiter follows it
      by_cases hzero : c = '0'
      · subst hzero
        refine (reads_char '0' (cs ++ rest)).bind_fails fun _ _ => (fails_char ?_).bind
        cases cs with
        | nil => exact hrest.head?_ne (by decide)
        | cons d cs =>
          have hd := h.ne_of_mem (List.mem_cons_of_mem _ List.mem_cons_self)
          simpa using hd.2.2
      · exact (fails_char (by simpa using hzero)).bind
    · exact (fails_char (by simpa using hc.1)).bind

end

/-! ### Names and words -/

section

variable {α : Type} {s : String} {names : List String} {cs rest text : List Char}

theorem reads_ident (h : NameText s cs) (hrest : Stops isIdentContinue rest) :
    Reads ident cs rest (· = s) := by
  obtain ⟨hs, hident⟩ := h
  obtain _ | ⟨c, cs⟩ := cs
  · cases hident
  · rw [isIdent, Bool.and_eq_true] at hident
    refine (reads_satisfy hident.1).bind fun first hfirst => ?_
    refine (reads_run (List.all_eq_true.mp hident.2) hrest).bind_pure fun others hothers => ?_
    rw [hfirst, hothers, hs, String.ofList_toList]

theorem fails_ident (h : Stops isIdentStart text) : Fails ident text :=
  (fails_satisfy h).bind

/-- Something that starts with a name fails if it fails behind the longest run of characters of
names, be that run a name or not. -/
theorem fails_ident_bind {f : String → Scanner α}
    (h : ∀ name, Fails (f name) (text.dropWhile isIdentContinue)) : Fails (ident >>= f) text := by
  cases text with
  | nil => exact (fails_ident stops_nil).bind
  | cons c text =>
    by_cases hc : isIdentStart c = true
    · have hname : NameText (String.ofList (c :: text.takeWhile isIdentContinue))
          (c :: text.takeWhile isIdentContinue) := by
        refine ⟨String.toList_ofList.symm, ?_⟩
        rw [isIdent, hc, Bool.true_and, List.all_eq_true]
        exact fun d hd => List.mem_takeWhile_imp hd
      rw [List.dropWhile_cons_of_pos (isIdentContinue_of_isIdentStart hc)] at h
      have hfails := (reads_ident hname (stops_dropWhile _ text)).bind_fails fun name _ => h name
      rwa [List.cons_append, List.takeWhile_append_dropWhile] at hfails
    · exact (fails_ident (stops_cons.mpr (Bool.eq_false_iff.mpr hc))).bind

theorem startsNumber_of_isIdentStart {c : Char} (h : isIdentStart c = true) :
    startsNumber c = false := by
  have hsign : ∀ x, isIdentStart x = false → c ≠ x := by
    rintro x hx rfl
    rw [h] at hx
    cases hx
  have hdigit : c.isDigit = false := by
    rw [Bool.eq_false_iff]
    intro hdigit
    have hrange : 48 ≤ c.toNat ∧ c.toNat ≤ 57 := by
      simpa [Char.isDigit, UInt32.le_iff_toNat_le] using hdigit
    have hunderscore : c ≠ '_' := by
      rintro rfl
      exact absurd hrange.2 (by decide)
    rw [isIdentStart, if_pos (by omega)] at h
    simp [Char.isAlpha, Char.isUpper, Char.isLower, UInt32.le_iff_toNat_le, hunderscore] at h
    omega
  have hvalue : ¬digitValue c < 10 := by
    rw [digitValue, hdigit, if_neg Bool.false_ne_true]
    split <;> (try split) <;> omega
  simp [startsNumber, hsign '$' (by decide), hsign '%' (by decide), hvalue]

/-- A name is not mistaken for a number. -/
theorem NameText.fails_number (h : NameText s cs) (rest : List Char) :
    Fails number (cs ++ rest) := by
  refine Mos6502.fails_number ?_
  obtain ⟨c, cs, rfl⟩ := List.exists_cons_of_ne_nil h.ne_nil
  have hident := h.2
  rw [isIdent, Bool.and_eq_true] at hident
  exact stops_cons.mpr (startsNumber_of_isIdentStart hident.1)

theorem lowercase_mem_iff {ks : List Char} :
    lowercase (String.ofList ks) ∈ names ↔ KeywordText names ks := by
  rw [lowercase, String.toList_ofList, KeywordText, List.mem_map]
  constructor
  · intro h
    exact ⟨_, h, String.toList_ofList⟩
  · rintro ⟨name, hname, htext⟩
    rwa [← htext, String.ofList_toList]

/-- A word is not spelled like another one. -/
theorem KeywordText.not_keywordText {names' : List String} (h : KeywordText names cs)
    (hnames : ∀ name ∈ names, name ∉ names') : ¬KeywordText names' cs := by
  intro h'
  obtain ⟨name, hname, htext⟩ := List.mem_map.mp h
  obtain ⟨name', hname', htext'⟩ := List.mem_map.mp h'
  obtain rfl := String.toList_injective (htext'.trans htext.symm)
  exact hnames _ hname hname'

theorem KeywordText.ne_nil (h : KeywordText names cs) (hne : "" ∉ names) : cs ≠ [] := by
  rintro rfl
  obtain ⟨name, hname, htext⟩ := List.mem_map.mp h
  rw [List.map_nil, String.toList_eq_nil_iff] at htext
  exact hne (htext ▸ hname)

theorem KeywordText.begins (h : KeywordText names cs) (hne : "" ∉ names)
    (hnames : ∀ name ∈ names, name.toList.all Scanner.isWordChar = true) : Begins cs := by
  obtain ⟨c, cs, rfl⟩ := List.exists_cons_of_ne_nil (h.ne_nil hne)
  refine ⟨c, rfl, fun hmem => ?_⟩
  have hdelimiter : delimiters.all (!Scanner.isWordChar ·) = true := by decide
  have hnone := List.all_eq_true.mp hdelimiter c hmem
  rw [h.isWordChar hnames List.mem_cons_self] at hnone
  cases hnone

theorem reads_word {ks : List Char} (h : KeywordText names ks) (hne : "" ∉ names)
    (hnames : ∀ name ∈ names, name.toList.all isWordChar = true) (hrest : Ends rest) :
    Reads (word names) ks rest fun _ => True := by
  have hks : ∀ c ∈ ks, isWordChar c = true := fun c hc => h.isWordChar hnames hc
  refine (reads_run₁ (h.ne_nil hne) hks hrest.stops_isWordChar).bind_nil ?_
  rintro w rfl
  rw [if_pos (lowercase_mem_iff.mpr h)]
  exact reads_pure trivial

/-- The whole run of word characters has to be the word. -/
theorem fails_word (h : ¬KeywordText names (text.takeWhile isWordChar)) :
    Fails (word names) text := by
  by_cases hnil : text.takeWhile isWordChar = []
  · have hstops : Stops isWordChar text := by
      have hdrop := List.takeWhile_append_dropWhile (p := isWordChar) (l := text)
      rw [hnil, List.nil_append] at hdrop
      rw [← hdrop]
      exact stops_dropWhile isWordChar text
    exact (fails_run₁ hstops).bind
  · have hread := reads_run₁ hnil (fun c hc => List.mem_takeWhile_imp hc)
      (stops_dropWhile isWordChar text)
    have hfails : Fails (word names) (text.takeWhile isWordChar ++ text.dropWhile isWordChar) := by
      refine hread.bind_fails ?_
      rintro w rfl pos
      rw [if_neg (mt lowercase_mem_iff.mp h)]
      rfl
    rwa [List.takeWhile_append_dropWhile] at hfails

/-- A word that is read is all there is of word characters at the front of the text. -/
theorem keywordText_of_word {c c' : Cursor} {u : Unit} (h : word names c = some (u, c')) :
    KeywordText names (c.rest.takeWhile isWordChar) ∧
      c' = ⟨c.pos + byteLength (c.rest.takeWhile isWordChar), c.rest.dropWhile isWordChar⟩ := by
  simp only [word, run₁, run, bind_apply] at h
  split at h
  · cases h
  · next w c'' hrun =>
    split at hrun
    · cases hrun
    · obtain ⟨rfl, rfl⟩ := Prod.mk.inj (Option.some.inj hrun)
      split at h
      · next hword =>
        obtain ⟨-, rfl⟩ := Prod.mk.inj (Option.some.inj h)
        exact ⟨lowercase_mem_iff.mp hword, rfl⟩
      · cases h

end

end Mos6502
