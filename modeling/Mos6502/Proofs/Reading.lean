import Mos6502.Proofs.LineLocality
import Mos6502.Proofs.Tokens

/-!
# Reading what is written

Every written form of a line is read as what it says. Scanners are committed to the first
alternative that reads something, so for each form there are two things to show: that its own
alternative reads all of it, and that every alternative before that one fails on it. What makes
them fail is a single character, the first one after a name, a value or a closing parenthesis.

## Main results

* `Line.reads_operand`, `Line.reads_sepBy₁`, `Line.reads_node` — the statements
* `Line.following_node` — what tells a statement from a label, and an assignment from the others
* `parse_append_of_lineText` — a written line is read as its label and its statement
-/

namespace Mos6502

open Text Scanner

namespace Line

/-! ### Values -/

section

variable {x : Char} {e : Expr} {cs sep os ds rest text : List Char}

/-- A number starts with a digit or a sign of its own, so a name is not mistaken for one. -/
theorem reads_expr (h : ExprText e cs) (hrest : Ends rest) : Reads expr cs rest (· = e) := by
  cases h with
  | int h => exact ((reads_number h hrest).bind_pure fun n hn => by rw [hn]).orElse_left
  | name h =>
    have hname := (reads_ident h hrest.stops_isIdentContinue).bind_pure (g := Expr.name)
      (S := (· = Expr.name _)) fun s hs => by rw [hs]
    exact hname.orElse_right (h.fails_number rest).bind

theorem fails_expr (h : Ends text) : Fails expr text := by
  have hnumber : Stops startsNumber text := h.stops (by decide)
  have hident : Stops isIdentStart text := h.stops (by decide)
  exact (fails_number hnumber).bind.orElse (fails_ident hident).bind

theorem reads_padded (h : PaddedText x sep) (hx : isGap x = false) (hrest : Begins rest) :
    Reads (padded (char x)) sep rest fun _ => True := by
  obtain ⟨bs, bs', hbs, hbs', rfl⟩ := h
  exact reads_padded_char hbs hx hbs' hrest.stops_isGap

theorem reads_comma (h : PaddedText ',' sep) (hrest : Begins rest) :
    Reads comma sep rest fun _ => True :=
  reads_padded h (by decide) hrest

theorem fails_comma (h : next? text ≠ some ',') : Fails comma text :=
  fails_padded_char h

theorem reads_opening (h : OpenText os) (hrest : Begins rest) :
    Reads opening os rest fun _ => True := by
  obtain ⟨bs, hbs, rfl⟩ := h
  exact (reads_char '(' _).bind fun _ _ => reads_blanks hbs hrest.stops_isGap

theorem fails_opening (h : text.head? ≠ some '(') : Fails opening text :=
  (fails_char h).bind

theorem reads_closing (h : CloseText ds) (rest : List Char) :
    Reads closing ds rest fun _ => True := by
  obtain ⟨bs, hbs, rfl⟩ := h
  refine (reads_blanks hbs ?_).bind fun _ _ => reads_char ')' rest
  exact stops_cons.mpr (by decide)

@[simp] theorem unplaced_inj {α : Type} {x y : Spanned α} :
    x.unplaced = y.unplaced ↔ x.val = y.val := by
  simp [Spanned.unplaced]

theorem reads_register {r : Spanned String} {rs : List Char} (h : NameText r.val rs)
    (hrest : Ends rest) : Reads register rs rest fun x => x.unplaced = r.unplaced :=
  (reads_ident h hrest.stops_isIdentContinue).spanned.mono fun _ hx => unplaced_inj.mpr hx

end

/-! ### Operands -/

section

variable {e : Expr} {o : Operand} {cs rest text : List Char}

/-- The operand that a value alone makes. -/
def directAt : Expr → Operand
  | .int n => .direct n
  | .name s => .label s

/-- The operand that a value makes together with an index register. -/
def indexedAt (r : Spanned String) : Expr → Operand
  | .int n => .indexed n r
  | .name s => .labelIndexed s r

/-- `v, R` -/
theorem reads_indexed {r : Spanned String} {sep rs : List Char} (h : ExprText e cs)
    (hsep : PaddedText ',' sep) (hr : NameText r.val rs) (hrest : Ends rest) :
    Reads indexed (cs ++ (sep ++ rs)) rest fun x => x.unplaced = (indexedAt r e).unplaced := by
  refine (reads_expr h (hsep.ends (by decide) rs rest)).bind fun a ha => ?_
  subst ha
  refine (reads_comma hsep (hr.startsValue.begins.append rest)).bind fun _ _ => ?_
  refine (reads_register hr hrest).bind_pure fun x hx => ?_
  cases a <;> simp [indexedAt, Operand.unplaced, hx]

/-- `v` -/
theorem reads_direct (h : ExprText e cs) (hrest : Ends rest) :
    Reads direct cs rest (· = directAt e) := by
  refine (reads_expr h hrest).bind_pure fun a ha => ?_
  subst ha
  cases a <;> rfl

/-- A value that is not followed by a comma is not indexed. -/
theorem fails_indexed (h : ExprText e cs) (hrest : Ends rest) (hcomma : next? rest ≠ some ',') :
    Fails indexed (cs ++ rest) :=
  (reads_expr h hrest).bind_fails fun _ _ => (fails_comma hcomma).bind

/-- What starts like a value is read by the last two alternatives. -/
theorem reads_operand_of_startsValue {Q : Operand → Prop} (h : StartsValue cs)
    (hread : Reads (indexed <|> direct) cs rest Q) : Reads operand cs rest Q := by
  have hopening : Fails opening (cs ++ rest) := fails_opening (h.head?_ne (by decide) rest)
  refine Reads.orElse_right (Reads.orElse_right (Reads.orElse_right ?_ hopening.bind)
    hopening.bind) ?_
  · exact hread.orElse_right hopening.bind
  · exact (fails_char (h.head?_ne (by decide) rest)).bind

theorem reads_operand_direct (h : ExprText e cs) (hrest : Tail rest) :
    Reads operand cs rest fun x => x.unplaced = (directAt e).unplaced := by
  refine reads_operand_of_startsValue h.startsValue ?_
  refine Reads.orElse_right ?_ (fails_indexed h hrest.ends (hrest.next?_ne (by decide)))
  exact (reads_direct h hrest.ends).mono fun x hx => by rw [hx]

theorem reads_operand_indexed {r : Spanned String} {sep rs : List Char} (h : ExprText e cs)
    (hsep : PaddedText ',' sep) (hr : NameText r.val rs) (hrest : Tail rest) :
    Reads operand (cs ++ (sep ++ rs)) rest fun x => x.unplaced = (indexedAt r e).unplaced :=
  reads_operand_of_startsValue (h.startsValue.append _)
    (reads_indexed h hsep hr hrest.ends).orElse_left

section

variable {os ds : List Char}

theorem fails_immediate_of_open (h : OpenText os) (text rest : List Char) :
    Fails immediate (os ++ text ++ rest) := by
  obtain ⟨bs, -, rfl⟩ := h
  exact (fails_char (by simp)).bind

/-- `(v)` has a closing parenthesis where `(v, R)` has a comma. -/
theorem fails_indirectX (hopen : OpenText os) (h : ExprText e cs) (hclose : CloseText ds)
    (rest : List Char) : Fails indirectX (os ++ (cs ++ (ds ++ rest))) := by
  have hcomma : next? (ds ++ rest) ≠ some ',' := by
    rw [hclose.next?]
    decide
  refine (reads_opening hopen (h.startsValue.begins.append _)).bind_fails fun _ _ => ?_
  exact (reads_expr h (hclose.ends rest)).bind_fails fun _ _ => (fails_comma hcomma).bind

/-- `(v)` without a comma behind it is no `(v), R`. -/
theorem fails_indirectY (hopen : OpenText os) (h : ExprText e cs) (hclose : CloseText ds)
    (hcomma : next? rest ≠ some ',') : Fails indirectY (os ++ (cs ++ (ds ++ rest))) := by
  refine (reads_opening hopen (h.startsValue.begins.append _)).bind_fails fun _ _ => ?_
  refine (reads_expr h (hclose.ends rest)).bind_fails fun _ _ => ?_
  exact (reads_closing hclose rest).bind_fails fun _ _ => (fails_comma hcomma).bind

end

/-- **An operand** is read as what it is written as. -/
theorem reads_operand (h : OperandText o cs) (hrest : Tail rest) :
    Reads operand cs rest fun x => x.unplaced = o.unplaced := by
  have hcomma : next? rest ≠ some ',' := hrest.next?_ne (by decide)
  cases h with
  | immediate h =>
    refine Reads.orElse_left ((reads_char '#' _).bind fun _ _ => ?_)
    exact (reads_expr h hrest.ends).bind_pure fun e he => by rw [he]
  | direct h => exact reads_operand_direct (.int h) hrest
  | label h => exact reads_operand_direct (.name h) hrest
  | indexed h hsep hr => exact reads_operand_indexed (.int h) hsep hr hrest
  | labelIndexed h hsep hr => exact reads_operand_indexed (.name h) hsep hr hrest
  | indirectX hopen h hsep hr hclose =>
    refine Reads.orElse_right (Reads.orElse_left ?_) (fails_immediate_of_open hopen _ _)
    refine (reads_opening hopen ((h.startsValue.begins.append _).append rest)).bind fun _ _ => ?_
    refine (reads_expr h (hsep.ends (by decide) _ rest)).bind fun a ha => ?_
    refine (reads_comma hsep ((hr.startsValue.begins.append _).append rest)).bind fun _ _ => ?_
    refine (reads_register hr (hclose.ends rest)).bind fun x hx => ?_
    refine (reads_closing hclose rest).bind_pure fun _ _ => ?_
    rw [ha, Operand.unplaced, Operand.unplaced, hx]
  | @indirectY e r os cs ds sep rs hopen h hclose hsep hr =>
    have hx := fails_indirectX hopen h hclose (sep ++ (rs ++ rest))
    refine Reads.orElse_right (Reads.orElse_right (Reads.orElse_left ?_) (by simpa using hx))
      (fails_immediate_of_open hopen _ _)
    refine (reads_opening hopen ((h.startsValue.begins.append _).append rest)).bind fun _ _ => ?_
    refine (reads_expr h (by simpa using hclose.ends _)).bind fun a ha => ?_
    refine (reads_closing hclose _).bind fun _ _ => ?_
    refine (reads_comma hsep (hr.startsValue.begins.append _)).bind fun _ _ => ?_
    refine (reads_register hr hrest.ends).bind_pure fun x hx => ?_
    rw [ha, Operand.unplaced, Operand.unplaced, hx]
  | @indirect e os cs ds hopen h hclose =>
    have hx := fails_indirectX hopen h hclose rest
    have hy := fails_indirectY hopen h hclose hcomma
    refine Reads.orElse_right (Reads.orElse_right (Reads.orElse_right (Reads.orElse_left ?_)
      (by simpa using hy)) (by simpa using hx)) (fails_immediate_of_open hopen _ _)
    refine (reads_opening hopen ((h.startsValue.begins.append _).append rest)).bind fun _ _ => ?_
    refine (reads_expr h (hclose.ends rest)).bind fun a ha => ?_
    exact (reads_closing hclose rest).bind_pure fun _ _ => by rw [ha]

/-- The characters that can start an operand. -/
def startsOperand (c : Char) : Bool :=
  startsNumber c || isIdentStart c || c == '#' || c == '('

theorem fails_operand (h : Stops startsOperand text) : Fails operand text := by
  have hhead : ∀ x, startsOperand x = true → text.head? ≠ some x := by
    intro x hx hhead
    rw [h x hhead] at hx
    cases hx
  have hexpr : Fails expr text := by
    refine (fails_number fun c hc => ?_).bind.orElse (fails_ident fun c hc => ?_).bind
    all_goals
      have hc := h c hc
      simp only [startsOperand, Bool.or_eq_false_iff] at hc
    · exact hc.1.1.1
    · exact hc.1.1.2
  have hopening : Fails opening text := fails_opening (hhead '(' (by decide))
  refine (fails_char (hhead '#' (by decide))).bind.orElse ?_
  refine hopening.bind.orElse (hopening.bind.orElse (hopening.bind.orElse ?_))
  exact hexpr.bind.orElse hexpr.bind

theorem begins_operand (h : OperandText o cs) : Begins cs := by
  have hopens : ∀ {os : List Char}, OpenText os → Begins os := by
    rintro os ⟨bs, -, rfl⟩
    exact ⟨'(', rfl, by decide⟩
  cases h with
  | immediate h => exact ⟨'#', rfl, by decide⟩
  | direct h => exact h.startsValue.begins
  | label h => exact h.startsValue.begins
  | indexed h hsep hr => exact h.startsValue.begins.append _
  | labelIndexed h hsep hr => exact h.startsValue.begins.append _
  | indirectX hopen h hsep hr hclose => exact (hopens hopen).append _
  | indirectY hopen h hclose hsep hr => exact (hopens hopen).append _
  | indirect hopen h hclose => exact (hopens hopen).append _

end

/-! ### Items -/

section

variable {d : Spanned Datum} {items : List (Spanned Datum)} {rounds : Nat}
  {cs sep rest : List Char}

theorem begins_datum {d : Datum} (h : DatumText d cs) : Begins cs := by
  cases h with
  | int h => exact h.startsValue.begins
  | str hquote hline => exact ⟨'"', rfl, by decide⟩
  | label h => exact h.startsValue.begins

theorem reads_datum {d : Datum} (h : DatumText d cs) (hrest : Ends rest) :
    Reads datum cs rest (· = d) := by
  have hquoted : StartsValue cs → Fails quoted (cs ++ rest) := fun hvalue =>
    (fails_char (hvalue.head?_ne (by decide) rest)).bind
  cases h with
  | int h =>
    refine Reads.orElse_right (Reads.orElse_left ?_) (hquoted h.startsValue).bind
    exact (reads_number h hrest).bind_pure fun n hn => by rw [hn]
  | @str s hquote hline =>
    refine Reads.orElse_left (Reads.bind_pure (Q := (· = s)) ?_ fun t ht => by rw [ht])
    refine (reads_char '"' _).bind fun _ _ => ?_
    have hrun : Reads (run (· != '"')) s.toList (['"'] ++ rest) (· = s.toList) := by
      refine reads_run (fun c hc => ?_) (stops_cons.mpr (by decide))
      rw [bne_iff_ne]
      rintro rfl
      exact hquote hc
    refine hrun.bind fun t ht => (reads_char '"' rest).bind_pure fun _ _ => ?_
    rw [ht, String.ofList_toList]
  | label h =>
    refine Reads.orElse_right (Reads.orElse_right ?_ (h.fails_number rest).bind)
      (hquoted h.startsValue).bind
    exact (reads_ident h hrest.stops_isIdentContinue).bind_pure fun n hn => by rw [hn]

theorem reads_item (h : DatumText d.val cs) (hrest : Ends rest) :
    Reads (spanned datum) cs rest fun x => x.unplaced = d.unplaced :=
  (reads_datum h hrest).spanned.mono fun _ hx => unplaced_inj.mpr hx

/-- There are no more items where no comma follows, however many are allowed. -/
theorem reads_moreItems_nil (h : next? rest ≠ some ',') (rounds : Nat) :
    Reads (moreItems (spanned datum) comma rounds) [] rest (· = []) := by
  cases rounds with
  | zero => exact reads_pure rfl
  | succ rounds =>
    have hnone : Reads (Pure.pure [] : Scanner (List (Spanned Datum))) [] rest (· = []) :=
      reads_pure rfl
    exact hnone.orElse_right (fails_comma h).bind

theorem begins_items (h : ItemsText items cs) : Begins cs := by
  cases h with
  | one h => exact begins_datum h
  | cons h hsep hitems => exact (begins_datum h).append _

/-- **Items** after a comma are read one by one, if that many are allowed. -/
theorem reads_moreItems (h : ItemsText items cs) (hsep : PaddedText ',' sep) (hrest : Tail rest)
    (hrounds : items.length ≤ rounds) :
    Reads (moreItems (spanned datum) comma rounds) (sep ++ cs) rest
      fun as => as.map Spanned.unplaced = items.map Spanned.unplaced := by
  induction h generalizing sep rounds with
  | one h =>
    obtain ⟨rounds, rfl⟩ := Nat.exists_eq_add_of_le' hrounds
    refine Reads.orElse_left ((reads_comma hsep ((begins_datum h).append rest)).bind fun _ _ => ?_)
    refine (reads_item h hrest.ends).bind_nil fun a ha => ?_
    refine (reads_moreItems_nil (hrest.next?_ne (by decide)) _).bind_pure fun as has => ?_
    rw [has, List.map_singleton, ha, List.map_singleton]
  | @cons d items cs sep' ds h hsep' hitems ih =>
    obtain _ | rounds := rounds
    · cases hrounds
    have hbegins := (begins_items (.cons h hsep' hitems)).append rest
    refine Reads.orElse_left ((reads_comma hsep hbegins).bind fun _ _ => ?_)
    refine (reads_item h (hsep'.ends (by decide) ds rest)).bind fun a ha => ?_
    refine (ih hsep' (Nat.le_of_succ_le_succ hrounds)).bind_pure fun as has => ?_
    rw [List.map_cons, ha, has, List.map_cons]

theorem length_items_le (h : ItemsText items cs) : items.length ≤ cs.length := by
  have hpos : ∀ {d cs}, DatumText d cs → 1 ≤ cs.length := by
    intro d cs h
    obtain ⟨c, hc, -⟩ := begins_datum h
    exact List.length_pos_of_mem (List.mem_of_mem_head? hc)
  induction h with
  | one h => exact hpos h
  | cons h hsep hitems ih =>
    have hlength := hpos h
    rw [List.length_cons, List.length_append, List.length_append]
    omega

/-- A list of items is read to its end, since the characters that are left allow for all of it. -/
theorem reads_sepBy₁ (h : ItemsText items cs) (hrest : Tail rest) :
    Reads (sepBy₁ (spanned datum) comma) cs rest
      fun as => as.map Spanned.unplaced = items.map Spanned.unplaced := by
  cases h with
  | one h =>
    have hmore : Reads (fun c => moreItems (spanned datum) comma c.rest.length c) [] rest
        (· = []) := fun pos => reads_moreItems_nil (hrest.next?_ne (by decide)) rest.length pos
    refine (reads_item h hrest.ends).bind_nil fun a ha => hmore.bind_pure fun as has => ?_
    rw [has, List.map_singleton, ha, List.map_singleton]
  | @cons d items cs sep ds h hsep hitems =>
    have hrounds : items.length ≤ (sep ++ ds ++ rest).length := by
      have hlength := length_items_le hitems
      rw [List.length_append, List.length_append]
      omega
    have hmore : Reads (fun c => moreItems (spanned datum) comma c.rest.length c) (sep ++ ds) rest
        fun as => as.map Spanned.unplaced = items.map Spanned.unplaced :=
      fun pos => reads_moreItems hitems hsep hrest hrounds pos
    have hends : Ends (sep ++ ds ++ rest) := hsep.ends (by decide) ds rest
    refine (reads_item h hends).bind fun a ha => hmore.bind_pure fun as has => ?_
    rw [List.map_cons, ha, has, List.map_cons]

end

/-! ### Statements -/

section

variable {s : String} {names : List String} {n : Node} {ks cs rest text : List Char}

/-- The first character that is not a blank behind a name, or behind what could have been one. It
decides whether a line starts with a label, with an assignment or with neither. -/
def following (text : List Char) : Option Char :=
  next? (text.dropWhile isIdentContinue)

theorem isIdentContinue_of_isWordChar {c : Char} (h : isWordChar c = true) :
    isIdentContinue c = true ∨ c = '.' := by
  by_cases hdot : c = '.'
  · exact .inr hdot
  · left
    have hword : c.isAlphanum = true ∨ c = '_' := by simpa [isWordChar, hdot] using h
    rcases hword with halpha | rfl
    · have hascii : c.toNat < 0x80 := by
        simp [Char.isAlphanum, Char.isAlpha, Char.isUpper, Char.isLower, Char.isDigit,
          UInt32.le_iff_toNat_le] at halpha
        omega
      rw [isIdentContinue, if_pos hascii, halpha, Bool.true_or]
    · decide

/-- A name or a directive is followed by a dot of its own or by what stands behind it. -/
theorem following_ne {x : Char} (hks : ∀ c ∈ ks, isIdentContinue c = true ∨ c = '.')
    (hrest : Ends rest) (hx : x ≠ '.') (hnext : next? rest ≠ some x) :
    following (ks ++ rest) ≠ some x := by
  induction ks with
  | nil => rwa [List.nil_append, following, dropWhile_of_stops hrest.stops_isIdentContinue]
  | cons c ks ih =>
    have hcs : ∀ d ∈ ks, isIdentContinue d = true ∨ d = '.' := fun d hd =>
      hks d (List.mem_cons_of_mem c hd)
    by_cases hc : isIdentContinue c = true
    · rw [following, List.cons_append, List.dropWhile_cons_of_pos hc]
      exact ih hcs
    · have hdot : c = '.' := (hks c List.mem_cons_self).resolve_left hc
      have hstops : Stops isGap ('.' :: (ks ++ rest)) := stops_cons.mpr (by decide)
      rw [following, List.cons_append, List.dropWhile_cons_of_neg hc, hdot, next?_of_stops hstops]
      exact fun hhead => hx (Option.some.inj hhead).symm

theorem fails_label (h : following text ≠ some ':') : Fails label text := by
  refine fails_ident_bind fun name => (fails_char fun hhead => h ?_).bind
  have hstops : Stops isGap (text.dropWhile isIdentContinue) := by
    intro c hc
    obtain rfl := Option.mem_unique hhead hc
    decide
  rw [following, next?_of_stops hstops, hhead]

theorem fails_assignment (h : following text ≠ some '=') : Fails assignment text :=
  fails_ident_bind fun _ => (fails_padded_char h).bind

/-- Behind the first word of a statement stands no colon, and an equals sign only in an
assignment. -/
theorem following_node {x : Char} (h : NodeText n cs) (hrest : Tail rest)
    (hx : x = ':' ∨ x = '=') (hfollowing : following (cs ++ rest) = some x) :
    x = '=' ∧ ∃ name value, n = .assign name value := by
  have hdelimiter : x ∈ delimiters ∧ x ≠ '.' ∧ x ≠ ';' := by
    rcases hx with rfl | rfl <;> decide
  obtain ⟨hmem, hdot, hsemicolon⟩ := hdelimiter
  have hname : ∀ {s : String} {cs : List Char}, NameText s cs →
      ∀ c ∈ cs, isIdentContinue c = true ∨ c = '.' := fun h c hc => .inl (h.isIdentContinue hc)
  -- blanks and a token behind the first word are neither of the two signs
  have htoken : ∀ {ks bs ds : List Char}, (∀ c ∈ ks, isIdentContinue c = true ∨ c = '.') →
      Gap bs → bs ≠ [] → Begins ds → following (ks ++ (bs ++ ds) ++ rest) ≠ some x := by
    intro ks bs ds hks hbs hne hbegins
    rw [List.append_assoc]
    refine following_ne hks (ends_gap_append hbs hne ds rest) hdot ?_
    rw [List.append_assoc, next?_append hbs]
    exact (hbegins.append rest).next?_ne hmem
  cases h with
  | assign hs hsep h =>
    rcases hx with rfl | rfl
    · rw [List.append_assoc] at hfollowing
      refine absurd hfollowing (following_ne (hname hs) (hsep.ends (by decide) _ _) hdot ?_)
      rw [List.append_assoc, hsep.next? (by decide)]
      decide
    · exact ⟨rfl, _, _, rfl⟩
  | org hword hbs hne h =>
    refine absurd hfollowing (htoken (fun c hc => ?_) hbs hne h.startsValue.begins)
    exact isIdentContinue_of_isWordChar (hword.isWordChar isWordChar_of_mem_orgWords hc)
  | @data width items ks bs cs hword hbs hne h =>
    refine absurd hfollowing (htoken (fun c hc => ?_) hbs hne (begins_items h))
    exact isIdentContinue_of_isWordChar (hword.isWordChar (isWordChar_of_mem_dataWords width) hc)
  | implied hs hword =>
    exact absurd hfollowing (following_ne (hname hs) hrest.ends hdot (hrest.next?_ne hsemicolon))
  | instr hs hword hbs hne h =>
    exact absurd hfollowing (htoken (hname hs) hbs hne (begins_operand h))

/-- The word characters at the front of a directive are all of it. -/
theorem takeWhile_keyword (h : KeywordText names ks)
    (hnames : ∀ name ∈ names, name.toList.all isWordChar = true) (hrest : Ends rest) :
    (ks ++ rest).takeWhile isWordChar = ks := by
  rw [takeWhile_append_of_stops hrest.stops_isWordChar, List.takeWhile_eq_self_iff]
  exact fun c hc => h.isWordChar hnames hc

theorem reads_dataWidth {width : DataWidth} (h : KeywordText (dataWords width) ks)
    (hrest : Ends rest) : Reads dataWidth ks rest (· = width) := by
  have hwords := isWordChar_of_mem_dataWords width
  cases width with
  | byte =>
    refine Reads.orElse_left ?_
    exact (reads_word h (by decide) hwords hrest).bind_pure fun _ _ => rfl
  | word =>
    refine Reads.orElse_right ?_ (fails_word fun hbyte => ?_).bind
    · exact (reads_word h (by decide) hwords hrest).bind_pure fun _ _ => rfl
    · rw [takeWhile_keyword h hwords hrest] at hbyte
      exact h.not_keywordText (by decide) hbyte

theorem keywordText_of_dataWidth {c c' : Cursor} {width : DataWidth}
    (h : dataWidth c = some (width, c')) :
    KeywordText (dataWords width) (c.rest.takeWhile isWordChar) ∧
      c' = ⟨c.pos + byteLength (c.rest.takeWhile isWordChar), c.rest.dropWhile isWordChar⟩ := by
  rw [dataWidth, orElse_apply, bind_apply, bind_apply] at h
  split at h
  · split at h
    · cases h
    · next hword =>
      obtain ⟨rfl, rfl⟩ := Prod.mk.inj (Option.some.inj h)
      exact keywordText_of_word hword
  · next hbyte =>
    split at hbyte
    · cases hbyte
    · next hword =>
      obtain ⟨rfl, rfl⟩ := Prod.mk.inj (Option.some.inj (hbyte.trans h))
      exact keywordText_of_word hword

/-- A name that does not start with a directive is none, since no name has a dot in it. -/
theorem not_keywordText (hs : NameText s cs) (h : ¬StartsDirective cs)
    (hnames : ∀ name ∈ names, '.' ∈ name.toList ∨ name ∈ ["org", "db", "dw"]) :
    ¬KeywordText names (cs.takeWhile isWordChar) := by
  intro hword
  obtain ⟨name, hname, htext⟩ := List.mem_map.mp hword
  rcases hnames name hname with hdot | hdirective
  · rw [htext] at hdot
    obtain ⟨c, hc, hlower⟩ := List.mem_map.mp hdot
    have hident := hs.isIdentContinue (List.takeWhile_subset _ hc)
    have hdot : c = '.' := by
      rcases eq_or_eq_toUpper_toLower c with heq | heq
      · rw [heq, hlower]
      · rw [heq, hlower]
        decide
    rw [hdot] at hident
    exact absurd hident (by decide)
  · exact h (List.mem_map.mpr ⟨name, hdirective, htext⟩)

/-- A mnemonic is read by the last alternative. -/
theorem fails_directives (hs : NameText s cs) (h : ¬StartsDirective cs) (hrest : Ends rest) :
    Fails org (cs ++ rest) ∧ Fails data (cs ++ rest) := by
  have hword : ∀ {names}, (∀ name ∈ names, '.' ∈ name.toList ∨ name ∈ ["org", "db", "dw"]) →
      Fails (word names) (cs ++ rest) := by
    intro names hnames
    refine fails_word ?_
    rw [takeWhile_append_of_stops hrest.stops_isWordChar]
    exact not_keywordText hs h hnames
  exact ⟨(hword (by decide)).bind, ((hword (by decide)).bind.orElse (hword (by decide)).bind).bind⟩

/-- **A statement** is read as what it says. -/
theorem reads_node (h : NodeText n cs) (hrest : Tail rest) :
    Reads node cs rest fun x => x.unplaced = n.unplaced := by
  have hassignment : (∀ name value, n ≠ .assign name value) → Fails assignment (cs ++ rest) := by
    intro hne
    refine fails_assignment fun hfollowing => ?_
    obtain ⟨-, name, value, hn⟩ := following_node h hrest (.inr rfl) hfollowing
    exact hne name value hn
  cases h with
  | @assign _ _ cs sep ds hs hsep h =>
    refine Reads.orElse_left ?_
    have hends : Ends (sep ++ ds ++ rest) := hsep.ends (by decide) ds rest
    refine (reads_ident hs hends.stops_isIdentContinue).bind fun name hname => ?_
    refine (reads_padded hsep (by decide) (h.startsValue.begins.append rest)).bind fun _ _ => ?_
    exact (reads_number h hrest.ends).bind_pure fun value hvalue => by rw [hname, hvalue]
  | @org _ ks bs cs hword hbs hne h =>
    refine Reads.orElse_right (Reads.orElse_left ?_) (hassignment (by simp))
    have hends : Ends (bs ++ cs ++ rest) := ends_gap_append hbs hne cs rest
    refine (reads_word hword (by decide) isWordChar_of_mem_orgWords hends).bind fun _ _ => ?_
    refine (reads_blanks hbs (h.startsValue.begins.append rest).stops_isGap).bind fun _ _ => ?_
    exact (reads_number h hrest.ends).bind_pure fun value hvalue => by rw [hvalue]
  | @data width items ks bs cs hword hbs hne h =>
    have hends : Ends (bs ++ cs ++ rest) := ends_gap_append hbs hne cs rest
    have horg : Fails org (ks ++ (bs ++ cs) ++ rest) := by
      refine (fails_word fun horg => ?_).bind
      rw [List.append_assoc, takeWhile_keyword hword (isWordChar_of_mem_dataWords width) hends]
        at horg
      exact hword.not_keywordText (by cases width <;> decide) horg
    refine Reads.orElse_right (Reads.orElse_right (Reads.orElse_left ?_) horg)
      (hassignment (by simp))
    refine (reads_dataWidth hword hends).bind fun w hw => ?_
    refine (reads_blanks hbs ((begins_items h).append rest).stops_isGap).bind fun _ _ => ?_
    refine (reads_sepBy₁ h hrest).bind_pure fun as has => ?_
    rw [hw, Node.unplaced, has, Node.unplaced]
  | implied hs hword =>
    obtain ⟨horg, hdata⟩ := fails_directives hs hword hrest.ends
    refine Reads.orElse_right (Reads.orElse_right (Reads.orElse_right ?_ hdata) horg)
      (hassignment (by simp))
    refine (reads_ident hs hrest.ends.stops_isIdentContinue).spanned.bind_nil fun m hm => ?_
    have hoperand : Fails (do blanks; operand) rest := fails_blanks_bind fun _ =>
      fails_operand (hrest.dropWhile.stops (by decide))
    refine hoperand.optional.bind_pure fun o ho => ?_
    rw [ho, Node.unplaced, unplaced_inj.mpr hm]
    rfl
  | @instr m o cs bs os hs hword hbs hne h =>
    have hends : Ends (bs ++ os ++ rest) := ends_gap_append hbs hne os rest
    obtain ⟨horg, hdata⟩ := fails_directives hs hword hends
    rw [← List.append_assoc] at horg hdata
    refine Reads.orElse_right (Reads.orElse_right (Reads.orElse_right ?_ hdata) horg)
      (hassignment (by simp))
    refine (reads_ident hs hends.stops_isIdentContinue).spanned.bind fun x hx => ?_
    have hoperand := (reads_blanks hbs ((begins_operand h).append rest).stops_isGap).bind fun _ _ =>
      reads_operand h hrest
    refine hoperand.optional.bind_pure ?_
    rintro _ ⟨o', rfl, ho⟩
    rw [Node.unplaced, unplaced_inj.mpr hx, Option.getD_some, ho]
    rfl

end

/-! ### Lines -/

section

variable {name : Option String} {said : Option Node} {bs ls ns bs' cs rest text : List Char}

theorem begins_node {n : Node} (h : NodeText n cs) : Begins cs := by
  cases h with
  | assign hs hsep h => exact hs.startsValue.begins.append _
  | org hword hbs hne h =>
    exact (hword.begins (by decide) isWordChar_of_mem_orgWords).append _
  | @data width _ _ _ _ hword hbs hne h =>
    have hwords : "" ∉ dataWords width := by cases width <;> decide
    exact (hword.begins hwords (isWordChar_of_mem_dataWords width)).append _
  | implied hs hword => exact hs.startsValue.begins
  | instr hs hword hbs hne h => exact hs.startsValue.begins.append _

theorem fails_node (h : Ends text) : Fails node text := by
  have hident : Fails ident text := fails_ident (h.stops (by decide))
  have hword : ∀ {names}, Fails (word names) text := (fails_run₁ h.stops_isWordChar).bind
  refine hident.bind.orElse (hword.bind.orElse (Fails.orElse ?_ hident.spanned.bind))
  exact (hword.bind.orElse hword.bind).bind

theorem reads_label (h : LabelText name ls) (hrest : Stops isGap rest)
    (hfollowing : following rest ≠ some ':') :
    Reads (optional (do let l ← spanned label; blanks; return l)) ls rest
      fun l => l.toList.map (·.val.unplaced) = name.toList.map Node.label := by
  cases h with
  | none =>
    refine (fails_label hfollowing).spanned.bind.optional.mono fun l hl => ?_
    rw [hl]
    rfl
  | @some s cs bs h hbs =>
    have hname : Reads label (cs ++ [':']) (bs ++ rest) (· = .label s) := by
      have hends : Ends ([':'] ++ (bs ++ rest)) := ends_cons (by decide) _
      refine (reads_ident h hends.stops_isIdentContinue).bind fun name hname => ?_
      exact (reads_char ':' _).bind_pure fun _ _ => by rw [hname]
    have hread := hname.spanned.bind fun l hl => (reads_blanks hbs hrest).bind_pure
      (g := fun _ => l) (S := fun l => l.val = .label s) fun _ _ => hl
    refine hread.optional.mono ?_
    rintro _ ⟨l, rfl, hl⟩
    rw [Option.toList_some, List.map_singleton, hl]
    rfl

theorem reads_statement (h : StatementText said ns) (hrest : Tail rest) :
    Reads (optional (spanned node)) ns rest
      fun s => s.toList.map (·.val.unplaced) = said.toList.map Node.unplaced := by
  cases h with
  | none =>
    refine (fails_node hrest.ends).spanned.optional.mono fun s hs => ?_
    rw [hs]
    rfl
  | some h =>
    refine (reads_node h hrest).spanned.optional.mono ?_
    rintro _ ⟨s, rfl, hs⟩
    rw [Option.toList_some, List.map_singleton, hs]
    rfl

theorem following_statement (h : StatementText said ns) (hrest : Tail rest) :
    following (ns ++ rest) ≠ some ':' := by
  cases h with
  | none =>
    rw [List.nil_append, following, dropWhile_of_stops hrest.ends.stops_isIdentContinue]
    exact hrest.next?_ne (by decide)
  | some h =>
    intro hfollowing
    exact absurd (following_node h hrest (.inl rfl) hfollowing).1 (by decide)

/-- The label and the statement of a line, without their places on it. -/
def saying (line : Nat) (name : Option String) (said : Option Node) : List Stmt :=
  (name.toList.map Node.label ++ said.toList.map Node.unplaced).map fun n => ⟨line, ⟨0, 0⟩, n⟩

theorem reads_content (hbs : Gap bs) (hlabel : LabelText name ls) (hnode : StatementText said ns)
    (hbs' : Gap bs') (hcomment : CommentText cs) (hstops : Stops isGap (ns ++ (bs' ++ cs))) :
    Reads content (bs ++ (ls ++ (ns ++ bs'))) cs
      fun stmts => stmts.map Stmt.unplaced = saying 0 name said := by
  have htail : Tail (bs' ++ cs) := hcomment.tail hbs'
  have hbegins : Stops isGap (ls ++ (ns ++ bs') ++ cs) := by
    cases hlabel with
    | none => simpa using hstops
    | some h hbs => simpa using (h.startsValue.begins.append _).stops_isGap
  refine (reads_blanks hbs hbegins).bind fun _ _ => ?_
  have hfollowing : following (ns ++ bs' ++ cs) ≠ some ':' := by
    simpa using following_statement hnode htail
  refine (reads_label hlabel (by simpa using hstops) hfollowing).bind fun l hl => ?_
  refine (reads_statement hnode htail).bind fun s hs => ?_
  refine (reads_blanks hbs' hcomment.stops_isGap).bind_pure fun _ _ => ?_
  rw [saying, ← hl, ← hs, List.map_append, List.map_append, List.map_map, List.map_map,
    List.map_map, List.map_map]
  rfl

/-- A written line can be cut so that its parts are separated from the blanks around them. -/
theorem exists_parts {line : List Char} (h : LineText name said line) :
    ∃ bs ls ns bs' cs, Gap bs ∧ LabelText name ls ∧ StatementText said ns ∧ Gap bs' ∧
      CommentText cs ∧ Stops isGap (ns ++ (bs' ++ cs)) ∧
      line = bs ++ (ls ++ (ns ++ (bs' ++ cs))) := by
  have hgap : ∀ {bs bs'}, Gap bs → Gap bs' → Gap (bs ++ bs') := by
    intro bs bs' hbs hbs' c hc
    exact (List.mem_append.mp hc).elim (hbs c) (hbs' c)
  cases h with
  | @mk bs ls ns bs' cs hbs hlabel hnode hbs' hcomment =>
    cases hnode with
    | some h =>
      exact ⟨bs, ls, ns, bs', cs, hbs, hlabel, .some h, hbs', hcomment,
        ((begins_node h).append _).stops_isGap, rfl⟩
    | none =>
      -- without a statement, the blanks behind it belong to what stands before it
      cases hlabel with
      | none =>
        exact ⟨bs ++ bs', [], [], [], cs, hgap hbs hbs', .none, .none, by simp [Gap], hcomment,
          hcomment.stops_isGap, by simp⟩
      | @some s ds bs'' h hbs'' =>
        exact ⟨bs, _, [], [], cs, hbs, .some h (hgap hbs'' hbs'), .none, by simp [Gap], hcomment,
          hcomment.stops_isGap, by simp⟩

/-- **A line** without what ends it is read as its label and its statement. -/
theorem readLine_of_lineText {line : List Char} (h : LineText name said line) :
    ∃ stmts, readLine line = .ok stmts ∧ stmts.map Stmt.unplaced = saying 0 name said := by
  obtain ⟨bs, ls, ns, bs', cs, hbs, hlabel, hnode, hbs', hcomment, hstops, rfl⟩ := exists_parts h
  obtain ⟨stmts, hread, hstmts⟩ := reads_content hbs hlabel hnode hbs' hcomment hstops 0
  refine ⟨stmts, ?_, hstmts⟩
  have htext : bs ++ (ls ++ (ns ++ (bs' ++ cs))) = bs ++ (ls ++ (ns ++ bs')) ++ cs := by simp
  rw [readLine, htext, hread]
  cases hcomment with
  | none => rfl
  | some h => rfl

end

end Line

/-! ### Texts -/

section

variable {name : Option String} {said : Option Node} {line ending : List Char}

theorem Operand.unplaced_shift (bytes : Nat) (o : Operand) :
    (o.shift bytes).unplaced = o.unplaced := by
  cases o <;> rfl

theorem Node.unplaced_shift (bytes : Nat) (n : Node) :
    (n.shift bytes).unplaced = n.unplaced := by
  cases n with
  | data width items =>
    rw [Node.shift, Node.unplaced, List.map_map]
    rfl
  | instr i =>
    rw [Node.shift, Node.unplaced, Instr.shift, Operand.unplaced_shift]
    rfl
  | label | assign | org => rfl

theorem rawLines_of_not_mem (h : '\n' ∉ line) (hne : line ≠ []) : rawLines line = [line] := by
  induction line with
  | nil => exact absurd rfl hne
  | cons c cs ih =>
    rw [List.mem_cons, not_or] at h
    rw [rawLines, if_neg (Ne.symm h.1)]
    by_cases hcs : cs = []
    · rw [hcs]
      rfl
    · rw [ih h.2 hcs]

/-- A text of one line is read like that line. -/
theorem parse_of_newline_not_mem (h : '\n' ∉ line) (hending : ending ∈ lineEnds) :
    parse (line ++ ending) = (Parsed.ofLine (line ++ ending)).shift 0 1 := by
  have hone : ∀ text, rawLines text = [text] → parse text = (Parsed.ofLine text).shift 0 1 := by
    intro text htext
    rw [parse, htext]
    simp [Parsed.ofLinesFrom, Parsed.append]
  have hcount : line.count '\n' = 0 := List.count_eq_zero.mpr h
  rcases List.mem_cons.mp hending with rfl | hending
  · rw [List.append_nil]
    by_cases hline : line = []
    · rw [hline]
      rfl
    · exact hone line (rawLines_of_not_mem h hline)
  · refine hone _ (rawLines_of_count (.inr ?_) ?_)
    all_goals
      rcases List.mem_pair.mp hending with rfl | rfl <;> simp [hcount]

/-- **What is written is what is read.** Every line that writes a label and a statement is read
without an error, as that label and that statement, whichever way it is written and ends. -/
theorem parse_append_of_lineText (h : LineText name said line) (hending : ending ∈ lineEnds) :
    (parse (line ++ ending)).errors = [] ∧
      (parse (line ++ ending)).stmts.map Stmt.unplaced =
        (name.toList.map Node.label ++ said.toList.map Node.unplaced).map
          fun n => ⟨1, ⟨0, 0⟩, n⟩ := by
  obtain ⟨stmts, hread, hstmts⟩ := Line.readLine_of_lineText (h.withoutLineEnd hending)
  have hline : Parsed.ofLine (line ++ ending) = ⟨stmts, []⟩ := by
    rw [Parsed.ofLine, hread]
  have hshift : Stmt.unplaced ∘ Stmt.shift 0 1 =
      (fun s => { s with line := s.line + 1 }) ∘ Stmt.unplaced := by
    funext s
    simp [Stmt.unplaced, Stmt.shift, Node.unplaced_shift]
  rw [parse_of_newline_not_mem h.newline_not_mem hending, hline]
  refine ⟨rfl, ?_⟩
  rw [Parsed.shift, List.map_map, hshift, ← List.map_map, hstmts, Line.saying, List.map_map]
  rfl

end

/-- A label with a letter beyond ASCII, an operand with a tab in it and digits in both cases, a
comment and both characters that end a line. -/
theorem parse_append_of_lineText_indirectX :
    (parse "é:\tLdA ($0fF ,x\t) ; (\r\n".toList).errors = [] ∧
      (parse "é:\tLdA ($0fF ,x\t) ; (\r\n".toList).stmts.map Stmt.unplaced =
        [⟨1, ⟨0, 0⟩, .label "é"⟩,
          ⟨1, ⟨0, 0⟩, .instr ⟨⟨"LdA", ⟨0, 0⟩⟩, .indirectX (.int 255) ⟨"x", ⟨0, 0⟩⟩⟩⟩] := by
  have hnumber : ExprText (.int 255) ("$0fF".toList) :=
    .int (.dollar ⟨[0, 15, 15], by decide, by decide, by decide, by decide⟩)
  have hoperand : OperandText (.indirectX (.int 255) ⟨"x", ⟨0, 0⟩⟩) "($0fF ,x\t)".toList :=
    .indirectX ⟨[], by decide, rfl⟩ hnumber ⟨[' '], [], by decide, by decide, rfl⟩
      ⟨rfl, by decide⟩ ⟨['\t'], by decide, rfl⟩
  have hnode : NodeText (.instr ⟨⟨"LdA", ⟨0, 0⟩⟩, .indirectX (.int 255) ⟨"x", ⟨0, 0⟩⟩⟩)
      ("LdA".toList ++ ([' '] ++ "($0fF ,x\t)".toList)) :=
    .instr ⟨rfl, by decide⟩ (by decide) (by decide) (by decide) hoperand
  have hline : LineText (some "é") (some (.instr ⟨⟨"LdA", ⟨0, 0⟩⟩,
      .indirectX (.int 255) ⟨"x", ⟨0, 0⟩⟩⟩))
      ([] ++ ((("é".toList ++ [':']) ++ ['\t']) ++ ("LdA ($0fF ,x\t)".toList ++
        ([' '] ++ ';' :: " (".toList)))) :=
    .mk (by decide) (.some ⟨rfl, by decide⟩ (by decide)) (.some hnode) (by decide)
      (.some (by decide))
  have hending : ['\r', '\n'] ∈ lineEnds := by decide
  have htext : "é:\tLdA ($0fF ,x\t) ; (\r\n".toList =
      [] ++ ((("é".toList ++ [':']) ++ ['\t']) ++ ("LdA ($0fF ,x\t)".toList ++
        ([' '] ++ ';' :: " (".toList))) ++ ['\r', '\n'] := by decide
  rw [htext]
  exact parse_append_of_lineText hline hending

end Mos6502
