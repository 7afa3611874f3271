import Mos6502.Proofs.Compilation
import Mos6502.Proofs.LegibleNames

/-!
# Code can be told from the text

An instruction is written as words with one blank between them. Locals and blocks are written by
their names only, and the type of an operand stands in some places and not in others, so a text
alone does not determine an instruction. It does among the functions that programs become: their
locals are named by their numbers (`localName`), their constants are bytes, and the names of their
blocks differ.

Locals themselves are not written at all. Those of a program are the slots and what its
instructions define, in this order, so the blocks determine them.

## Main definitions

* `Inst.words` — the words of an instruction
* `Function.Legible` — what the locals and operands of a function have to be like

## Main results

* `Inst.render_inj` — an instruction can be told from its line
* `Module.render_inj` — a module can be told from its text
-/

namespace Mos6502.IR

open Text Scanner

/-! ### Words and lines -/

/-- Pieces without the sign between them can be told from their text. -/
theorem intercalate_inj {sign : Char} {ws ws' : List String} (hws : ∀ w ∈ ws, sign ∉ w.toList)
    (hws' : ∀ w ∈ ws', sign ∉ w.toList) (hne : ws ≠ []) (hne' : ws' ≠ [])
    (h : (String.singleton sign).intercalate ws = (String.singleton sign).intercalate ws') :
    ws = ws' := by
  have hsplit : ∀ {ws : List String}, (∀ w ∈ ws, sign ∉ w.toList) → ws ≠ [] →
      List.splitOn sign ((String.singleton sign).intercalate ws).toList =
        ws.map String.toList := by
    intro ws hws hne
    rw [String.toList_intercalate, String.toList_singleton, List.splitOn_intercalate]
    · simpa using hws
    · simpa using hne
  have hlists : ws.map String.toList = ws'.map String.toList := by
    rw [← hsplit hws hne, h, hsplit hws' hne']
  exact List.map_injective_iff.mpr (fun _ _ => String.toList_injective) hlists

theorem unlines_eq_intercalate (ls : List String) :
    unlines ls = (String.singleton '\n').intercalate (ls ++ [""]) := by
  have hnewline : "\n" = String.singleton '\n' := by decide
  induction ls with
  | nil => rfl
  | cons l ls ih =>
    have hne : ls ++ [""] ≠ [] := List.append_ne_nil_of_right_ne_nil ls (List.cons_ne_nil _ _)
    rw [unlines_cons, ih, List.cons_append, String.intercalate_cons_of_ne_nil hne, hnewline]

/-- **Lines** can be told from their text. -/
theorem unlines_inj {ls ls' : List String} (hls : ∀ l ∈ ls, IsLine l) (hls' : ∀ l ∈ ls', IsLine l)
    (h : unlines ls = unlines ls') : ls = ls' := by
  have hlines : ∀ {ls : List String}, (∀ l ∈ ls, IsLine l) →
      ∀ l ∈ ls ++ [""], '\n' ∉ l.toList := by
    intro ls hls l hl
    rcases List.mem_append.mp hl with hl | hl
    · exact hls l hl
    · rw [List.mem_singleton.mp hl]
      decide
  have hne : ∀ ls : List String, ls ++ [""] ≠ [] := fun ls =>
    List.append_ne_nil_of_right_ne_nil ls (List.cons_ne_nil _ _)
  rw [unlines_eq_intercalate, unlines_eq_intercalate] at h
  exact List.append_cancel_right (intercalate_inj (hlines hls) (hlines hls') (hne ls) (hne ls') h)

/-! ### Values -/

/-- The name of a local of a program. -/
def localName (i : Nat) : String :=
  (slots[i]?.map Prod.fst).getD ("t" ++ Nat.repr i)

theorem localName_of_le {i : Nat} (h : 5 ≤ i) : localName i = "t" ++ Nat.repr i := by
  have hnone : slots[i]? = none := List.getElem?_eq_none h
  rw [localName, hnone]
  rfl

theorem isPlain_localName (i : Nat) : isPlain (localName i) = true := by
  by_cases hi : i < 5
  · have hslots : ∀ i < 5, isPlain (localName i) = true := by decide
    exact hslots i hi
  · rw [localName_of_le (Nat.le_of_not_lt hi), isPlain, String.toList_append]
    have hdigits : ∀ c ∈ (Nat.repr i).toList, isPlainChar c = true := by
      intro c hc
      simp [isPlainChar, Char.isAlphanum, isDigit_of_mem_repr hc]
    simpa [isPlainChar] using hdigits

/-- **Locals have different names.** -/
theorem localName_inj {i j : Nat} (h : localName i = localName j) : i = j := by
  have hslots : ∀ i < 5, ∀ j < 5, localName i = localName j → i = j := by decide
  -- no slot is called like the value of an instruction
  have hfirst : ∀ i < 5, ∀ j, 5 ≤ j → localName i ≠ localName j := by
    intro i hi j hj heq
    have hhead : ∀ i < 5, (localName i).toList.head? ≠ some 't' := by decide
    refine hhead i hi ?_
    rw [heq, localName_of_le hj, String.toList_append]
    rfl
  by_cases hi : i < 5 <;> by_cases hj : j < 5
  · exact hslots i hi j hj h
  · exact absurd h (hfirst i hi j (Nat.le_of_not_lt hj))
  · exact absurd h.symm (hfirst j hj i (Nat.le_of_not_lt hi))
  · rw [localName_of_le (Nat.le_of_not_lt hi), localName_of_le (Nat.le_of_not_lt hj)] at h
    exact Nat.repr_injective ((String.append_right_inj _).mp h)

/-- Some locals have the names of locals of programs. -/
def Named (locals : List Local) : Prop :=
  ∀ i l, locals[i]? = some l → l.name = localName i

theorem mem_decimal {n : Int} {c : Char} (h : c ∈ (decimal n).toList) :
    c.isDigit = true ∨ c = '-' := by
  cases n with
  | ofNat k => exact .inl (isDigit_of_mem_repr h)
  | negSucc k =>
    rw [decimal, String.toList_append] at h
    rcases List.mem_append.mp h with h | h
    · exact .inr (List.mem_singleton.mp h)
    · exact .inl (isDigit_of_mem_repr h)

theorem decimal_inj {m n : Int} (h : decimal m = decimal n) : m = n := by
  have hsign : ∀ k l, Nat.repr k ≠ "-" ++ Nat.repr l := by
    intro k l heq
    have hmem : '-' ∈ (Nat.repr k).toList := by
      rw [heq, String.toList_append]
      exact List.mem_cons_self
    exact absurd (isDigit_of_mem_repr hmem) (by decide)
  cases m with
  | ofNat k =>
    cases n with
    | ofNat l => rw [Nat.repr_injective h]
    | negSucc l => exact absurd h (hsign _ _)
  | negSucc k =>
    cases n with
    | ofNat l => exact absurd h.symm (hsign _ _)
    | negSucc l =>
      have hrepr := Nat.repr_injective ((String.append_right_inj _).mp h)
      rw [Nat.succ.inj hrepr]

/-- A byte can be told from the signed number it stands for. -/
theorem byte_inj {k k' : UInt8} (h : (BitVec.ofNat 8 k.toUInt64.toNat).toInt =
    (BitVec.ofNat 8 k'.toUInt64.toNat).toInt) : k = k' := by
  have hbits := congrArg BitVec.toNat (BitVec.toInt_inj.mp h)
  have hk : k.toNat < 256 := k.toNat_lt
  have hk' : k'.toNat < 256 := k'.toNat_lt
  simp only [BitVec.toNat_ofNat, UInt8.toNat_toUInt64] at hbits
  exact UInt8.toNat_inj.mp (by omega)

/-- An operand as programs have it: a byte or a local. -/
inductive Value.Plain : Value → Prop
  | byte (k : UInt8) : Plain (.const .i8 k.toUInt64)
  | ofLocal (i : Nat) : Plain (.ofLocal i)

/-- The type of the value does not contain a blank. -/
theorem Ty.blank_not_mem {ty : Ty} (h : ty.IsScalar) : ' ' ∉ ty.render.toList := by
  cases ty with
  | i1 | i8 | i32 | ptr => decide
  | void | bytes => exact h.elim

theorem Ty.render_inj {ty ty' : Ty} (h : ty.IsScalar) (h' : ty'.IsScalar)
    (heq : ty.render = ty'.render) : ty = ty' := by
  cases ty <;> cases ty' <;> first | rfl | exact h.elim | exact h'.elim | exact absurd heq (by decide)

section

variable {globals globals' : List Global} {f f' : Function} {v v' : Value} {ty ty' : Ty}

theorem Value.render_ofLocal (hnamed : Named f.locals) {i : Nat}
    (hty : (ofLocal i).tyIn? f.locals = some ty) :
    (ofLocal i).render globals f = "%" ++ localName i := by
  obtain ⟨l, hl, -⟩ := Option.map_eq_some_iff.mp hty
  rw [render, hl]
  show renderName "%" l.name = _
  rw [hnamed i l hl, renderName, if_pos (isPlain_localName i)]

/-- **A value** can be told from what is written of it. -/
theorem Value.render_inj (hnamed : Named f.locals) (hnamed' : Named f'.locals)
    (hv : v.Plain) (hv' : v'.Plain) (hty : v.tyIn? f.locals = some ty)
    (hty' : v'.tyIn? f'.locals = some ty')
    (h : v.render globals f = v'.render globals' f') : v = v' := by
  have hsign : ∀ n i, decimal n ≠ "%" ++ localName i := by
    intro n i heq
    have hmem : '%' ∈ (decimal n).toList := by
      rw [heq, String.toList_append]
      exact List.mem_cons_self
    rcases mem_decimal hmem with hdigit | hminus
    · exact absurd hdigit (by decide)
    · exact absurd hminus (by decide)
  cases hv with
  | byte k =>
    cases hv' with
    | byte k' => rw [byte_inj (decimal_inj h)]
    | ofLocal i' =>
      rw [render_ofLocal hnamed' hty'] at h
      exact absurd h (hsign _ i')
  | ofLocal i =>
    rw [render_ofLocal hnamed hty] at h
    cases hv' with
    | byte k' => exact absurd h.symm (hsign _ i)
    | ofLocal i' =>
      rw [render_ofLocal hnamed' hty'] at h
      rw [localName_inj ((String.append_right_inj _).mp h)]

theorem Value.blank_not_mem (hnamed : Named f.locals) (hv : v.Plain)
    (hty : v.tyIn? f.locals = some ty) : ' ' ∉ (v.render globals f).toList := by
  intro hmem
  cases hv with
  | byte k =>
    rcases mem_decimal hmem with hdigit | hminus
    · exact absurd hdigit (by decide)
    · exact absurd hminus (by decide)
  | ofLocal i =>
    rw [render_ofLocal hnamed hty, String.toList_append] at hmem
    rcases List.mem_append.mp hmem with hmem | hmem
    · exact absurd hmem (by decide)
    · exact absurd (isPlainChar_of_mem (isPlain_localName i) _ hmem) (by decide)

end

/-! ### Instructions -/

/-- How the block that a branch goes to is written. -/
def Function.targetText (f : Function) (target : Nat) : String :=
  match f.blocks[target]? with
  | some b => renderName "%" b.name
  | none => renderInvalid "%" target

/-- The words of an instruction. -/
def Inst.words (globals : List Global) (f : Function) : Inst → List String
  | alloca dest ty => [(Value.ofLocal dest).render globals f, "=", "alloca", ty.render]
  | load dest ty ptr =>
    [(Value.ofLocal dest).render globals f, "=", "load", ty.render ++ ",", (f.typeOf ptr).render,
      ptr.render globals f]
  | store value ptr =>
    ["store", (f.typeOf value).render, value.render globals f ++ ",", (f.typeOf ptr).render,
      ptr.render globals f]
  | binary dest op lhs rhs =>
    [(Value.ofLocal dest).render globals f, "=", op.render, (f.typeOf lhs).render,
      lhs.render globals f ++ ",", rhs.render globals f]
  | icmp dest pred lhs rhs =>
    [(Value.ofLocal dest).render globals f, "=", "icmp", pred.render, (f.typeOf lhs).render,
      lhs.render globals f ++ ",", rhs.render globals f]
  | br target => ["br", "label", f.targetText target]
  | unreachable => ["unreachable"]

/-- An instruction as programs have it. -/
structure Inst.Plain (i : Inst) : Prop where
  operands : ∀ v ∈ i.operands, v.Plain
  slot : ∀ ty ∈ i.slotTy?, ty.IsScalar

section

variable {globals globals' : List Global} {f f' : Function} {i i' : Inst}

/-- The line of an instruction is its words. -/
theorem Inst.render_eq (globals : List Global) (f : Function) (i : Inst) :
    i.render globals f = (String.singleton ' ').intercalate (i.words globals f) := by
  refine String.toList_injective ?_
  cases i with
  | br target =>
    have hbr : render globals f (br target) = "br label " ++ f.targetText target := rfl
    simp [hbr, words]
  | _ => simp [render, words, renderDest, Value.renderTyped]

theorem Inst.words_ne_nil (globals : List Global) (f : Function) (i : Inst) :
    i.words globals f ≠ [] := by
  cases i <;> exact List.cons_ne_nil _ _

/-- No word but the name of a block has a blank in it. -/
theorem Inst.blank_not_mem_words (hnamed : Named f.locals) (htyped : i.Typed f.locals)
    (hplain : i.Plain) (hbr : i.target? = none) :
    ∀ w ∈ i.words globals f, ' ' ∉ w.toList := by
  have hvalue : ∀ {v : Value} {ty : Ty}, v.Plain → v.tyIn? f.locals = some ty →
      ' ' ∉ (v.render globals f).toList := fun hv hty => Value.blank_not_mem hnamed hv hty
  have hptrTy : ' ' ∉ Ty.ptr.render.toList := Ty.blank_not_mem trivial
  have hoperands := hplain.operands
  cases htyped with
  | alloca hty hdest =>
    have hslot := Ty.blank_not_mem (hplain.slot _ rfl)
    simp [words, hvalue (.ofLocal _) hdest, hslot]
  | load hptr hty hdest =>
    simp only [operands, List.forall_mem_cons] at hoperands
    simp [words, hvalue (.ofLocal _) hdest, Ty.blank_not_mem hty, Function.typeOf_eq hptr, hptrTy,
      hvalue hoperands.1 hptr]
  | store hv hty hptr =>
    simp only [operands, List.forall_mem_cons] at hoperands
    simp [words, Ty.blank_not_mem hty, Function.typeOf_eq hv, Function.typeOf_eq hptr, hptrTy,
      hvalue hoperands.1 hv, hvalue hoperands.2.1 hptr]
  | @binary dest op lhs rhs ty hl hr hty hdest =>
    have hop : ' ' ∉ op.render.toList := by cases op <;> decide
    simp only [operands, List.forall_mem_cons] at hoperands
    simp [words, hvalue (.ofLocal _) hdest, hop, Function.typeOf_eq hl,
      Ty.blank_not_mem (Ty.isScalar_of_isInt hty), hvalue hoperands.1 hl, hvalue hoperands.2.1 hr]
  | @icmp dest pred lhs rhs ty hl hr hty hdest =>
    have hpred : ' ' ∉ pred.render.toList := by cases pred <;> decide
    simp only [operands, List.forall_mem_cons] at hoperands
    simp [words, hvalue (.ofLocal _) hdest, hpred, Function.typeOf_eq hl,
      Ty.blank_not_mem (Ty.isScalar_of_isInt hty), hvalue hoperands.1 hl, hvalue hoperands.2.1 hr]
  | br => cases hbr
  | unreachable => simp [words]

/-- Instructions other than branches can be told from their words. -/
theorem Inst.words_inj (hnamed : Named f.locals) (hnamed' : Named f'.locals)
    (htyped : i.Typed f.locals) (htyped' : i'.Typed f'.locals) (hplain : i.Plain)
    (hplain' : i'.Plain) (hbr : i.target? = none)
    (h : i.words globals f = i'.words globals' f') : i = i' := by
  have hvalue : ∀ {v v' : Value} {ty ty' : Ty}, v.Plain → v'.Plain → v.tyIn? f.locals = some ty →
      v'.tyIn? f'.locals = some ty' → v.render globals f = v'.render globals' f' → v = v' :=
    fun hv hv' hty hty' => Value.render_inj hnamed hnamed' hv hv' hty hty'
  have hdest : ∀ {d d' : Nat} {ty ty' : Ty}, (Value.ofLocal d).tyIn? f.locals = some ty →
      (Value.ofLocal d').tyIn? f'.locals = some ty' →
      (Value.ofLocal d).render globals f = (Value.ofLocal d').render globals' f' → d = d' :=
    fun hty hty' heq => Value.ofLocal.inj (hvalue (.ofLocal _) (.ofLocal _) hty hty' heq)
  have hoperator : ∀ op : BinOp, op.render ≠ "load" := by
    intro op
    cases op <;> decide
  have hoperands := hplain.operands
  have hoperands' := hplain'.operands
  cases htyped with
  | alloca hty hd =>
    cases htyped' with
    | alloca hty' hd' =>
      simp only [words, List.cons.injEq, and_true, true_and] at h
      have hslot := Ty.render_inj (hplain.slot _ rfl) (hplain'.slot _ rfl) h.2
      rw [hdest hd hd' h.1, hslot]
    | _ => simp [words] at h
  | load hptr hty hd =>
    cases htyped' with
    | load hptr' hty' hd' =>
      simp only [operands, List.forall_mem_cons] at hoperands hoperands'
      simp only [words, List.cons.injEq, and_true, true_and, String.append_left_inj] at h
      rw [hdest hd hd' h.1, Ty.render_inj hty hty' h.2.1,
        hvalue hoperands.1 hoperands'.1 hptr hptr' h.2.2.2]
    | @binary _ op => simp [words, (hoperator op).symm] at h
    | _ => simp [words] at h
  | store hv hty hptr =>
    cases htyped' with
    | store hv' hty' hptr' =>
      simp only [operands, List.forall_mem_cons] at hoperands hoperands'
      simp only [words, List.cons.injEq, and_true, true_and, String.append_left_inj] at h
      rw [hvalue hoperands.1 hoperands'.1 hv hv' h.2.1,
        hvalue hoperands.2.1 hoperands'.2.1 hptr hptr' h.2.2.2]
    | _ => simp [words] at h
  | @binary _ op _ _ _ hl hr hty hd =>
    cases htyped' with
    | @binary _ op' _ _ _ hl' hr' hty' hd' =>
      simp only [operands, List.forall_mem_cons] at hoperands hoperands'
      simp only [words, List.cons.injEq, and_true, true_and, String.append_left_inj] at h
      have hop : op = op' := by
        cases op <;> cases op' <;> first | rfl | exact absurd h.2.1 (by decide)
      rw [hdest hd hd' h.1, hop, hvalue hoperands.1 hoperands'.1 hl hl' h.2.2.2.1,
        hvalue hoperands.2.1 hoperands'.2.1 hr hr' h.2.2.2.2]
    | load => simp [words, hoperator op] at h
    | _ => simp [words] at h
  | @icmp _ pred _ _ _ hl hr hty hd =>
    cases htyped' with
    | @icmp _ pred' _ _ _ hl' hr' hty' hd' =>
      simp only [operands, List.forall_mem_cons] at hoperands hoperands'
      simp only [words, List.cons.injEq, and_true, true_and, String.append_left_inj] at h
      have hpred : pred = pred' := by
        cases pred <;> cases pred' <;> first | rfl | exact absurd h.2.1 (by decide)
      rw [hdest hd hd' h.1, hpred, hvalue hoperands.1 hoperands'.1 hl hl' h.2.2.2.1,
        hvalue hoperands.2.1 hoperands'.2.1 hr hr' h.2.2.2.2]
    | _ => simp [words] at h
  | br => cases hbr
  | unreachable =>
    cases htyped' with
    | unreachable => rfl
    | _ => simp [words] at h

/-- The first word of a line. -/
theorem takeWhile_intercalate {w : String} (hw : ' ' ∉ w.toList) (ws : List String) :
    ((String.singleton ' ').intercalate (w :: ws)).toList.takeWhile (· != ' ') = w.toList := by
  have hblank : ∀ c ∈ w.toList, (c != ' ') = true := by
    intro c hc
    rw [bne_iff_ne]
    rintro rfl
    exact hw hc
  by_cases hws : ws = []
  · rw [hws, String.intercalate_singleton, List.takeWhile_eq_self_iff]
    exact hblank
  · rw [String.intercalate_cons_of_ne_nil hws, String.append_assoc, String.toList_append,
      List.takeWhile_append_of_pos hblank, String.toList_append, String.toList_singleton]
    simp

/-- The first word tells whether an instruction is a branch. -/
theorem Inst.exists_first_word (globals : List Global) (hnamed : Named f.locals)
    (htyped : i.Typed f.locals) :
    ∃ w ws, i.words globals f = w :: ws ∧ ' ' ∉ w.toList ∧ (w = "br" ↔ i.target?.isSome) := by
  have hdest : ∀ {d : Nat} {ty : Ty}, (Value.ofLocal d).tyIn? f.locals = some ty →
      ' ' ∉ ((Value.ofLocal d).render globals f).toList ∧
        (Value.ofLocal d).render globals f ≠ "br" := by
    intro d ty hty
    refine ⟨Value.blank_not_mem hnamed (.ofLocal d) hty, fun heq => ?_⟩
    rw [Value.render_ofLocal hnamed hty] at heq
    exact absurd (congrArg String.toList heq) (by simp)
  cases htyped with
  | alloca hty hd => exact ⟨_, _, rfl, (hdest hd).1, by simp [(hdest hd).2, target?]⟩
  | load hptr hty hd => exact ⟨_, _, rfl, (hdest hd).1, by simp [(hdest hd).2, target?]⟩
  | binary hl hr hty hd => exact ⟨_, _, rfl, (hdest hd).1, by simp [(hdest hd).2, target?]⟩
  | icmp hl hr hty hd => exact ⟨_, _, rfl, (hdest hd).1, by simp [(hdest hd).2, target?]⟩
  | store => exact ⟨_, _, rfl, by decide, by simp [target?]⟩
  | br => exact ⟨_, _, rfl, by decide, by simp [target?]⟩
  | unreachable => exact ⟨_, _, rfl, by decide, by simp [target?]⟩

theorem Inst.eq_br_of_target? {t : Nat} (h : i.target? = some t) : i = br t := by
  cases i with
  | br target => rw [Option.some.inj h]
  | _ => cases h

theorem Function.targetText_eq {t : Nat} {name : String} (h : f.blockNames[t]? = some name) :
    f.targetText t = renderName "%" name := by
  rw [blockNames, List.getElem?_map, Option.map_eq_some_iff] at h
  obtain ⟨b, hb, rfl⟩ := h
  rw [targetText, hb]

/-- **An instruction** can be told from its line, given the names of the blocks. -/
theorem Inst.render_inj (hnamed : Named f.locals) (hnamed' : Named f'.locals)
    (hblocks : f.blockNames = f'.blockNames) (hnodup : f.blockNames.Nodup)
    (htyped : i.Typed f.locals) (htyped' : i'.Typed f'.locals) (hplain : i.Plain)
    (hplain' : i'.Plain) (htarget : ∀ t ∈ i.target?, t < f.blocks.length)
    (htarget' : ∀ t ∈ i'.target?, t < f'.blocks.length)
    (h : i.render globals f = i'.render globals' f') : i = i' := by
  have hlines := h
  rw [render_eq, render_eq] at hlines
  -- both are branches, or neither is
  have hbranch : i.target?.isSome ↔ i'.target?.isSome := by
    obtain ⟨w, ws, hwords, hw, hbr⟩ := exists_first_word globals hnamed htyped
    obtain ⟨w', ws', hwords', hw', hbr'⟩ := exists_first_word globals' hnamed' htyped'
    rw [hwords, hwords'] at hlines
    have hfirst : w = w' := by
      refine String.toList_injective ?_
      rw [← takeWhile_intercalate hw ws, hlines, takeWhile_intercalate hw' ws']
    rw [← hbr, hfirst, hbr']
  by_cases hi : i.target?.isSome
  · obtain ⟨t, ht⟩ := Option.isSome_iff_exists.mp hi
    obtain ⟨t', ht'⟩ := Option.isSome_iff_exists.mp (hbranch.mp hi)
    obtain rfl := eq_br_of_target? ht
    obtain rfl := eq_br_of_target? ht'
    have hlt : t < f.blockNames.length := by simpa [Function.blockNames] using htarget t rfl
    have hlt' : t' < f'.blockNames.length := by simpa [Function.blockNames] using htarget' t' rfl
    have hname := List.getElem?_eq_getElem hlt
    have hname' := List.getElem?_eq_getElem hlt'
    have htext : f.targetText t = f'.targetText t' := (String.append_right_inj _).mp h
    rw [Function.targetText_eq hname, Function.targetText_eq hname'] at htext
    have hsame : f.blockNames[t]? = f.blockNames[t']? := by
      rw [hname, renderName_inj htext, ← hname', hblocks]
    rw [(List.getElem?_inj hlt hnodup).mp hsame]
  · rw [Option.not_isSome_iff_eq_none] at hi
    have hi' : i'.target? = none := by
      rw [← Option.not_isSome_iff_eq_none, ← hbranch, hi]
      decide
    have hwords := intercalate_inj (blank_not_mem_words hnamed htyped hplain hi)
      (blank_not_mem_words hnamed' htyped' hplain' hi') (words_ne_nil globals f i)
      (words_ne_nil globals' f' i') hlines
    exact words_inj hnamed hnamed' htyped htyped' hplain hplain' hi hwords

end

/-! ### Blocks -/

/-- The local that an instruction of a program defines, slots aside. -/
def Inst.temp? : Inst → Option Local
  | load dest ty _ => some (temp dest ty)
  | binary dest _ _ _ => some (temp dest .i8)
  | icmp dest _ _ _ => some (temp dest .i1)
  | alloca _ _ | store _ _ | br _ | unreachable => none

/-- The locals of the function can be told from its code, and its code from its text. -/
structure Function.Legible (f : Function) : Prop where
  locals : f.locals = entryDraft.locals ++ (f.blocks.flatMap Block.insts).filterMap Inst.temp?
  named : Named f.locals
  plain : ∀ b ∈ f.blocks, ∀ i ∈ b.insts, i.Plain

/-- What is known of equal images, element by element. -/
theorem map_eq_map_of_map_eq_map {α β γ : Type} {g g' : α → β} {k k' : α → γ} {l l' : List α}
    (h : l.map g = l'.map g') (hk : ∀ a ∈ l, ∀ a' ∈ l', g a = g' a' → k a = k' a') :
    l.map k = l'.map k' := by
  induction l generalizing l' with
  | nil =>
    rw [List.map_nil, eq_comm, List.map_eq_nil_iff] at h
    rw [h]
    rfl
  | cons a l ih =>
    obtain _ | ⟨a', l'⟩ := l'
    · cases h
    · rw [List.map_cons, List.map_cons, List.cons.injEq] at h
      rw [List.map_cons, List.map_cons, hk a List.mem_cons_self a' List.mem_cons_self h.1,
        ih h.2 fun b hb b' hb' => hk b (List.mem_cons_of_mem a hb) b' (List.mem_cons_of_mem a' hb')]

/-- Groups can be told from their concatenation, if their first members can be told from the
others. -/
theorem flatMap_groups_inj {α : Type} {p : α → Bool} {gs gs' : List (α × List α)}
    (hgs : ∀ g ∈ gs, p g.1 = false ∧ ∀ a ∈ g.2, p a = true)
    (hgs' : ∀ g ∈ gs', p g.1 = false ∧ ∀ a ∈ g.2, p a = true)
    (h : (gs.flatMap fun g => g.1 :: g.2) = gs'.flatMap fun g => g.1 :: g.2) : gs = gs' := by
  have hstops : ∀ {gs : List (α × List α)}, (∀ g ∈ gs, p g.1 = false ∧ ∀ a ∈ g.2, p a = true) →
      ∀ a ∈ (gs.flatMap fun g => g.1 :: g.2).head?, p a = false := by
    intro gs hgs a ha
    cases gs with
    | nil => cases ha
    | cons g gs =>
      cases ha
      exact (hgs g List.mem_cons_self).1
  induction gs generalizing gs' with
  | nil =>
    cases gs' with
    | nil => rfl
    | cons g' gs' => cases h
  | cons g gs ih =>
    cases gs' with
    | nil => cases h
    | cons g' gs' =>
      rw [List.flatMap_cons, List.flatMap_cons, List.cons_append, List.cons_append,
        List.cons.injEq] at h
      have hrest := fun g hg => hgs g (List.mem_cons_of_mem _ hg)
      have hrest' := fun g hg => hgs' g (List.mem_cons_of_mem _ hg)
      obtain ⟨hmembers, hgroups⟩ := append_inj_of_run (hgs g List.mem_cons_self).2
        (hgs' g' List.mem_cons_self).2 (hstops hrest) (hstops hrest') h.2
      rw [ih hrest hrest' hgroups, Prod.ext h.1 hmembers]

/-- Lines of instructions are indented. -/
def isIndented (l : String) : Bool :=
  l.toList.head? == some ' '

theorem Block.isIndented_title (b : Block) : isIndented b.title = false := by
  rw [isIndented, toList_title, beq_eq_false_iff_ne]
  exact head?_nameChars_ne (by decide) (by decide) b.name _

theorem isIndented_append (l : String) : isIndented ("  " ++ l) = true := by
  rw [isIndented, String.toList_append]
  rfl

section

variable {globals globals' : List Global} {f f' : Function} {entry entry' : Block}
  {inner inner' : List Block}

/-- **The blocks** of a function can be told from their lines. -/
theorem Function.blocks_inj (hform : f.SlotForm entry inner) (hform' : f'.SlotForm entry' inner')
    (hf : f.Legible) (hf' : f'.Legible)
    (h : f.blocks.flatMap (Block.lines globals f) = f'.blocks.flatMap (Block.lines globals' f')) :
    f.blocks = f'.blocks := by
  have hgroups : ∀ (globals : List Global) (f : Function),
      ∀ g ∈ f.blocks.map fun b => (b.title, b.insts.map fun i => "  " ++ i.render globals f),
        isIndented g.1 = false ∧ ∀ l ∈ g.2, isIndented l = true := by
    intro globals f g hg
    obtain ⟨b, -, rfl⟩ := List.mem_map.mp hg
    refine ⟨b.isIndented_title, fun l hl => ?_⟩
    obtain ⟨i, -, rfl⟩ := List.mem_map.mp hl
    exact isIndented_append _
  have hpairs : (f.blocks.map fun b => (b.title, b.insts.map fun i => "  " ++ i.render globals f)) =
      f'.blocks.map fun b => (b.title, b.insts.map fun i => "  " ++ i.render globals' f') := by
    refine flatMap_groups_inj (hgroups globals f) (hgroups globals' f') ?_
    rw [List.flatMap_map, List.flatMap_map]
    exact h
  have hnames : f.blockNames = f'.blockNames := map_eq_map_of_map_eq_map hpairs
    fun b _ b' _ heq => (Block.title_inj (Prod.ext_iff.mp heq).1).1
  have hsame : f.blocks.map id = f'.blocks.map id := by
    refine map_eq_map_of_map_eq_map hpairs fun b hb b' hb' heq => ?_
    obtain ⟨htitle, hlines⟩ := Prod.ext_iff.mp heq
    obtain ⟨hname, hpinned⟩ := Block.title_inj htitle
    have hinsts : b.insts.map id = b'.insts.map id := by
      refine map_eq_map_of_map_eq_map hlines fun i hi i' hi' hline => ?_
      refine Inst.render_inj hf.named hf'.named hnames hform.names (hform.typed b hb i hi)
        (hform'.typed b' hb' i' hi') (hf.plain b hb i hi) (hf'.plain b' hb' i' hi') ?_ ?_
        ((String.append_right_inj _).mp hline)
      · exact fun t ht => (hform.targets b hb t (List.mem_filterMap.mpr ⟨i, hi, ht⟩)).2
      · exact fun t ht => (hform'.targets b' hb' t (List.mem_filterMap.mpr ⟨i', hi', ht⟩)).2
    rw [List.map_id, List.map_id] at hinsts
    obtain ⟨name, insts, pinned⟩ := b
    obtain ⟨name', insts', pinned'⟩ := b'
    simp only at hname hinsts hpinned
    rw [hname, hinsts, hpinned]
  rwa [List.map_id, List.map_id] at hsame

end

/-! ### Modules -/

/-- Lines of globals start with the sign of a symbol. -/
def isGlobalLine (l : String) : Bool :=
  l.toList.head? == some '@'

section

variable {m m' : Module} {f f' : Function}

theorem renderHead_main (h : m.IsProgram f) : f.renderHead = "define i32 @main()" := by
  have hdefined := h.isDeclaration_eq_false
  have hdecl := h.decl
  obtain ⟨name, ret, params, linkage, attrs, blocks, locals⟩ := f
  simp only [mainDecl, Function.mk.injEq] at hdecl
  obtain ⟨rfl, rfl, rfl, rfl, rfl, -, -⟩ := hdecl
  simp only [Function.renderHead, hdefined, Bool.false_eq_true, if_false]
  decide

/-- The lines of a program after those of its globals and before those of its blocks. -/
def headLines : List String :=
  ["", putcharDecl.renderHead, "", exitDecl.renderHead, "", "define i32 @main()" ++ " \x7b"]

theorem lines_program (h : m.IsProgram f) :
    m.lines = (if m.globals.isEmpty then [] else [""]) ++ m.globals.map Global.line ++
      (headLines ++ (f.blocks.flatMap (Block.lines m.globals f) ++ ["\x7d"])) := by
  have hputchar : putcharDecl.lines m.globals = ["", putcharDecl.renderHead] := rfl
  have hexit : exitDecl.lines m.globals = ["", exitDecl.renderHead] := rfl
  have hmain : f.lines m.globals = ["", "define i32 @main()" ++ " \x7b"] ++
      f.blocks.flatMap (Block.lines m.globals f) ++ ["\x7d"] := by
    rw [Function.lines, h.isDeclaration_eq_false, if_neg Bool.false_ne_true, renderHead_main h]
  rw [Module.lines, h.functions, List.flatMap_cons, List.flatMap_cons, List.flatMap_singleton,
    hputchar, hexit, hmain, headLines]
  simp only [List.append_assoc, List.cons_append, List.nil_append]

/-- The globals are found behind the first line. -/
theorem takeWhile_isGlobalLine (h : m.IsProgram f) :
    m.lines.tail.takeWhile isGlobalLine = m.globals.map Global.line := by
  have hempty : isGlobalLine "" = false := by decide
  have hputchar : isGlobalLine putcharDecl.renderHead = false := by decide
  rw [lines_program h, headLines]
  by_cases hglobals : m.globals = []
  · rw [hglobals]
    simp [hputchar]
  · have hlines : ∀ l ∈ m.globals.map Global.line, isGlobalLine l = true := by
      intro l hl
      obtain ⟨g, -, rfl⟩ := List.mem_map.mp hl
      rw [isGlobalLine, g.toList_line]
      rfl
    have hsome : m.globals.isEmpty = false := by simpa using hglobals
    rw [hsome, if_neg Bool.false_ne_true, List.singleton_append, List.cons_append, List.tail_cons,
      List.takeWhile_append_of_pos hlines]
    simp [hempty]

/-- **A module** of a program can be told from its text and its name. -/
theorem Module.render_inj (h : m.IsProgram f) (h' : m'.IsProgram f') (hf : f.Legible)
    (hf' : f'.Legible) (hname : m.name = m'.name) (htext : m.render = m'.render) : m = m' := by
  have hlines : m.lines = m'.lines := by
    rw [render_eq, render_eq, hname] at htext
    exact unlines_inj m.isLine_of_mem_lines m'.isLine_of_mem_lines
      ((String.append_right_inj _).mp htext)
  have hglobals : m.globals = m'.globals := by
    refine List.map_injective_iff.mpr Global.line_injective ?_
    rw [← takeWhile_isGlobalLine h, hlines, takeWhile_isGlobalLine h']
  have hblocks : f.blocks = f'.blocks := by
    obtain ⟨reset, inner, hform⟩ := h.form
    obtain ⟨reset', inner', hform'⟩ := h'.form
    have hcode : f.blocks.flatMap (Block.lines m.globals f) =
        f'.blocks.flatMap (Block.lines m'.globals f') := by
      rw [lines_program h, lines_program h', hglobals] at hlines
      have hrest := List.append_cancel_left (List.append_cancel_left hlines)
      rw [hglobals]
      exact List.append_cancel_right hrest
    exact Function.blocks_inj hform hform' hf hf' hcode
  have hfunction : f = f' := by
    have hlocals : f.locals = f'.locals := by rw [hf.locals, hf'.locals, hblocks]
    have hdecl := h.decl.trans h'.decl.symm
    obtain ⟨name, ret, params, linkage, attrs, blocks, locals⟩ := f
    obtain ⟨name', ret', params', linkage', attrs', blocks', locals'⟩ := f'
    simp only [Function.mk.injEq, and_true] at hdecl hblocks hlocals ⊢
    exact ⟨hdecl.1, hdecl.2.1, hdecl.2.2.1, hdecl.2.2.2.1, hdecl.2.2.2.2, hblocks, hlocals⟩
  have hfunctions : m.functions = m'.functions := by rw [h.functions, h'.functions, hfunction]
  obtain ⟨name, globals, functions⟩ := m
  obtain ⟨name', globals', functions'⟩ := m'
  simp only at hname hglobals hfunctions
  rw [hname, hglobals, hfunctions]

end

end Mos6502.IR
