import Mos6502.Proofs.LegibleCode

/-!
# The text of a program loses nothing

Two programs that are compiled without optimisation under the same name and whose modules have the
same text have the same module. Nothing that the text leaves out can differ: lowering names each
local by its number, defines the locals in the order in which they are numbered, and uses no
constants but bytes.

`Draft.Grows` is what one instruction does to a block, as far as the text is concerned. It is
transitive, so it also holds of segments; then the locals of a whole function are followed from
segment to segment.

With optimisation this fails, since pruning removes blocks and keeps the locals that these define.

## Main results

* `CodeLine.grows_lowerAll` — what lowering appends to a block
* `legible_mainFunction` — `main` is legible
* `compile_eq_of_render_eq` — the text determines the module
-/

namespace Mos6502

open IR

/-! ### Lowering -/

/-- The draft `d'` is `d` with code behind it. Each local that is new is defined by that code, and
all locals keep the names of locals of programs. -/
structure IR.Draft.Grows (d d' : Draft) (code : List Inst) : Prop where
  insts : d'.insts = d.insts ++ code
  locals : d'.locals = d.locals ++ code.filterMap Inst.temp?
  named : 5 ≤ d.locals.length → Named d.locals → Named d'.locals
  plain : ∀ i ∈ code, i.Plain

namespace IR.Draft.Grows

theorem refl (d : Draft) : d.Grows d [] :=
  ⟨by simp, by simp, fun _ h => h, by simp⟩

theorem trans {d d' d'' : Draft} {code code' : List Inst} (h : d.Grows d' code)
    (h' : d'.Grows d'' code') : d.Grows d'' (code ++ code') where
  insts := by rw [h'.insts, h.insts, List.append_assoc]
  locals := by rw [h'.locals, h.locals, List.filterMap_append, List.append_assoc]
  named hlength hnamed := by
    refine h'.named ?_ (h.named hlength hnamed)
    rw [h.locals, List.length_append]
    omega
  plain i hi := (List.mem_append.mp hi).elim (h.plain i) (h'.plain i)

end IR.Draft.Grows

/-- Locals that are named by their numbers can follow the slots. -/
theorem IR.Named.append {locals new : List Local} (h : Named locals) (hlength : 5 ≤ locals.length)
    (hnew : ∀ j l, new[j]? = some l → l.name = "t" ++ Nat.repr (locals.length + j)) :
    Named (locals ++ new) := by
  intro i l hl
  by_cases hi : i < locals.length
  · rw [List.getElem?_append_left hi] at hl
    exact h i l hl
  · rw [List.getElem?_append_right (Nat.le_of_not_lt hi)] at hl
    rw [hnew _ l hl, localName_of_le (by omega)]
    congr 2
    omega

namespace Rule

theorem filterMap_temp?_code (rule : Rule) (n : Nat) (k : UInt8) :
    (rule.code n k).filterMap Inst.temp? = rule.temps n := by
  cases rule <;> rfl

/-- The locals of a rule are named by their numbers. -/
theorem name_temps (rule : Rule) (n : Nat) :
    ∀ j l, (rule.temps n)[j]? = some l → l.name = "t" ++ Nat.repr (n + j) := by
  intro j l hl
  cases rule with
  | loadImmediate =>
    obtain _ | _ | j := j <;> cases hl <;> rfl
  | transfer =>
    obtain _ | _ | _ | j := j <;> cases hl <;> rfl
  | step =>
    obtain _ | _ | _ | _ | j := j <;> cases hl <;> rfl
  | nop => cases hl

theorem plain_settle (n : Nat) {v : IR.Value} (hv : v.Plain) (r : Reg) :
    ∀ i ∈ settle n v r, i.Plain := by
  have hzero : (IR.Value.const .i8 0).Plain := .byte 0
  have hslot : r.slot.Plain := by
    rw [r.slot_eq]
    exact .ofLocal _
  intro i hi
  simp only [settle, List.mem_cons, List.not_mem_nil, or_false] at hi
  rcases hi with rfl | rfl | rfl | rfl | rfl
  · exact ⟨by simp [Inst.operands, hv, hslot], by simp [Inst.slotTy?]⟩
  · exact ⟨by simp [Inst.operands, hv, hzero], by simp [Inst.slotTy?]⟩
  · exact ⟨by simp [Inst.operands, Value.Plain.ofLocal, negativeSlot], by simp [Inst.slotTy?]⟩
  · exact ⟨by simp [Inst.operands, hv, hzero], by simp [Inst.slotTy?]⟩
  · exact ⟨by simp [Inst.operands, Value.Plain.ofLocal, zeroSlot], by simp [Inst.slotTy?]⟩

theorem plain_code (rule : Rule) (n : Nat) (k : UInt8) : ∀ i ∈ rule.code n k, i.Plain := by
  have hload : ∀ (d : Nat) (r : Reg), (Inst.load d .i8 r.slot).Plain := by
    intro d r
    rw [r.slot_eq]
    exact ⟨by simp [Inst.operands, Value.Plain.ofLocal], by simp [Inst.slotTy?]⟩
  cases rule with
  | loadImmediate r => exact plain_settle n (.byte k) r
  | transfer source target =>
    exact List.forall_mem_cons.mpr ⟨hload n source, plain_settle _ (.ofLocal n) target⟩
  | step r op =>
    have hone : (IR.Value.const .i8 1).Plain := .byte 1
    refine List.forall_mem_cons.mpr ⟨hload n r, List.forall_mem_cons.mpr ⟨?_, ?_⟩⟩
    · exact ⟨by simp [Inst.operands, Value.Plain.ofLocal, hone], by simp [Inst.slotTy?]⟩
    · exact plain_settle _ (.ofLocal _) r
  | nop => simp [code]

/-- **An instruction** adds code, and the locals which that defines. -/
theorem grows (rule : Rule) (k : UInt8) (d : Draft) :
    d.Grows ⟨d.locals ++ rule.temps d.locals.length, d.insts ++ rule.code d.locals.length k⟩
      (rule.code d.locals.length k) where
  insts := rfl
  locals := by rw [filterMap_temp?_code]
  named hlength hnamed := hnamed.append hlength (rule.name_temps _)
  plain := rule.plain_code _ k

end Rule

/-- **What lowering appends to a block.** -/
theorem CodeLine.grows_lowerAll (vars : Bindings String UInt32) (cs : List CodeLine) (d : Draft) :
    ∃ code, d.Grows (lowerAll vars d cs).1 code := by
  induction cs generalizing d with
  | nil => exact ⟨[], .refl d⟩
  | cons c cs ih =>
    rw [lowerAll_cons]
    obtain ⟨rule, k, -, -, hlower⟩ | ⟨error, hlower⟩ := c.lower_cases vars d
    · rw [hlower]
      obtain ⟨code, hcode⟩ := ih _
      exact ⟨_, (rule.grows k d).trans hcode⟩
    · rw [hlower]
      exact ih d

theorem Segment.grows_draft (vars : Bindings String UInt32) (locals : List Local)
    (isHandler : Bool) (s : Segment) :
    ∃ code, Draft.Grows ⟨locals, []⟩ (s.draft vars locals isHandler).1 code := by
  cases isHandler with
  | true => exact ⟨[], .refl _⟩
  | false => exact CodeLine.grows_lowerAll vars s.body ⟨locals, []⟩

/-- A block ends without defining anything. -/
theorem fallThrough_spec (isHandler isLast : Bool) (next : Nat) :
    (fallThrough isHandler isLast next).temp? = none ∧ (fallThrough isHandler isLast next).Plain := by
  rw [fallThrough]
  split
  · exact ⟨rfl, by simp [Inst.operands], by simp [Inst.slotTy?]⟩
  · exact ⟨rfl, by simp [Inst.operands], by simp [Inst.slotTy?]⟩

/-- **Segments** add code, and the locals which that defines. -/
theorem CodeSection.ofSegments_legible (vars : Bindings String UInt32) (entries : EntryPoints)
    (labels names : List String) (index : Nat) (segments : List Segment) {locals : List Local}
    (hlength : 5 ≤ locals.length) (hnamed : Named locals) :
    (ofSegments vars entries labels names locals index segments).locals = locals ++
        ((ofSegments vars entries labels names locals index segments).blocks.flatMap
          Block.insts).filterMap Inst.temp? ∧
      Named (ofSegments vars entries labels names locals index segments).locals ∧
      ∀ b ∈ (ofSegments vars entries labels names locals index segments).blocks,
        ∀ i ∈ b.insts, i.Plain := by
  induction segments generalizing labels names locals index with
  | nil => exact ⟨by simp [ofSegments], hnamed, by simp [ofSegments]⟩
  | cons s rest ih =>
    rw [ofSegments_cons]
    obtain ⟨code, hcode⟩ := s.grows_draft vars locals (isHandlerAfter entries labels s)
    obtain ⟨hterminator, hplain⟩ :=
      fallThrough_spec (isHandlerAfter entries labels s) rest.isEmpty (index + 1)
    have hlength' : 5 ≤ (s.draft vars locals (isHandlerAfter entries labels s)).1.locals.length := by
      rw [hcode.locals, List.length_append]
      exact Nat.le_add_right_of_le hlength
    obtain ⟨hlocals, hnames, hrest⟩ := ih (s.label :: labels)
      (Text.freshName s.label names :: names) (index + 1) hlength' (hcode.named hlength hnamed)
    refine ⟨?_, hnames, List.forall_mem_cons.mpr ⟨fun i hi => ?_, hrest⟩⟩
    · rw [hlocals, List.flatMap_cons, hcode.insts]
      simp [hterminator, hcode.locals]
    · rw [hcode.insts] at hi
      rcases List.mem_append.mp hi with hi | hi
      · exact hcode.plain i (by simpa using hi)
      · rw [List.mem_singleton.mp hi]
        exact hplain

/-! ### Programs -/

theorem named_entryDraft : Named entryDraft.locals := by
  have hslots : ∀ i < 5, entryDraft.locals[i]?.map Local.name = some (localName i) := by decide
  intro i l hl
  have hi : i < 5 := (List.getElem?_eq_some_iff.mp hl).1
  have hname := hslots i hi
  rw [hl] at hname
  exact Option.some.inj hname

/-- The first block only makes the slots. -/
theorem entryBlockTo_spec (reset : Nat) :
    (entryBlockTo reset).insts.filterMap Inst.temp? = [] ∧
      ∀ i ∈ (entryBlockTo reset).insts, i.Plain := by
  have halloca : ∀ (d : Nat) {ty : Ty}, ty.IsScalar → (Inst.alloca d ty).Plain := by
    intro d ty hty
    refine ⟨by simp [Inst.operands], ?_⟩
    rintro _ ⟨⟩
    exact hty
  rw [entryBlockTo, insts_entryDraft]
  refine ⟨rfl, fun i hi => ?_⟩
  simp only [List.cons_append, List.nil_append, List.mem_cons, List.not_mem_nil, or_false] at hi
  rcases hi with rfl | rfl | rfl | rfl | rfl | rfl
  · exact halloca 0 trivial
  · exact halloca 1 trivial
  · exact halloca 2 trivial
  · exact halloca 3 trivial
  · exact halloca 4 trivial
  · exact ⟨by simp [Inst.operands], by simp [Inst.slotTy?]⟩

/-- **The function that a program becomes is legible.** -/
theorem legible_mainFunction (reset : Nat) (entries : EntryPoints) (stmts : List Stmt) :
    (mainFunction reset (codeOf entries stmts)).Legible := by
  obtain ⟨hlocals, hnamed, hplain⟩ :=
    CodeSection.ofSegments_legible (Layout.ofStmts stmts).vars entries [] [entryName] 1
      (segmentsOf stmts) (by decide) named_entryDraft
  obtain ⟨htemps, hentry⟩ := entryBlockTo_spec reset
  refine ⟨?_, hnamed, ?_⟩
  · rw [blocks_mainFunction, List.flatMap_cons, List.filterMap_append, htemps, List.nil_append]
    exact hlocals
  · rw [blocks_mainFunction]
    exact List.forall_mem_cons.mpr ⟨hentry, hplain⟩

/-- **The text loses nothing.** Two programs that are compiled under the same name and without
optimisation become the same module if their modules have the same text. -/
theorem compile_eq_of_render_eq {name : String} {stmts stmts' : List Stmt} {m m' : IR.Module}
    (hm : (compile { moduleName := name, optLevel := .none } stmts).module = .ok m)
    (hm' : (compile { moduleName := name, optLevel := .none } stmts').module = .ok m')
    (htext : m.render = m'.render) : m = m' := by
  have hname : m.name = m'.name := (name_compile hm).trans (name_compile hm').symm
  obtain ⟨entries, reset, hresolves, rfl⟩ := exists_resolves hm
  obtain ⟨entries', reset', hresolves', rfl⟩ := exists_resolves hm'
  exact IR.Module.render_inj (hresolves.isProgram name) (hresolves'.isProgram name)
    (legible_mainFunction reset entries stmts) (legible_mainFunction reset' entries' stmts')
    hname htext

/-- A program with data under a name that needs quotes, with an entry point that does too, and with
a mnemonic to choose. -/
def countingProgram (mnemonic : String) : List Stmt :=
  ([.label "d\"", .data .byte [⟨.int 7, ⟨0, 0⟩⟩], .label "é", Operand.implied.instr mnemonic,
    .label "n"] ++ vectors "n" "é" "n").map Node.stmt

/-- Two programs that differ in the case of a mnemonic. -/
theorem compile_eq_of_render_eq_countingProgram :
    ∃ m m', (compile {} (countingProgram "INX")).module = .ok m ∧
      (compile {} (countingProgram "inx")).module = .ok m' ∧
      countingProgram "INX" ≠ countingProgram "inx" ∧ m = m' := by
  have htext : (compile {} (countingProgram "INX")).module.toOption.map Module.render =
      (compile {} (countingProgram "inx")).module.toOption.map Module.render := by decide +kernel
  have hok : (compile {} (countingProgram "INX")).module.isOk = true := by decide
  have hok' : (compile {} (countingProgram "inx")).module.isOk = true := by decide
  cases hm : (compile {} (countingProgram "INX")).module with
  | error e => simp [hm, Except.isOk, Except.toBool] at hok
  | ok m =>
    cases hm' : (compile {} (countingProgram "inx")).module with
    | error e => simp [hm', Except.isOk, Except.toBool] at hok'
    | ok m' =>
      rw [hm, hm'] at htext
      exact ⟨m, m', rfl, rfl, by decide, compile_eq_of_render_eq hm hm' (Option.some.inj htext)⟩

end Mos6502
