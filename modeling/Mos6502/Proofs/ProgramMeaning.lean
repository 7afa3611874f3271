import Mos6502.Proofs.ControlFlow
import Mos6502.Proofs.LoweredMeaning

/-!
# Compilation preserves meaning

A program that compiles without errors becomes a function which does what the program does after a
reset. Its run starts in the first block, which hands out the slots, and goes through the blocks of
the segments from that of the reset label on, until it comes to a handler or to the end.

The argument goes by segments. `Frame.Holds` holds at the start of each block; the body of a block
simulates the instructions of its segment, and its terminator leads to the block of the next
segment. Since a clean program has no label twice, a segment is that of a handler exactly if its
label is at a vector of an interrupt, and the run stops where the code after a reset ends.

Pruning changes the numbers of the blocks and nothing else that a run could notice.

## Main results

* `haltsWith_from` — the run from the block of a segment on
* `compile_preserves_meaning`
-/

namespace Mos6502

open IR

/-- A program with code at all vectors and without any errors. -/
structure Clean (stmts : List Stmt) (entries : EntryPoints) (reset : Nat) : Prop where
  resolves : Resolves stmts entries reset
  layout : (Layout.ofStmts stmts).errors = []
  code : (codeOf entries stmts).errors = []

/-- No error of any kind is left in a clean program. -/
theorem exists_clean {options : Options} {stmts : List Stmt}
    (h : (compile options stmts).isClean = true) : ∃ entries reset, Clean stmts entries reset := by
  obtain ⟨herrors, hok⟩ := Bool.and_eq_true_iff.mp h
  rcases compile_cases stmts with ⟨entries, reset, hresolves⟩ | ⟨e, -, hmodule⟩
  · have hall : (compile options stmts).errors = (Layout.ofStmts stmts).errors ++
        (dataOf stmts).errors ++
        (CodeSection.idle entryDraft.locals
          (Segment.split (dataOf stmts).owns (placedOf stmts)).1).errors ++
        (codeOf entries stmts).errors := by
      rw [compile, hresolves.vectors]
      rfl
    simp only [List.isEmpty_iff, hall, List.append_eq_nil_iff] at herrors
    exact ⟨entries, reset, hresolves, herrors.1.1.1, herrors.2⟩
  · rw [hmodule] at hok
    cases hok

section

variable {stmts : List Stmt} {entries : EntryPoints} {reset : Nat}

/-- In a clean program every label is the first of its name. -/
theorem Clean.isHandlerAt_eq (h : Clean stmts entries reset) {i : Nat} {s : Segment}
    (hs : (segmentsOf stmts)[i]? = some s) :
    isHandlerAt entries stmts i s = entries.isHandler s.label := by
  have hnodup : (codeLabels stmts).Nodup :=
    (Layout.nodup_labels_of_errors_eq_nil h.layout).filter _
  have hname : (codeLabels stmts)[i]? = some s.label := by
    rw [← label_getElem?_segmentsOf, hs, Option.map_some]
  have hfirst : IsFirst (codeLabels stmts) i s.label := by
    intro j hj hjname
    obtain ⟨hlt, hi⟩ := List.getElem?_eq_some_iff.mp hname
    obtain ⟨hlt', hj'⟩ := List.getElem?_eq_some_iff.mp hjname
    have heq := (hnodup.getElem_inj_iff).mp (hj'.trans hi.symm)
    omega
  rw [Bool.eq_iff_iff, isHandlerAt_iff]
  simp [hfirst, EntryPoints.isHandler]

end

/-! ### The first block -/

/-- Making the slots leaves what they hold, and their addresses in their locals. -/
theorem exec_entryDraft (c : Cpu) :
    ∃ s, execAll entryDraft.insts { slots := c.slots } = some s ∧ s.Holds c := by
  rw [insts_entryDraft]
  refine ⟨_, rfl, rfl, ?_⟩
  intro k hk
  interval_cases k <;> rfl

/-- From the first block, control comes to the block of the reset label. -/
theorem haltsWith_entryBlockTo {f : Function} {reset : Nat}
    (hb : f.blocks[0]? = some (entryBlockTo reset)) (c : Cpu) :
    ∃ s, s.Holds c ∧ ∀ s', f.HaltsWith ⟨⟨reset, 0⟩, s⟩ s' →
      f.HaltsWith ⟨⟨0, 0⟩, { slots := c.slots }⟩ s' := by
  obtain ⟨s, hs, hholds⟩ := exec_entryDraft c
  have hinsts : (entryBlockTo reset).insts = entryDraft.insts ++ [.br reset] := rfl
  have hplain : ∀ i ∈ entryDraft.insts, i.isTerminator = false := by decide
  obtain ⟨hrun, hbr⟩ := Function.run_block hb hinsts hplain hs
  exact ⟨s, hholds, fun s' h => (h.of_br hbr).of_run hrun⟩

/-! ### The blocks of the code -/

/-- The body of a block simulates the instructions of its segment. -/
theorem run_body {f : Function} {i : Nat} {b : Block} (hb : f.blocks[i]? = some b)
    {code : CodeSection} {vars : Bindings String UInt32} {seg : Segment} {terminator : Inst}
    (h : code.HasBlock vars seg false terminator b) (herrors : code.errors = []) {s : Frame} {c : Cpu}
    (hs : s.Holds c) :
    ∃ n s' c', f.run n ⟨⟨i, 0⟩, s⟩ = some ⟨⟨i, n⟩, s'⟩ ∧ f.inst? ⟨i, n⟩ = some terminator ∧
      s'.Holds c' ∧ c.execAll? vars.get? (seg.body.map CodeLine.instr) = some c' := by
  obtain ⟨locals, hslots, -, hsub, hinsts⟩ := h
  have hnone : (seg.draft vars locals false).2 = [] :=
    List.eq_nil_iff_forall_not_mem.mpr fun e he => by simpa [herrors] using hsub e he
  obtain ⟨body, hbody, hexec⟩ := CodeLine.exec_lowerAll (d := ⟨locals, []⟩) hslots hnone
  obtain ⟨s', c', hs', hholds, hc'⟩ := hexec hs
  have hdraft : (seg.draft vars locals false).1.insts = body := hbody
  have hplain := (seg.bodyCode_draft vars hslots false).plain
  rw [hdraft] at hinsts hplain
  obtain ⟨hrun, hlast⟩ := Function.run_block hb hinsts hplain hs'
  exact ⟨body.length, s', c', hrun, hlast, hholds, hc'⟩

section

variable {stmts : List Stmt} {entries : EntryPoints} {reset : Nat}

/-- **The run from the block of a segment on.** The induction is on the segments that are left: the
run stops in this block if it is that of a handler or the last one, and else it goes on in the
block after it. -/
theorem haltsWith_from (h : Clean stmts entries reset) {rest : List Segment} :
    ∀ {k : Nat}, (segmentsOf stmts).drop k = rest → rest ≠ [] → ∀ {s : Frame} {c : Cpu}, s.Holds c →
      ∃ s' c', (mainFunction reset (codeOf entries stmts)).HaltsWith ⟨⟨k + 1, 0⟩, s⟩ s' ∧
        s'.Holds c' ∧
        c.execAll? (Layout.ofStmts stmts).vars.get? (Segment.codeUpTo entries rest) = some c' := by
  induction rest with
  | nil => exact fun _ hne => absurd rfl hne
  | cons seg rest ih =>
    intro k hdrop _ s c hs
    have hseg : (segmentsOf stmts)[k]? = some seg := by
      rw [← List.head?_drop, hdrop, List.head?_cons]
    have hrest : (segmentsOf stmts).drop (k + 1) = rest := by
      rw [← List.tail_drop, hdrop, List.tail_cons]
    obtain ⟨b, hb, -, hholds⟩ := exists_block_codeOf entries hseg
    rw [terminatorAt, h.isHandlerAt_eq hseg] at hholds
    have hb' : (mainFunction reset (codeOf entries stmts)).blocks[k + 1]? = some b := hb
    cases hhandler : entries.isHandler seg.label with
    | true =>
      rw [hhandler] at hholds
      obtain ⟨_, -, -, -, hinsts⟩ := hholds
      have hstop : (mainFunction reset (codeOf entries stmts)).inst? ⟨k + 1, 0⟩ =
          some .unreachable := by
        rw [Function.inst?, hb', Option.bind_some, hinsts]
        rfl
      refine ⟨s, c, .of_unreachable hstop s, hs, ?_⟩
      rw [Segment.codeUpTo, if_pos hhandler, Cpu.execAll?_nil]
    | false =>
      rw [hhandler] at hholds
      obtain ⟨n, s₁, c₁, hrun, hlast, hs₁, hc₁⟩ := run_body hb' hholds h.code hs
      have hcode : Segment.codeUpTo entries (seg :: rest) =
          seg.body.map CodeLine.instr ++ Segment.codeUpTo entries rest := by
        rw [Segment.codeUpTo, hhandler, if_neg (by decide)]
      rw [hcode, Cpu.execAll?_append, hc₁, Option.bind_some]
      by_cases hend : k + 1 = (segmentsOf stmts).length
      · have hnil : rest = [] := by rw [← hrest, hend, List.drop_length]
        subst hnil
        rw [beq_iff_eq.mpr hend] at hlast
        exact ⟨s₁, c₁, (Function.HaltsWith.of_unreachable hlast s₁).of_run hrun, hs₁, rfl⟩
      · have hne : rest ≠ [] := by
          intro hnil
          have hlt := (List.getElem?_eq_some_iff.mp hseg).1
          have hle := List.drop_eq_nil_iff.mp (hrest.trans hnil)
          omega
        rw [beq_false_of_ne hend] at hlast
        obtain ⟨s', c', hhalts, hs', hc'⟩ := ih hrest hne hs₁
        exact ⟨s', c', (hhalts.of_br hlast).of_run hrun, hs', hc'⟩

/-- The function of a clean program halts with what the program computes. -/
theorem Clean.haltsWith (h : Clean stmts entries reset) (c : Cpu) :
    ∃ s' c', (mainFunction reset (codeOf entries stmts)).HaltsWith
        ⟨⟨0, 0⟩, { slots := c.slots }⟩ s' ∧ s'.slots = c'.slots ∧
      c.execAll? (lastAssigned stmts) (resetCode entries stmts) = some c' := by
  obtain ⟨s, hs, hentry⟩ :=
    haltsWith_entryBlockTo (f := mainFunction reset (codeOf entries stmts)) rfl c
  obtain ⟨k, rfl, hk, -⟩ := blockOf?_eq_some_iff.mp h.resolves.reset
  obtain ⟨nmi, hnmi⟩ := h.resolves.nmi
  obtain ⟨irq, hirq⟩ := h.resolves.irq
  have hne : (segmentsOf stmts).drop k ≠ [] := by
    intro hnil
    have hlt := (List.getElem?_eq_some_iff.mp hk).1
    rw [List.length_map] at hlt
    exact absurd (List.drop_eq_nil_iff.mp hnil) (Nat.not_le.mpr hlt)
  obtain ⟨s', c', hhalts, hs', hc'⟩ := haltsWith_from h rfl hne hs
  have hvars : (Layout.ofStmts stmts).vars.get? = lastAssigned stmts :=
    funext (Layout.get?_vars_ofStmts stmts)
  rw [hvars, ← resetCode_eq h.layout hnmi h.resolves.reset hirq] at hc'
  exact ⟨s', c', hentry s' hhalts, hs'.slots, hc'⟩

end

/-! ### Pruning -/

/-- Pruning a program leaves what it halts with. -/
theorem IR.Module.IsProgram.haltsWith_pruneTimes {m : Module} {f : Function} (h : m.IsProgram f)
    {s s' : Frame} (hhalts : f.HaltsWith ⟨⟨0, 0⟩, s⟩ s') (rounds : Nat) :
    ∃ f', (m.pruneTimes rounds).1.main? = some f' ∧ f'.HaltsWith ⟨⟨0, 0⟩, s⟩ s' := by
  induction rounds generalizing m f with
  | zero => exact ⟨f, h.main?_eq, hhalts⟩
  | succ rounds ih =>
    obtain ⟨reset, inner, hform⟩ := h.form
    exact ih h.prune (hhalts.prune hform.blocks_ne_nil)

/-- **Compilation preserves meaning.** A program that compiles cleanly becomes a function that
always halts, and then its slots hold what the code after a reset leaves in the registers and
flags, whatever they held before. -/
theorem compile_preserves_meaning (options : Options) (stmts : List Stmt)
    (hclean : (compile options stmts).isClean = true) (cpu : Cpu) :
    ∃ m f entries final s, (compile options stmts).module = .ok m ∧ m.main? = some f ∧
      EntryPoints.resolve stmts (Layout.ofStmts stmts) = .ok entries ∧
      cpu.execAll? (lastAssigned stmts) (resetCode entries stmts) = some final ∧
      f.HaltsWith ⟨⟨0, 0⟩, { slots := cpu.slots }⟩ s ∧ s.slots = final.slots := by
  obtain ⟨entries, reset, h⟩ := exists_clean hclean
  obtain ⟨s, final, hhalts, hslots, hfinal⟩ := h.haltsWith cpu
  have hprogram := h.resolves.isProgram options.moduleName
  obtain ⟨f, hf, hhalts'⟩ := hprogram.haltsWith_pruneTimes hhalts options.optLevel.rounds
  exact ⟨_, f, entries, final, s, h.resolves.module_eq options, hf, h.resolves.vectors, hfinal,
    hhalts', hslots⟩

/-- A program that falls through labels and past data, and loads a name whose last value is assigned
behind the code. -/
def fallThroughProgram : List Stmt :=
  ([.assign "count" 1, .label "reset", (Operand.immediate (.name "count")).instr "LDA",
    Operand.implied.instr "tax", .label "loop", Operand.implied.instr "DEX", .label "table",
    .data .byte [⟨.int 7, ⟨0, 0⟩⟩], Operand.implied.instr "DEX", .label "tail",
    Operand.implied.instr "iny", .assign "count" 2, .label "handler",
    Operand.implied.instr "INX"] ++ vectors "handler" "reset" "handler").map Node.stmt

theorem compile_preserves_meaning_fallThroughProgram :
    (compile { optLevel := .basic } fallThroughProgram).isClean = true ∧
      ∃ m f s, (compile { optLevel := .basic } fallThroughProgram).module = .ok m ∧
        m.main? = some f ∧
        f.HaltsWith ⟨⟨0, 0⟩, { slots := Cpu.slots ⟨9, 255, 0, true, false⟩ }⟩ s ∧
        s.slots = Cpu.slots ⟨0, 0, 2, false, true⟩ := by
  have hclean : (compile { optLevel := .basic } fallThroughProgram).isClean = true := by cbv
  have hvectors : EntryPoints.resolve fallThroughProgram (Layout.ofStmts fallThroughProgram) =
      .ok ⟨"handler", "reset", "handler"⟩ := by rfl
  have hrun : Cpu.execAll? (lastAssigned fallThroughProgram) ⟨9, 255, 0, true, false⟩
      (resetCode ⟨"handler", "reset", "handler"⟩ fallThroughProgram) =
        some ⟨0, 0, 2, false, true⟩ := by decide
  obtain ⟨m, f, entries, final, s, hm, hf, hentries, hfinal, hhalts, hslots⟩ :=
    compile_preserves_meaning { optLevel := .basic } fallThroughProgram hclean
      ⟨9, 255, 0, true, false⟩
  rw [hvectors, Except.ok.injEq] at hentries
  subst hentries
  rw [hrun, Option.some.injEq] at hfinal
  subst hfinal
  exact ⟨hclean, m, f, s, hm, hf, hhalts, hslots⟩

end Mos6502
