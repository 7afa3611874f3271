import Mos6502.Proofs.EmittedFunctions
import Mos6502.Proofs.ProgramEmission
import Mos6502.Proofs.ProgramMeaning

/-!
# Emission preserves the meaning of compiled programs

What is left for the simulation to apply to compiled programs: their code computes with bytes only,
and it always halts. Both hold of every program with a module, also of one with errors. An
instruction with an error leaves nothing in its block, and what the others leave there still finds
the registers and flags in the slots; so the blocks run through, whether or not they do what the
text asks for.

## Main results

* `Resolves.haltsWith` — the function of a program halts
* `bytewise_mainFunction` — it computes with bytes only
* `emit_preserves_meaning`
-/

namespace Mos6502

open IR

/-! ### Code that computes with bytes -/

/-- All instructions of the function compute with bytes. -/
def IR.Function.Bytewise (f : Function) : Prop :=
  ∀ b ∈ f.blocks, ∀ i ∈ b.insts, i.Bytewise

theorem IR.Inst.bytewise_of_isTerminator {t : Inst} (h : t.isTerminator = true) : t.Bytewise := by
  cases t with
  | br | unreachable => trivial
  | _ => cases h

theorem bytewise_settle {n : Nat} {v : IR.Value} (hv : ∀ bits, v ≠ .const .i1 bits) (r : Reg) :
    ∀ i ∈ settle n v r, i.Bytewise := by
  intro i hi
  simp only [settle, List.mem_cons, List.not_mem_nil, or_false] at hi
  rcases hi with rfl | rfl | rfl | rfl | rfl
  · exact hv
  · exact ⟨0, rfl⟩
  · simp [Inst.Bytewise]
  · exact ⟨0, rfl⟩
  · simp [Inst.Bytewise]

theorem Rule.bytewise_code (rule : Rule) (n : Nat) (k : UInt8) :
    ∀ i ∈ rule.code n k, i.Bytewise := by
  cases rule with
  | loadImmediate r => exact bytewise_settle (by simp) r
  | transfer source target =>
    exact List.forall_mem_cons.mpr ⟨trivial, bytewise_settle (by simp) target⟩
  | step r op =>
    refine List.forall_mem_cons.mpr ⟨trivial, List.forall_mem_cons.mpr ⟨⟨1, rfl⟩, ?_⟩⟩
    exact bytewise_settle (by simp) r
  | nop => simp [code]

theorem CodeLine.bytewise_lowerAll (vars : Bindings String UInt32) (cs : List CodeLine) {d : Draft}
    (hd : ∀ i ∈ d.insts, i.Bytewise) : ∀ i ∈ (lowerAll vars d cs).1.insts, i.Bytewise := by
  induction cs generalizing d with
  | nil => exact hd
  | cons c cs ih =>
    rw [lowerAll_cons]
    obtain ⟨rule, k, -, -, hlower⟩ | ⟨error, hlower⟩ := c.lower_cases vars d
    · rw [hlower]
      refine ih fun i hi => ?_
      exact (List.mem_append.mp hi).elim (hd i) (rule.bytewise_code d.locals.length k i)
    · rw [hlower]
      exact ih hd

theorem Segment.bytewise_draft (vars : Bindings String UInt32) (locals : List Local)
    (isHandler : Bool) (s : Segment) :
    ∀ i ∈ (s.draft vars locals isHandler).1.insts, i.Bytewise := by
  cases isHandler with
  | true => simp [draft]
  | false => exact CodeLine.bytewise_lowerAll vars s.body (by simp)

/-- **The function of a program computes with bytes only.** -/
theorem bytewise_mainFunction (entries : EntryPoints) (stmts : List Stmt) (reset : Nat) :
    (mainFunction reset (codeOf entries stmts)).Bytewise := by
  intro b hb i hi
  rw [blocks_mainFunction] at hb
  rcases List.mem_cons.mp hb with rfl | hb
  · rcases List.mem_append.mp hi with hi | hi
    · rw [insts_entryDraft] at hi
      simp only [List.mem_cons, List.not_mem_nil, or_false] at hi
      rcases hi with rfl | rfl | rfl | rfl | rfl <;> trivial
    · obtain rfl := List.mem_singleton.mp hi
      trivial
  · obtain ⟨k, s, -, locals, -, -, -, hinsts⟩ := exists_segment_of_mem hb
    rw [hinsts] at hi
    rcases List.mem_append.mp hi with hi | hi
    · exact s.bytewise_draft _ _ _ i hi
    · obtain rfl := List.mem_singleton.mp hi
      exact Inst.bytewise_of_isTerminator (terminatorAt_isTerminator k s)

theorem IR.Inst.Bytewise.renumber {i : Inst} (h : i.Bytewise) (marks : List Bool) :
    (i.renumber marks).Bytewise := by
  cases i <;> exact h

theorem IR.Function.Bytewise.prune {f : Function} (h : f.Bytewise) : f.prune.1.Bytewise := by
  intro b hb i hi
  obtain ⟨_, b₀, -, hb₀, rfl⟩ := exists_of_mem_blocks_prune hb
  obtain ⟨i₀, hi₀, rfl⟩ := List.mem_map.mp hi
  exact (h b₀ (List.mem_of_getElem? hb₀) i₀ hi₀).renumber _

/-! ### Code that always halts -/

/-- Lowered code runs to its end, whatever could not be lowered. -/
theorem CodeLine.exists_execAll_lowerAll (vars : Bindings String UInt32) (cs : List CodeLine)
    {d : Draft} (hslots : HasSlots d.locals) :
    ∃ code, (lowerAll vars d cs).1.insts = d.insts ++ code ∧
      ∀ {s : Frame} {c : Cpu}, s.Holds c → ∃ s' c', execAll code s = some s' ∧ s'.Holds c' := by
  induction cs generalizing d with
  | nil => exact ⟨[], (List.append_nil _).symm, fun {s c} h => ⟨s, c, rfl, h⟩⟩
  | cons line cs ih =>
    rw [lowerAll_cons]
    obtain ⟨rule, k, -, -, hlower⟩ | ⟨error, hlower⟩ := line.lower_cases vars d
    · rw [hlower]
      obtain ⟨code, hcode, hexec⟩ := @ih ⟨_, d.insts ++ rule.code d.locals.length k⟩
        (hslots.append (rule.temps d.locals.length))
      refine ⟨rule.code d.locals.length k ++ code, by rw [hcode, List.append_assoc], ?_⟩
      intro s c h
      obtain ⟨s₁, hs₁, h₁⟩ := rule.exec_code h hslots.five_le_length k
      obtain ⟨s', c', hs', h'⟩ := hexec h₁
      exact ⟨s', c', by rw [execAll_append, hs₁, Option.bind_some, hs'], h'⟩
    · rw [hlower]
      exact ih hslots

/-- The body of a block runs to its end. -/
theorem CodeSection.HasBlock.exists_execAll {code : CodeSection} {vars : Bindings String UInt32}
    {seg : Segment} {isHandler : Bool} {terminator : Inst} {b : Block}
    (h : code.HasBlock vars seg isHandler terminator b) :
    ∃ body, b.insts = body ++ [terminator] ∧ (∀ i ∈ body, i.isTerminator = false) ∧
      ∀ {s : Frame} {c : Cpu}, s.Holds c → ∃ s' c', execAll body s = some s' ∧ s'.Holds c' := by
  obtain ⟨locals, hslots, -, -, hinsts⟩ := h
  refine ⟨_, hinsts, (seg.bodyCode_draft vars hslots isHandler).plain, ?_⟩
  cases isHandler with
  | true => exact fun {s c} hs => ⟨s, c, rfl, hs⟩
  | false =>
    obtain ⟨body, hbody, hexec⟩ :=
      CodeLine.exists_execAll_lowerAll vars seg.body (d := ⟨locals, []⟩) hslots
    have hdraft : (seg.draft vars locals false).1.insts = body := hbody
    rw [hdraft]
    exact fun {s c} hs => hexec hs

section

variable {stmts : List Stmt} {entries : EntryPoints} {reset : Nat}

/-- The run stops in the block of a segment, or goes on in the block after it. -/
theorem exists_run_segment (entries : EntryPoints) (reset : Nat) {k : Nat} {seg : Segment}
    (hseg : (segmentsOf stmts)[k]? = some seg) {s : Frame} {c : Cpu} (hs : s.Holds c) :
    ∃ s₁ c₁, s₁.Holds c₁ ∧
      ((mainFunction reset (codeOf entries stmts)).HaltsWith ⟨⟨k + 1, 0⟩, s⟩ s₁ ∨
        k + 1 ≠ (segmentsOf stmts).length ∧
        ∀ s', (mainFunction reset (codeOf entries stmts)).HaltsWith ⟨⟨k + 2, 0⟩, s₁⟩ s' →
          (mainFunction reset (codeOf entries stmts)).HaltsWith ⟨⟨k + 1, 0⟩, s⟩ s') := by
  obtain ⟨b, hb, -, hblock⟩ := exists_block_codeOf entries hseg
  have hb' : (mainFunction reset (codeOf entries stmts)).blocks[k + 1]? = some b := hb
  obtain ⟨body, hinsts, hplain, hexec⟩ := hblock.exists_execAll
  obtain ⟨s₁, c₁, hs₁, hholds⟩ := hexec hs
  obtain ⟨hrun, hlast⟩ := Function.run_block hb' hinsts hplain hs₁
  refine ⟨s₁, c₁, hholds, ?_⟩
  unfold terminatorAt fallThrough at hlast
  split at hlast
  · exact .inl ((Function.HaltsWith.of_unreachable hlast s₁).of_run hrun)
  · next hgoes =>
    simp only [Bool.or_eq_true, beq_iff_eq, not_or] at hgoes
    exact .inr ⟨hgoes.2, fun s' hhalts => (hhalts.of_br hlast).of_run hrun⟩

/-- The run from the block of a segment on. The induction is on the number of segments after it. -/
theorem exists_haltsWith_from (entries : EntryPoints) (reset : Nat) {n : Nat} :
    ∀ {k : Nat}, k + 1 + n = (segmentsOf stmts).length → ∀ {s : Frame} {c : Cpu}, s.Holds c →
      ∃ s', (mainFunction reset (codeOf entries stmts)).HaltsWith ⟨⟨k + 1, 0⟩, s⟩ s' := by
  induction n with
  | zero =>
    intro k hk s c hs
    have hlt : k < (segmentsOf stmts).length := by omega
    obtain ⟨s₁, c₁, -, hhalts | ⟨hne, -⟩⟩ :=
      exists_run_segment entries reset (List.getElem?_eq_getElem hlt) hs
    · exact ⟨s₁, hhalts⟩
    · exact absurd hk hne
  | succ n ih =>
    intro k hk s c hs
    have hlt : k < (segmentsOf stmts).length := by omega
    obtain ⟨s₁, c₁, hs₁, hhalts | ⟨-, hrest⟩⟩ :=
      exists_run_segment entries reset (List.getElem?_eq_getElem hlt) hs
    · exact ⟨s₁, hhalts⟩
    · obtain ⟨s', hhalts⟩ := @ih (k + 1) (by omega) s₁ c₁ hs₁
      exact ⟨s', hrest s' hhalts⟩

/-- **The function of a program halts**, whatever the slots hold at first. -/
theorem Resolves.haltsWith (h : Resolves stmts entries reset) (c : Cpu) :
    ∃ s', (mainFunction reset (codeOf entries stmts)).HaltsWith
      ⟨⟨0, 0⟩, { slots := c.slots }⟩ s' := by
  obtain ⟨s, hs, hentry⟩ :=
    haltsWith_entryBlockTo (f := mainFunction reset (codeOf entries stmts)) rfl c
  obtain ⟨hpos, hle⟩ := blockOf?_bounds h.reset
  obtain ⟨k, rfl⟩ := Nat.exists_eq_succ_of_ne_zero (Nat.ne_of_gt hpos)
  obtain ⟨n, hn⟩ := Nat.exists_eq_add_of_le hle
  obtain ⟨s', hhalts⟩ := exists_haltsWith_from entries (k + 1) hn.symm hs
  exact ⟨s', hentry s' hhalts⟩

end

/-! ### Emitted programs -/

namespace IR.Module.IsProgram

variable {m : Module} {f : Function}

theorem pruneTimes_bytewise (h : m.IsProgram f) (hbytes : f.Bytewise) (rounds : Nat) :
    ∃ f', (m.pruneTimes rounds).1.IsProgram f' ∧ f'.Bytewise := by
  induction rounds generalizing m f with
  | zero => exact ⟨f, h, hbytes⟩
  | succ rounds ih => exact ih h.prune hbytes.prune

/-- The native form of a program's function is what its module is emitted to. -/
theorem exists_native (h : m.IsProgram f) :
    ∃ native : Native.Function, Native.emitFunction m.globals.length 2 f = .ok native ∧
      Native.emitFrom m.globals.length 0 m.functions = .ok [native] := by
  obtain ⟨native, hnative, -⟩ := h.emitFunction_eq_ok m.globals.length 2
  have hemitted : Native.emitFrom m.globals.length 2 [f] = .ok [native] := by
    rw [Native.emitFrom, if_neg (by simp [h.isDeclaration_eq_false]), hnative]
    rfl
  refine ⟨native, hnative, ?_⟩
  rw [h.functions]
  exact hemitted

end IR.Module.IsProgram

/-- If steps succeed, then the first of them does, and so does the rest after it. -/
theorem ok_of_bind {ε α β : Type} {x : Except ε α} {g : α → Except ε β} {b : β}
    (h : (x >>= g) = .ok b) : ∃ a, x = .ok a ∧ g a = .ok b := by
  cases x with
  | error e => cases h
  | ok a => exact ⟨a, rfl, h⟩

/-- What a module is emitted to is what its functions are emitted to. -/
theorem Native.emitFrom_of_emit {m : Module} {natives : List Native.Function}
    (h : Native.emit m = .ok natives) :
    Native.emitFrom m.globals.length 0 m.functions = .ok natives := by
  obtain ⟨_, -, h⟩ := ok_of_bind h
  obtain ⟨_, -, h⟩ := ok_of_bind h
  obtain ⟨functions, hemitted, h⟩ := ok_of_bind h
  split at h
  · cases h
    exact hemitted
  · cases h

/-- **Emission preserves meaning.** The module of a program has one function that is emitted. From
whatever the five slots hold at first, the function halts, its native form runs into a trap and
into no other one, and then the native slots hold what those of the function hold. -/
theorem emit_preserves_meaning (options : Options) (stmts : List Stmt) (m : Module)
    (hm : (compile options stmts).module = .ok m) :
    ∃ f native, m.main? = some f ∧
      Native.emitFrom m.globals.length 0 m.functions = .ok [native] ∧
      (∀ natives, Native.emit m = .ok natives → natives = [native]) ∧
      native.slots = [1, 1, 1, 1, 1] ∧
      ∀ cpu : Cpu, ∃ s t, f.HaltsWith ⟨⟨0, 0⟩, { slots := cpu.slots }⟩ s ∧
        native.TrapsWith 0 { slots := cpu.slots.map .ofIR } t ∧
        (∀ t', native.TrapsWith 0 { slots := cpu.slots.map .ofIR } t' → t' = t) ∧
        t.slots = s.slots.map .ofIR := by
  obtain ⟨entries, reset, h, rfl⟩ := exists_resolves hm
  have hprogram := h.isProgram options.moduleName
  obtain ⟨f, hf, hbytes⟩ := hprogram.pruneTimes_bytewise (bytewise_mainFunction entries stmts reset)
    options.optLevel.rounds
  obtain ⟨native, hnative, hemitted⟩ := hf.exists_native
  obtain ⟨_, inner, hform⟩ := hf.form
  refine ⟨f, native, hf.main?_eq, hemitted, fun natives hemit => ?_, ?_, fun cpu => ?_⟩
  · exact Except.ok.inj ((Native.emitFrom_of_emit hemit).symm.trans hemitted)
  · rw [Native.slots_of_emitFunction hform hnative, slotTys_entryBlockTo]
    rfl
  · obtain ⟨s, hhalts⟩ := h.haltsWith cpu
    obtain ⟨f', hf', hhalts'⟩ := hprogram.haltsWith_pruneTimes hhalts options.optLevel.rounds
    obtain rfl : f = f' := Option.some.inj (hf.main?_eq.symm.trans hf')
    obtain ⟨t, htraps, hslots⟩ := Native.trapsWith_of_haltsWith hform hbytes hnative hhalts'
    exact ⟨s, t, hhalts', htraps, fun t' h' => h'.unique htraps, hslots⟩

/-- Labels that repeat are errors, and there is a module all the same. -/
theorem emit_preserves_meaning_repeatedLabels :
    ∃ m f native s t, (compile { optLevel := .basic } repeatedLabels).module = .ok m ∧
      m.main? = some f ∧ Native.emitFrom m.globals.length 0 m.functions = .ok [native] ∧
      f.HaltsWith ⟨⟨0, 0⟩, { slots := Cpu.slots ⟨9, 255, 0, true, false⟩ }⟩ s ∧
      native.TrapsWith 0 { slots := [.i8 9, .i8 255, .i8 0, .i8 1, .i8 0] } t ∧
      t.slots = s.slots.map .ofIR := by
  have hok : (compile { optLevel := .basic } repeatedLabels).module.isOk = true := by cbv
  cases hm : (compile { optLevel := .basic } repeatedLabels).module with
  | error e => simp [hm, Except.isOk, Except.toBool] at hok
  | ok m =>
    obtain ⟨f, native, hf, hnative, -, -, hruns⟩ :=
      emit_preserves_meaning { optLevel := .basic } repeatedLabels m hm
    obtain ⟨s, t, hhalts, htraps, -, hslots⟩ := hruns ⟨9, 255, 0, true, false⟩
    exact ⟨m, f, native, s, t, rfl, hf, hnative, hhalts, htraps, hslots⟩

end Mos6502
