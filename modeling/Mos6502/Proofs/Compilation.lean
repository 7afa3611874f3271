import Mos6502.Proofs.MainFunction

/-!
# What a compilation yields

A program either has labels of code at all three vectors, and then there is a module, or there is
none; `compile_cases` says so, and `Resolves.module_eq` says which module it is. Nothing else is
left for `compile` to fail with: a module that is made always verifies, before and after pruning.

`Module.IsProgram` collects what is known of such a module whatever was done to it since, and
`Module.IsProgram.prune` keeps it.

## Main results

* `compile_cases`, `Resolves.module_eq` — the outcome of a compilation
* `Module.IsProgram.verify` — the modules of programs verify
* `compile_verifies` — so the verifier never stops a compilation
-/

namespace Mos6502

open IR

/-! ### Symbols -/

/-- Constants leave the name and the functions alone, and all symbols keep different names. -/
theorem dataModule_spec (name : String) (data : DataSection) :
    (dataModule name data).name = name ∧
      (dataModule name data).functions = [putcharDecl, exitDecl, mainDecl] ∧
      (dataModule name data).symbols.Nodup := by
  have step : ∀ (blobs : List (String × List UInt8)) (m : Module), m.symbols.Nodup →
      (blobs.foldl (fun m b => m.addGlobal b.1 .internal b.2) m).name = m.name ∧
        (blobs.foldl (fun m b => m.addGlobal b.1 .internal b.2) m).functions = m.functions ∧
        (blobs.foldl (fun m b => m.addGlobal b.1 .internal b.2) m).symbols.Nodup := by
    intro blobs
    induction blobs with
    | nil => exact fun m h => ⟨rfl, rfl, h⟩
    | cons b blobs ih => exact fun m h => ih _ (Module.nodup_symbols_addGlobal h _ _ _)
  have hstart : ["putchar", "exit", "main"].Nodup := by decide
  exact step data.blobs { name, functions := [putcharDecl, exitDecl, mainDecl] } hstart

/-! ### Modules of programs -/

/-- The function called `main`. -/
def IR.Module.main? (m : Module) : Option Function :=
  m.functions.find? fun f => f.name == "main"

/-- A module that a program became, with `f` as its `main`. -/
structure IR.Module.IsProgram (m : Module) (f : Function) : Prop where
  functions : m.functions = [putcharDecl, exitDecl, f]
  symbols : m.symbols.Nodup
  decl : { f with blocks := [], locals := [] } = mainDecl
  form : ∃ reset inner, f.SlotForm (entryBlockTo reset) inner

namespace IR.Module.IsProgram

variable {m : Module} {f : Function}

/-- **Modules of programs verify.** -/
theorem verify (h : m.IsProgram f) : m.verify = .ok () := by
  obtain ⟨reset, inner, hform⟩ := h.form
  refine verify_eq_ok_iff.mpr ⟨h.symbols, ?_⟩
  rw [h.functions]
  simp only [List.forall_mem_cons, List.not_mem_nil, false_implies, implies_true, and_true]
  exact ⟨Function.wellFormed_of_blocks_eq_nil rfl, Function.wellFormed_of_blocks_eq_nil rfl,
    hform.wellFormed _⟩

/-- The function called `main` is the one of the program. -/
theorem main?_eq (h : m.IsProgram f) : m.main? = some f := by
  have hname : f.name = "main" := congrArg Function.name h.decl
  simp [main?, h.functions, putcharDecl, exitDecl, hname]

theorem isDeclaration_eq_false (h : m.IsProgram f) : f.isDeclaration = false := by
  obtain ⟨reset, inner, hform⟩ := h.form
  rw [Function.isDeclaration, hform.blocks]
  rfl

theorem prune_eq (h : m.IsProgram f) :
    m.prune = ({ m with functions := [putcharDecl, exitDecl, f.prune.1] }, f.prune.2) := by
  have hputchar : putcharDecl.isDeclaration = true := rfl
  have hexit : exitDecl.isDeclaration = true := rfl
  simp [Module.prune, h.functions, h.isDeclaration_eq_false, hputchar, hexit]

/-- Pruning keeps all of this. -/
theorem prune (h : m.IsProgram f) : m.prune.1.IsProgram f.prune.1 := by
  obtain ⟨reset, inner, hform⟩ := h.form
  obtain ⟨inner', hform'⟩ := hform.prune
  rw [h.prune_eq]
  refine ⟨rfl, ?_, ?_, IR.renumber f.live reset, inner', ?_⟩
  · have hsymbols := h.symbols
    rw [Module.symbols, h.functions] at hsymbols
    simpa [Module.symbols] using hsymbols
  · rw [Function.prune_fst]
    exact h.decl
  · rw [← renumber_entryBlockTo]
    exact hform'

theorem pruneTimes (h : m.IsProgram f) (rounds : Nat) :
    ∃ f', (m.pruneTimes rounds).1.IsProgram f' := by
  induction rounds generalizing m f with
  | zero => exact ⟨f, h⟩
  | succ rounds ih => exact ih h.prune

/-- Nothing can go wrong in the last step of a compilation. -/
theorem finish_eq (h : m.IsProgram f) (level : OptLevel) :
    finish level m = .ok (m.pruneTimes level.rounds).1 := by
  obtain ⟨f', h'⟩ := h.pruneTimes level.rounds
  have hcheck : ∀ {m : Module}, m.verify = .ok () → check m = .ok () := by
    intro m hm
    rw [check, hm]
  have hafter := hcheck h'.verify
  cases hchanged : (m.pruneTimes level.rounds).2 <;>
    simp [finish, hcheck h.verify, hafter, hchanged, bind, Except.bind, pure, Except.pure]

end IR.Module.IsProgram

/-! ### The outcome -/

/-- The labels at the vectors are labels of code, and the code after a reset starts with block
`reset`. -/
structure Resolves (stmts : List Stmt) (entries : EntryPoints) (reset : Nat) : Prop where
  vectors : EntryPoints.resolve stmts (Layout.ofStmts stmts) = .ok entries
  nmi : ∃ b, blockOf? (segmentsOf stmts) entries.nmi = some b
  reset : blockOf? (segmentsOf stmts) entries.reset = some reset
  irq : ∃ b, blockOf? (segmentsOf stmts) entries.irq = some b

/-- The module of a program before anything is removed from it. -/
def programModule (name : String) (entries : EntryPoints) (stmts : List Stmt) (reset : Nat) :
    Module :=
  withMain (dataModule name (dataOf stmts)) (mainFunction reset (codeOf entries stmts))

/-- Blocks of labels are blocks of `main`, and never the first one. -/
theorem blockOf?_bounds {segments : List Segment} {label : String} {b : Nat}
    (h : blockOf? segments label = some b) : 0 < b ∧ b ≤ segments.length := by
  obtain ⟨k, rfl, hk, -⟩ := blockOf?_eq_some_iff.mp h
  have hlt := (List.getElem?_eq_some_iff.mp hk).1
  rw [List.length_map] at hlt
  omega

theorem Resolves.isProgram {stmts : List Stmt} {entries : EntryPoints} {reset : Nat}
    (h : Resolves stmts entries reset) (name : String) :
    (programModule name entries stmts reset).IsProgram
      (mainFunction reset (codeOf entries stmts)) := by
  obtain ⟨hpos, hle⟩ := blockOf?_bounds h.reset
  obtain ⟨-, hfunctions, hsymbols⟩ := dataModule_spec name (dataOf stmts)
  refine ⟨rfl, ?_, rfl, reset, _, slotForm_mainFunction hpos hle⟩
  rw [Module.symbols, hfunctions] at hsymbols
  exact hsymbols

theorem module_compile (options : Options) (stmts : List Stmt) :
    (compile options stmts).module =
      match EntryPoints.resolve stmts (Layout.ofStmts stmts) with
      | .error e => .error e
      | .ok entries =>
        assemble options (dataOf stmts) entries (segmentsOf stmts) (codeOf entries stmts) := by
  rw [compile]
  cases h : EntryPoints.resolve stmts (Layout.ofStmts stmts) <;> rfl

/-- An error that says something about the entry points, and nothing about a module. -/
def CompileError.IsEntryFault : CompileError → Prop
  | invalidModule _ => False
  | _ => True

theorem EntryVector.isEntryFault_of_resolve {v : EntryVector} {stmts : List Stmt} {layout : Layout}
    {e : CompileError} (h : v.resolve stmts layout = .error e) : e.IsEntryFault := by
  unfold resolve at h
  split at h
  · cases h
    trivial
  · unfold labelOf at h
    split at h
    · split at h
      · cases h
      · cases h
        trivial
    · cases h
      trivial

/-- If steps fail, then the first of them does, or the rest after it. -/
theorem error_of_bind {ε α β : Type} {x : Except ε α} {g : α → Except ε β} {e : ε}
    (h : (x >>= g) = .error e) : x = .error e ∨ ∃ a, x = .ok a ∧ g a = .error e := by
  cases x with
  | error e' => exact .inl (congrArg Except.error (Except.error.inj h))
  | ok a => exact .inr ⟨a, rfl, h⟩

theorem EntryPoints.isEntryFault_of_resolve {stmts : List Stmt} {layout : Layout}
    {e : CompileError} (h : resolve stmts layout = .error e) : e.IsEntryFault := by
  rcases error_of_bind h with h | ⟨nmi, -, h⟩
  · exact EntryVector.isEntryFault_of_resolve h
  rcases error_of_bind h with h | ⟨reset, -, h⟩
  · exact EntryVector.isEntryFault_of_resolve h
  rcases error_of_bind h with h | ⟨irq, -, h⟩
  · exact EntryVector.isEntryFault_of_resolve h
  · cases h

/-- The module of a program with code at all vectors. -/
theorem Resolves.module_eq {stmts : List Stmt} {entries : EntryPoints} {reset : Nat}
    (h : Resolves stmts entries reset) (options : Options) :
    (compile options stmts).module =
      .ok ((programModule options.moduleName entries stmts reset).pruneTimes
        options.optLevel.rounds).1 := by
  obtain ⟨nmi, hnmi⟩ := h.nmi
  obtain ⟨irq, hirq⟩ := h.irq
  rw [module_compile, h.vectors]
  simp only [assemble, entryBlock, EntryPoints.get, hnmi, h.reset, hirq]
  exact (h.isProgram _).finish_eq _

/-- **The outcome of a compilation.** Either all vectors lead to code, or there is the same error
about entry points whatever the options are. -/
theorem compile_cases (stmts : List Stmt) :
    (∃ entries reset, Resolves stmts entries reset) ∨
    (∃ e : CompileError, e.IsEntryFault ∧
      ∀ options, (compile options stmts).module = .error e) := by
  simp only [module_compile]
  cases hvectors : EntryPoints.resolve stmts (Layout.ofStmts stmts) with
  | error e => exact .inr ⟨e, EntryPoints.isEntryFault_of_resolve hvectors, fun _ => rfl⟩
  | ok entries =>
    simp only [assemble, entryBlock, EntryPoints.get]
    cases hnmi : blockOf? (segmentsOf stmts) entries.nmi with
    | none => exact .inr ⟨.unresolvedEntryPoint .nmi, trivial, fun _ => rfl⟩
    | some nmi =>
      cases hreset : blockOf? (segmentsOf stmts) entries.reset with
      | none => exact .inr ⟨.unresolvedEntryPoint .reset, trivial, fun _ => rfl⟩
      | some reset =>
        cases hirq : blockOf? (segmentsOf stmts) entries.irq with
        | none => exact .inr ⟨.unresolvedEntryPoint .irq, trivial, fun _ => rfl⟩
        | some irq => exact .inl ⟨entries, reset, hvectors, ⟨nmi, hnmi⟩, hreset, ⟨irq, hirq⟩⟩

/-- If there is a module, then it is the one of the labels at the vectors. -/
theorem exists_resolves {options : Options} {stmts : List Stmt} {m : Module}
    (hm : (compile options stmts).module = .ok m) :
    ∃ entries reset, Resolves stmts entries reset ∧
      m = ((programModule options.moduleName entries stmts reset).pruneTimes
        options.optLevel.rounds).1 := by
  rcases compile_cases stmts with ⟨entries, reset, h⟩ | ⟨e, -, hmodule⟩
  · rw [h.module_eq, Except.ok.injEq] at hm
    exact ⟨entries, reset, h, hm.symm⟩
  · rw [hmodule] at hm
    cases hm

theorem IR.Module.name_pruneTimes (m : Module) (rounds : Nat) :
    (m.pruneTimes rounds).1.name = m.name := by
  induction rounds generalizing m with
  | zero => rfl
  | succ rounds ih => exact ih m.prune.1

/-- A module has the name that was asked for. -/
theorem name_compile {options : Options} {stmts : List Stmt} {m : Module}
    (hm : (compile options stmts).module = .ok m) : m.name = options.moduleName := by
  obtain ⟨entries, reset, -, rfl⟩ := exists_resolves hm
  rw [Module.name_pruneTimes]
  exact (dataModule_spec options.moduleName (dataOf stmts)).1

/-- Whatever was done to a module, it is that of a program. -/
theorem isProgram_compile {options : Options} {stmts : List Stmt} {m : Module}
    (hm : (compile options stmts).module = .ok m) : ∃ f, m.IsProgram f := by
  obtain ⟨entries, reset, hresolves, rfl⟩ := exists_resolves hm
  exact (hresolves.isProgram options.moduleName).pruneTimes _

/-- **The verifier never stops a compilation.** It accepts what is made without optimisation, and
what pruning makes of that is both accepted and the result with optimisation. -/
theorem compile_verifies (options : Options) (stmts : List Stmt) :
    (∀ e, (compile options stmts).module ≠ .error (.invalidModule e)) ∧
      ∀ m, (compile { options with optLevel := .none } stmts).module = .ok m →
        m.verify = .ok () ∧
        (m.pruneTimes OptLevel.basic.rounds).1.verify = .ok () ∧
        (compile { options with optLevel := .basic } stmts).module =
          .ok (m.pruneTimes OptLevel.basic.rounds).1 := by
  rcases compile_cases stmts with ⟨entries, reset, hresolves⟩ | ⟨e, hfault, hmodule⟩
  · have hprogram := hresolves.isProgram options.moduleName
    refine ⟨fun e => by simp [hresolves.module_eq], fun m hm => ?_⟩
    rw [hresolves.module_eq, Except.ok.injEq] at hm
    subst hm
    obtain ⟨f', hprogram'⟩ := hprogram.pruneTimes OptLevel.basic.rounds
    exact ⟨hprogram.verify, hprogram'.verify, hresolves.module_eq _⟩
  · refine ⟨fun e' he' => ?_, fun m hm => by simp [hmodule] at hm⟩
    rw [hmodule, Except.error.injEq] at he'
    subst he'
    exact hfault

/-- A statement of which nothing but its content matters. -/
def Node.stmt (node : Node) : Stmt :=
  ⟨1, ⟨0, 0⟩, node⟩

/-- An instruction of which nothing but its content matters. -/
def Operand.instr (mnemonic : String) (operand : Operand) : Node :=
  .instr ⟨⟨mnemonic, ⟨0, 0⟩⟩, operand⟩

/-- The three vectors. -/
def vectors (nmi reset irq : String) : List Node :=
  [.org 0xfffa, .data .word [⟨.label nmi, ⟨0, 0⟩⟩], .data .word [⟨.label reset, ⟨0, 0⟩⟩],
    .data .word [⟨.label irq, ⟨0, 0⟩⟩]]

/-- A program with a label that repeats and is called like the first block of `main`, with labels
called like other symbols, with data, and with one handler for both interrupts. -/
def repeatedLabels : List Stmt :=
  ([.label "Entry", Operand.implied.instr "INX", .label "Entry", .label "main",
    Operand.implied.instr "dex", .label "nmi", Operand.implied.instr "NOP", .label "exit",
    .data .byte [⟨.int 7, ⟨0, 0⟩⟩], .label "Entry.1", .label "nmi"] ++
      vectors "nmi" "Entry" "nmi").map Node.stmt

theorem compile_verifies_repeatedLabels :
    ∃ m, (compile {} repeatedLabels).module = .ok m ∧ m.verify = .ok () ∧
      (m.pruneTimes OptLevel.basic.rounds).1.verify = .ok () ∧
      (compile { optLevel := .basic } repeatedLabels).module =
        .ok (m.pruneTimes OptLevel.basic.rounds).1 := by
  have hok : (compile {} repeatedLabels).module.isOk = true := by decide
  cases hm : (compile {} repeatedLabels).module with
  | error e => simp [hm, Except.isOk, Except.toBool] at hok
  | ok m => exact ⟨m, rfl, (compile_verifies {} repeatedLabels).2 m hm⟩

end Mos6502
