import Mos6502.Proofs.OwnedData

/-!
# Options change only what they name

A caller chooses the name of the module and whether blocks that are never entered are removed from
it. Two compilations of one program that differ in their options are compared here. They report
the same, they fail with the same error if they fail, and if not then their modules differ in two
places: each has the name that was asked for, and `main` is pruned in those that were asked to be.

The name is written into a module before anything else is, and the names of the constants depend
on what else is in it; so that they do not depend on the name of the module itself has to be said.
The rest is that pruning a module is pruning its `main`, since the other functions have no blocks.

## Main results

* `programModule_rename` — the name of a module is all that depends on the chosen one
* `Resolves.module_eq_optimise` — the module of a program, for all options at once
* `compile_agrees`
-/

namespace Mos6502

open IR

/-! ### The name -/

/-- The module under another name. -/
def IR.Module.rename (m : Module) (name : String) : Module :=
  { m with name }

theorem foldl_addGlobal_rename (blobs : List (String × List UInt8)) (m : Module) (name : String) :
    blobs.foldl (fun m b => m.addGlobal b.1 .internal b.2) (m.rename name) =
      (blobs.foldl (fun m b => m.addGlobal b.1 .internal b.2) m).rename name := by
  induction blobs generalizing m with
  | nil => rfl
  | cons b blobs ih => exact ih (m.addGlobal b.1 .internal b.2)

/-- **The name of a module** is all that depends on the chosen one. -/
theorem programModule_rename (name name' : String) (entries : EntryPoints) (stmts : List Stmt)
    (reset : Nat) :
    programModule name' entries stmts reset =
      (programModule name entries stmts reset).rename name' := by
  have hdata := foldl_addGlobal_rename (dataOf stmts).blobs
    { name, functions := [putcharDecl, exitDecl, mainDecl] } name'
  rw [programModule, programModule, dataModule, dataModule]
  exact congrArg (withMain · (mainFunction reset (codeOf entries stmts))) hdata

/-! ### The optimisation -/

/-- What a level does to the function of a program. -/
def IR.OptLevel.optimise : OptLevel → Function → Function
  | none, f => f
  | basic, f => f.prune.1

/-- Pruning the module of a program is pruning its `main`. -/
theorem IR.Module.IsProgram.pruneTimes_rounds {m : Module} {f : Function} (h : m.IsProgram f)
    (level : OptLevel) :
    (m.pruneTimes level.rounds).1 =
      { m with functions := [putcharDecl, exitDecl, level.optimise f] } := by
  cases level with
  | none =>
    rw [OptLevel.optimise, ← h.functions]
    rfl
  | basic =>
    rw [OptLevel.optimise, OptLevel.rounds, Module.pruneTimes, h.prune_eq]
    rfl

/-- **The module of a program, for all options.** -/
theorem Resolves.module_eq_optimise {stmts : List Stmt} {entries : EntryPoints} {reset : Nat}
    (h : Resolves stmts entries reset) (options : Options) :
    (compile options stmts).module =
      .ok { (programModule "" entries stmts reset).rename options.moduleName with
        functions := [putcharDecl, exitDecl,
          options.optLevel.optimise (mainFunction reset (codeOf entries stmts))] } := by
  rw [h.module_eq, (h.isProgram _).pruneTimes_rounds, programModule_rename ""]

/-! ### Two compilations -/

/-- The modules `m₁` and `m₂` differ as their options say and in nothing else: in their names, and
in that their functions `main`, which are `f₁` and `f₂`, are pruned or not. -/
structure DifferAsChosen (o₁ o₂ : Options) (m₁ m₂ : Module) (f₁ f₂ : Function) : Prop where
  name₁ : m₁.name = o₁.moduleName
  name₂ : m₂.name = o₂.moduleName
  globals : m₁.globals = m₂.globals
  functions₁ : m₁.functions = [putcharDecl, exitDecl, f₁]
  functions₂ : m₂.functions = [putcharDecl, exitDecl, f₂]
  main₁ : m₁.main? = some f₁
  main₂ : m₂.main? = some f₂
  same_level : o₁.optLevel = o₂.optLevel → f₁ = f₂
  pruned : o₁.optLevel = .none → o₂.optLevel = .basic → f₂ = f₁.prune.1

theorem Resolves.differAsChosen {stmts : List Stmt} {entries : EntryPoints} {reset : Nat}
    (h : Resolves stmts entries reset) (o₁ o₂ : Options) :
    ∃ m₁ m₂ f₁ f₂, (compile o₁ stmts).module = .ok m₁ ∧ (compile o₂ stmts).module = .ok m₂ ∧
      DifferAsChosen o₁ o₂ m₁ m₂ f₁ f₂ := by
  have hmain : ∀ options : Options, ∀ m, (compile options stmts).module = .ok m →
      m.main? = m.functions[2]? := by
    intro options m hm
    obtain ⟨f, hf⟩ := isProgram_compile hm
    rw [hf.main?_eq, hf.functions]
    rfl
  have h₁ := h.module_eq_optimise o₁
  have h₂ := h.module_eq_optimise o₂
  refine ⟨_, _, _, _, h₁, h₂, rfl, rfl, rfl, rfl, rfl, hmain o₁ _ h₁, hmain o₂ _ h₂, ?_, ?_⟩
  · intro hlevel
    rw [hlevel]
  · intro hnone hbasic
    rw [hnone, hbasic]
    rfl

/-- **Options change only what they name.** Two compilations of one program have the same warnings
and errors, and they fail with the same error or have modules that differ as chosen. -/
theorem compile_agrees (o₁ o₂ : Options) (stmts : List Stmt) :
    (compile o₁ stmts).warnings = (compile o₂ stmts).warnings ∧
    (compile o₁ stmts).errors = (compile o₂ stmts).errors ∧
    ((∃ e, (compile o₁ stmts).module = .error e ∧ (compile o₂ stmts).module = .error e) ∨
      ∃ m₁ m₂ f₁ f₂, (compile o₁ stmts).module = .ok m₁ ∧ (compile o₂ stmts).module = .ok m₂ ∧
        DifferAsChosen o₁ o₂ m₁ m₂ f₁ f₂) := by
  obtain ⟨herrors₁, hwarnings₁⟩ := diagnostics_eq o₁ stmts
  obtain ⟨herrors₂, hwarnings₂⟩ := diagnostics_eq o₂ stmts
  refine ⟨hwarnings₁.trans hwarnings₂.symm, herrors₁.trans herrors₂.symm, ?_⟩
  rcases compile_cases stmts with ⟨entries, reset, hresolves⟩ | ⟨e, -, hmodule⟩
  · exact .inr (hresolves.differAsChosen o₁ o₂)
  · exact .inl ⟨e, hmodule o₁, hmodule o₂⟩

/-- Another name and pruning, in a program with blocks after that of a handler. -/
theorem compile_agrees_repeatedLabels :
    ∃ m₁ m₂ f₁, (compile { moduleName := "a" } repeatedLabels).module = .ok m₁ ∧
      (compile { moduleName := "b", optLevel := .basic } repeatedLabels).module = .ok m₂ ∧
      m₁.name = "a" ∧ m₂.name = "b" ∧ m₁.globals = m₂.globals ∧
      m₁.main? = some f₁ ∧ m₂.main? = some f₁.prune.1 := by
  obtain ⟨-, -, ⟨e, herror, -⟩ | ⟨m₁, m₂, f₁, f₂, hm₁, hm₂, h⟩⟩ :=
    compile_agrees { moduleName := "a" } { moduleName := "b", optLevel := .basic } repeatedLabels
  · have hok : (compile { moduleName := "a" } repeatedLabels).module.isOk = true := by decide
    rw [herror] at hok
    cases hok
  · refine ⟨m₁, m₂, f₁, hm₁, hm₂, h.name₁, h.name₂, h.globals, h.main₁, ?_⟩
    rw [h.main₂, h.pruned rfl rfl]

end Mos6502
