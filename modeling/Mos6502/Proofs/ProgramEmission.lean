import Mos6502.Proofs.Compilation
import Mos6502.Proofs.Emission

/-!
# Compiled programs can be emitted

The module of a program holds one function that is defined, and this has the slot form with five
slots of one byte, whatever the program is and whether or not it was pruned. So nothing can go
wrong with its types, its values or its stack frame; what is left are names. A symbol whose name
cannot be written is an error like any other, but the name of the module is only looked at when the
object file is written, and then it is too late for an error.

## Main results

* `Module.IsProgram.emit_eq` — the outcome of emitting a program
* `emit_compile` — the same of compiled programs, with the condition under which emitting breaks off
-/

namespace Mos6502

open Native

/-- Is the outcome no error value at all, but the end of the run? -/
def Native.EmitError.isAbort : EmitError → Bool
  | frameTooLarge _ | badModuleName _ | missing => true
  | unsupportedType _ _ | undefinedValue _ | rejected _ | badSymbol _ | frameOverflow _ => false

theorem signature_main {f : IR.Function} (h : { f with blocks := [], locals := [] } = mainDecl) :
    signature f = .ok ([], some .i32) := by
  have hparams : f.params = [] := congrArg IR.Function.params h
  have hret : f.ret = .i32 := congrArg IR.Function.ret h
  rw [signature, hparams, hret]
  rfl

theorem slotTys_entryBlockTo (reset : Nat) :
    IR.slotTys (entryBlockTo reset).insts = [.i8, .i8, .i8, .i1, .i1] := by
  rw [entryBlockTo, insts_entryDraft]
  rfl

namespace IR.Module.IsProgram

variable {m : IR.Module} {f : IR.Function}

/-- The function of a program is emitted. Its five slots take eight bytes each. -/
theorem emitFunction_eq_ok (h : m.IsProgram f) (globals id : Nat) :
    ∃ native, emitFunction globals id f = .ok native ∧ native.isValid = true := by
  obtain ⟨reset, inner, hform⟩ := h.form
  have hframe : frameSizeOf ((slotTys (entryBlockTo reset).insts).map slotSize) = 40 := by
    rw [slotTys_entryBlockTo]
    decide
  refine Native.emitFunction_eq_ok hform (signature_main h.decl) ?_ ?_ globals id
  · rw [hframe]
    decide
  · rw [hframe]
    decide

/-- **Emitting a program.** Only names can be wrong: that of a constant, and else that of the
module. -/
theorem emit_eq (h : m.IsProgram f) :
    ∃ native : Native.Function, native.isValid = true ∧
      emit m =
        match m.globals.find? fun g => !isWritable g.name with
        | some g => .error (.badSymbol g.name)
        | none => if isWritable m.name then .ok [native] else .error (.badModuleName m.name) := by
  obtain ⟨native, hnative, hvalid⟩ := h.emitFunction_eq_ok m.globals.length 2
  refine ⟨native, hvalid, ?_⟩
  have hchecks :
      (m.functions.forM fun f => do let _ ← signature f; checkSymbol f.name) = .ok () := by
    have hmain : (do let _ ← signature f; checkSymbol f.name) = .ok () := by
      have hname : f.name = "main" := congrArg IR.Function.name h.decl
      rw [signature_main h.decl, hname]
      rfl
    rw [h.functions]
    show (do let _ ← signature f; checkSymbol f.name) >>= (fun _ => .ok ()) = .ok ()
    rw [hmain]
    rfl
  have hfunctions : emitFrom m.globals.length 0 m.functions = .ok [native] := by
    have hemitted : emitFrom m.globals.length 2 [f] = .ok [native] := by
      rw [emitFrom, if_neg (by simp [h.isDeclaration_eq_false]), hnative]
      rfl
    rw [h.functions]
    exact hemitted
  rw [emit, forM_checkSymbol IR.Global.name]
  cases m.globals.find? fun g => !isWritable g.name with
  | some g => rfl
  | none =>
    rw [hchecks, hfunctions]
    rfl

end IR.Module.IsProgram

/-- **Compiled programs can be emitted**, as far as their names can be written. What comes out is
one valid function, the name of a constant that cannot be written, or nothing at all: emitting
breaks off if the name of the module is all that cannot be written, and in no other case. -/
theorem emit_compile (options : Options) (stmts : List Stmt) (m : IR.Module)
    (hm : (compile options stmts).module = .ok m) :
    (∃ native : Native.Function, native.isValid = true ∧
      emit m =
        match m.globals.find? fun g => !isWritable g.name with
        | some g => .error (.badSymbol g.name)
        | none =>
          if isWritable options.moduleName then .ok [native]
          else .error (.badModuleName options.moduleName)) ∧
    ((∃ e, emit m = .error e ∧ e.isAbort = true) ↔
      (∀ g ∈ m.globals, isWritable g.name = true) ∧ isWritable options.moduleName = false) := by
  obtain ⟨f, hprogram⟩ := isProgram_compile hm
  obtain ⟨native, hvalid, hemit⟩ := hprogram.emit_eq
  rw [name_compile hm] at hemit
  refine ⟨⟨native, hvalid, hemit⟩, ?_⟩
  rw [hemit]
  cases hbad : m.globals.find? fun g => !isWritable g.name with
  | some g =>
    have hg : isWritable g.name = false := by simpa using List.find?_some hbad
    refine iff_of_false ?_ fun h => ?_
    · rintro ⟨e, ⟨⟩, he⟩
      cases he
    · simp [h.1 g (List.mem_of_find?_eq_some hbad)] at hg
  | none =>
    have hall : ∀ g ∈ m.globals, isWritable g.name = true := by
      simpa using List.find?_eq_none.mp hbad
    cases hname : isWritable options.moduleName with
    | false => exact iff_of_true ⟨_, rfl, rfl⟩ ⟨hall, rfl⟩
    | true =>
      refine iff_of_false ?_ fun h => nomatch h.2
      rintro ⟨e, ⟨⟩, -⟩

/-- A null byte in the name of the module is enough. -/
theorem emit_compile_nullName :
    ∃ m, (compile { moduleName := "a\x00" } repeatedLabels).module = .ok m ∧
      ∃ e, emit m = .error e ∧ e.isAbort = true := by
  have hglobals : (match (compile { moduleName := "a\x00" } repeatedLabels).module with
      | .ok m => m.globals.all fun g => isWritable g.name
      | .error _ => false) = true := by decide
  cases hm : (compile { moduleName := "a\x00" } repeatedLabels).module with
  | error e => simp [hm] at hglobals
  | ok m =>
    rw [hm] at hglobals
    have hall := List.all_eq_true.mp hglobals
    exact ⟨m, rfl, (emit_compile _ repeatedLabels m hm).2.mpr ⟨hall, by decide⟩⟩

end Mos6502
