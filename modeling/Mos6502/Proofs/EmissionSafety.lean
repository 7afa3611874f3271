import Mos6502.Proofs.EmissionSteps

/-!
# Which modules make emitting break off

Emitting looks up locals, globals and blocks by the numbers that a module gives for them. It breaks
off where such a number lies beyond its table. Here this is traced back to the module: some
instruction defines a local, uses a global or goes to a block that is not there.

The verifier rules out nearly all of that. It checks every operand and every target, and the type
of a result, so that arithmetic and comparisons define locals that exist. It does not look at the
destination of a slot or of a load, and these two are what is left.

## Main results

* `emit_ne_missing` — a module in which nothing dangles does not make emitting break off
* `Inst.Dangling.unchecked` — what can dangle in a function that verifies
* `unchecked_of_emit_missing` — a module that verifies breaks off at a slot or at a load only
-/

namespace Mos6502

namespace Native

/-! ### Emitting a module in which nothing dangles -/

/-- Steps break off only if one of them does. -/
theorem bind_ne_missing {α β : Type} {x : Except EmitError α} {g : α → Except EmitError β}
    (hx : x ≠ .error .missing) (hg : ∀ a, g a ≠ .error .missing) :
    x >>= g ≠ .error .missing := by
  cases x with
  | error e => exact fun h => hx (congrArg Except.error (Except.error.inj h))
  | ok a => exact hg a

theorem mapM_ne_missing {α β : Type} {g : α → Except EmitError β}
    (hg : ∀ a, g a ≠ .error .missing) (xs : List α) : xs.mapM g ≠ .error .missing := by
  induction xs with
  | nil => exact nofun
  | cons x xs ih =>
    rw [List.mapM_cons]
    exact bind_ne_missing (hg x) fun _ => bind_ne_missing ih fun _ => nofun

theorem forM_ne_missing {α : Type} {g : α → Except EmitError Unit}
    (hg : ∀ a, g a ≠ .error .missing) (xs : List α) : xs.forM g ≠ .error .missing := by
  induction xs with
  | nil => exact nofun
  | cons x xs ih => exact bind_ne_missing (hg x) fun _ => ih

theorem nativeTy_ne_missing (func : String) (ty : IR.Ty) : nativeTy func ty ≠ .error .missing := by
  unfold nativeTy
  split <;> exact nofun

theorem checkSymbol_ne_missing (name : String) : checkSymbol name ≠ .error .missing := by
  unfold checkSymbol
  split <;> exact nofun

/-- A signature has no numbers in it. -/
theorem signature_ne_missing (f : IR.Function) : signature f ≠ .error .missing := by
  refine bind_ne_missing (mapM_ne_missing (nativeTy_ne_missing f.name) f.params) fun params => ?_
  by_cases hvoid : f.ret = .void
  · rw [if_pos hvoid]
    exact nofun
  · rw [if_neg hvoid]
    exact bind_ne_missing (nativeTy_ne_missing f.name f.ret) fun _ => nofun

theorem emitFunction_ne_missing {globals : Nat} {f : IR.Function}
    (h : ∀ b ∈ f.blocks, ∀ i ∈ b.insts, ¬i.Dangling globals f) (id : Nat) :
    emitFunction globals id f ≠ .error .missing := by
  cases hsignature : signature f with
  | error e =>
    rw [emitFunction_of_signature_error hsignature]
    rintro ⟨⟩
    exact signature_ne_missing f hsignature
  | ok r =>
    have hblocks := Emit.blocks_meets globals f.blocks (length_storage_start f r.1)
    rw [emitFunction_eq hsignature]
    cases hrun : (f.blocks.mapM (Emit.block globals f)).run (.start f r.1) with
    | error e =>
      rintro ⟨⟩
      obtain ⟨_, b, _, _, _, hblock, -, _, i, _, _, hinst, -, herror⟩ := hblocks.error hrun
      exact h b (by simp [hblock]) i (by simp [hinst]) herror.dangling
    | ok r' =>
      -- what is checked once the blocks are there has errors of its own
      dsimp only
      repeat' split
      all_goals exact nofun

theorem emitFrom_ne_missing {globals : Nat} {fs : List IR.Function}
    (h : ∀ f ∈ fs, ∀ b ∈ f.blocks, ∀ i ∈ b.insts, ¬i.Dangling globals f) (id : Nat) :
    emitFrom globals id fs ≠ .error .missing := by
  induction fs generalizing id with
  | nil => exact nofun
  | cons f fs ih =>
    obtain ⟨hf, hfs⟩ := List.forall_mem_cons.mp h
    rw [emitFrom]
    by_cases hdecl : f.isDeclaration
    · rw [if_pos hdecl]
      exact ih hfs (id + 1)
    · rw [if_neg hdecl]
      refine bind_ne_missing (emitFunction_ne_missing hf id) fun _ => ?_
      exact bind_ne_missing (ih hfs (id + 1)) fun _ => nofun

/-- **Emitting does not break off** at an index if no instruction names something that is not
there. -/
theorem emit_ne_missing {m : IR.Module}
    (h : ∀ f ∈ m.functions, ∀ b ∈ f.blocks, ∀ i ∈ b.insts, ¬i.Dangling m.globals.length f) :
    emit m ≠ .error .missing := by
  have hglobals := forM_ne_missing (fun g : IR.Global => checkSymbol_ne_missing g.name) m.globals
  have hfunction : ∀ f : IR.Function,
      (do let _ ← signature f; checkSymbol f.name) ≠ .error .missing := fun f =>
    bind_ne_missing (signature_ne_missing f) fun _ => checkSymbol_ne_missing f.name
  rw [emit]
  refine bind_ne_missing hglobals fun _ => ?_
  refine bind_ne_missing (forM_ne_missing hfunction m.functions) fun _ => ?_
  refine bind_ne_missing (emitFrom_ne_missing h 0) fun _ => ?_
  split <;> exact nofun

end Native

/-! ### What the verifier leaves -/

namespace IR

/-- The destination of a slot or of a load, which the verifier does not look at. -/
def Inst.uncheckedDest? : Inst → Option Nat
  | alloca dest _ | load dest _ _ => some dest
  | store _ _ | binary _ _ _ _ | icmp _ _ _ _ | br _ | unreachable => none

/-- A local that does not exist has no type of integers. -/
theorem Function.lt_of_isInt_typeOf {f : Function} {d : Nat}
    (h : (f.typeOf (.ofLocal d)).isInt = true) : d < f.locals.length := by
  by_contra hge
  have hvoid : f.typeOf (.ofLocal d) = .void := by
    rw [typeOf, typeOf?, List.getElem?_eq_none (Nat.not_lt.mp hge)]
    rfl
  rw [hvoid] at h
  cases h

/-- The result of arithmetic has the type of its operands, and a comparison yields a bit; both are
integers. -/
theorem Inst.isInt_dest_of_typeFault? {f : Function} {i : Inst} (h : i.typeFault? f = none)
    {d : Nat} (hd : i.dest? = some d) (hchecked : i.uncheckedDest? = none) :
    (f.typeOf (.ofLocal d)).isInt = true := by
  cases i with
  | alloca | load => cases hchecked
  | store | br | unreachable => cases hd
  | binary dest op lhs rhs =>
    cases hd
    rw [typeFault?] at h
    split at h
    · cases h
    · next hops =>
      split at h
      · cases h
      · next hresult =>
        rw [not_not.mp hresult]
        simp only [Bool.or_eq_true, not_or, Bool.not_eq_true'] at hops
        exact Bool.of_not_eq_false hops.1
  | icmp dest pred lhs rhs =>
    cases hd
    rw [typeFault?] at h
    split at h
    · cases h
    · split at h
      · cases h
      · next hresult =>
        rw [not_not.mp hresult]
        rfl

/-- **In a well-formed function** nothing but the destination of a slot or of a load can be
missing. -/
theorem Inst.Dangling.unchecked {globals : Nat} {f : Function} {i : Inst}
    (h : i.Dangling globals f) (hi : i.WellFormed globals f) :
    ∃ d, i.uncheckedDest? = some d ∧ f.locals.length ≤ d := by
  cases h with
  | operand hg hle =>
    have hlt : _ < globals := of_decide_eq_true (hi.known _ hg)
    exact absurd hle (Nat.not_le.mpr hlt)
  | target ht hle => exact absurd hle (Nat.not_le.mpr (hi.target _ ht))
  | dest hd hle =>
    cases hchecked : i.uncheckedDest? with
    | none =>
      have hint := isInt_dest_of_typeFault? hi.typed hd hchecked
      exact absurd hle (Nat.not_le.mpr (Function.lt_of_isInt_typeOf hint))
    | some d =>
      have heq : i.dest? = some d := by
        cases i <;> first | exact hchecked | cases hchecked
      rw [hd] at heq
      cases heq
      exact ⟨_, rfl, hle⟩

end IR

open Native

/-- **Modules that verify** break off only at a slot or at a load whose destination is no local of
the function. Every other index lies within its table. -/
theorem unchecked_of_emit_missing (m : IR.Module) (hverify : m.verify = .ok ())
    (hmissing : emit m = .error .missing) :
    ∃ f ∈ m.functions, ∃ b ∈ f.blocks, ∃ i ∈ b.insts, ∃ d,
      i.uncheckedDest? = some d ∧ f.locals.length ≤ d := by
  have hwell := (IR.Module.verify_eq_ok_iff.mp hverify).functions
  by_contra hnone
  refine emit_ne_missing (fun f hf b hb i hi hdangling => hnone ?_) hmissing
  exact ⟨f, hf, b, hb, i, hi, hdangling.unchecked ((hwell f hf).insts b hb i hi)⟩

/-- A function with a slot whose local was taken away again. -/
def lostLocal : IR.Module :=
  { name := "test"
    functions := [{ name := "f", ret := .i32, params := [], linkage := .external
                    blocks := [{ name := "Entry", insts := [.alloca 0 .i8, .unreachable] }] }] }

theorem unchecked_of_emit_missing_lostLocal :
    lostLocal.verify = .ok () ∧ emit lostLocal = .error .missing ∧
      ∃ f ∈ lostLocal.functions, ∃ b ∈ f.blocks, ∃ i ∈ b.insts, ∃ d,
        i.uncheckedDest? = some d ∧ f.locals.length ≤ d := by
  have hverify : lostLocal.verify = .ok () := by decide
  have hmissing : emit lostLocal = .error .missing := by decide
  exact ⟨hverify, hmissing, unchecked_of_emit_missing lostLocal hverify hmissing⟩

end Mos6502
