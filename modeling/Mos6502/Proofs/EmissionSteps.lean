import Mos6502.Proofs.Emission

/-!
# What emitting does, step by step

Emitting an instruction either ends in an error or adds a few things to the state: native
instructions, values, a slot, a symbol, a place for a local. `Emit.Step` says what it adds in each
case, as a relation between the states before and after, and `Emit.Walk` follows it through the
blocks of a function. Nothing is assumed of the function here: operands may be anything.

`Emit.Meets` is the judgement behind both. It speaks of the result and of the error at once, so the
same proof that finds out what is added also finds out in which error emitting ends. The reasons are
those of `Emit.StepError`: a type without a native form, a local that is not kept anywhere yet, an
index beyond its table.

## Main definitions

* `Emit.Meets` — what steps come to
* `Emit.Operand`, `Emit.Step`, `Emit.Steps`, `Emit.Walk` — what is added for an operand, an
  instruction, straight-line code, and blocks
* `Emit.OperandError`, `Emit.StepError`, `Emit.StepsError`, `Emit.WalkError` — the errors in which
  each of them can end
* `IR.Inst.Dangling` — an instruction that names something beyond its table

## Main results

* `Emit.inst_meets`, `Emit.blocks_meets` — what emitting an instruction comes to, and blocks
* `walk_of_emitFunction` — the blocks of a function that is emitted are those of a walk
-/

namespace Mos6502

/-- The instruction names a local to define, a global or a block beyond the tables of a function in
a module with so many globals. -/
inductive IR.Inst.Dangling (globals : Nat) (f : IR.Function) : IR.Inst → Prop
  | dest {i : IR.Inst} {d : Nat} (hd : i.dest? = some d) (hlt : f.locals.length ≤ d) :
      Dangling globals f i
  | operand {i : IR.Inst} {g : Nat} (hg : IR.Value.ofGlobal g ∈ i.operands) (hlt : globals ≤ g) :
      Dangling globals f i
  | target {i : IR.Inst} {t : Nat} (ht : i.target? = some t) (hlt : f.blocks.length ≤ t) :
      Dangling globals f i

namespace Native

/-! ### What steps come to -/

namespace Emit

/-- Whatever the steps come to from `s`: `Q` holds of a result and of the state after it, and `E`
of an error. -/
def Meets {α : Type} (x : Emit α) (s : State) (Q : α → State → Prop) (E : EmitError → Prop) :
    Prop :=
  match x.run s with
  | .ok (a, s') => Q a s'
  | .error e => E e

variable {α β : Type} {s : State} {E : EmitError → Prop}

theorem Meets.of_eq {x : Emit α} {a : α} {s' : State} {Q : α → State → Prop}
    (h : x.run s = .ok (a, s')) (hQ : Q a s') : Meets x s Q E := by
  rw [Meets, h]
  exact hQ

theorem Meets.of_error {x : Emit α} {e : EmitError} {Q : α → State → Prop}
    (h : x.run s = .error e) (hE : E e) : Meets x s Q E := by
  rw [Meets, h]
  exact hE

/-- One step after the other. -/
theorem Meets.bind {x : Emit α} {g : α → Emit β} {P : α → State → Prop} {Q : β → State → Prop}
    (hx : Meets x s P E) (hg : ∀ a s', P a s' → Meets (g a) s' Q E) : Meets (x >>= g) s Q E := by
  rw [Meets] at hx ⊢
  rw [StateT.run_bind]
  cases hrun : x.run s with
  | error e =>
    rw [hrun] at hx
    exact hx
  | ok r =>
    rw [hrun] at hx
    exact hg r.1 r.2 hx

theorem Meets.mono {x : Emit α} {P Q : α → State → Prop} {E' : EmitError → Prop}
    (h : Meets x s P E) (hPQ : ∀ a s', P a s' → Q a s') (hE : ∀ e, E e → E' e) :
    Meets x s Q E' := by
  rw [Meets] at h ⊢
  cases hrun : x.run s with
  | error e =>
    rw [hrun] at h
    exact hE e h
  | ok r =>
    rw [hrun] at h
    exact hPQ r.1 r.2 h

theorem Meets.ok {x : Emit α} {Q : α → State → Prop} (h : Meets x s Q E) {a : α} {s' : State}
    (hrun : x.run s = .ok (a, s')) : Q a s' := by
  rwa [Meets, hrun] at h

theorem Meets.error {x : Emit α} {Q : α → State → Prop} (h : Meets x s Q E) {e : EmitError}
    (hrun : x.run s = .error e) : E e := by
  rwa [Meets, hrun] at h

end Emit

/-! ### Changes of the state -/

namespace State

/-- An instruction is added to the block. -/
def add (s : State) (i : Inst) : State :=
  { s with insts := s.insts ++ [i] }

/-- A new value is made by an instruction. -/
def make (s : State) (ty : Ty) (imm : Option Int) (i : (dest : Nat) → Inst) : State :=
  { s with values := s.values ++ [⟨ty, s.block, imm⟩], insts := s.insts ++ [i s.values.length] }

/-- A local is kept at a place from now on. -/
def keep (s : State) (dest : Nat) (place : Storage) : State :=
  { s with storage := s.storage.set dest (some place) }

/-- A symbol is added. -/
def addSymbol (s : State) (global : Nat) : State :=
  { s with symbols := s.symbols ++ [global] }

end State

namespace Emit

/-- What is added for an operand that becomes value `n`. -/
inductive Operand (globals : Nat) (s : State) : IR.Value → (n : Nat) → State → Prop
  /-- Each use of a constant makes a new value. -/
  | const {ty : IR.Ty} {bits : UInt64} {t : Ty} {imm : Int} (hty : Ty.ofIR? ty = some t)
      (himm : imm = (BitVec.ofNat t.width bits.toNat).toInt) :
      Operand globals s (.const ty bits) s.values.length (s.make t (some imm) (.iconst · t imm))
  | value {l n : Nat} (hl : s.storage[l]? = some (some (.value n))) :
      Operand globals s (.ofLocal l) n s
  /-- The address of a slot is made anew. -/
  | slot {l k : Nat} (hl : s.storage[l]? = some (some (.slot k))) :
      Operand globals s (.ofLocal l) s.values.length (s.make .i64 none (.stackAddr · k))
  | global {g : Nat} (hg : g < globals) :
      Operand globals s (.ofGlobal g) s.values.length
        ((s.addSymbol g).make .i64 none (.globalValue · s.symbols.length))

/-- What is added for an instruction. -/
inductive Step (globals : Nat) (f : IR.Function) (s : State) : IR.Inst → State → Prop
  | alloca {dest : Nat} {ty : IR.Ty} (hdest : dest < s.storage.length) :
      Step globals f s (.alloca dest ty)
        ((s.addSlots [ty]).keep dest (.slot s.slots.length))
  /-- The address is a slot itself. -/
  | stackLoad {dest l k : Nat} {ty : IR.Ty} {t : Ty} (hty : Ty.ofIR? ty = some t)
      (hl : s.storage[l]? = some (some (.slot k))) (hdest : dest < s.storage.length) :
      Step globals f s (.load dest ty (.ofLocal l))
        ((s.make t none (.stackLoad · t k)).keep dest (.value s.values.length))
  | load {dest address : Nat} {ty : IR.Ty} {ptr : IR.Value} {t : Ty} {s₁ : State}
      (hty : Ty.ofIR? ty = some t) (haddress : Operand globals s ptr address s₁)
      (hdest : dest < s₁.storage.length) :
      Step globals f s (.load dest ty ptr)
        ((s₁.make t none (.load · t address)).keep dest (.value s₁.values.length))
  /-- The address is a slot itself. -/
  | stackStore {v l k : Nat} {value : IR.Value} {s₁ : State}
      (hvalue : Operand globals s value v s₁) (hl : s₁.storage[l]? = some (some (.slot k))) :
      Step globals f s (.store value (.ofLocal l)) (s₁.add (.stackStore v k))
  | store {v address : Nat} {value ptr : IR.Value} {s₁ s₂ : State}
      (hvalue : Operand globals s value v s₁) (haddress : Operand globals s₁ ptr address s₂) :
      Step globals f s (.store value ptr) (s₂.add (.store v address))
  | binary {dest l r : Nat} {op : IR.BinOp} {lhs rhs : IR.Value} {t : Ty} {s₁ s₂ : State}
      (hlhs : Operand globals s lhs l s₁) (hrhs : Operand globals s₁ rhs r s₂)
      (hdest : dest < s₂.storage.length) :
      Step globals f s (.binary dest op lhs rhs)
        ((s₂.make t none (.binary · op l r)).keep dest (.value s₂.values.length))
  | icmp {dest l r : Nat} {pred : IR.Predicate} {lhs rhs : IR.Value} {s₁ s₂ : State}
      (hlhs : Operand globals s lhs l s₁) (hrhs : Operand globals s₁ rhs r s₂)
      (hdest : dest < s₂.storage.length) :
      Step globals f s (.icmp dest pred lhs rhs)
        ((s₂.make .i8 none (.icmp · pred l r)).keep dest (.value s₂.values.length))
  | br {target : Nat} (ht : target < f.blocks.length) :
      Step globals f s (.br target) (s.add (.jump target))
  | unreachable : Step globals f s .unreachable (s.add .trap)

/-- What is added for instructions, one after the other. -/
def Steps (globals : Nat) (f : IR.Function) : State → List IR.Inst → State → Prop
  | s, [], s' => s' = s
  | s, i :: code, s' => ∃ s₁, Step globals f s i s₁ ∧ Steps globals f s₁ code s'

/-- What is added for blocks, one after the other, and the native blocks they become. -/
def Walk (globals : Nat) (f : IR.Function) :
    State → List IR.Block → List (List Inst) → State → Prop
  | s, [], blocks, s' => blocks = [] ∧ s' = s
  | s, b :: rest, blocks, s' =>
    ∃ s₁ others, Steps globals f { s with insts := [] } b.insts s₁ ∧
      blocks = s₁.insts :: others ∧
      Walk globals f { s₁ with block := s₁.block + 1 } rest others s'

end Emit

/-! ### Errors -/

namespace Emit

/-- The error that emitting an operand ends in. -/
inductive OperandError (globals : Nat) (func : String) (s : State) : IR.Value → EmitError → Prop
  | unsupported {ty : IR.Ty} {bits : UInt64} (hty : Ty.ofIR? ty = none) :
      OperandError globals func s (.const ty bits) (.unsupportedType func ty)
  /-- The local is not kept anywhere yet. -/
  | undefined {l : Nat} (hl : s.storage[l]?.join = none) :
      OperandError globals func s (.ofLocal l) (.undefinedValue func)
  | missing {g : Nat} (hg : globals ≤ g) : OperandError globals func s (.ofGlobal g) .missing

/-- The error that emitting an instruction ends in. -/
inductive StepError (globals : Nat) (f : IR.Function) (s : State) : IR.Inst → EmitError → Prop
  | operand {i : IR.Inst} {v : IR.Value} {e : EmitError} (hv : v ∈ i.operands)
      (h : OperandError globals f.name s v e) : StepError globals f s i e
  | unsupported {dest : Nat} {ty : IR.Ty} {ptr : IR.Value} (hty : Ty.ofIR? ty = none) :
      StepError globals f s (.load dest ty ptr) (.unsupportedType f.name ty)
  | dest {i : IR.Inst} {d : Nat} (hd : i.dest? = some d) (hle : f.locals.length ≤ d) :
      StepError globals f s i .missing
  | target {i : IR.Inst} {t : Nat} (ht : i.target? = some t) (hle : f.blocks.length ≤ t) :
      StepError globals f s i .missing

/-- The error that emitting instructions ends in: some of them are emitted, and the next one ends in
it. -/
def StepsError (globals : Nat) (f : IR.Function) (s : State) (code : List IR.Inst) (e : EmitError) :
    Prop :=
  ∃ before i after s', code = before ++ i :: after ∧ Steps globals f s before s' ∧
    StepError globals f s' i e

/-- The error that emitting blocks ends in: some of them are emitted, and the next one ends in
it. -/
def WalkError (globals : Nat) (f : IR.Function) (s : State) (bs : List IR.Block) (e : EmitError) :
    Prop :=
  ∃ before b after blocks s', bs = before ++ b :: after ∧ Walk globals f s before blocks s' ∧
    StepsError globals f { s' with insts := [] } b.insts e

/-- An index beyond its table is one that the instruction names. -/
theorem StepError.dangling {globals : Nat} {f : IR.Function} {s : State} {i : IR.Inst}
    (h : StepError globals f s i .missing) : i.Dangling globals f := by
  generalize he : EmitError.missing = e at h
  cases h with
  | operand hv h =>
    cases h with
    | missing hg => exact .operand hv hg
    | unsupported | undefined => cases he
  | unsupported => cases he
  | dest hd hle => exact .dest hd hle
  | target ht hle => exact .target ht hle

end Emit

/-! ### Emitting an operand -/

namespace Emit

variable {globals : Nat} {f : IR.Function} {s : State}

theorem run_push (i : Inst) (s : State) : (push i).run s = .ok ((), s.add i) :=
  rfl

theorem run_define (ty : Ty) (imm : Option Int) (i : (dest : Nat) → Inst) (s : State) :
    (define ty imm i).run s = .ok (s.values.length, s.make ty imm i) :=
  rfl

theorem run_setStorage {dest : Nat} (h : dest < s.storage.length) (place : Storage) :
    (setStorage dest place).run s = .ok ((), s.keep dest place) := by
  simp [setStorage, h]
  rfl

theorem run_setStorage_of_le {dest : Nat} (h : s.storage.length ≤ dest) (place : Storage) :
    (setStorage dest place).run s = .error .missing := by
  simp [setStorage, Nat.not_lt.mpr h]
  rfl

theorem nativeTy_meets {E : EmitError → Prop} (func : String) (ty : IR.Ty)
    (hE : Ty.ofIR? ty = none → E (.unsupportedType func ty)) :
    Meets (nativeTy func ty) s (fun t s' => Ty.ofIR? ty = some t ∧ s' = s) E := by
  cases h : Ty.ofIR? ty with
  | none =>
    have hrun : (nativeTy func ty : Emit Ty).run s = .error (.unsupportedType func ty) := by
      rw [nativeTy, h]
      rfl
    exact .of_error hrun (hE h)
  | some t =>
    have hrun : (nativeTy func ty : Emit Ty).run s = .ok (t, s) := by
      rw [nativeTy, h]
      rfl
    exact .of_eq hrun ⟨rfl, rfl⟩

theorem storageOf?_meets (globals : Nat) (func : String) (v : IR.Value) :
    Meets (storageOf? func v) s
      (fun place s' => s' = s ∧ (place = none → ∀ l, v ≠ .ofLocal l) ∧
        ∀ p, place = some p → ∃ l, v = .ofLocal l ∧ s.storage[l]? = some (some p))
      (OperandError globals func s v) := by
  cases v with
  | const | ofGlobal => exact .of_eq (a := none) rfl ⟨rfl, nofun, nofun⟩
  | ofLocal l =>
    cases h : s.storage[l]?.join with
    | none =>
      have hrun : (storageOf? func (.ofLocal l)).run s = .error (.undefinedValue func) := by
        simp [storageOf?, h]
        rfl
      exact .of_error hrun (.undefined h)
    | some p =>
      have hrun : (storageOf? func (.ofLocal l)).run s = .ok (some p, s) := by
        simp [storageOf?, h]
        rfl
      refine .of_eq hrun ⟨rfl, fun hnone => absurd hnone (Option.some_ne_none p), ?_⟩
      rintro _ ⟨⟩
      exact ⟨l, rfl, Option.join_eq_some_iff.mp h⟩

/-- **Emitting an operand.** -/
theorem valueOf_meets (globals : Nat) (func : String) (v : IR.Value) :
    Meets (valueOf globals func v) s (fun n s' => Operand globals s v n s')
      (OperandError globals func s v) := by
  cases v with
  | const ty bits =>
    refine (nativeTy_meets func ty .unsupported).bind ?_
    rintro t _ ⟨hty, rfl⟩
    exact .of_eq (run_define _ _ _ _) (.const hty rfl)
  | ofLocal l =>
    refine (storageOf?_meets globals func _).bind ?_
    rintro place _ ⟨rfl, hnone, hplace⟩
    cases place with
    | none => exact absurd rfl (hnone rfl l)
    | some p =>
      obtain ⟨_, ⟨⟩, hl⟩ := hplace p rfl
      cases p with
      | slot k => exact .of_eq (run_define _ _ _ _) (.slot hl)
      | value n => exact .of_eq rfl (.value hl)
  | ofGlobal g =>
    by_cases hg : g < globals
    · rw [valueOf, if_pos hg]
      exact .of_eq rfl (.global hg)
    · rw [valueOf, if_neg hg]
      exact .of_error rfl (.missing (Nat.not_lt.mp hg))

theorem Operand.storage {v : IR.Value} {n : Nat} {s' : State} (h : Operand globals s v n s') :
    s'.storage = s.storage := by
  cases h <;> rfl

/-- Of the state, only the places of locals matter. -/
theorem OperandError.of_storage_eq {func : String} {v : IR.Value} {e : EmitError} {s' : State}
    (h : OperandError globals func s' v e) (hstorage : s'.storage = s.storage) :
    OperandError globals func s v e := by
  cases h with
  | unsupported hty => exact .unsupported hty
  | undefined hl => exact .undefined (hstorage ▸ hl)
  | missing hg => exact .missing hg

/-- A new local is kept, if there is such a local. -/
theorem setStorage_meets {E : EmitError → Prop} (dest : Nat) (place : Storage)
    (hE : s.storage.length ≤ dest → E .missing) :
    Meets (setStorage dest place) s
      (fun _ s' => dest < s.storage.length ∧ s' = s.keep dest place) E := by
  by_cases h : dest < s.storage.length
  · exact .of_eq (run_setStorage h place) ⟨h, rfl⟩
  · have hle := Nat.not_lt.mp h
    exact .of_error (run_setStorage_of_le hle place) (hE hle)

/-- A local becomes a new value, if there is such a local. -/
theorem defineLocal_meets {E : EmitError → Prop} (ty : Ty) (i : (dest : Nat) → Inst) (dest : Nat)
    (hE : s.storage.length ≤ dest → E .missing) :
    Meets (do let v ← define ty none i; setStorage dest (.value v)) s
      (fun _ s' => dest < s.storage.length ∧
        s' = (s.make ty none i).keep dest (.value s.values.length)) E := by
  have hdefine : Meets (define ty none i) s
      (fun n s' => n = s.values.length ∧ s' = s.make ty none i) E :=
    .of_eq (run_define ty none i s) ⟨rfl, rfl⟩
  refine hdefine.bind ?_
  rintro _ _ ⟨rfl, rfl⟩
  exact setStorage_meets dest _ hE

/-! ### Emitting an instruction -/

/-- An operand of an instruction, emitted when other operands may already have been. -/
theorem operand_meets {v : IR.Value} {i : IR.Inst} {s' : State} (hv : v ∈ i.operands)
    (hstorage : s'.storage = s.storage) :
    Meets (valueOf globals f.name v) s' (fun n s'' => Operand globals s' v n s'')
      (StepError globals f s i) :=
  (valueOf_meets globals f.name v).mono (fun _ _ h => h) fun _ he =>
    .operand hv (he.of_storage_eq hstorage)

/-- The place of an address, looked up when other operands may already have been emitted. -/
theorem address_meets {v : IR.Value} {i : IR.Inst} {s' : State} (hv : v ∈ i.operands)
    (hstorage : s'.storage = s.storage) :
    Meets (storageOf? f.name v) s'
      (fun place s'' => s'' = s' ∧
        ∀ p, place = some p → ∃ l, v = .ofLocal l ∧ s'.storage[l]? = some (some p))
      (StepError globals f s i) :=
  (storageOf?_meets globals f.name v).mono (fun _ _ h => ⟨h.1, h.2.2⟩) fun _ he =>
    .operand hv (he.of_storage_eq hstorage)

/-- **Emitting an instruction.** What is added is what `Step` says, and an error is one of those
that `StepError` names. -/
theorem inst_meets (globals : Nat) (hlength : s.storage.length = f.locals.length) (i : IR.Inst) :
    Meets (inst globals f i) s (fun _ s' => Step globals f s i s') (StepError globals f s i) := by
  have hmissing : ∀ {d : Nat} {s' : State}, i.dest? = some d → s'.storage = s.storage →
      s'.storage.length ≤ d → StepError globals f s i .missing := by
    intro d s' hd hstorage hle
    rw [hstorage, hlength] at hle
    exact .dest hd hle
  cases i with
  | alloca dest ty =>
    refine (setStorage_meets (s := s.addSlots [ty]) dest _ (hmissing rfl rfl)).mono ?_ fun _ h => h
    rintro _ _ ⟨hdest, rfl⟩
    exact .alloca hdest
  | load dest ty ptr =>
    refine (nativeTy_meets f.name ty .unsupported).bind ?_
    rintro t _ ⟨hty, rfl⟩
    refine (address_meets (by simp [IR.Inst.operands]) rfl).bind ?_
    rintro place _ ⟨rfl, hplace⟩
    split
    · next k =>
      obtain ⟨l, rfl, hl⟩ := hplace _ rfl
      refine (defineLocal_meets t (.stackLoad · t k) dest (hmissing rfl rfl)).mono ?_ fun _ h => h
      rintro _ _ ⟨hdest, rfl⟩
      exact .stackLoad hty hl hdest
    · refine (operand_meets (by simp [IR.Inst.operands]) rfl).bind ?_
      intro address s₁ haddress
      refine (defineLocal_meets t (.load · t address) dest
        (hmissing rfl haddress.storage)).mono ?_ fun _ h => h
      rintro _ _ ⟨hdest, rfl⟩
      exact .load hty haddress hdest
  | store value ptr =>
    refine (operand_meets (by simp [IR.Inst.operands]) rfl).bind ?_
    intro v s₁ hvalue
    refine (address_meets (by simp [IR.Inst.operands]) hvalue.storage).bind ?_
    rintro place _ ⟨rfl, hplace⟩
    split
    · next k =>
      obtain ⟨l, rfl, hl⟩ := hplace _ rfl
      exact .of_eq (run_push _ _) (.stackStore hvalue hl)
    · refine (operand_meets (by simp [IR.Inst.operands]) hvalue.storage).bind ?_
      intro address s₂ haddress
      exact .of_eq (run_push _ _) (.store hvalue haddress)
  | binary dest op lhs rhs =>
    refine (operand_meets (by simp [IR.Inst.operands]) rfl).bind ?_
    intro l s₁ hlhs
    refine (operand_meets (by simp [IR.Inst.operands]) hlhs.storage).bind ?_
    intro r s₂ hrhs
    have htype : Meets (typeOf l) s₂ (fun _ s' => s' = s₂)
        (StepError globals f s (.binary dest op lhs rhs)) := .of_eq rfl rfl
    refine htype.bind ?_
    rintro t _ rfl
    refine (defineLocal_meets t (.binary · op l r) dest
      (hmissing rfl (hrhs.storage.trans hlhs.storage))).mono ?_ fun _ h => h
    rintro _ _ ⟨hdest, rfl⟩
    exact .binary hlhs hrhs hdest
  | icmp dest pred lhs rhs =>
    refine (operand_meets (by simp [IR.Inst.operands]) rfl).bind ?_
    intro l s₁ hlhs
    refine (operand_meets (by simp [IR.Inst.operands]) hlhs.storage).bind ?_
    intro r s₂ hrhs
    refine (defineLocal_meets .i8 (.icmp · pred l r) dest
      (hmissing rfl (hrhs.storage.trans hlhs.storage))).mono ?_ fun _ h => h
    rintro _ _ ⟨hdest, rfl⟩
    exact .icmp hlhs hrhs hdest
  | br target =>
    rw [inst]
    by_cases ht : target < f.blocks.length
    · rw [if_pos ht]
      exact .of_eq (run_push _ _) (.br ht)
    · rw [if_neg ht]
      exact .of_error rfl (.target rfl (Nat.not_lt.mp ht))
  | unreachable => exact .of_eq (run_push _ _) .unreachable

theorem Step.length_storage {i : IR.Inst} {s' : State} (h : Step globals f s i s') :
    s'.storage.length = s.storage.length := by
  cases h with
  | alloca | stackLoad => simp [State.keep, State.make, State.addSlots]
  | load _ ha => simp [State.keep, State.make, ha.storage]
  | stackStore hv => simp [State.add, hv.storage]
  | store hv ha => simp [State.add, hv.storage, ha.storage]
  | binary hl hr | icmp hl hr => simp [State.keep, State.make, hl.storage, hr.storage]
  | br | unreachable => rfl

/-! ### Emitting code and blocks -/

theorem StepsError.cons {i : IR.Inst} {code : List IR.Inst} {e : EmitError} {s₁ : State}
    (hstep : Step globals f s i s₁) (h : StepsError globals f s₁ code e) :
    StepsError globals f s (i :: code) e := by
  obtain ⟨before, j, after, s', rfl, hsteps, herror⟩ := h
  exact ⟨i :: before, j, after, s', rfl, ⟨s₁, hstep, hsteps⟩, herror⟩

/-- **Emitting code**, one instruction after the other. -/
theorem code_meets (globals : Nat) (code : List IR.Inst) {s : State}
    (hlength : s.storage.length = f.locals.length) :
    Meets (code.forM (inst globals f)) s
      (fun _ s' => Steps globals f s code s' ∧ s'.storage.length = f.locals.length)
      (StepsError globals f s code) := by
  induction code generalizing s with
  | nil => exact .of_eq rfl ⟨rfl, hlength⟩
  | cons i code ih =>
    refine Meets.bind ((inst_meets globals hlength i).mono (fun _ _ h => h) fun _ he => ?_)
      fun _ s₁ hstep => ?_
    · exact ⟨[], i, code, s, rfl, rfl, he⟩
    refine (ih (hstep.length_storage.trans hlength)).mono ?_ fun _ he => he.cons hstep
    rintro _ s₂ ⟨hrest, hlength'⟩
    exact ⟨⟨s₁, hstep, hrest⟩, hlength'⟩

theorem block_meets (globals : Nat) (b : IR.Block)
    (hlength : s.storage.length = f.locals.length) :
    Meets (block globals f b) s
      (fun insts s' => ∃ s₁, Steps globals f { s with insts := [] } b.insts s₁ ∧
        insts = s₁.insts ∧ s' = { s₁ with block := s₁.block + 1 } ∧
        s₁.storage.length = f.locals.length)
      (StepsError globals f { s with insts := [] } b.insts) := by
  have hclear : Meets (modify fun s => { s with insts := [] }) s
      (fun _ s' => s' = { s with insts := [] })
      (StepsError globals f { s with insts := [] } b.insts) := .of_eq rfl rfl
  refine hclear.bind ?_
  rintro _ _ rfl
  refine (code_meets globals b.insts (s := { s with insts := [] }) hlength).bind ?_
  rintro _ s₁ ⟨hsteps, hlength'⟩
  exact .of_eq rfl ⟨s₁, hsteps, rfl, rfl, hlength'⟩

/-- **Emitting blocks**, one after the other. -/
theorem blocks_meets (globals : Nat) (bs : List IR.Block) {s : State}
    (hlength : s.storage.length = f.locals.length) :
    Meets (bs.mapM (block globals f)) s (fun blocks s' => Walk globals f s bs blocks s')
      (WalkError globals f s bs) := by
  induction bs generalizing s with
  | nil => exact .of_eq rfl ⟨rfl, rfl⟩
  | cons b bs ih =>
    rw [List.mapM_cons]
    refine Meets.bind ((block_meets globals b hlength).mono (fun _ _ h => h) fun _ he => ?_) ?_
    · exact ⟨[], b, bs, [], s, rfl, ⟨rfl, rfl⟩, he⟩
    rintro _ _ ⟨s₁, hsteps, rfl, rfl, hlength'⟩
    refine Meets.bind ((ih (s := { s₁ with block := s₁.block + 1 }) hlength').mono
      (fun _ _ h => h) ?_) fun others s₂ hwalk => ?_
    · rintro e ⟨before, c, after, blocks, s', rfl, hwalk, herror⟩
      exact ⟨b :: before, c, after, s₁.insts :: blocks, s', rfl,
        ⟨s₁, blocks, hsteps, rfl, hwalk⟩, herror⟩
    exact .of_eq rfl ⟨s₁, others, hsteps, rfl, hwalk⟩

end Emit

/-! ### Emitting a function -/

/-- The state in which the first block of a function is emitted. -/
def State.start (f : IR.Function) (params : List Ty) : State :=
  { storage := List.replicate f.locals.length none
    values := params.map fun t => ⟨t, 0, none⟩ }

/-- A native function that is emitted is valid, and its slots fit on the stack. -/
theorem emitFunction_eq {f : IR.Function} {params : List Ty} {ret : Option Ty}
    (hsignature : signature f = .ok (params, ret)) (globals id : Nat) :
    emitFunction globals id f =
      match (f.blocks.mapM (Emit.block globals f)).run (.start f params) with
      | .error e => .error e
      | .ok (blocks, s) =>
        let native : Function :=
          { id, params, ret, slots := s.slots, symbols := s.symbols, values := s.values, blocks }
        if !native.isValid then .error (.rejected f.name)
        else if UInt32.size ≤ native.frameSize then .error (.frameOverflow f.name)
        else if UInt32.size / 2 ≤ roundUp 16 native.frameSize then .error (.frameTooLarge f.name)
        else .ok native := by
  rw [emitFunction, hsignature]
  show (f.blocks.mapM (Emit.block globals f)).run (.start f params) >>= _ = _
  cases (f.blocks.mapM (Emit.block globals f)).run (.start f params) with
  | error e => rfl
  | ok r =>
    obtain ⟨blocks, s⟩ := r
    simp only [bind, Except.bind]
    split
    · rfl
    · split
      · rfl
      · split <;> rfl

theorem length_storage_start (f : IR.Function) (params : List Ty) :
    (State.start f params).storage.length = f.locals.length :=
  List.length_replicate

theorem emitFunction_of_signature_error {f : IR.Function} {e : EmitError}
    (h : signature f = .error e) (globals id : Nat) : emitFunction globals id f = .error e := by
  rw [emitFunction, h]
  rfl

/-- **Emitting a function.** Its blocks are those of a walk, and so are its slots. -/
theorem walk_of_emitFunction {globals id : Nat} {f : IR.Function} {native : Function}
    (h : emitFunction globals id f = .ok native) :
    ∃ params s, Emit.Walk globals f (.start f params) f.blocks native.blocks s ∧
      native.slots = s.slots := by
  cases hsignature : signature f with
  | error e =>
    rw [emitFunction_of_signature_error hsignature] at h
    cases h
  | ok r =>
    obtain ⟨params, ret⟩ := r
    have hwalk := Emit.blocks_meets globals f.blocks (length_storage_start f params)
    rw [emitFunction_eq hsignature] at h
    cases hrun : (f.blocks.mapM (Emit.block globals f)).run (.start f params) with
    | error e =>
      rw [hrun] at h
      cases h
    | ok r =>
      obtain ⟨blocks, s⟩ := r
      simp only [hrun] at h
      split at h
      · cases h
      · split at h
        · cases h
        · split at h
          · cases h
          · cases h
            exact ⟨params, s, hwalk.ok hrun, rfl⟩

end Native

end Mos6502
