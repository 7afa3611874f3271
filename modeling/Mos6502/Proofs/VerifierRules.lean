import Mos6502.Proofs.SlotForm

/-!
# The rules that the verifier decides

`Module.WellFormed` says when the verifier finds nothing, in the words of the verifier: a local is
known if it is in a list that was collected before, and types fit if looking for a fault in them
finds none, where a local that does not exist counts as void. Here the same is said by rules that
mention neither a search nor a default. A local that an instruction uses exists and is defined by
some instruction, wherever that stands; operands have the types that the instruction wants; a block
has one terminator, and that is its last instruction.

The default for unknown locals is harmless because void is never asked for: every rule wants a type
that is not void, and such a type is only found at a local that exists.

## Main definitions

* `Value.Denotes` — an operand stands for something
* `Inst.Lawful`, `Function.Lawful`, `Module.Lawful`

## Main results

* `Block.closed_iff`, `Value.isKnown_iff_denotes` — terminators and operands
* `Inst.wellFormed_iff_lawful`, `Function.wellFormed_iff_lawful` — instructions and functions
* `verify_eq_ok_iff_lawful`
-/

namespace Mos6502.IR

/-- The operand stands for something: a constant, a local that exists and that some instruction of
the function defines, or a global that exists. -/
def Value.Denotes (m : Module) (f : Function) : Value → Prop
  | const _ _ => True
  | ofLocal l => l < f.locals.length ∧ ∃ b ∈ f.blocks, ∃ i ∈ b.insts, i.dest? = some l
  | ofGlobal g => g < m.globals.length

/-- The instruction keeps the rules of its kind. -/
inductive Inst.Lawful (f : Function) : Inst → Prop
  | alloca {dest : Nat} {ty : Ty} (hty : ty ≠ .void) : Lawful f (alloca dest ty)
  | load {dest : Nat} {ty : Ty} {ptr : Value} (hptr : f.typeOf? ptr = some .ptr)
      (hty : ty ≠ .void) : Lawful f (load dest ty ptr)
  | store {value ptr : Value} {ty : Ty} (hptr : f.typeOf? ptr = some .ptr)
      (hvalue : f.typeOf? value = some ty) (hty : ty ≠ .void) : Lawful f (store value ptr)
  | binary {dest : Nat} {op : BinOp} {lhs rhs : Value} {ty : Ty} (hty : ty.isInt = true)
      (hlhs : f.typeOf? lhs = some ty) (hrhs : f.typeOf? rhs = some ty)
      (hdest : f.typeOf? (.ofLocal dest) = some ty) : Lawful f (binary dest op lhs rhs)
  | icmp {dest : Nat} {pred : Predicate} {lhs rhs : Value} {ty : Ty} (hty : ty.isInt = true)
      (hlhs : f.typeOf? lhs = some ty) (hrhs : f.typeOf? rhs = some ty)
      (hdest : f.typeOf? (.ofLocal dest) = some .i1) : Lawful f (icmp dest pred lhs rhs)
  | br {target : Nat} (h : target < f.blocks.length) : Lawful f (br target)
  | unreachable : Lawful f unreachable

/-- The function keeps the rules. -/
structure Function.Lawful (m : Module) (f : Function) : Prop where
  names : f.blockNames.Nodup
  terminators : ∀ b ∈ f.blocks,
    b.insts.countP Inst.isTerminator = 1 ∧ b.isTerminated = true
  operands : ∀ b ∈ f.blocks, ∀ i ∈ b.insts, ∀ v ∈ i.operands, v.Denotes m f
  insts : ∀ b ∈ f.blocks, ∀ i ∈ b.insts, i.Lawful f

/-- The module keeps the rules. -/
structure Module.Lawful (m : Module) : Prop where
  symbols : m.symbols.Nodup
  functions : ∀ f ∈ m.functions, f.Lawful m

/-! ### Terminators -/

theorem Block.closed_iff {b : Block} :
    b.Closed ↔ b.insts.countP Inst.isTerminator = 1 ∧ b.isTerminated = true := by
  rw [isTerminated]
  constructor
  · rintro ⟨t, body, hinsts, ht, hbody⟩
    have hnone : body.countP Inst.isTerminator = 0 :=
      List.countP_eq_zero.mpr fun i hi => by simp [hbody i hi]
    simp [hinsts, hnone, ht]
  · rintro ⟨hone, hlast⟩
    split at hlast
    · next t ht =>
      obtain ⟨body, hinsts⟩ := List.getLast?_eq_some_iff.mp ht
      refine ⟨t, body, hinsts, hlast, fun i hi => ?_⟩
      have hnone : body.countP Inst.isTerminator = 0 := by
        simpa [hinsts, hlast] using hone
      simpa using List.countP_eq_zero.mp hnone i hi
    · cases hlast

/-! ### Operands -/

theorem Value.isKnown_iff_denotes {m : Module} {f : Function} {v : Value} :
    v.isKnown m.globals.length f.defined = true ↔ v.Denotes m f := by
  cases v with
  | const ty bits => exact iff_of_true rfl trivial
  | ofGlobal g => exact decide_eq_true_iff
  | ofLocal l =>
    simp only [isKnown, Denotes, Function.defined, List.contains_iff_mem, List.mem_filter,
      List.mem_flatMap, List.mem_filterMap, decide_eq_true_eq]
    exact and_comm

/-! ### Types -/

namespace Function

variable {f : Function} {v : Value} {ty : Ty}

theorem typeOf_of_typeOf? (h : f.typeOf? v = some ty) : f.typeOf v = ty :=
  typeOf_eq ((f.typeOf?_eq v).symm.trans h)

/-- A type other than void is not the default. -/
theorem typeOf?_of_typeOf (h : f.typeOf v = ty) (hty : ty ≠ .void) : f.typeOf? v = some ty := by
  rw [typeOf] at h
  cases hv : f.typeOf? v with
  | none =>
    rw [hv] at h
    exact absurd h.symm hty
  | some ty' => rw [← h, hv, Option.getD_some]

end Function

namespace Inst

variable {f : Function} {i : Inst}

/-- Two tests in a row find no fault if neither of them does. -/
theorem tests_eq_none_iff {p q : Prop} [Decidable p] [Decidable q] {a b : TypeFault} :
    (if p then some a else if q then some b else none) = none ↔ ¬p ∧ ¬q := by
  by_cases hp : p <;> by_cases hq : q <;> simp [hp, hq]

/-- Operands of arithmetic and of comparisons pass their test if they have one integer type. -/
theorem operands_test_iff {lhs rhs : Value} :
    ¬(!(f.typeOf lhs).isInt || decide (f.typeOf lhs ≠ f.typeOf rhs)) = true ↔
      ∃ ty : Ty, ty.isInt = true ∧ f.typeOf? lhs = some ty ∧ f.typeOf? rhs = some ty := by
  have htest : ¬(!(f.typeOf lhs).isInt || decide (f.typeOf lhs ≠ f.typeOf rhs)) = true ↔
      (f.typeOf lhs).isInt = true ∧ f.typeOf lhs = f.typeOf rhs := by
    simp
  rw [htest]
  constructor
  · rintro ⟨hint, hsame⟩
    have hvoid := (Ty.isScalar_of_isInt hint).ne_void
    exact ⟨_, hint, Function.typeOf?_of_typeOf rfl hvoid,
      Function.typeOf?_of_typeOf hsame.symm hvoid⟩
  · rintro ⟨ty, hty, hlhs, hrhs⟩
    rw [Function.typeOf_of_typeOf? hlhs, Function.typeOf_of_typeOf? hrhs]
    exact ⟨hty, rfl⟩

/-- An instruction in which no fault is found keeps the rules. -/
theorem lawful_of_typeFault? (h : i.typeFault? f = none)
    (htarget : ∀ t, i.target? = some t → t < f.blocks.length) : i.Lawful f := by
  cases i with
  | alloca dest ty =>
    refine .alloca fun hty => ?_
    rw [Inst.typeFault?, if_pos hty] at h
    cases h
  | load dest ty ptr =>
    obtain ⟨hptr, hty⟩ := tests_eq_none_iff.mp h
    exact .load (Function.typeOf?_of_typeOf (not_not.mp hptr) (by decide)) hty
  | store value ptr =>
    obtain ⟨hptr, hvalue⟩ := tests_eq_none_iff.mp h
    exact .store (Function.typeOf?_of_typeOf (not_not.mp hptr) (by decide))
      (Function.typeOf?_of_typeOf rfl hvalue) hvalue
  | binary dest op lhs rhs =>
    obtain ⟨hoperands, hresult⟩ := tests_eq_none_iff.mp h
    obtain ⟨ty, hty, hlhs, hrhs⟩ := operands_test_iff.mp hoperands
    have hdest := (not_not.mp hresult).trans (Function.typeOf_of_typeOf? hlhs)
    exact .binary hty hlhs hrhs
      (Function.typeOf?_of_typeOf hdest (Ty.isScalar_of_isInt hty).ne_void)
  | icmp dest pred lhs rhs =>
    obtain ⟨hoperands, hresult⟩ := tests_eq_none_iff.mp h
    obtain ⟨ty, hty, hlhs, hrhs⟩ := operands_test_iff.mp hoperands
    exact .icmp hty hlhs hrhs (Function.typeOf?_of_typeOf (not_not.mp hresult) (by decide))
  | br target => exact .br (htarget target rfl)
  | unreachable => exact .unreachable

/-- No fault is found in an instruction that keeps the rules. -/
theorem Lawful.typeFault? (h : i.Lawful f) : i.typeFault? f = none := by
  cases h with
  | alloca hty => exact if_neg hty
  | load hptr hty =>
    exact tests_eq_none_iff.mpr ⟨not_not.mpr (Function.typeOf_of_typeOf? hptr), hty⟩
  | store hptr hvalue hty =>
    refine tests_eq_none_iff.mpr ⟨not_not.mpr (Function.typeOf_of_typeOf? hptr), ?_⟩
    rwa [Function.typeOf_of_typeOf? hvalue]
  | binary hty hlhs hrhs hdest =>
    refine tests_eq_none_iff.mpr ⟨operands_test_iff.mpr ⟨_, hty, hlhs, hrhs⟩, not_not.mpr ?_⟩
    rw [Function.typeOf_of_typeOf? hdest, Function.typeOf_of_typeOf? hlhs]
  | icmp hty hlhs hrhs hdest =>
    exact tests_eq_none_iff.mpr ⟨operands_test_iff.mpr ⟨_, hty, hlhs, hrhs⟩,
      not_not.mpr (Function.typeOf_of_typeOf? hdest)⟩
  | br _ => rfl
  | unreachable => rfl

theorem Lawful.target_lt (h : i.Lawful f) {t : Nat} (ht : i.target? = some t) :
    t < f.blocks.length := by
  cases h with
  | br hlt =>
    cases ht
    exact hlt
  | _ => cases ht

/-- **One instruction.** -/
theorem wellFormed_iff_lawful {m : Module} :
    i.WellFormed m.globals.length f ↔ (∀ v ∈ i.operands, v.Denotes m f) ∧ i.Lawful f := by
  constructor
  · rintro ⟨hknown, htyped, htarget⟩
    exact ⟨fun v hv => Value.isKnown_iff_denotes.mp (hknown v hv),
      lawful_of_typeFault? htyped htarget⟩
  · rintro ⟨hdenotes, hlawful⟩
    exact ⟨fun v hv => Value.isKnown_iff_denotes.mpr (hdenotes v hv), hlawful.typeFault?,
      fun t ht => hlawful.target_lt ht⟩

end Inst

/-- **One function.** -/
theorem Function.wellFormed_iff_lawful {m : Module} {f : Function} :
    f.WellFormed m.globals.length ↔ f.Lawful m := by
  constructor
  · rintro ⟨hnames, hclosed, hinsts⟩
    exact ⟨hnames, fun b hb => Block.closed_iff.mp (hclosed b hb),
      fun b hb i hi => (Inst.wellFormed_iff_lawful.mp (hinsts b hb i hi)).1,
      fun b hb i hi => (Inst.wellFormed_iff_lawful.mp (hinsts b hb i hi)).2⟩
  · rintro ⟨hnames, hterminators, hoperands, hinsts⟩
    exact ⟨hnames, fun b hb => Block.closed_iff.mpr (hterminators b hb), fun b hb i hi =>
      Inst.wellFormed_iff_lawful.mpr ⟨hoperands b hb i hi, hinsts b hb i hi⟩⟩

/-- **The verifier accepts exactly the modules that keep the rules.** -/
theorem verify_eq_ok_iff_lawful (m : Module) : m.verify = .ok () ↔ m.Lawful := by
  rw [Module.verify_eq_ok_iff]
  constructor
  · rintro ⟨hsymbols, hfunctions⟩
    exact ⟨hsymbols, fun f hf => Function.wellFormed_iff_lawful.mp (hfunctions f hf)⟩
  · rintro ⟨hsymbols, hfunctions⟩
    exact ⟨hsymbols, fun f hf => Function.wellFormed_iff_lawful.mpr (hfunctions f hf)⟩

end Mos6502.IR
