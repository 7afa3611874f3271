import Mos6502.Proofs.Construction
import Mos6502.Proofs.EarlyUses

/-!
# Single assignment

Locals and the instructions that define them stand in two tables, and nothing in the
representation ties the two together: an instruction names its destination by index, and the type
of a local is whatever was recorded for it. Every call of the builder extends both tables at once.
So a function that was made by such calls only, whatever their order and whichever blocks they were
made on, defines each of its locals once, and with the recorded type.

What arithmetic yields has the type of its left operand, and that type is looked up when the call is
made. A local which does not exist by then counts as void, and may turn out to be something else
later. That is why a call has to keep to values that calls before it returned.

## Main definitions

* `Inst.resultTy?` — the type of what an instruction computes
* `Function.SingleAssignment` — each local is defined once, with the type that is recorded
* `Function.UsesReturned` — calls use what calls before them returned

## Main results

* `Function.perm_instsOf_built` — the code of a function after one more call
* `Function.SingleAssignment.built` — one call of the builder keeps the form
* `Function.calls?_keep_singleAssignment` — functions that are built call by call
-/

namespace Mos6502.IR

/-! ### The form -/

/-- The type of what an instruction computes. -/
def Inst.resultTy? (f : Function) : Inst → Option Ty
  | alloca _ _ => some .ptr
  | load _ ty _ => some ty
  | binary _ _ lhs _ => f.typeOf? lhs
  | icmp _ _ _ _ => some .i1
  | store _ _ | br _ | unreachable => none

/-- Each local is the destination of one instruction, and the type that is recorded for it is the
type of what that instruction computes. -/
structure Function.SingleAssignment (f : Function) : Prop where
  dests : (dests (instsOf f.blocks)).Perm (List.range f.locals.length)
  types : ∀ i ∈ instsOf f.blocks, ∀ d ∈ i.dest?,
    ∃ ty, f.typeOf? (.ofLocal d) = some ty ∧ i.resultTy? f = some ty

/-- The values that a call uses. -/
def Build.Call.operands (c : Build.Call) : List Value :=
  (c.inst 0).operands

/-- The values that a call uses. -/
def Function.Call.operands : Call → List Value
  | appendBlock _ => []
  | build _ c => c.operands

/-- Every local that a call uses is among those returned before, by earlier calls or by the ones
that led up to here. -/
def Function.UsesReturned (f : Function) (returned : List Value) : List Call → Prop
  | [] => True
  | c :: cs =>
    (∀ l, Value.ofLocal l ∈ c.operands → .ofLocal l ∈ returned) ∧
      ∀ v f', f.call? c = some (v, f') → f'.UsesReturned (returned ++ v.toList) cs

/-! ### Types that were recorded stay -/

namespace Function.Grows

variable {f f' : Function}

theorem typeOf?_eq (h : f.Grows f') {v : Value} {ty : Ty} (hty : f.typeOf? v = some ty) :
    f'.typeOf? v = some ty := by
  obtain ⟨more, hlocals⟩ := h.locals
  rw [Function.typeOf?_eq] at hty ⊢
  rw [← hlocals]
  exact Value.tyIn?_append hty more

theorem resultTy?_eq (h : f.Grows f') {i : Inst} {ty : Ty} (hty : i.resultTy? f = some ty) :
    i.resultTy? f' = some ty := by
  cases i with
  | binary => exact h.typeOf?_eq hty
  | alloca | load | store | icmp | br | unreachable => exact hty

end Function.Grows

/-! ### One call -/

/-- An instruction at the end of a block is one more instruction of the function. -/
theorem Function.perm_instsOf_built {f : Function} {block : Nat} {b : Block}
    (hb : f.blocks[block]? = some b) (c : Build.Call) :
    (instsOf (f.built block b c).blocks).Perm (instsOf f.blocks ++ [c.inst f.locals.length]) := by
  obtain ⟨hlt, hget⟩ := List.getElem?_eq_some_iff.mp hb
  let b' : Block := { b with insts := b.insts ++ [c.inst f.locals.length] }
  obtain ⟨before, after, hblocks, -, hset⟩ :
      ∃ before after, f.blocks = before ++ f.blocks[block] :: after ∧ before.length = block ∧
        f.blocks.set block b' = before ++ b' :: after := List.exists_of_set hlt
  rw [hget] at hblocks
  have hbuilt : (f.built block b c).blocks = before ++ b' :: after := hset
  rw [hbuilt, hblocks]
  simp only [instsOf, List.flatMap_append, List.flatMap_cons, List.append_assoc, b']
  exact ((List.perm_append_comm).append_left _).append_left _

namespace Function

theorem instsOf_appendBlock (f : Function) (name : String) :
    instsOf (f.appendBlock name).blocks = instsOf f.blocks := by
  simp [instsOf, appendBlock]

theorem length_locals_built (f : Function) (block : Nat) (b : Block) (c : Build.Call) :
    (f.built block b c).locals.length = f.locals.length + (c.newLocal? f.locals).toList.length :=
  List.length_append

namespace SingleAssignment

variable {f : Function}

theorem of_empty (hblocks : f.blocks = []) (hlocals : f.locals = []) : f.SingleAssignment where
  dests := by
    rw [hblocks, hlocals]
    exact .refl _
  types := by
    rw [hblocks]
    exact fun i hi => absurd hi List.not_mem_nil

theorem appendBlock (h : f.SingleAssignment) (name : String) :
    (f.appendBlock name).SingleAssignment where
  dests := by
    rw [instsOf_appendBlock]
    exact h.dests
  types := by
    rw [instsOf_appendBlock]
    intro i hi d hd
    obtain ⟨ty, hdest, hresult⟩ := h.types i hi d hd
    have hgrows := f.grows_appendBlock name
    exact ⟨ty, hgrows.typeOf?_eq hdest, hgrows.resultTy?_eq hresult⟩

/-- The destinations after one more call: those before it, and the new local if there is one. -/
theorem perm_dests_built (h : f.SingleAssignment) {block : Nat} {b : Block}
    (hb : f.blocks[block]? = some b) (c : Build.Call) :
    (IR.dests (instsOf (f.built block b c).blocks)).Perm
      (List.range (f.built block b c).locals.length) := by
  have hinsts : (IR.dests (instsOf (f.built block b c).blocks)).Perm
      (IR.dests (instsOf f.blocks) ++ IR.dests [c.inst f.locals.length]) := by
    rw [← dests_append]
    exact (perm_instsOf_built hb c).filterMap _
  refine hinsts.trans ((h.dests.append_right _).trans (.of_eq ?_))
  rw [length_locals_built, dests_cons, c.dest?_inst]
  cases c.newLocal? f.locals with
  | none => simp [IR.dests]
  | some l => simp [IR.dests, List.range_succ]

end SingleAssignment

/-- The type that is recorded for the local of a call is that of what its instruction computes, if
the operands exist. -/
theorem resultTy?_inst {f : Function} {c : Build.Call} {l : Local}
    (hl : c.newLocal? f.locals = some l)
    (hknown : ∀ k, Value.ofLocal k ∈ c.operands → k < f.locals.length) :
    (c.inst f.locals.length).resultTy? f = some l.ty := by
  cases c with
  | alloca | load | icmp =>
    cases hl
    rfl
  | store | br | unreachable => cases hl
  | binary op lhs rhs =>
    cases hl
    have hty : ∃ ty, lhs.tyIn? f.locals = some ty := by
      cases lhs with
      | const ty _ => exact ⟨ty, rfl⟩
      | ofGlobal => exact ⟨.ptr, rfl⟩
      | ofLocal k =>
        have hlt : k < f.locals.length := hknown k List.mem_cons_self
        exact ⟨f.locals[k].ty, by rw [Value.tyIn?, List.getElem?_eq_getElem hlt]; rfl⟩
    obtain ⟨ty, hty⟩ := hty
    rw [Build.Call.inst, Inst.resultTy?, typeOf?_eq, hty, Option.getD_some]

/-- **One call of the builder** keeps the form. -/
theorem SingleAssignment.built {f : Function} (h : f.SingleAssignment) {block : Nat} {b : Block}
    (hb : f.blocks[block]? = some b) {c : Build.Call}
    (hknown : ∀ k, Value.ofLocal k ∈ c.operands → k < f.locals.length) :
    (f.built block b c).SingleAssignment where
  dests := h.perm_dests_built hb c
  types := by
    have hgrows := grows_built hb c
    intro i hi d hd
    rcases List.mem_append.mp ((perm_instsOf_built hb c).mem_iff.mp hi) with hi | hi
    · obtain ⟨ty, hdest, hresult⟩ := h.types i hi d hd
      exact ⟨ty, hgrows.typeOf?_eq hdest, hgrows.resultTy?_eq hresult⟩
    · rw [List.mem_singleton.mp hi] at hd ⊢
      rw [c.dest?_inst] at hd
      obtain ⟨l, hl, rfl⟩ := Option.map_eq_some_iff.mp hd
      refine ⟨l.ty, ?_, hgrows.resultTy?_eq (resultTy?_inst hl hknown)⟩
      simp [typeOf?, Function.built, hl]

/-! ### Functions that are built call by call -/

/-- A value that a call returns is a local of the function from then on. -/
theorem lt_of_call? {f f' : Function} {c : Call} {v : Option Value}
    (h : f.call? c = some (v, f')) {l : Nat} (hl : Value.ofLocal l ∈ v) :
    l < f'.locals.length := by
  obtain ⟨name, -, rfl, rfl⟩ | ⟨block, b, call, -, hb, rfl, rfl⟩ := call?_cases h
  · cases hl
  · obtain ⟨new, hnew, heq⟩ := Option.map_eq_some_iff.mp hl
    cases heq
    simp [built, hnew]

/-- **A run** keeps the form, if its calls use what was returned before. -/
theorem SingleAssignment.of_calls? {f f' : Function} {cs : List Call} {vs returned : List Value}
    (h : f.calls? cs = some (vs, f')) (huses : f.UsesReturned returned cs)
    (hreturned : ∀ l, Value.ofLocal l ∈ returned → l < f.locals.length)
    (hf : f.SingleAssignment) : f'.SingleAssignment := by
  induction cs generalizing f vs returned with
  | nil =>
    cases h
    exact hf
  | cons c cs ih =>
    obtain ⟨v, f₁, vs', hcall, hcalls, -⟩ := calls?_cons_eq_some_iff.mp h
    obtain ⟨hc, hcs⟩ := huses
    refine ih hcalls (hcs v f₁ hcall) (fun l hl => ?_) ?_
    · rcases List.mem_append.mp hl with hl | hl
      · exact Nat.lt_of_lt_of_le (hreturned l hl) (grows_of_call? hcall).locals.length_le
      · exact lt_of_call? hcall (Option.mem_toList.mp hl)
    · obtain ⟨name, rfl, -, rfl⟩ | ⟨block, b, call, rfl, hb, -, rfl⟩ := call?_cases hcall
      · exact hf.appendBlock name
      · exact hf.built hb fun k hk => hreturned k (hc k hk)

/-- **Single assignment.** A function starts out empty, and calls append blocks and instructions to
it, using no other locals than those which calls before them returned. Then the destinations of its
instructions are its locals, each of them once. The type that is recorded for a destination is that
of what the instruction computes. And what there was at any time before is still there, in its place
and under its name. -/
theorem calls?_keep_singleAssignment (f : Function) (hblocks : f.blocks = [])
    (hlocals : f.locals = []) (calls : List Call) (vs : List Value) (f' : Function)
    (h : f.calls? calls = some (vs, f')) (huses : f.UsesReturned [] calls) :
    (dests (instsOf f'.blocks)).Perm (List.range f'.locals.length) ∧
      (∀ i ∈ instsOf f'.blocks, ∀ d ∈ i.dest?,
        ∃ ty, f'.typeOf? (.ofLocal d) = some ty ∧ i.resultTy? f' = some ty) ∧
      ∀ before after vs₁ f₁, calls = before ++ after → f.calls? before = some (vs₁, f₁) →
        f₁.Grows f' := by
  have hform := SingleAssignment.of_calls? h huses nofun (.of_empty hblocks hlocals)
  refine ⟨hform.dests, hform.types, ?_⟩
  rintro before after vs₁ f₁ rfl hbefore
  obtain ⟨vs₁', f₁', vs₂, hbefore', hafter, -⟩ := calls?_append_eq_some_iff.mp h
  obtain ⟨-, rfl⟩ := Prod.mk.inj (Option.some.inj (hbefore.symm.trans hbefore'))
  exact grows_of_calls? hafter

end Function

/-- A function without blocks. -/
def emptyFunction : Function :=
  { name := "f", ret := .i32, params := [], linkage := .external }

/-- Calls that go back and forth between two blocks. A slot that is made in the second block is used
in the first one. -/
def scatteredCalls : List Function.Call :=
  [.appendBlock "a", .appendBlock "a", .build 1 (.alloca .i8 "p"),
    .build 0 (.load .i8 (.ofLocal 0)), .build 1 (.binary .add (.ofLocal 1) (.const .i8 1)),
    .build 0 (.icmp .slt (.ofLocal 2) (.const .i8 0)), .build 0 (.br 1),
    .build 1 (.store (.ofLocal 2) (.ofLocal 0)), .build 1 .unreachable]

/-- The function that these calls make. -/
def scatteredFunction : Function :=
  { emptyFunction with
    blocks :=
      [{ name := "a"
         insts := [.load 1 .i8 (.ofLocal 0), .icmp 3 .slt (.ofLocal 2) (.const .i8 0), .br 1] },
        { name := "a.1"
          insts := [.alloca 0 .i8, .binary 2 .add (.ofLocal 1) (.const .i8 1),
            .store (.ofLocal 2) (.ofLocal 0), .unreachable] }]
    locals := [⟨"p", .ptr⟩, ⟨"t1", .i8⟩, ⟨"t2", .i8⟩, ⟨"t3", .i1⟩] }

theorem calls?_keep_singleAssignment_scatteredCalls :
    ∃ vs, emptyFunction.calls? scatteredCalls = some (vs, scatteredFunction) ∧
      emptyFunction.UsesReturned [] scatteredCalls ∧
      (dests (instsOf scatteredFunction.blocks)).Perm
        (List.range scatteredFunction.locals.length) ∧
      ∃ ty, scatteredFunction.typeOf? (.ofLocal 2) = some ty ∧
        (Inst.binary 2 .add (.ofLocal 1) (.const .i8 1)).resultTy? scatteredFunction = some ty := by
  have hcalls : emptyFunction.calls? scatteredCalls =
      some ([.ofLocal 0, .ofLocal 1, .ofLocal 2, .ofLocal 3], scatteredFunction) := by decide
  have huses : emptyFunction.UsesReturned [] scatteredCalls := by
    simp [Function.UsesReturned, scatteredCalls, emptyFunction, Function.call?,
      Function.inBlock?_run, Function.Call.operands, Build.Call.operands, Build.Call.inst,
      Inst.operands, Build.Call.newLocal?, Function.built, Function.appendBlock]
  obtain ⟨hdests, htypes, -⟩ := Function.calls?_keep_singleAssignment emptyFunction rfl rfl
    scatteredCalls _ scatteredFunction hcalls huses
  exact ⟨_, hcalls, huses, hdests, htypes _ (by decide) 2 rfl⟩

end Mos6502.IR
