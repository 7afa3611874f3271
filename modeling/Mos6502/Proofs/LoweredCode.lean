import Mos6502.Lowering.Compile
import Mos6502.Proofs.SlotForm

/-!
# The code that instructions become

What lowering appends to a block, written down as plain lists. Each rule has its instructions,
`Rule.code`, and the locals that these define, `Rule.temps`; both depend on nothing but the number
of locals so far and, for a load, the constant. `Rule.run_lower` says that running the steps of a
rule appends exactly these, so nothing after it has to look into the building monad again.

`BodyCode` is what all of it has in common: it can stand in any block of a function that makes its
slots elsewhere, since it uses the slots and values of its own only.

## Main results

* `Rule.run_lower` — the steps of a rule append its code and its locals
* `CodeLine.lowerAll_spec` — what lowering appends to a block is `BodyCode`
-/

namespace Mos6502

open IR

/-! ### Running the steps -/

/-- The local of a value that nobody named. -/
def temp (n : Nat) (ty : Ty) : Local :=
  ⟨"t" ++ Nat.repr n, ty⟩

namespace IR.Build

theorem run_bind {α β : Type} (x : Build α) (g : α → Build β) (d : Draft) :
    (x >>= g).run d = (g (x.run d).1).run (x.run d).2 :=
  rfl

theorem run_load (ty : Ty) (ptr : Value) (d : Draft) :
    (load ty ptr).run d =
      (.ofLocal d.locals.length,
        ⟨d.locals ++ [temp d.locals.length ty], d.insts ++ [.load d.locals.length ty ptr]⟩) :=
  rfl

theorem run_store (value ptr : Value) (d : Draft) :
    (store value ptr).run d = ((), ⟨d.locals, d.insts ++ [.store value ptr]⟩) :=
  rfl

theorem run_icmp (pred : Predicate) (lhs rhs : Value) (d : Draft) :
    (icmp pred lhs rhs).run d =
      (.ofLocal d.locals.length,
        ⟨d.locals ++ [temp d.locals.length .i1],
          d.insts ++ [.icmp d.locals.length pred lhs rhs]⟩) :=
  rfl

/-- The local of a result has the type of the left operand. -/
theorem run_binary (op : BinOp) {lhs : Value} (rhs : Value) {d : Draft} {ty : Ty}
    (hty : lhs.tyIn? d.locals = some ty) :
    (binary op lhs rhs).run d =
      (.ofLocal d.locals.length,
        ⟨d.locals ++ [temp d.locals.length ty],
          d.insts ++ [.binary d.locals.length op lhs rhs]⟩) := by
  have hget : ty = (lhs.tyIn? d.locals).getD .void := by rw [hty, Option.getD_some]
  rw [hget]
  cases lhs <;> rfl

end IR.Build

/-! ### The code of a rule -/

/-- Puts a value into a register and sets both flags by it. The two comparisons are locals `n` and
`n + 1`. -/
def settle (n : Nat) (v : IR.Value) (r : Reg) : List Inst :=
  [.store v r.slot, .icmp n .slt v (.const .i8 0), .store (.ofLocal n) negativeSlot,
    .icmp (n + 1) .eq v (.const .i8 0), .store (.ofLocal (n + 1)) zeroSlot]

namespace Rule

/-- The code of a rule where the next local is `n`. A load puts `k` into its register; the other
rules do not look at it. -/
def code (n : Nat) (k : UInt8) : Rule → List Inst
  | loadImmediate r => settle n (.const .i8 k.toUInt64) r
  | transfer source target => .load n .i8 source.slot :: settle (n + 1) (.ofLocal n) target
  | step r op =>
    .load n .i8 r.slot :: .binary (n + 1) op (.ofLocal n) (.const .i8 1) ::
      settle (n + 2) (.ofLocal (n + 1)) r
  | nop => []

/-- The locals that the code of a rule defines. -/
def temps (n : Nat) : Rule → List Local
  | loadImmediate _ => [temp n .i1, temp (n + 1) .i1]
  | transfer _ _ => [temp n .i8, temp (n + 1) .i1, temp (n + 2) .i1]
  | step _ _ => [temp n .i8, temp (n + 1) .i8, temp (n + 2) .i1, temp (n + 3) .i1]
  | nop => []

theorem run_settle (v : IR.Value) (r : Reg) (d : Draft) :
    ((do Build.store v r.slot; setFlags v : Build Unit).run d).2 =
      ⟨d.locals ++ [temp d.locals.length .i1, temp (d.locals.length + 1) .i1],
        d.insts ++ settle d.locals.length v r⟩ := by
  simp only [setFlags, settle, Build.run_bind, Build.run_store, Build.run_icmp,
    List.length_append, List.length_cons, List.length_nil, List.append_assoc, List.cons_append,
    List.nil_append]

/-- The constant of an instruction's code: that of its operand, if it is a load. -/
def Constant (vars : Bindings String UInt32) (i : Instr) (k : UInt8) : Rule → Prop
  | loadImmediate _ => ∃ e, i.operand = .immediate e ∧ immediateByte vars e = .ok k
  | _ => True

/-- **The steps of a rule** append its code and the locals which that defines. -/
theorem run_lower {vars : Bindings String UInt32} {i : Instr} {rule : Rule} {steps : Build Unit}
    (h : rule.lower vars i = .ok steps) :
    ∃ k, rule.Constant vars i k ∧ ∀ d : Draft,
      (steps.run d).2 =
        ⟨d.locals ++ rule.temps d.locals.length, d.insts ++ rule.code d.locals.length k⟩ := by
  cases rule with
  | loadImmediate r =>
    rw [lower] at h
    split at h
    · next e he =>
      cases hk : immediateByte vars e with
      | error => simp [hk, bind, Except.bind] at h
      | ok k =>
        rw [hk] at h
        obtain rfl := Except.ok.inj h
        exact ⟨k, ⟨e, he, hk⟩, run_settle _ r⟩
    · cases h
  | transfer source target =>
    obtain rfl := Except.ok.inj h
    refine ⟨0, trivial, fun d => ?_⟩
    rw [Build.run_bind, run_settle, Build.run_load]
    simp [temps, code]
  | step r op =>
    obtain rfl := Except.ok.inj h
    refine ⟨0, trivial, fun d => ?_⟩
    have hold : (IR.Value.ofLocal d.locals.length).tyIn?
        (d.locals ++ [temp d.locals.length .i8]) = some .i8 := by
      simp [Value.tyIn?, temp]
    rw [Build.run_bind, Build.run_load, Build.run_bind, Build.run_binary op _ hold, run_settle]
    simp [temps, code]
  | nop =>
    obtain rfl := Except.ok.inj h
    refine ⟨0, trivial, fun d => ?_⟩
    rw [temps, code, List.append_nil, List.append_nil]
    rfl

end Rule

/-! ### Code that can stand in any block -/

/-- The locals of the slots. -/
def slotLocals : List Nat :=
  dests entryDraft.insts

theorem mem_slotLocals {l : Nat} : l ∈ slotLocals ↔ l < 5 := by
  have hslots : slotLocals = List.range 5 := by decide
  rw [hslots, List.mem_range]

/-- Some locals of a function start with those of the slots. -/
def HasSlots (locals : List Local) : Prop :=
  entryDraft.locals <+: locals

namespace HasSlots

variable {locals : List Local}

theorem append (h : HasSlots locals) (more : List Local) : HasSlots (locals ++ more) :=
  h.trans (List.prefix_append locals more)

theorem five_le_length (h : HasSlots locals) : 5 ≤ locals.length :=
  h.length_le

theorem tyIn?_slot (h : HasSlots locals) {l : Nat} (hl : l < 5) :
    (Value.ofLocal l).tyIn? locals = some .ptr := by
  obtain ⟨rest, rfl⟩ := h
  have hslots : ∀ l < 5, (Value.ofLocal l).tyIn? entryDraft.locals = some .ptr := by decide
  exact Value.tyIn?_append (hslots l hl) rest

end HasSlots

/-- The local of a register's slot. -/
def Reg.index : Reg → Nat
  | x => 0
  | y => 1
  | a => 2

theorem Reg.slot_eq (r : Reg) : r.slot = .ofLocal r.index := by
  cases r <;> rfl

theorem Reg.index_lt (r : Reg) : r.index < 5 := by
  cases r <;> decide

/-- Code that uses the slots and values of its own, which are locals from `n` on. -/
structure BodyCode (locals : List Local) (n : Nat) (code : List Inst) : Prop where
  plain : ∀ i ∈ code, i.isTerminator = false
  typed : ∀ i ∈ code, i.Typed locals
  inScope : Scoped slotLocals code
  fresh : ∀ l ∈ dests code, n ≤ l
  noSlots : slotTys code = []

namespace BodyCode

variable {locals : List Local} {n : Nat} {code more : List Inst}

theorem nil : BodyCode locals n [] where
  plain := by simp
  typed := by simp
  inScope := trivial
  fresh := by simp [dests]
  noSlots := rfl

theorem locals_append (h : BodyCode locals n code) (rest : List Local) :
    BodyCode (locals ++ rest) n code :=
  { h with typed := fun i hi => (h.typed i hi).append rest }

theorem mono {n' : Nat} (h : BodyCode locals n code) (hn : n' ≤ n) : BodyCode locals n' code :=
  { h with fresh := fun l hl => Nat.le_trans hn (h.fresh l hl) }

/-- One piece of code after the other. The second one may start later. -/
theorem append {n' : Nat} (h : BodyCode locals n code) (h' : BodyCode locals n' more)
    (hn : n ≤ n') : BodyCode locals n (code ++ more) where
  plain i hi := (List.mem_append.mp hi).elim (h.plain i) (h'.plain i)
  typed i hi := (List.mem_append.mp hi).elim (h.typed i) (h'.typed i)
  inScope := scoped_append.mpr ⟨h.inScope, h'.inScope.mono fun l hl => List.mem_append_left _ hl⟩
  fresh l hl := by
    rw [dests_append] at hl
    exact (List.mem_append.mp hl).elim (h.fresh l) ((h'.mono hn).fresh l)
  noSlots := by rw [slotTys_append, h.noSlots, h'.noSlots, List.append_nil]

section

variable {b : Block} {t : Inst} (hinsts : b.insts = code ++ [t]) (ht : t.isTerminator = true)
include hinsts ht

/-- A block that consists of such code and a terminator is typed. -/
theorem typed_block (h : BodyCode locals n code) : ∀ i ∈ b.insts, i.Typed locals := by
  rw [hinsts]
  intro i hi
  rcases List.mem_append.mp hi with hi | hi
  · exact h.typed i hi
  · obtain rfl := List.mem_singleton.mp hi
    cases i with
    | br => exact .br
    | unreachable => exact .unreachable
    | _ => cases ht

theorem inner_block (h : BodyCode locals 5 code) : b.Inner slotLocals := by
  obtain ⟨hoperands, hdest, hslot⟩ : t.operands = [] ∧ t.dest? = none ∧ t.slotTy? = none := by
    cases t with
    | br | unreachable => exact ⟨rfl, rfl, rfl⟩
    | _ => cases ht
  refine ⟨?_, ?_, ?_⟩ <;> rw [hinsts]
  · exact scoped_append.mpr ⟨h.inScope, by simp [hoperands], trivial⟩
  · intro l hl hslots
    rw [dests_append, List.mem_append] at hl
    have hl : l ∈ dests code := by simpa [dests, hdest] using hl
    exact absurd (mem_slotLocals.mp hslots) (Nat.not_lt.mpr (h.fresh l hl))
  · rw [slotTys_append, h.noSlots]
    simp [slotTys, hslot]

omit ht in
theorem targets_block (h : BodyCode locals n code) : b.targets = t.target?.toList := by
  have hnone : code.filterMap Inst.target? = [] := by
    refine List.filterMap_eq_nil_iff.mpr fun i hi => ?_
    have hplain := h.plain i hi
    cases i with
    | br => cases hplain
    | _ => rfl
  rw [Block.targets, hinsts, List.filterMap_append, hnone, List.nil_append]
  cases h : t.target? <;> simp [h]

end

end BodyCode

/-! ### All lowered code is such code -/

/-- The types of new locals are found behind the old ones. -/
theorem tyIn?_new (locals new : List Local) (j : Nat) :
    (Value.ofLocal (locals.length + j)).tyIn? (locals ++ new) = new[j]?.map Local.ty := by
  rw [Value.tyIn?, List.getElem?_append_right (Nat.le_add_right _ _), Nat.add_sub_cancel_left]

theorem HasSlots.tyIn?_reg {locals : List Local} (h : HasSlots locals) (r : Reg) :
    r.slot.tyIn? locals = some .ptr := by
  rw [r.slot_eq]
  exact h.tyIn?_slot r.index_lt

theorem typed_settle {locals : List Local} (hslots : HasSlots locals) {n : Nat} {v : IR.Value}
    (r : Reg) (hv : v.tyIn? locals = some .i8)
    (hn : (Value.ofLocal n).tyIn? locals = some .i1)
    (hn' : (Value.ofLocal (n + 1)).tyIn? locals = some .i1) :
    ∀ i ∈ settle n v r, i.Typed locals := by
  intro i hi
  simp only [settle, List.mem_cons, List.not_mem_nil, or_false] at hi
  rcases hi with rfl | rfl | rfl | rfl | rfl
  · exact .store hv trivial (hslots.tyIn?_reg r)
  · exact .icmp hv rfl rfl hn
  · exact .store hn trivial (hslots.tyIn?_slot (by decide))
  · exact .icmp hv rfl rfl hn'
  · exact .store hn' trivial (hslots.tyIn?_slot (by decide))

namespace Rule

theorem typed_code {locals : List Local} (hslots : HasSlots locals) (rule : Rule) (k : UInt8) :
    ∀ i ∈ rule.code locals.length k, i.Typed (locals ++ rule.temps locals.length) := by
  have hslots' := hslots.append (rule.temps locals.length)
  have hnew := tyIn?_new locals (rule.temps locals.length)
  cases rule with
  | loadImmediate r => exact typed_settle hslots' r rfl (hnew 0) (hnew 1)
  | transfer source target =>
    refine List.forall_mem_cons.mpr ⟨.load (hslots'.tyIn?_reg source) trivial (hnew 0), ?_⟩
    exact typed_settle hslots' target (hnew 0) (hnew 1) (hnew 2)
  | step r op =>
    refine List.forall_mem_cons.mpr ⟨.load (hslots'.tyIn?_reg r) trivial (hnew 0), ?_⟩
    refine List.forall_mem_cons.mpr ⟨.binary (hnew 0) rfl rfl (hnew 1), ?_⟩
    exact typed_settle hslots' r (hnew 1) (hnew 2) (hnew 3)
  | nop => simp [code]

theorem scoped_code (rule : Rule) (n : Nat) (k : UInt8) : Scoped slotLocals (rule.code n k) := by
  cases rule <;>
    simp [code, settle, Scoped, Inst.operands, Inst.dest?, Value.AvailableIn, Reg.slot_eq,
      negativeSlot, zeroSlot, mem_slotLocals, Reg.index_lt]

theorem bodyCode {locals : List Local} (hslots : HasSlots locals) (rule : Rule) (k : UInt8) :
    BodyCode (locals ++ rule.temps locals.length) locals.length (rule.code locals.length k) where
  plain := by cases rule <;> simp [code, settle, Inst.isTerminator]
  typed := rule.typed_code hslots k
  inScope := rule.scoped_code locals.length k
  fresh l hl := by
    cases rule <;> simp [code, settle, dests, Inst.dest?] at hl <;> omega
  noSlots := by cases rule <;> rfl

end Rule

namespace CodeLine

/-- An instruction appends nothing if it cannot be lowered, and else the code of its rule. -/
theorem lower_cases (vars : Bindings String UInt32) (d : Draft) (c : CodeLine) :
    (∃ rule k, Rule.of? c.instr = some rule ∧ rule.Constant vars c.instr k ∧
      c.lower vars d =
        (⟨d.locals ++ rule.temps d.locals.length, d.insts ++ rule.code d.locals.length k⟩, [])) ∨
    (∃ error, c.lower vars d = (d, [error])) := by
  unfold lower
  cases hrule : Rule.of? c.instr with
  | none => exact .inr ⟨_, rfl⟩
  | some rule =>
    cases hsteps : rule.lower vars c.instr with
    | error fault => exact .inr ⟨⟨c.line, c.span, fault⟩, by simp [hsteps]⟩
    | ok steps =>
      obtain ⟨k, hk, hrun⟩ := Rule.run_lower hsteps
      exact .inl ⟨rule, k, rfl, hk, by simp [hsteps, hrun]⟩

theorem lowerAll_cons (vars : Bindings String UInt32) (d : Draft) (c : CodeLine)
    (cs : List CodeLine) :
    lowerAll vars d (c :: cs) =
      ((lowerAll vars (c.lower vars d).1 cs).1,
        (c.lower vars d).2 ++ (lowerAll vars (c.lower vars d).1 cs).2) :=
  rfl

/-- **What lowering appends to a block** can stand in any block. -/
theorem lowerAll_spec (vars : Bindings String UInt32) (cs : List CodeLine) {d : Draft}
    (hslots : HasSlots d.locals) :
    ∃ new code, (lowerAll vars d cs).1 = ⟨d.locals ++ new, d.insts ++ code⟩ ∧
      BodyCode (d.locals ++ new) d.locals.length code := by
  induction cs generalizing d with
  | nil => exact ⟨[], [], by simp [lowerAll], .nil⟩
  | cons c cs ih =>
    rw [lowerAll_cons]
    obtain ⟨rule, k, -, -, hlower⟩ | ⟨error, hlower⟩ := c.lower_cases vars d
    · rw [hlower]
      have hslots' := hslots.append (rule.temps d.locals.length)
      obtain ⟨new, code, hrest, hcode⟩ :=
        @ih ⟨_, d.insts ++ rule.code d.locals.length k⟩ hslots'
      refine ⟨rule.temps d.locals.length ++ new, rule.code d.locals.length k ++ code, ?_, ?_⟩
      · rw [hrest, List.append_assoc, List.append_assoc]
      · rw [← List.append_assoc]
        refine BodyCode.append ?_ hcode ?_
        · exact (rule.bodyCode hslots k).locals_append new
        · rw [List.length_append]
          exact Nat.le_add_right _ _
    · rw [hlower]
      exact ih hslots

end CodeLine

end Mos6502
