import Mos6502.Proofs.Cpu
import Mos6502.Proofs.LoweredCode

/-!
# Lowered code does what the instructions do

The simulation, one instruction after the other and without any control flow. `Frame.Holds` ties a
frame to a state of the processor: the slots hold the registers and flags, and the locals of the
slots hold their addresses. A value that code defines for itself is never one of these locals, so
it does not disturb the relation, and each store changes one register or flag.

## Main results

* `Rule.exec_code` — the code of a rule has the effect of the rule
* `Rule.exec?_eq_effect` — and the instruction has that effect
* `CodeLine.exec_lowerAll` — lowered code simulates the instructions it comes from
-/

namespace Mos6502

open IR

/-- The frame of a compiled function holds a state of the processor. -/
structure IR.Frame.Holds (s : Frame) (c : Cpu) : Prop where
  slots : s.slots = c.slots
  addresses : ∀ k < 5, s.locals.get? k = some (.slot k)

namespace IR.Frame

variable {s : Frame} {c : Cpu}

/-- A value of the code's own may be defined at any time. -/
theorem Holds.define (h : s.Holds c) {dest : Nat} (hdest : 5 ≤ dest) (d : Datum) :
    (s.define dest d).Holds c where
  slots := h.slots
  addresses k hk := by
    rw [get?_define_of_ne (by omega), h.addresses k hk]

theorem Holds.value?_reg (h : s.Holds c) (r : Reg) : s.value? r.slot = some (.slot r.index) := by
  rw [r.slot_eq]
  exact h.addresses _ r.index_lt

/-- An operand keeps its value when another local is defined. -/
theorem value?_define_of_lt {v : Value} {n : Nat} (hv : ∀ l, v = .ofLocal l → l < n) (d : Datum) :
    (s.define n d).value? v = s.value? v := by
  cases v with
  | const | ofGlobal => rfl
  | ofLocal l => exact get?_define_of_ne (Nat.ne_of_lt (hv l rfl)) d

end IR.Frame

theorem Cpu.slots_getElem?_index (c : Cpu) (r : Reg) :
    c.slots[r.index]? = some (.byte (c.reg r)) := by
  cases r <;> rfl

/-- Putting a result into a register writes three slots. -/
theorem Cpu.slots_put (c : Cpu) (r : Reg) (result : UInt8) :
    (c.put r result).slots =
      ((c.slots.set r.index (.byte result)).set 3 (.bit (result.toNat.testBit 7))).set 4
        (.bit (result == 0)) := by
  cases r <;> rfl

/-- The sign of a byte is its bit seven. -/
theorem slt_zero_eq_testBit (n : UInt8) :
    Predicate.slt.eval? (.byte n) (.byte 0) = some (n.toNat.testBit 7) := by
  have hslt : n.toInt8 < (0 : UInt8).toInt8 ↔ n.toBitVec.slt 0#8 = true := by
    rw [Int8.lt_iff_toBitVec_slt]
    rfl
  have hbit : n.toBitVec.slt 0#8 = n.toNat.testBit 7 := by
    rw [BitVec.slt_zero_eq_msb, BitVec.msb_eq_getLsbD_last]
    rfl
  simp only [Predicate.eval?, hslt, hbit, Bool.decide_eq_true]

/-! ### One rule -/

section

variable {s : Frame} {c : Cpu}

/-- A comparison with zero is written to the slot of a flag. -/
theorem exec_flag {n k : Nat} {v : IR.Value} {result : UInt8} {pred : Predicate} {b old : Bool}
    (hv : s.value? v = some (.byte result)) (hb : pred.eval? (.byte result) (.byte 0) = some b)
    (hk : s.locals.get? k = some (.slot k)) (hne : k ≠ n) (hold : s.slots[k]? = some (.bit old)) :
    execAll [.icmp n pred v (.const .i8 0), .store (.ofLocal n) (.ofLocal k)] s =
      some { s.define n (.bit b) with slots := s.slots.set k (.bit b) } := by
  have hcmp := exec_icmp n hv (rfl : s.value? (.const .i8 0) = some (.byte 0)) hb
  have hptr : (s.define n (.bit b)).value? (.ofLocal k) = some (.slot k) := by
    rw [← hk]
    exact Frame.get?_define_of_ne hne _
  have hstore := exec_store (s.value?_define_self n (.bit b)) hptr hold rfl
  rw [execAll_cons, hcmp, Option.bind_some, execAll_cons, hstore, Option.bind_some, execAll_nil,
    Frame.slots_define]

/-- Settling a byte puts it into the register. -/
theorem exec_settle (h : s.Holds c) {n : Nat} (hn : 5 ≤ n) {v : IR.Value} {result : UInt8}
    (hv : s.value? v = some (.byte result)) (hlt : ∀ l, v = .ofLocal l → l < n) (r : Reg) :
    ∃ s', execAll (settle n v r) s = some s' ∧ s'.Holds (c.put r result) := by
  have hsplit : settle n v r = .store v r.slot ::
      ([.icmp n .slt v (.const .i8 0), .store (.ofLocal n) (.ofLocal 3)] ++
        [.icmp (n + 1) .eq v (.const .i8 0), .store (.ofLocal (n + 1)) (.ofLocal 4)]) := rfl
  have hreg : s.slots[r.index]? = some (.byte (c.reg r)) := by
    rw [h.slots, c.slots_getElem?_index r]
  have hflags : ∀ k, 3 ≤ k → (s.slots.set r.index (.byte result))[k]? = c.slots[k]? := by
    intro k hk
    have hne : r.index ≠ k := by cases r <;> simp only [Reg.index] <;> omega
    rw [List.getElem?_set_ne hne, h.slots]
  -- the flags are set one after the other, and the second comparison still sees the byte
  let s₁ : Frame := { s with slots := s.slots.set r.index (.byte result) }
  let s₂ : Frame :=
    { s₁.define n (.bit (result.toNat.testBit 7)) with
      slots := s₁.slots.set 3 (.bit (result.toNat.testBit 7)) }
  have hv₂ : s₂.value? v = some (.byte result) := (Frame.value?_define_of_lt hlt _).trans hv
  have haddr₂ : ∀ k < 5, s₂.locals.get? k = some (.slot k) := fun k hk =>
    (Frame.get?_define_of_ne (by omega) _).trans (h.addresses k hk)
  have hzero : s₂.slots[4]? = some (.bit c.zero) :=
    (List.getElem?_set_ne (by decide)).trans (hflags 4 (by decide))
  refine ⟨{ s₂.define (n + 1) (.bit (result == 0)) with
      slots := s₂.slots.set 4 (.bit (result == 0)) }, ?_, ?_, ?_⟩
  · rw [hsplit, execAll_cons, exec_store hv (h.value?_reg r) hreg rfl, Option.bind_some,
      execAll_append, exec_flag (s := s₁) hv (slt_zero_eq_testBit result)
        (h.addresses 3 (by decide)) (by omega) (hflags 3 (by decide)), Option.bind_some]
    exact exec_flag hv₂ rfl (haddr₂ 4 (by decide)) (by omega) hzero
  · rw [Cpu.slots_put, ← h.slots]
  · intro k hk
    exact (Frame.get?_define_of_ne (by omega) _).trans (haddr₂ k hk)

end

/-! ### Rules and instructions -/

/-- What a step of a register adds up to. -/
def IR.BinOp.byOne (op : BinOp) (n : UInt8) : UInt8 :=
  match op with
  | .add => n + 1
  | .sub => n - 1

namespace Rule

/-- What a rule does to the processor; a load loads `k`. -/
def effect (k : UInt8) (c : Cpu) : Rule → Cpu
  | loadImmediate r => c.put r k
  | transfer source target => c.put target (c.reg source)
  | step r op => c.put r (op.byOne (c.reg r))
  | nop => c

/-- **The code of a rule has its effect.** -/
theorem exec_code {s : Frame} {c : Cpu} (h : s.Holds c) {n : Nat} (hn : 5 ≤ n) (k : UInt8)
    (rule : Rule) : ∃ s', execAll (rule.code n k) s = some s' ∧ s'.Holds (rule.effect k c) := by
  have hload : ∀ r : Reg,
      (Inst.load n .i8 r.slot).exec s = some (s.define n (.byte (c.reg r))) := by
    intro r
    have hheld : s.slots[r.index]? = some (.byte (c.reg r)) := by
      rw [h.slots, c.slots_getElem?_index r]
    exact exec_load n (h.value?_reg r) hheld
  cases rule with
  | loadImmediate r =>
    refine exec_settle h hn ?_ (fun _ hl => by cases hl) r
    simp [Frame.value?, Datum.ofConst?]
  | transfer source target =>
    have hs₁ := h.define hn (.byte (c.reg source))
    rw [code, execAll_cons, hload, Option.bind_some]
    refine exec_settle hs₁ (by omega) (s.value?_define_self n _) ?_ target
    rintro l ⟨⟩
    omega
  | step r op =>
    have hs₁ := h.define hn (.byte (c.reg r))
    have hs₂ := hs₁.define (Nat.le_succ_of_le hn) (.byte (op.byOne (c.reg r)))
    have hop : op.eval? (.byte (c.reg r)) (.byte 1) = some (.byte (op.byOne (c.reg r))) := by
      cases op <;> rfl
    rw [code, execAll_cons, hload, Option.bind_some, execAll_cons,
      exec_binary (n + 1) (s.value?_define_self n _) rfl hop, Option.bind_some]
    refine exec_settle hs₂ (by omega) (Frame.value?_define_self _ (n + 1) _) ?_ r
    rintro l ⟨⟩
    omega
  | nop => exact ⟨s, rfl, h⟩

/-- A constant that can be lowered is that of the instruction. -/
theorem byte?_of_immediateByte {vars : Bindings String UInt32} {e : Expr} {k : UInt8}
    (h : immediateByte vars e = .ok k) : Cpu.byte? vars.get? e = some k := by
  cases e with
  | int n =>
    by_cases hn : n ≤ 0xff <;> simp_all [immediateByte, Cpu.byte?, bind, Except.bind]
  | name s =>
    cases hs : vars.get? s with
    | none => simp [immediateByte, hs, bind, Except.bind] at h
    | some n =>
      by_cases hn : n ≤ 0xff <;> simp_all [immediateByte, Cpu.byte?, bind, Except.bind]

/-- **An instruction has the effect of its rule.** -/
theorem exec?_eq_effect {vars : Bindings String UInt32} {i : Instr} {rule : Rule} {k : UInt8}
    (hrule : Rule.of? i = some rule) (hk : rule.Constant vars i k) (c : Cpu) :
    c.exec? vars.get? i = some (rule.effect k c) := by
  obtain ⟨⟨mnemonic, span⟩, operand⟩ := i
  obtain ⟨before, after, htable, -⟩ := List.lookup_eq_some_iff.mp hrule
  have hmem : (Text.lowercase mnemonic, rule) ∈ table operand.shape := by
    rw [htable]
    simp
  cases operand with
  | implied =>
    simp only [Operand.shape, table, List.mem_cons, Prod.mk.injEq, List.not_mem_nil, or_false]
      at hmem
    rcases hmem with ⟨h, rfl⟩ | ⟨h, rfl⟩ | ⟨h, rfl⟩ | ⟨h, rfl⟩ | ⟨h, rfl⟩ | ⟨h, rfl⟩ | ⟨h, rfl⟩ |
      ⟨h, rfl⟩ | ⟨h, rfl⟩ <;> simp only [Cpu.exec?, h] <;> rfl
  | immediate e =>
    simp only [Operand.shape, table, List.mem_cons, Prod.mk.injEq, List.not_mem_nil, or_false]
      at hmem
    rcases hmem with ⟨h, rfl⟩ | ⟨h, rfl⟩ | ⟨h, rfl⟩ <;> obtain ⟨_, ⟨⟩, hbyte⟩ := hk <;>
      simp only [Cpu.exec?, h, byte?_of_immediateByte hbyte] <;> rfl
  | direct | label | indexed | labelIndexed | indirectX | indirectY | indirect => cases hmem

end Rule

/-! ### Lowered code -/

namespace CodeLine

/-- **Lowered code simulates the instructions it comes from**, if all of them could be lowered. -/
theorem exec_lowerAll {vars : Bindings String UInt32} {cs : List CodeLine} {d : Draft}
    (hslots : HasSlots d.locals) (herrors : (lowerAll vars d cs).2 = []) :
    ∃ code, (lowerAll vars d cs).1.insts = d.insts ++ code ∧
      ∀ {s : Frame} {c : Cpu}, s.Holds c →
        ∃ s' c', execAll code s = some s' ∧ s'.Holds c' ∧
          c.execAll? vars.get? (cs.map CodeLine.instr) = some c' := by
  induction cs generalizing d with
  | nil => exact ⟨[], (List.append_nil _).symm, fun {s c} h => ⟨s, c, rfl, h, rfl⟩⟩
  | cons line cs ih =>
    rw [lowerAll_cons] at herrors ⊢
    obtain ⟨rule, k, hrule, hk, hlower⟩ | ⟨error, hlower⟩ := line.lower_cases vars d
    · rw [hlower] at herrors ⊢
      obtain ⟨code, hcode, hexec⟩ := @ih ⟨_, d.insts ++ rule.code d.locals.length k⟩
        (hslots.append (rule.temps d.locals.length)) herrors
      refine ⟨rule.code d.locals.length k ++ code, by rw [hcode, List.append_assoc], ?_⟩
      intro s c h
      obtain ⟨s₁, hs₁, h₁⟩ := rule.exec_code h hslots.five_le_length k
      obtain ⟨s', c', hs', h', hc'⟩ := hexec h₁
      refine ⟨s', c', ?_, h', ?_⟩
      · rw [execAll_append, hs₁, Option.bind_some, hs']
      · rw [List.map_cons, Cpu.execAll?_cons, Rule.exec?_eq_effect hrule hk, Option.bind_some, hc']
    · rw [hlower] at herrors
      cases herrors

end CodeLine

end Mos6502
