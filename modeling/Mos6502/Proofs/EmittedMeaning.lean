import Mos6502.Proofs.EmissionSteps
import Mos6502.Proofs.NativeExecution

/-!
# Native code does what it was emitted for

A simulation between the two ways to run a block. While a block is emitted, the state records
where each local is kept; `Agrees` reads that record against two frames, one on each side. A local
that is kept in a slot holds the address of that slot, and one that is kept in a value holds what
this value shows. Both sides number their slots in the same order, so an address needs no
translation.

The record is only true of the locals that the running block may use. Blocks run in another order
than they are emitted in, and a local of another block may be kept in a value that was never made
in this run. So `Agrees` is about a list of locals, which is that of the first block at the front of
each block and grows with what the block defines. Values are numbered throughout the function, so
what a block makes never hides what the first block made.

One-bit integers become bytes, and native arithmetic on them is not that of bits. Nothing of this
matters for code that only moves bits around: `Inst.Bytewise` excludes constants of one bit, and
arithmetic and comparisons on anything but bytes.

## Main definitions

* `Datum.ofIR` — how a datum is represented
* `Agrees` — two frames hold the same, by the record of the emission
* `Runs` — native code that was added between two states

## Main results

* `Emit.Step.simulates`, `Emit.Steps.simulates` — instructions and straight-line code
* `Emit.simulates_block` — a block
-/

namespace Mos6502

/-- The instruction computes with bytes, if it computes at all, and stores no constant bit. -/
def IR.Inst.Bytewise : IR.Inst → Prop
  | .store value _ => ∀ bits, value ≠ .const .i1 bits
  | .binary _ _ _ rhs | .icmp _ _ _ rhs => ∃ bits, rhs = .const .i8 bits
  | _ => True

namespace Native

/-! ### Representation -/

/-- How a datum of the intermediate representation is represented. A bit is a byte that is zero or
one. -/
def Datum.ofIR : IR.Datum → Datum
  | .bit b => .ofBool b
  | .byte n => .i8 n
  | .word n => .i32 n
  | .slot k => .address k

theorem Ty.ofIR?_ty (d : IR.Datum) : Ty.ofIR? d.ty = some (Datum.ofIR d).ty := by
  cases d <;> rfl

theorem Datum.ty_ofIR_eq {d d' : IR.Datum} (h : d.ty = d'.ty) :
    (ofIR d).ty = (ofIR d').ty := by
  have hty := Ty.ofIR?_ty d
  rw [h, Ty.ofIR?_ty d'] at hty
  exact (Option.some.inj hty).symm

theorem toNat_toInt_ofNat (width n : Nat) :
    ((BitVec.ofNat width n).toInt % 2 ^ width).toNat = n % 2 ^ width := by
  have hmod : (BitVec.ofNat width n).toInt % 2 ^ width = ((n % 2 ^ width : Nat) : Int) := by
    rw [BitVec.toInt_ofNat']
    push_cast
    exact_mod_cast Int.bmod_emod
  rw [hmod, Int.toNat_natCast]

/-- An immediate is the constant modulo the width of its type. -/
theorem Datum.ofImm_eq {bits : UInt64} {ty : IR.Ty} {d : IR.Datum} {t : Ty}
    (hd : IR.Datum.ofConst? bits ty = some d) (hty : Ty.ofIR? ty = some t) (hbit : ty ≠ .i1) :
    Datum.ofImm (BitVec.ofNat t.width bits.toNat).toInt t = ofIR d := by
  cases ty with
  | i1 => exact absurd rfl hbit
  | i8 =>
    cases hd
    cases hty
    have himm : UInt8.ofInt (BitVec.ofNat 8 bits.toNat).toInt = bits.toUInt8 := by
      rw [UInt8.ofInt, toNat_toInt_ofNat, ← UInt8.ofNat_uInt64ToNat]
      exact UInt8.ofNat_mod_size
    exact congrArg Datum.i8 himm
  | i32 =>
    cases hd
    cases hty
    have himm : UInt32.ofInt (BitVec.ofNat 32 bits.toNat).toInt = bits.toUInt32 := by
      rw [UInt32.ofInt, toNat_toInt_ofNat, ← UInt32.ofNat_uInt64ToNat]
      exact UInt32.ofNat_mod_size
    exact congrArg Datum.i32 himm
  | void | ptr | bytes => cases hd

/-- On bytes both sides compute the same. -/
theorem Datum.arith?_ofIR {op : IR.BinOp} {a d : IR.Datum} {n : UInt8}
    (h : op.eval? a (.byte n) = some d) :
    Datum.arith? op (ofIR a) (ofIR (.byte n)) = some (ofIR d) := by
  cases a with
  | byte m => cases op <;> cases h <;> rfl
  | bit | word | slot => cases op <;> cases h

theorem Datum.compare?_ofIR {pred : IR.Predicate} {a : IR.Datum} {n : UInt8} {r : Bool}
    (h : pred.eval? a (.byte n) = some r) :
    Datum.compare? pred (ofIR a) (ofIR (.byte n)) = some r := by
  cases a with
  | byte m => cases pred <;> cases h <;> rfl
  | bit | word | slot => cases pred <;> cases h

/-! ### Native code between two states -/

/-- Native code was added between the states `s` and `s'`, and it leads from one frame to the
other. It makes new values only. -/
structure Runs (s : State) (τ : Frame) (s' : State) (τ' : Frame) : Prop where
  code : ∃ added, s'.insts = s.insts ++ added ∧ execAll added τ = some τ'
  grows : s.values.length ≤ s'.values.length
  keeps : ∀ n < s.values.length, τ'.values.get? n = τ.values.get? n

namespace Runs

variable {s s₁ s' : State} {τ τ₁ τ' : Frame}

/-- Nothing has to be run for a change of the record. -/
theorem of_eq (hinsts : s'.insts = s.insts) (hvalues : s'.values = s.values) : Runs s τ s' τ where
  code := ⟨[], by rw [hinsts, List.append_nil], rfl⟩
  grows := by rw [hvalues]
  keeps := fun _ _ => rfl

theorem trans (h : Runs s τ s₁ τ₁) (h' : Runs s₁ τ₁ s' τ') : Runs s τ s' τ' where
  code := by
    obtain ⟨added, hinsts, hexec⟩ := h.code
    obtain ⟨added', hinsts', hexec'⟩ := h'.code
    refine ⟨added ++ added', by rw [hinsts', hinsts, List.append_assoc], ?_⟩
    rw [execAll_append, hexec, Option.bind_some, hexec']
  grows := Nat.le_trans h.grows h'.grows
  keeps n hn := by rw [h'.keeps n (Nat.lt_of_lt_of_le hn h.grows), h.keeps n hn]

/-- One instruction that makes a value. -/
theorem make {ty : Ty} {imm : Option Int} {i : (dest : Nat) → Inst} {d : Datum}
    (h : (i s.values.length).exec τ = some (τ.define s.values.length d)) :
    Runs s τ (s.make ty imm i) (τ.define s.values.length d) where
  code := ⟨[i s.values.length], rfl, by rw [execAll_singleton, h]⟩
  grows := by simp [State.make]
  keeps n hn := Frame.get?_define_of_ne (Nat.ne_of_lt hn) d

/-- One instruction that makes no value. -/
theorem add {i : Inst} (h : i.exec τ = some τ') (hvalues : τ'.values = τ.values) :
    Runs s τ (s.add i) τ' where
  code := ⟨[i], rfl, by rw [execAll_singleton, h]⟩
  grows := Nat.le_refl _
  keeps n _ := by rw [hvalues]

end Runs

/-! ### Agreement -/

/-- A local that is kept at this place holds the datum, where `made` values are made so far. -/
def Storage.Shows (made : Nat) (τ : Frame) (d : IR.Datum) : Storage → Prop
  | slot k => d = .slot k
  | value n => n < made ∧ τ.values.get? n = some (.ofIR d)

/-- The slots on both sides hold the same, and so do the locals in `avail` and the places where
they are kept. -/
structure Agrees (s : State) (avail : List Nat) (σ : IR.Frame) (τ : Frame) : Prop where
  slots : τ.slots = σ.slots.map .ofIR
  made : s.slots.length = σ.made
  places : ∀ l ∈ avail, ∀ p, s.storage[l]? = some (some p) → ∀ d, σ.locals.get? l = some d →
    p.Shows s.values.length τ d

/-- A place still shows what it did after more values were made. -/
theorem Storage.Shows.mono {made made' : Nat} {τ τ' : Frame} {d : IR.Datum} {p : Storage}
    (h : p.Shows made τ d) (hle : made ≤ made')
    (hkeeps : ∀ n < made, τ'.values.get? n = τ.values.get? n) : p.Shows made' τ' d := by
  cases p with
  | slot k => exact h
  | value n => exact ⟨Nat.lt_of_lt_of_le h.1 hle, by rw [hkeeps n h.1, h.2]⟩

namespace Agrees

variable {s s' : State} {avail : List Nat} {σ : IR.Frame} {τ τ' : Frame}

/-- Code that leaves the slots and the record alone disturbs nothing. -/
theorem runs (h : Agrees s avail σ τ) (hruns : Runs s τ s' τ') (hstorage : s'.storage = s.storage)
    (hslots : s'.slots = s.slots) (hτ : τ'.slots = τ.slots) : Agrees s' avail σ τ' where
  slots := by rw [hτ, h.slots]
  made := by rw [hslots, h.made]
  places l hl p hp d hd := by
    rw [hstorage] at hp
    exact (h.places l hl p hp d hd).mono hruns.grows hruns.keeps

/-- A local is defined on both sides. -/
theorem define (h : Agrees s avail σ τ) {dest : Nat} {place : Storage} {d : IR.Datum}
    (hplace : place.Shows s.values.length τ d) :
    Agrees (s.keep dest place) (avail ++ [dest]) (σ.define dest d) τ where
  slots := h.slots
  made := h.made
  places l hl p hp d' hd' := by
    by_cases heq : l = dest
    · subst heq
      have hlt : l < s.storage.length := by
        simpa [State.keep] using (List.getElem?_eq_some_iff.mp hp).1
      obtain rfl : place = p := by simpa [State.keep, hlt] using hp
      obtain rfl : d = d' := Option.some.inj ((σ.value?_define_self l d).symm.trans hd')
      exact hplace
    · have hl : l ∈ avail := by simpa [heq] using hl
      have hp : s.storage[l]? = some (some p) := by
        simpa [State.keep, List.getElem?_set_ne (Ne.symm heq)] using hp
      rw [IR.Frame.get?_define_of_ne heq] at hd'
      exact h.places l hl p hp d' hd'

/-- A slot is written on both sides. -/
theorem write (h : Agrees s avail σ τ) (k : Nat) (d : IR.Datum) :
    Agrees s avail { σ with slots := σ.slots.set k d } { τ with slots := τ.slots.set k (.ofIR d) }
    where
  slots := by simp [h.slots, List.map_set]
  made := h.made
  places := h.places

/-- Instructions do not count for the agreement, only what they do. -/
theorem add (h : Agrees s avail σ τ) (i : Inst) : Agrees (s.add i) avail σ τ :=
  ⟨h.slots, h.made, h.places⟩

theorem getElem?_slots (h : Agrees s avail σ τ) {k : Nat} {d : IR.Datum}
    (hd : σ.slots[k]? = some d) : τ.slots[k]? = some (.ofIR d) := by
  rw [h.slots, List.getElem?_map, hd, Option.map_some]

/-- The address in a local that is kept in a slot is that of this slot. -/
theorem eq_of_slot (h : Agrees s avail σ τ) {l k k' : Nat}
    (hl : (IR.Value.ofLocal l).AvailableIn avail) (hp : s.storage[l]? = some (some (.slot k)))
    (hd : σ.value? (.ofLocal l) = some (.slot k')) : k' = k :=
  IR.Datum.slot.inj (h.places l hl _ hp _ hd)

end Agrees

/-! ### One instruction -/

namespace Emit

variable {globals : Nat} {f : IR.Function} {s s' : State} {avail : List Nat} {σ σ' : IR.Frame}
  {τ : Frame}

/-- **An operand.** The value that it becomes shows what it stands for. -/
theorem Operand.simulates {v : IR.Value} {n : Nat} {d : IR.Datum} (h : Operand globals s v n s')
    (hagrees : Agrees s avail σ τ) (hv : v.AvailableIn avail) (hd : σ.value? v = some d)
    (hbit : ∀ bits, v ≠ .const .i1 bits) :
    ∃ τ', Runs s τ s' τ' ∧ Agrees s' avail σ τ' ∧ n < s'.values.length ∧
      τ'.values.get? n = some (.ofIR d) := by
  -- a value that was just made is the last one so far
  have hmake : ∀ {ty : Ty} {imm : Option Int} {i : (dest : Nat) → Inst},
      (i s.values.length).exec τ = some (τ.define s.values.length (.ofIR d)) →
      ∃ τ', Runs s τ (s.make ty imm i) τ' ∧ Agrees (s.make ty imm i) avail σ τ' ∧
        s.values.length < (s.make ty imm i).values.length ∧
        τ'.values.get? s.values.length = some (.ofIR d) := by
    intro ty imm i hexec
    have hruns : Runs s τ (s.make ty imm i) (τ.define s.values.length (.ofIR d)) := .make hexec
    exact ⟨_, hruns, hagrees.runs hruns rfl rfl rfl, by simp [State.make],
      τ.get?_define_self _ _⟩
  cases h with
  | @const ty bits t imm hty himm =>
    refine hmake ?_
    have hne : ty ≠ .i1 := by
      rintro rfl
      exact hbit bits rfl
    rw [Inst.exec, himm, Datum.ofImm_eq hd hty hne]
  | @value l n hl =>
    obtain ⟨hlt, hget⟩ := hagrees.places l hv _ hl d hd
    exact ⟨τ, .of_eq rfl rfl, hagrees, hlt, hget⟩
  | @slot l k hl =>
    obtain rfl : d = .slot k := hagrees.places l hv _ hl d hd
    exact hmake rfl
  | global => cases hd

/-- A local becomes a new value that shows the result of the instruction. -/
theorem simulates_define (dest : Nat) (ty : Ty) (i : (dest : Nat) → Inst) {d : IR.Datum}
    (hagrees : Agrees s avail σ τ)
    (hexec : (i s.values.length).exec τ = some (τ.define s.values.length (.ofIR d))) :
    ∃ τ', Runs s τ ((s.make ty none i).keep dest (.value s.values.length)) τ' ∧
      Agrees ((s.make ty none i).keep dest (.value s.values.length)) (avail ++ [dest])
        (σ.define dest d) τ' := by
  have hruns : Runs s τ (s.make ty none i) (τ.define s.values.length (.ofIR d)) := .make hexec
  refine ⟨_, hruns.trans (.of_eq rfl rfl), (hagrees.runs hruns rfl rfl rfl).define ⟨?_, ?_⟩⟩
  · simp [State.make]
  · exact τ.get?_define_self _ _

/-- Both operands of an instruction. Making the second leaves the first. -/
theorem simulates_operands {lhs rhs : IR.Value} {l r : Nat} {s₁ : State} {a b : IR.Datum}
    (hlhs : Operand globals s lhs l s₁) (hrhs : Operand globals s₁ rhs r s')
    (hagrees : Agrees s avail σ τ) (hl : lhs.AvailableIn avail) (hr : rhs.AvailableIn avail)
    (ha : σ.value? lhs = some a) (hb : σ.value? rhs = some b)
    (hlbit : ∀ bits, lhs ≠ .const .i1 bits) (hrbit : ∀ bits, rhs ≠ .const .i1 bits) :
    ∃ τ', Runs s τ s' τ' ∧ Agrees s' avail σ τ' ∧ τ'.values.get? l = some (.ofIR a) ∧
      τ'.values.get? r = some (.ofIR b) := by
  obtain ⟨τ₁, hruns₁, hagrees₁, hlt, hgetl⟩ := hlhs.simulates hagrees hl ha hlbit
  obtain ⟨τ₂, hruns₂, hagrees₂, -, hgetr⟩ := hrhs.simulates hagrees₁ hr hb hrbit
  exact ⟨τ₂, hruns₁.trans hruns₂, hagrees₂, by rw [hruns₂.keeps l hlt, hgetl], hgetr⟩

/-- An operand that stands for an address is no constant bit. -/
theorem ne_bit_of_value?_slot {v : IR.Value} {k : Nat} (h : σ.value? v = some (.slot k)) :
    ∀ bits, v ≠ .const .i1 bits := by
  rintro bits rfl
  cases h

/-- Neither is the left operand of arithmetic on bytes. -/
theorem ne_bit_of_eval? {v : IR.Value} {op : IR.BinOp} {a d : IR.Datum} {n : UInt8}
    (h : σ.value? v = some a) (heval : op.eval? a (.byte n) = some d) :
    ∀ bits, v ≠ .const .i1 bits := by
  rintro bits rfl
  cases h
  cases op <;> cases heval

theorem ne_bit_of_compare {v : IR.Value} {pred : IR.Predicate} {a : IR.Datum} {n : UInt8}
    {r : Bool} (h : σ.value? v = some a) (heval : pred.eval? a (.byte n) = some r) :
    ∀ bits, v ≠ .const .i1 bits := by
  rintro bits rfl
  cases h
  cases pred <;> cases heval

/-- **One instruction.** What was added for it does the same to the native frame. -/
theorem Step.simulates {i : IR.Inst} (h : Step globals f s i s') (hagrees : Agrees s avail σ τ)
    (hplain : i.isTerminator = false) (hscope : ∀ v ∈ i.operands, v.AvailableIn avail)
    (hbytes : i.Bytewise) (hexec : i.exec σ = some σ') :
    ∃ τ', Runs s τ s' τ' ∧ Agrees s' (avail ++ i.dest?.toList) σ' τ' := by
  cases h with
  | @alloca dest ty hdest =>
    rw [IR.eq_of_exec_alloca hexec]
    refine ⟨τ, .of_eq rfl rfl, ?_⟩
    have hnext : Agrees (s.addSlots [ty]) avail { σ with made := σ.made + 1 } τ :=
      { slots := hagrees.slots
        made := by simp [State.addSlots, hagrees.made]
        places := hagrees.places }
    rw [← hagrees.made] at hnext ⊢
    exact hnext.define rfl
  | @stackLoad dest l k ty t hty hl hdest =>
    obtain ⟨k', d, hptr, hslot, rfl, rfl⟩ := IR.exists_of_exec_load hexec
    obtain rfl := hagrees.eq_of_slot (hscope _ (by simp [IR.Inst.operands])) hl hptr
    obtain rfl : (Datum.ofIR d).ty = t := Option.some.inj ((Ty.ofIR?_ty d).symm.trans hty)
    exact simulates_define dest _ (.stackLoad · (Datum.ofIR d).ty k') hagrees
      (Frame.load?_eq _ (hagrees.getElem?_slots hslot))
  | @load dest address ty ptr t s₁ hty haddress hdest =>
    obtain ⟨k, d, hptr, hslot, rfl, rfl⟩ := IR.exists_of_exec_load hexec
    obtain rfl : (Datum.ofIR d).ty = t := Option.some.inj ((Ty.ofIR?_ty d).symm.trans hty)
    obtain ⟨τ₁, hruns, hagrees₁, -, hget⟩ := haddress.simulates hagrees
      (hscope _ (by simp [IR.Inst.operands])) hptr (ne_bit_of_value?_slot hptr)
    have hload : (Inst.load s₁.values.length (Datum.ofIR d).ty address).exec τ₁ =
        some (τ₁.define s₁.values.length (.ofIR d)) := by
      rw [Inst.exec, Frame.slotAt?_eq hget, Option.bind_some]
      exact Frame.load?_eq _ (hagrees₁.getElem?_slots hslot)
    obtain ⟨τ', hruns', hagrees'⟩ :=
      simulates_define dest (Datum.ofIR d).ty (.load · (Datum.ofIR d).ty address) hagrees₁ hload
    exact ⟨τ', hruns.trans hruns', hagrees'⟩
  | @stackStore v l k value s₁ hvalue hl =>
    obtain ⟨d, k', old, hd, hptr, hold, hty, rfl⟩ := IR.exists_of_exec_store hexec
    obtain ⟨τ₁, hruns, hagrees₁, -, hget⟩ := hvalue.simulates hagrees
      (hscope _ (by simp [IR.Inst.operands])) hd hbytes
    obtain rfl := hagrees₁.eq_of_slot (hscope _ (by simp [IR.Inst.operands])) hl hptr
    have hstore := Frame.store?_eq hget (hagrees₁.getElem?_slots hold) (Datum.ty_ofIR_eq hty)
    refine ⟨_, hruns.trans (.add hstore rfl), ?_⟩
    rw [IR.Inst.dest?, Option.toList_none, List.append_nil]
    exact (hagrees₁.write k' d).add _
  | @store v address value ptr s₁ s₂ hvalue haddress =>
    obtain ⟨d, k, old, hd, hptr, hold, hty, rfl⟩ := IR.exists_of_exec_store hexec
    obtain ⟨τ₂, hruns, hagrees₂, hgetv, hgeta⟩ := simulates_operands hvalue haddress hagrees
      (hscope _ (by simp [IR.Inst.operands])) (hscope _ (by simp [IR.Inst.operands])) hd hptr hbytes
      (ne_bit_of_value?_slot hptr)
    have hstore := Frame.store?_eq hgetv (hagrees₂.getElem?_slots hold) (Datum.ty_ofIR_eq hty)
    have hexec' : (Inst.store v address).exec τ₂ =
        some { τ₂ with slots := τ₂.slots.set k (.ofIR d) } := by
      rw [Inst.exec, Frame.slotAt?_eq hgeta, Option.bind_some, hstore]
    refine ⟨_, hruns.trans (.add hexec' rfl), ?_⟩
    rw [IR.Inst.dest?, Option.toList_none, List.append_nil]
    exact (hagrees₂.write k d).add _
  | @binary dest l r op lhs rhs t s₁ s₂ hlhs hrhs hdest =>
    obtain ⟨bits, rfl⟩ := hbytes
    obtain ⟨a, b, d, ha, ⟨⟩, heval, rfl⟩ := IR.exists_of_exec_binary hexec
    obtain ⟨τ₂, hruns, hagrees₂, hgetl, hgetr⟩ := simulates_operands hlhs hrhs hagrees
      (hscope _ (by simp [IR.Inst.operands])) trivial ha rfl (ne_bit_of_eval? ha heval) (by simp)
    have hbinary : (Inst.binary s₂.values.length op l r).exec τ₂ =
        some (τ₂.define s₂.values.length (.ofIR d)) := by
      simp only [Inst.exec, hgetl, hgetr, Datum.arith?_ofIR heval, Option.map_some]
    obtain ⟨τ', hruns', hagrees'⟩ :=
      simulates_define dest t (.binary · op l r) hagrees₂ hbinary
    exact ⟨τ', hruns.trans hruns', hagrees'⟩
  | @icmp dest l r pred lhs rhs s₁ s₂ hlhs hrhs hdest =>
    obtain ⟨bits, rfl⟩ := hbytes
    obtain ⟨a, b, c, ha, ⟨⟩, heval, rfl⟩ := IR.exists_of_exec_icmp hexec
    obtain ⟨τ₂, hruns, hagrees₂, hgetl, hgetr⟩ := simulates_operands hlhs hrhs hagrees
      (hscope _ (by simp [IR.Inst.operands])) trivial ha rfl (ne_bit_of_compare ha heval) (by simp)
    have hicmp : (Inst.icmp s₂.values.length pred l r).exec τ₂ =
        some (τ₂.define s₂.values.length (.ofIR (.bit c))) := by
      simp only [Inst.exec, hgetl, hgetr, Datum.compare?_ofIR heval, Option.map_some]
      rfl
    obtain ⟨τ', hruns', hagrees'⟩ :=
      simulates_define dest .i8 (.icmp · pred l r) hagrees₂ hicmp
    exact ⟨τ', hruns.trans hruns', hagrees'⟩
  | br | unreachable => cases hplain

/-- **Straight-line code**, one instruction after the other. -/
theorem Steps.simulates {code : List IR.Inst} {s : State} {avail : List Nat} {σ : IR.Frame}
    {τ : Frame} (h : Steps globals f s code s') (hagrees : Agrees s avail σ τ)
    (hplain : ∀ i ∈ code, i.isTerminator = false) (hscope : IR.Scoped avail code)
    (hbytes : ∀ i ∈ code, i.Bytewise) (hexec : IR.execAll code σ = some σ') :
    ∃ τ', Runs s τ s' τ' ∧ Agrees s' (avail ++ IR.dests code) σ' τ' := by
  induction code generalizing s avail σ τ with
  | nil =>
    cases h
    cases hexec
    exact ⟨τ, .of_eq rfl rfl, by simpa [IR.dests] using hagrees⟩
  | cons i code ih =>
    obtain ⟨s₁, hstep, hrest⟩ := h
    obtain ⟨σ₁, hi, hexec⟩ := Option.bind_eq_some_iff.mp hexec
    obtain ⟨τ₁, hruns, hagrees₁⟩ := hstep.simulates hagrees (hplain i List.mem_cons_self) hscope.1
      (hbytes i List.mem_cons_self) hi
    obtain ⟨τ', hruns', hagrees'⟩ := ih hrest hagrees₁
      (fun j hj => hplain j (List.mem_cons_of_mem i hj)) hscope.2
      (fun j hj => hbytes j (List.mem_cons_of_mem i hj)) hexec
    rw [List.append_assoc, ← IR.dests_cons] at hagrees'
    exact ⟨τ', hruns.trans hruns', hagrees'⟩

/-! ### One block -/

/-- What ends a block. -/
def terminatorOf : IR.Inst → Inst
  | .br target => .jump target
  | _ => .trap

theorem Step.eq_add_terminator {t : IR.Inst} (h : Step globals f s t s')
    (ht : t.isTerminator = true) : s' = s.add (terminatorOf t) := by
  cases h with
  | br | unreachable => rfl
  | _ => cases ht

theorem Steps.exists_of_append {code more : List IR.Inst} {s : State}
    (h : Steps globals f s (code ++ more) s') :
    ∃ s₁, Steps globals f s code s₁ ∧ Steps globals f s₁ more s' := by
  induction code generalizing s with
  | nil => exact ⟨s, rfl, h⟩
  | cons i code ih =>
    obtain ⟨s₁, hstep, hrest⟩ := h
    obtain ⟨s₂, hcode, hmore⟩ := ih hrest
    exact ⟨s₂, ⟨s₁, hstep, hcode⟩, hmore⟩

/-- **A block** runs up to its end. -/
theorem simulates_block {code : List IR.Inst} {t : IR.Inst}
    (h : Steps globals f { s with insts := [] } (code ++ [t]) s') (ht : t.isTerminator = true)
    (hagrees : Agrees s avail σ τ) (hplain : ∀ i ∈ code, i.isTerminator = false)
    (hscope : IR.Scoped avail code) (hbytes : ∀ i ∈ code, i.Bytewise)
    (hexec : IR.execAll code σ = some σ') :
    ∃ added τ', s'.insts = added ++ [terminatorOf t] ∧ execAll added τ = some τ' ∧
      Agrees s' (avail ++ IR.dests code) σ' τ' ∧
      ∀ n < s.values.length, τ'.values.get? n = τ.values.get? n := by
  obtain ⟨s₁, hcode, s₂, hlast, rfl⟩ := h.exists_of_append
  have hclear : Agrees { s with insts := [] } avail σ τ :=
    ⟨hagrees.slots, hagrees.made, hagrees.places⟩
  obtain ⟨τ', hruns, hagrees'⟩ := hcode.simulates hclear hplain hscope hbytes hexec
  obtain ⟨added, hinsts, hadded⟩ := hruns.code
  rw [hlast.eq_add_terminator ht]
  refine ⟨added, τ', ?_, hadded, hagrees'.add _, hruns.keeps⟩
  rw [State.add, hinsts, List.nil_append]

end Emit

end Native

end Mos6502
