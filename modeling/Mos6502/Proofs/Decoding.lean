import Mos6502.Proofs.LayoutTables
import Mos6502.Proofs.Selection

/-!
# Encodings can be decoded

An opcode stands for one mnemonic and one addressing mode. `Opcode.decode?` reads them off the
tables, and it is the inverse of `Opcode.find?`: no opcode stands in two rows, and no mnemonic
stands twice in the table of a mode. These two facts are all that is used of the 151 rows.

Selection takes opcode and mode from the same row, so the opcode of an encoding gives back the
mnemonic, apart from the case of its letters, and the mode. In a program, then, the opcode of an
instruction settles what the instruction is and how long it is.

## Main definitions

* `Opcode.decode?` — the mnemonic and the mode of an opcode

## Main results

* `Opcode.decode?_eq_some_iff` — decoding is the inverse of the tables
* `Layout.exists_select_of_mem_instructions` — where the instructions of a layout come from
* `select_decodable`
-/

namespace Mos6502

/-- A table without repeated keys is looked up like a relation. -/
theorem lookup_eq_some_iff_mem {α β : Type} [BEq α] [LawfulBEq α] {rows : List (α × β)}
    (h : (rows.map Prod.fst).Nodup) {a : α} {b : β} :
    rows.lookup a = some b ↔ (a, b) ∈ rows := by
  induction rows with
  | nil => simp
  | cons row rows ih =>
    obtain ⟨key, value⟩ := row
    obtain ⟨hkey, hrows⟩ := List.nodup_cons.mp h
    by_cases ha : a = key
    · subst ha
      -- the key stands nowhere else, so that the first row is the only one
      have hnone : (a, b) ∉ rows := fun hmem => hkey (List.mem_map.mpr ⟨(a, b), hmem, rfl⟩)
      simp [hnone, eq_comm]
    · rw [List.lookup_cons, beq_eq_false_iff_ne.mpr ha, ih hrows]
      simp [ha]

namespace Opcode

/-- The rows of all tables, from opcodes to what they stand for. -/
def meanings : List (UInt8 × String × AddressingMode) :=
  AddressingMode.all.flatMap fun mode => (table mode).map fun row => (row.2, row.1, mode)

/-- The mnemonic, in small letters, and the addressing mode of an opcode. -/
def decode? (opcode : UInt8) : Option (String × AddressingMode) :=
  meanings.lookup opcode

theorem nodup_opcodes : (meanings.map Prod.fst).Nodup := by
  -- numbers are compared faster than bytes
  have h : ((meanings.map Prod.fst).map UInt8.toNat).Nodup := by decide +kernel
  exact h.of_map UInt8.toNat

theorem nodup_mnemonics (mode : AddressingMode) : ((table mode).map Prod.fst).Nodup := by
  cases mode <;> decide +kernel

theorem mem_meanings_iff {opcode : UInt8} {name : String} {mode : AddressingMode} :
    (opcode, name, mode) ∈ meanings ↔ (name, opcode) ∈ table mode := by
  simp only [meanings, List.mem_flatMap, List.mem_map, Prod.exists, Prod.mk.injEq]
  constructor
  · rintro ⟨_, -, _, _, hrow, rfl, rfl, rfl⟩
    exact hrow
  · intro hrow
    exact ⟨mode, mode.mem_all, name, opcode, hrow, rfl, rfl, rfl⟩

/-- **Decoding is the inverse of the tables**: an opcode is decoded to the row it stands in. -/
theorem decode?_eq_some_iff {opcode : UInt8} {name : String} {mode : AddressingMode} :
    decode? opcode = some (name, mode) ↔ find? mode name = some opcode := by
  rw [decode?, lookup_eq_some_iff_mem nodup_opcodes, mem_meanings_iff, find?,
    lookup_eq_some_iff_mem (nodup_mnemonics mode)]

end Opcode

/-- **An encoding is decoded** to the mnemonic in small letters and the mode it was selected
with. -/
theorem Instr.decode?_of_select {line : Nat} {span : Span} {i : Instr} {e : Encoding}
    (h : i.select line span = .ok e) :
    Opcode.decode? e.opcode = some (Text.lowercase i.mnemonic.val, e.mode) := by
  obtain ⟨-, -, hfound⟩ := select_eq_ok_iff.mp h
  obtain ⟨mode, -, hrow⟩ := List.exists_of_findSome?_eq_some hfound
  obtain ⟨rfl, hopcode⟩ := Select.encodingIn?_eq_some_iff.mp hrow
  exact Opcode.decode?_eq_some_iff.mpr hopcode

/-- Every instruction of a layout was selected. -/
theorem Layout.exists_select_of_mem_instructions {stmts : List Stmt} {x : Encoded}
    (h : x ∈ (ofStmts stmts).instructions) :
    ∃ i, x.stmt.node = .instr i ∧ i.select x.stmt.line x.stmt.span = .ok x.encoding := by
  induction stmts using List.reverseRecOn with
  | nil => cases h
  | append_singleton stmts s ih =>
    rw [ofStmts_concat, instructions_visit (counter_ofStmts stmts)] at h
    rcases List.mem_append.mp h with h | h
    · exact ih h
    · rw [encodedFindings] at h
      split at h
      · next i hnode =>
        split at h
        · next e hselect =>
          obtain rfl := List.mem_singleton.mp h
          exact ⟨i, hnode, hselect⟩
        · cases h
      · cases h

/-- **Encodings are uniquely decodable.** The decoder knows an opcode exactly if a table has it, and
gives back the mnemonic in small letters and the mode of every instruction that can be encoded. So
two instructions of a program with one opcode have the same mnemonic, apart from the case of its
letters, the same mode and the same size. -/
theorem select_decodable :
    (∀ opcode name mode, Opcode.decode? opcode = some (name, mode) ↔
      Opcode.find? mode name = some opcode) ∧
    (∀ line span (i : Instr) e, i.select line span = .ok e →
      Opcode.decode? e.opcode = some (Text.lowercase i.mnemonic.val, e.mode)) ∧
    ∀ stmts, ∀ x ∈ (Layout.ofStmts stmts).instructions,
      ∀ y ∈ (Layout.ofStmts stmts).instructions, x.encoding.opcode = y.encoding.opcode →
        ∃ i j, x.stmt.node = .instr i ∧ y.stmt.node = .instr j ∧
          Text.lowercase i.mnemonic.val = Text.lowercase j.mnemonic.val ∧
          x.encoding.mode = y.encoding.mode ∧ x.encoding.size = y.encoding.size := by
  refine ⟨fun _ _ _ => Opcode.decode?_eq_some_iff, fun _ _ _ _ => Instr.decode?_of_select, ?_⟩
  intro stmts x hx y hy hopcode
  obtain ⟨i, hi, hx⟩ := Layout.exists_select_of_mem_instructions hx
  obtain ⟨j, hj, hy⟩ := Layout.exists_select_of_mem_instructions hy
  have hsame : some (Text.lowercase i.mnemonic.val, x.encoding.mode) =
      some (Text.lowercase j.mnemonic.val, y.encoding.mode) := by
    rw [← Instr.decode?_of_select hx, hopcode, Instr.decode?_of_select hy]
  obtain ⟨hname, hmode⟩ := Prod.mk.inj (Option.some.inj hsame)
  refine ⟨i, j, hi, hj, hname, hmode, ?_⟩
  rw [Encoding.size, hmode, Encoding.size]

example :
    Opcode.decode? 0xB6 = some ("ldx", .zeroPageY) ∧ Opcode.decode? 0x02 = none := by
  decide

end Mos6502
