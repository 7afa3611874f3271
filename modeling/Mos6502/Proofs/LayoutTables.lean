import Mos6502.Proofs.EntryVectors
import Mos6502.Proofs.Findings

/-!
# The tables of a layout

A layout is made by one walk that carries a location counter and fills several tables at once. Here
each table is given on its own, without the walk. The counter in front of a statement is found by
going back to the last `org` and adding up the room that was taken since then; this is `location`,
and all the tables follow from it.

Each table has its own rule for what is written to it twice. Of several labels of a name the first
one counts, of several assignments the last one, and of several statements at an address the last
one. Lists keep everything, in source order.

## Main definitions

* `Stmt.room?` — the bytes that a statement takes
* `location` — the location counter after some statements
* `Layout.Describes` — the tables of a program

## Main results

* `Layout.counter_visit` and `Layout.counter_ofStmts` — the counter after one statement, and after
  many
* `Layout.get?_offsets_eq`, `Layout.get?_labels_eq`, `Layout.instructions_ofStmts`
* `describes_ofStmts`
-/

namespace Mos6502

/-- The address that an `org` sets. -/
def Stmt.org? (s : Stmt) : Option UInt32 :=
  match s.node with
  | .org address => some address
  | _ => none

/-- The bytes that a statement takes. Data takes some, if only zero of them, and so does an
instruction that can be encoded; nothing else has an address. -/
def Stmt.room? (s : Stmt) : Option Nat :=
  match s.node with
  | .data width items => some (dataSize width items)
  | .instr i =>
    match i.select s.line s.span with
    | .ok e => some e.size
    | .error _ => none
  | _ => none

/-- The location counter after some statements, of which the latest comes first: the address of the
last `org`, or zero if there was none, and the room taken since then. The sum wraps. -/
def location (before : List Stmt) : UInt32 :=
  UInt32.ofNat (((before.findSome? Stmt.org?).getD 0).toNat +
    ((before.takeWhile fun s => s.org?.isNone).filterMap Stmt.room?).sum)

example :
    location [⟨2, ⟨15, 21⟩, .data .word [⟨.int 7, ⟨20, 21⟩⟩]⟩,
      ⟨1, ⟨0, 14⟩, .org 0xffffffff⟩] = 1 := by
  decide

/-- An instruction that can be encoded, at the location after the statements before it. -/
def encodedFindings (before : List Stmt) (s : Stmt) : List Encoded :=
  match s.node with
  | .instr i =>
    match i.select s.line s.span with
    | .ok e => [⟨s, location before, e⟩]
    | .error _ => []
  | _ => []

/-- The layout holds what the statements say, table by table. -/
structure Layout.Describes (l : Layout) (stmts : List Stmt) : Prop where
  addresses : ∀ k a, l.addressAt? k = some a ↔
    (∃ s, stmts[k]? = some s ∧ s.room?.isSome) ∧ a = location (stmts.take k).reverse
  /-- The last statement at an address is found there. -/
  offsets : ∀ a, l.offsets.get? a =
    ((List.range stmts.length).filter fun k => l.addressAt? k = some a).getLast?
  /-- The first label of a name has the location in front of it. -/
  labels : ∀ name, l.labels.get? name =
    (stmts.findIdx? fun s => s.label? = some name).map fun k => location (stmts.take k).reverse
  vars : ∀ name, l.vars.get? name = lastAssigned stmts name
  instructions : l.instructions = findings encodedFindings [] stmts
  errors : l.errors = layoutErrors stmts

theorem location_cons (s : Stmt) (before : List Stmt) :
    location (s :: before) =
      s.org?.getD (location before + UInt32.ofNat (s.room?.getD 0)) := by
  cases horg : s.org? with
  | some a => simp [location, horg]
  | none =>
    have hroom : (((s :: before).takeWhile fun s => s.org?.isNone).filterMap Stmt.room?).sum =
        ((before.takeWhile fun s => s.org?.isNone).filterMap Stmt.room?).sum +
          s.room?.getD 0 := by
      cases hs : s.room? <;> simp [horg, hs, Nat.add_comm]
    rw [location, hroom, List.findSome?_cons, horg, ← Nat.add_assoc, UInt32.ofNat_add]
    rfl

namespace Layout

/-! ### The location counter -/

/-- **One statement** sets the counter or moves it by the room that it takes. -/
theorem counter_visit (l : Layout) (s : Stmt) :
    (l.visit s).counter = s.org?.getD (l.counter + UInt32.ofNat (s.room?.getD 0)) := by
  obtain ⟨line, span, node⟩ := s
  cases node with
  | assign | org | data => simp [visit, skip, occupy, Stmt.org?, Stmt.room?]
  | label name => simp only [visit]; split <;> simp [skip, Stmt.org?, Stmt.room?]
  | instr i =>
    cases h : i.select line span <;> simp [visit, skip, occupy, Stmt.org?, Stmt.room?, h]

/-- **The counter after a program.** -/
theorem counter_ofStmts (stmts : List Stmt) : (ofStmts stmts).counter = location stmts.reverse := by
  induction stmts using List.reverseRecOn with
  | nil => rfl
  | append_singleton stmts s ih =>
    rw [ofStmts_concat, counter_visit, ih, List.reverse_concat, location_cons]

/-! ### Addresses -/

theorem addressOf_eq (l : Layout) (s : Stmt) :
    l.addressOf s = s.room?.map fun _ => l.counter := by
  obtain ⟨line, span, node⟩ := s
  cases node with
  | label | assign | org | data => rfl
  | instr i =>
    cases h : i.select line span <;>
      simp [addressOf, Stmt.room?, h, Except.isOk, Except.toBool]

theorem addressAt?_eq_some_iff {stmts : List Stmt} {k : Nat} {a : UInt32} :
    (ofStmts stmts).addressAt? k = some a ↔
      (∃ s, stmts[k]? = some s ∧ s.room?.isSome) ∧ a = location (stmts.take k).reverse := by
  rw [addressAt?_ofStmts, ← counter_ofStmts]
  cases hs : stmts[k]? with
  | none => simp
  | some s =>
    rw [Option.bind_some, addressOf_eq]
    cases hroom : s.room? with
    | none => simp [hroom]
    | some n => simpa [hroom] using eq_comm

theorem addressAt?_concat (stmts : List Stmt) (s : Stmt) (k : Nat) :
    (ofStmts (stmts ++ [s])).addressAt? k =
      if k = stmts.length then (ofStmts stmts).addressOf s else (ofStmts stmts).addressAt? k := by
  rw [addressAt?, addressAt?, ofStmts_concat, addresses_visit]
  split
  · next h => simp [h]
  · next h =>
    rcases Nat.lt_or_gt_of_ne h with hlt | hgt
    · rw [List.getElem?_append_left (by simpa using hlt)]
    · rw [List.getElem?_eq_none (by simp; omega), List.getElem?_eq_none (by simp; omega)]

/-- The map of addresses finds the last statement at an address. -/
theorem get?_offsets_eq (stmts : List Stmt) (a : UInt32) :
    (ofStmts stmts).offsets.get? a =
      ((List.range stmts.length).filter fun k =>
        (ofStmts stmts).addressAt? k = some a).getLast? := by
  induction stmts using List.reverseRecOn with
  | nil => rfl
  | append_singleton stmts s ih =>
    -- the addresses of the earlier statements are those that they had before
    have hbefore : (List.range stmts.length).filter
          (fun k => (ofStmts (stmts ++ [s])).addressAt? k = some a) =
        (List.range stmts.length).filter (fun k => (ofStmts stmts).addressAt? k = some a) := by
      refine List.filter_congr fun k hk => ?_
      rw [addressAt?_concat, if_neg (Nat.ne_of_lt (List.mem_range.mp hk))]
    rw [List.length_append, List.length_singleton, List.range_succ, List.filter_append, hbefore,
      ofStmts_concat, get?_offsets_visit, length_addresses_ofStmts, ih, List.filter_singleton,
      ← ofStmts_concat, addressAt?_concat, if_pos rfl]
    by_cases ha : (ofStmts stmts).addressOf s = some a <;> simp [ha]

/-! ### Names and lists -/

/-- The first label of a name has the location in front of it. -/
theorem get?_labels_eq (stmts : List Stmt) (name : String) :
    (ofStmts stmts).labels.get? name =
      (stmts.findIdx? fun s => s.label? = some name).map fun k =>
        location (stmts.take k).reverse := by
  induction stmts using List.reverseRecOn with
  | nil => rfl
  | append_singleton stmts s ih =>
    rw [ofStmts_concat, get?_labels_visit, ih, counter_ofStmts, List.findIdx?_append]
    cases hfirst : stmts.findIdx? fun s => s.label? = some name with
    | none => by_cases hs : s.label? = some name <;> simp [hs, List.findIdx?_cons]
    | some k =>
      have hlt : k < stmts.length := (List.findIdx?_eq_some_iff_getElem.mp hfirst).1
      simp [List.take_append_of_le_length hlt.le]

theorem instructions_visit {l : Layout} {before : List Stmt} (h : l.counter = location before)
    (s : Stmt) : (l.visit s).instructions = l.instructions ++ encodedFindings before s := by
  obtain ⟨line, span, node⟩ := s
  cases node with
  | assign | org | data => exact (List.append_nil _).symm
  | label name => simp only [visit]; split <;> exact (List.append_nil _).symm
  | instr i =>
    cases hselect : i.select line span <;>
      simp [visit, skip, occupy, encodedFindings, hselect, h]

theorem instructions_ofStmts (stmts : List Stmt) :
    (ofStmts stmts).instructions = findings encodedFindings [] stmts := by
  induction stmts using List.reverseRecOn with
  | nil => rfl
  | append_singleton stmts s ih =>
    rw [ofStmts_concat, instructions_visit (counter_ofStmts stmts), ih, findings_concat,
      List.append_nil]

end Layout

/-- **The layout of a program in closed form.** -/
theorem describes_ofStmts (stmts : List Stmt) : (Layout.ofStmts stmts).Describes stmts where
  addresses _ _ := Layout.addressAt?_eq_some_iff
  offsets := Layout.get?_offsets_eq stmts
  labels := Layout.get?_labels_eq stmts
  vars := Layout.get?_vars_ofStmts stmts
  instructions := Layout.instructions_ofStmts stmts
  errors := Layout.errors_ofStmts stmts

end Mos6502
