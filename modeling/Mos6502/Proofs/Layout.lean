import Mos6502.Proofs.Cpu
import Mathlib.Data.List.Nodup
import Mathlib.Data.List.Induction

/-!
# What the layout of a program says

One statement changes a layout by little: it takes an address or none, it adds an error or none,
it binds a name or none. The lemmas on `visit` say this once for each part of the layout, and the
facts about whole programs follow by induction from the end of the statement list, since
`ofStmts` of a longer program is one more `visit`.

## Main results

* `Layout.map_stmt_place` — placing keeps the statements and their order
* `Layout.addressAt?_ofStmts` — a statement takes its address from the statements before it
* `Layout.get?_vars_ofStmts` — a variable has the value last assigned to it
* `Layout.get?_labels_ofStmts` — a label has the address in front of its first statement
* `Layout.address_isSome_of_errors_eq_nil`, `Layout.nodup_labels_of_errors_eq_nil` — in a program
  without errors every instruction has an address, and no label stands twice
-/

namespace Mos6502

namespace Layout

/-- The address that the next statement takes. -/
def addressOf (l : Layout) (s : Stmt) : Option UInt32 :=
  match s.node with
  | .data _ _ => some l.counter
  | .instr i => if (i.select s.line s.span).isOk then some l.counter else none
  | _ => none

/-- The error that the next statement adds. -/
def errorOf (l : Layout) (s : Stmt) : Option AsmError :=
  match s.node with
  | .label name =>
    if l.labels.contains name then some ⟨s.line, s.span, .duplicateLabel name⟩ else none
  | .instr i =>
    match i.select s.line s.span with
    | .ok _ => none
    | .error e => some e
  | _ => none

theorem addresses_visit (l : Layout) (s : Stmt) :
    (l.visit s).addresses = l.addresses ++ [l.addressOf s] := by
  obtain ⟨line, span, node⟩ := s
  cases node with
  | assign | org | data => rfl
  | label name => simp only [visit]; split <;> rfl
  | instr i =>
    cases h : i.select line span <;> simp [visit, addressOf, h, skip, occupy, Except.isOk,
      Except.toBool]

theorem errors_visit (l : Layout) (s : Stmt) :
    (l.visit s).errors = l.errors ++ (l.errorOf s).toList := by
  obtain ⟨line, span, node⟩ := s
  cases node with
  | assign | org | data => exact (List.append_nil _).symm
  | label name =>
    by_cases h : l.labels.contains name <;> simp [visit, errorOf, h, skip]
  | instr i =>
    cases h : i.select line span <;> simp [visit, errorOf, h, skip, occupy]

theorem vars_visit (l : Layout) (s : Stmt) (name : String) :
    (l.visit s).vars.get? name = (s.assigned? name).or (l.vars.get? name) := by
  obtain ⟨line, span, node⟩ := s
  cases node with
  | assign n value =>
    simp only [visit, Stmt.assigned?, Bindings.get?_insert, eq_comm (a := name)]
    split <;> rfl
  | label => simp only [visit]; split <;> rfl
  | org | data => rfl
  | instr i => simp only [visit]; split <;> rfl

/-- The first label of a name is bound to the location counter, and no later one changes that. -/
theorem get?_labels_visit (l : Layout) (s : Stmt) (name : String) :
    (l.visit s).labels.get? name =
      (l.labels.get? name).or (if s.label? = some name then some l.counter else none) := by
  obtain ⟨line, span, node⟩ := s
  cases node with
  | label n =>
    cases hn : l.labels.get? n with
    | some a =>
      by_cases h : n = name
      · subst h; simp [visit, Bindings.contains, hn, skip]
      · simp [visit, Bindings.contains, hn, skip, Stmt.label?, h]
    | none =>
      by_cases h : n = name
      · subst h; simp [visit, Bindings.contains, hn, skip, Stmt.label?, Bindings.get?_insert]
      · simp [visit, Bindings.contains, hn, skip, Stmt.label?, Bindings.get?_insert, h, Ne.symm h]
  | assign | org | data => exact (Option.or_none).symm
  | instr i => simp only [visit]; split <;> exact (Option.or_none).symm

theorem labels_visit (l : Layout) (s : Stmt) (name : String) :
    (l.visit s).labels.contains name = (l.labels.contains name || s.label? = some name) := by
  rw [Bindings.contains, get?_labels_visit, Option.isSome_or, Bindings.contains]
  split <;> simp [*]

/-! ### Whole programs -/

theorem ofStmts_concat (stmts : List Stmt) (s : Stmt) :
    ofStmts (stmts ++ [s]) = (ofStmts stmts).visit s := by
  simp [ofStmts]

@[simp] theorem length_addresses_ofStmts (stmts : List Stmt) :
    (ofStmts stmts).addresses.length = stmts.length := by
  induction stmts using List.reverseRecOn with
  | nil => rfl
  | append_singleton stmts s ih => simp [ofStmts_concat, addresses_visit, ih]

/-- A statement takes the address that the layout of the statements before it gives it. -/
theorem addressAt?_ofStmts (stmts : List Stmt) (j : Nat) :
    (ofStmts stmts).addressAt? j = stmts[j]?.bind (ofStmts (stmts.take j)).addressOf := by
  induction stmts using List.reverseRecOn with
  | nil => rfl
  | append_singleton stmts s ih =>
    rw [addressAt?] at ih
    rw [addressAt?, ofStmts_concat, addresses_visit]
    rcases Nat.lt_trichotomy j stmts.length with hlt | rfl | hgt
    · rw [List.getElem?_append_left (by simpa using hlt), List.getElem?_append_left hlt,
        List.take_append_of_le_length (Nat.le_of_lt hlt), ih]
    · have hlast : (ofStmts stmts).addresses.length = stmts.length := by simp
      rw [← hlast, List.getElem?_concat_length, hlast, List.getElem?_concat_length,
        List.take_left]
      rfl
    · rw [List.getElem?_eq_none (by simp; omega), List.getElem?_eq_none (by simp; omega)]
      rfl

theorem place_concat (stmts : List Stmt) (s : Stmt) :
    (ofStmts (stmts ++ [s])).place (stmts ++ [s]) =
      (ofStmts stmts).place stmts ++ [⟨s, (ofStmts stmts).addressOf s⟩] := by
  rw [place, place, ofStmts_concat, addresses_visit, List.zipWith_append (by simp)]
  rfl

/-- Placing keeps the statements and their order. -/
theorem map_stmt_place (stmts : List Stmt) :
    ((ofStmts stmts).place stmts).map Placed.stmt = stmts := by
  induction stmts using List.reverseRecOn with
  | nil => rfl
  | append_singleton stmts s ih => rw [place_concat, List.map_append, ih]; rfl

/-- A variable has the value last assigned to it. -/
theorem get?_vars_ofStmts (stmts : List Stmt) (name : String) :
    (ofStmts stmts).vars.get? name = lastAssigned stmts name := by
  induction stmts using List.reverseRecOn with
  | nil => rfl
  | append_singleton stmts s ih =>
    rw [ofStmts_concat, vars_visit, ih, lastAssigned, lastAssigned, List.filterMap_append]
    cases h : s.assigned? name <;> simp [h]

theorem contains_labels_ofStmts (stmts : List Stmt) (name : String) :
    (ofStmts stmts).labels.contains name ↔ name ∈ stmts.filterMap Stmt.label? := by
  induction stmts using List.reverseRecOn with
  | nil => simp [ofStmts, Bindings.contains, Bindings.get?]
  | append_singleton stmts s ih =>
    rw [ofStmts_concat, labels_visit, List.filterMap_append, List.mem_append, Bool.or_eq_true, ih]
    cases h : s.label? <;> simp [h, eq_comm]

/-- A label that is the first of its name is bound to the location counter in front of it. -/
theorem get?_labels_ofStmts {before : List Stmt} {s : Stmt} {name : String}
    (hs : s.label? = some name) (hnew : name ∉ before.filterMap Stmt.label?) (after : List Stmt) :
    (ofStmts (before ++ s :: after)).labels.get? name = some (ofStmts before).counter := by
  induction after using List.reverseRecOn with
  | nil =>
    have hnone : (ofStmts before).labels.get? name = none := by
      rw [← contains_labels_ofStmts] at hnew
      simpa [Bindings.contains] using hnew
    rw [ofStmts_concat, get?_labels_visit, hnone, if_pos hs, Option.none_or]
  | append_singleton after t ih =>
    rw [← List.cons_append, ← List.append_assoc, ofStmts_concat, get?_labels_visit, ih,
      Option.some_or]

/-- A program without errors has none before its last statement, and that adds none. -/
theorem errors_concat_eq_nil {stmts : List Stmt} {s : Stmt}
    (h : (ofStmts (stmts ++ [s])).errors = []) :
    (ofStmts stmts).errors = [] ∧ (ofStmts stmts).errorOf s = none := by
  rw [ofStmts_concat, errors_visit, List.append_eq_nil_iff] at h
  exact ⟨h.1, by simpa using h.2⟩

/-- An instruction that gives no error can be encoded, so it has an address. -/
theorem addressOf_isSome {l : Layout} {s : Stmt} (h : l.errorOf s = none)
    (hs : s.instr?.isSome) : (l.addressOf s).isSome := by
  obtain ⟨line, span, node⟩ := s
  cases node with
  | label | assign | org | data => cases hs
  | instr i =>
    cases hselect : i.select line span with
    | error e => simp [errorOf, hselect] at h
    | ok selected => simp [addressOf, hselect, Except.isOk, Except.toBool]

/-- A label that gives no error is a new one. -/
theorem contains_eq_false {l : Layout} {s : Stmt} (h : l.errorOf s = none) {name : String}
    (hs : s.label? = some name) : l.labels.contains name = false := by
  obtain ⟨line, span, node⟩ := s
  cases node with
  | assign | org | data | instr => cases hs
  | label n =>
    obtain rfl : n = name := Option.some.inj hs
    simpa [errorOf] using h

/-- In a program without errors every instruction has an address. -/
theorem address_isSome_of_errors_eq_nil {stmts : List Stmt} (h : (ofStmts stmts).errors = []) :
    ∀ p ∈ (ofStmts stmts).place stmts, p.stmt.instr?.isSome → p.address.isSome := by
  induction stmts using List.reverseRecOn with
  | nil => intro p hp; simp [place] at hp
  | append_singleton stmts s ih =>
    obtain ⟨hbefore, hs⟩ := errors_concat_eq_nil h
    intro p hp hi
    rw [place_concat, List.mem_append, List.mem_singleton] at hp
    rcases hp with hp | rfl
    · exact ih hbefore p hp hi
    · exact addressOf_isSome hs hi

/-- In a program without errors no label stands twice. -/
theorem nodup_labels_of_errors_eq_nil {stmts : List Stmt} (h : (ofStmts stmts).errors = []) :
    (stmts.filterMap Stmt.label?).Nodup := by
  induction stmts using List.reverseRecOn with
  | nil => simp
  | append_singleton stmts s ih =>
    obtain ⟨hbefore, hs⟩ := errors_concat_eq_nil h
    rw [List.filterMap_append, List.nodup_append]
    cases hl : s.label? with
    | none => simpa [hl] using ih hbefore
    | some name =>
      have hnew : name ∉ stmts.filterMap Stmt.label? := by
        rw [← contains_labels_ofStmts, contains_eq_false hs hl]
        exact Bool.false_ne_true
      refine ⟨ih hbefore, by simp [hl], fun n hn m hm => ?_⟩
      obtain rfl : m = name := by simpa [hl, eq_comm] using hm
      rintro rfl
      exact hnew hn

end Layout

end Mos6502
