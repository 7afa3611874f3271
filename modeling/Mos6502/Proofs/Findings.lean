import Mos6502.Proofs.Segments

/-!
# What is found in the text and in the data

Two of the stages of a compilation only look at the statements of a program: the layout and the
data. What they report of a statement depends on the statements before it, and on nothing else
that they collect. `findings` states this shape once; the errors and warnings of both stages are
instances of it, in which the location counter, the tables and the buffer of the stages no longer
occur.

## Main results

* `Layout.errors_ofStmts` — repeated labels and instructions that cannot be encoded
* `errors_dataOf` — items that are no bytes
* `warnings_dataOf` — byte data that no label owns
-/

namespace Mos6502

/-- What is found at each element of a list in turn, given the elements before it, of which the
latest comes first. -/
def findings {α β : Type} (found : List α → α → List β) (before : List α) : List α → List β
  | [] => []
  | x :: xs => found before x ++ findings found (x :: before) xs

theorem findings_concat {α β : Type} (found : List α → α → List β) (before xs : List α) (x : α) :
    findings found before (xs ++ [x]) =
      findings found before xs ++ found (xs.reverse ++ before) x := by
  induction xs generalizing before with
  | nil => simp [findings]
  | cons y xs ih => simp [findings, ih]

/-! ### The layout -/

/-- An error for a label that repeats an earlier name, and for an instruction that cannot be
encoded. -/
def layoutFindings (before : List Stmt) (s : Stmt) : List AsmError :=
  match s.node with
  | .label name =>
    if name ∈ before.filterMap Stmt.label? then [⟨s.line, s.span, .duplicateLabel name⟩] else []
  | .instr i =>
    match i.select s.line s.span with
    | .ok _ => []
    | .error e => [e]
  | _ => []

/-- The errors of the layout of a program. -/
def layoutErrors (stmts : List Stmt) : List AsmError :=
  findings layoutFindings [] stmts

namespace Layout

theorem errorOf_ofStmts (stmts : List Stmt) (s : Stmt) :
    ((ofStmts stmts).errorOf s).toList = layoutFindings stmts.reverse s := by
  obtain ⟨line, span, node⟩ := s
  cases node with
  | assign | org | data => rfl
  | label name =>
    have hlabel : name ∈ stmts.reverse.filterMap Stmt.label? ↔
        (ofStmts stmts).labels.contains name = true := by
      rw [contains_labels_ofStmts, List.filterMap_reverse, List.mem_reverse]
    by_cases h : (ofStmts stmts).labels.contains name = true
    · simp only [errorOf, layoutFindings, if_pos h, if_pos (hlabel.mpr h), Option.toList_some]
    · simp only [errorOf, layoutFindings, if_neg h, if_neg (mt hlabel.mp h), Option.toList_none]
  | instr i =>
    simp only [errorOf, layoutFindings]
    cases i.select line span <;> rfl

/-- **The errors of the layout.** -/
theorem errors_ofStmts (stmts : List Stmt) : (ofStmts stmts).errors = layoutErrors stmts := by
  induction stmts using List.reverseRecOn with
  | nil => rfl
  | append_singleton stmts s ih =>
    rw [ofStmts_concat, errors_visit, ih, errorOf_ofStmts, layoutErrors, layoutErrors,
      findings_concat, List.append_nil]

end Layout

/-! ### The data -/

/-- Is byte data here owned by a label? There is a label before it, and nothing but byte data
between them. -/
def isOwned (before : List Placed) : Bool :=
  (before.dropWhile fun p => p.stmt.isByteData).head?.any fun p => p.stmt.label?.isSome

/-- What is wrong with an item that is no byte. -/
def itemError (line : Nat) (item : Spanned Datum) : Option AsmError :=
  match item.val with
  | .int n => if n ≤ 0xff then none else some ⟨line, item.span, .outOfRange n 0xff⟩
  | .str _ => none
  | .label name => some ⟨line, item.span, .labelInByteData name⟩

/-- An error for the first item of owned byte data that is no byte. -/
def dataFindings (before : List Placed) (p : Placed) : List AsmError :=
  match p.stmt.node with
  | .data .byte items =>
    if isOwned before then (items.findSome? (itemError p.stmt.line)).toList else []
  | _ => []

/-- A warning for byte data that is not owned. -/
def trashFindings (before : List Placed) (p : Placed) : List Warning :=
  match p.stmt.node with
  | .data .byte _ =>
    if isOwned before then []
    else [⟨p.stmt.line, p.stmt.span, .trashedData (p.address.getD 0)⟩]
  | _ => []

/-- The errors in the data of a program. -/
def dataErrors (stmts : List Stmt) : List AsmError :=
  findings dataFindings [] (placedOf stmts)

/-- The warnings about the data of a program. -/
def dataWarnings (stmts : List Stmt) : List Warning :=
  findings trashFindings [] (placedOf stmts)

namespace DataSection

/-- A declaration contributes up to its first item that is no byte. -/
theorem contribution_snd (line : Nat) (items : List (Spanned Datum)) :
    (contribution line items).2 = items.findSome? (itemError line) := by
  induction items with
  | nil => rfl
  | cons item items ih =>
    obtain ⟨value, span⟩ := item
    cases value with
    | int n => by_cases hn : n ≤ 0xff <;> simp [contribution, itemError, hn, ih]
    | str s => simpa [contribution, List.findSome?_cons, itemError] using ih
    | label name => simp [contribution, List.findSome?_cons, itemError]

@[simp] theorem errors_close (buffer : Option (String × List UInt8)) :
    (close buffer).errors = [] := by
  unfold close
  repeat' split
  all_goals rfl

@[simp] theorem warnings_close (buffer : Option (String × List UInt8)) :
    (close buffer).warnings = [] := by
  unfold close
  repeat' split
  all_goals rfl

/-- What a scan reports. The buffer matters only in that it is open exactly if the next byte data
is owned. -/
theorem scan_findings (placed : List Placed) {buffer : Option (String × List UInt8)}
    {before : List Placed} (h : buffer.isSome = isOwned before) :
    (scan buffer placed).errors = findings dataFindings before placed ∧
      (scan buffer placed).warnings = findings trashFindings before placed := by
  induction placed generalizing buffer before with
  | nil => exact ⟨errors_close buffer, warnings_close buffer⟩
  | cons p rest ih =>
    obtain ⟨⟨line, span, node⟩, address⟩ := p
    cases node with
    | label | assign | org | instr =>
      simp only [scan, append, errors_close, warnings_close, findings, dataFindings, trashFindings,
        List.nil_append]
      refine ih ?_
      rfl
    | data width items =>
      cases width with
      | word =>
        simp only [scan, append, errors_close, warnings_close, findings, dataFindings,
          trashFindings, List.nil_append]
        refine ih ?_
        rfl
      | byte =>
        -- byte data leaves the owner of what follows as it is
        cases buffer with
        | none =>
          obtain ⟨herrors, hwarnings⟩ :=
            @ih none (⟨⟨line, span, .data .byte items⟩, address⟩ :: before) h
          simp [scan, append, findings, dataFindings, trashFindings, ← h, herrors, hwarnings]
        | some owner =>
          obtain ⟨label, bytes⟩ := owner
          obtain ⟨herrors, hwarnings⟩ :=
            @ih (some (label, bytes ++ (contribution line items).1))
              (⟨⟨line, span, .data .byte items⟩, address⟩ :: before) h
          simp [scan, append, findings, dataFindings, trashFindings, ← h, herrors, hwarnings,
            contribution_snd]

end DataSection

/-- **The errors in the data.** -/
theorem errors_dataOf (stmts : List Stmt) : (dataOf stmts).errors = dataErrors stmts :=
  (DataSection.scan_findings (placedOf stmts) rfl).1

/-- **The warnings about the data.** -/
theorem warnings_dataOf (stmts : List Stmt) : (dataOf stmts).warnings = dataWarnings stmts :=
  (DataSection.scan_findings (placedOf stmts) rfl).2

end Mos6502
