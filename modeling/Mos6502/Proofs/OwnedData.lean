import Mos6502.Proofs.Accounts

/-!
# The data that labels own

The data of a program is collected by a walk with a buffer, which is opened by a label, filled by
byte-sized data and closed by anything else. Here the result is stated without the buffer. Each
label owns the longest run of byte-sized data declarations directly after it, and each declaration
contributes its items up to the first one that is no byte. What a label owns becomes a constant if
there is any of it; what no label owns is reported.

Everything is listed by the places of statements in the program, so that the order of the text is
that of the numbers.

## Main definitions

* `runAfter`, `IsOwned` — which declarations a label owns
* `ownedData` — the labels that own bytes, with these bytes
* `dataErrorAt?`, `trashAt?` — what is reported of a declaration

## Main results

* `blobs_dataOf`, `dataErrors_eq`, `dataWarnings_eq` — the walk finds what labels own
* `getElem?_globals_dataModule` — the constants of a module
* `ownedData_compile`
-/

namespace Mos6502

/-! ### Ownership -/

/-- The bytes of an item, if it has some: a number beyond a byte and a label have none. -/
def Datum.bytes? : Datum → Option (List UInt8)
  | int n => if n ≤ 0xff then some [n.toUInt8] else none
  | str s => some (Text.encode s)
  | label _ => none

/-- The items of a byte-sized data declaration. -/
def Stmt.byteItems (s : Stmt) : List (Spanned Datum) :=
  match s.node with
  | .data .byte items => items
  | _ => []

/-- What a byte-sized data declaration contributes: its items up to the first that is no byte. -/
def Stmt.bytes (s : Stmt) : List UInt8 :=
  (s.byteItems.takeWhile fun item => item.val.bytes?.isSome).flatMap fun item =>
    item.val.bytes?.getD []

/-- The name of the label at a place of a program. -/
def labelAt? (stmts : List Stmt) (i : Nat) : Option String :=
  stmts[i]?.bind Stmt.label?

/-- The longest run of byte-sized data declarations directly after statement `i`. -/
def runAfter (stmts : List Stmt) (i : Nat) : List Stmt :=
  (stmts.drop (i + 1)).takeWhile Stmt.isByteData

/-- Statement `j` is in the run of some label. -/
def IsOwned (stmts : List Stmt) (j : Nat) : Prop :=
  ∃ i < j, (labelAt? stmts i).isSome ∧ j ≤ i + (runAfter stmts i).length

instance (stmts : List Stmt) (j : Nat) : Decidable (IsOwned stmts j) :=
  inferInstanceAs <| Decidable <|
    ∃ i < j, (labelAt? stmts i).isSome ∧ j ≤ i + (runAfter stmts i).length

/-- The label at a place and the bytes it owns, if it owns some. -/
def ownedBy? (stmts : List Stmt) (i : Nat) : Option (String × List UInt8) :=
  (labelAt? stmts i).bind fun name =>
    let bytes := (runAfter stmts i).flatMap Stmt.bytes
    if bytes.isEmpty then none else some (name, bytes)

/-- The labels that own bytes, in source order, with these bytes. -/
def ownedData (stmts : List Stmt) : List (String × List UInt8) :=
  (List.range stmts.length).filterMap (ownedBy? stmts)

/-- The error of a declaration that a label owns: its first item that is no byte. -/
def dataErrorAt? (stmts : List Stmt) (j : Nat) : Option AsmError :=
  if IsOwned stmts j then
    stmts[j]?.bind fun s => s.byteItems.findSome? (itemError s.line)
  else none

/-- The warning for byte-sized data that no label owns, with the address it was placed at. -/
def trashAt? (stmts : List Stmt) (j : Nat) : Option Warning :=
  if IsOwned stmts j then none
  else
    stmts[j]?.bind fun s =>
      if s.isByteData then
        ((Layout.ofStmts stmts).addressAt? j).map fun a => ⟨s.line, s.span, .trashedData a⟩
      else none

/-- The labels of a program that own no bytes anywhere, in source order. -/
def dataFreeLabels (stmts : List Stmt) : List String :=
  (stmts.filterMap Stmt.label?).filter fun name => name ∉ (ownedData stmts).map Prod.fst

/-! ### Runs of byte-sized data -/

theorem Stmt.exists_of_isByteData {s : Stmt} (h : s.isByteData = true) :
    ∃ items, s.node = .data .byte items := by
  unfold isByteData at h
  split at h
  · next items hnode => exact ⟨items, hnode⟩
  · cases h

/-- Byte-sized data is no label. -/
theorem Stmt.label?_of_isByteData {s : Stmt} (h : s.isByteData = true) : s.label? = none := by
  obtain ⟨items, hnode⟩ := exists_of_isByteData h
  obtain ⟨line, span, node⟩ := s
  subst hnode
  rfl

theorem lt_length_takeWhile_iff {α : Type} {p : α → Bool} {xs : List α} {n : Nat} :
    n < (xs.takeWhile p).length ↔ ∀ k ≤ n, ∃ x, xs[k]? = some x ∧ p x = true := by
  rw [List.takeWhile_eq_take_findIdx_not, List.length_take,
    Nat.min_eq_left List.findIdx_le_length, List.lt_findIdx_iff]
  constructor
  · rintro ⟨hlt, h⟩ k hk
    exact ⟨_, List.getElem?_eq_getElem (by omega), by simpa using h k hk⟩
  · intro h
    obtain ⟨x, hx, -⟩ := h n (Nat.le_refl n)
    refine ⟨(List.getElem?_eq_some_iff.mp hx).1, fun k hk => ?_⟩
    obtain ⟨y, hy, hp⟩ := h k hk
    obtain ⟨hlt, rfl⟩ := List.getElem?_eq_some_iff.mp hy
    simpa using hp

/-- The run of a label reaches up to `j` if everything after the label is byte-sized data. -/
theorem isOwned_iff {stmts : List Stmt} {j : Nat} :
    IsOwned stmts j ↔ ∃ i < j, (labelAt? stmts i).isSome ∧
      ∀ k, i < k → k ≤ j → ∃ s, stmts[k]? = some s ∧ s.isByteData = true := by
  unfold IsOwned
  refine exists_congr fun i => and_congr_right fun hij => and_congr_right fun _ => ?_
  have hlt : j ≤ i + (runAfter stmts i).length ↔ j - (i + 1) < (runAfter stmts i).length := by
    omega
  rw [hlt, runAfter, lt_length_takeWhile_iff]
  constructor
  · intro h k hik hkj
    obtain ⟨s, hs, hbyte⟩ := h (k - (i + 1)) (by omega)
    rw [List.getElem?_drop, Nat.add_sub_cancel' hik] at hs
    exact ⟨s, hs, hbyte⟩
  · intro h k hk
    rw [List.getElem?_drop]
    exact h (i + 1 + k) (by omega) (by omega)

/-- Byte-sized data is owned if a label stands before it, or owned data. -/
theorem isOwned_succ_iff {stmts : List Stmt} {j : Nat} {s t : Stmt} (hs : stmts[j]? = some s)
    (ht : stmts[j + 1]? = some t) (hbyte : t.isByteData = true) :
    IsOwned stmts (j + 1) ↔ s.label?.isSome ∨ s.isByteData = true ∧ IsOwned stmts j := by
  simp only [isOwned_iff]
  constructor
  · rintro ⟨i, hij, hlabel, hrun⟩
    rcases Nat.lt_or_eq_of_le (Nat.lt_succ_iff.mp hij) with hlt | rfl
    · obtain ⟨s', hs', hbyte'⟩ := hrun j hlt (by omega)
      obtain rfl : s = s' := Option.some.inj (hs.symm.trans hs')
      exact .inr ⟨hbyte', i, hlt, hlabel, fun k hik hkj => hrun k hik (by omega)⟩
    · simp only [labelAt?, hs, Option.bind_some] at hlabel
      exact .inl hlabel
  · rintro (hlabel | ⟨-, i, hij, hlabel, hrun⟩)
    · refine ⟨j, by omega, by simpa [labelAt?, hs] using hlabel, fun k hik hkj => ?_⟩
      obtain rfl : k = j + 1 := by omega
      exact ⟨t, ht, hbyte⟩
    · refine ⟨i, by omega, hlabel, fun k hik hkj => ?_⟩
      rcases Nat.lt_or_eq_of_le hkj with hlt | rfl
      · exact hrun k hik (by omega)
      · exact ⟨t, ht, hbyte⟩

/-! ### The walk with a buffer -/

/-- What label `s` owns if `rest` follows it. -/
def Stmt.owns? (s : Stmt) (rest : List Stmt) : Option (String × List UInt8) :=
  s.label?.bind fun name =>
    let bytes := (rest.takeWhile Stmt.isByteData).flatMap Stmt.bytes
    if bytes.isEmpty then none else some (name, bytes)

theorem ownedData_cons (s : Stmt) (rest : List Stmt) :
    ownedData (s :: rest) = (s.owns? rest).toList ++ ownedData rest := by
  have hlater : ownedBy? (s :: rest) ∘ Nat.succ = ownedBy? rest := by
    funext i
    simp [ownedBy?, labelAt?, runAfter]
  have hhere : ownedBy? (s :: rest) 0 = s.owns? rest := by
    simp [ownedBy?, labelAt?, runAfter, Stmt.owns?]
  rw [ownedData, List.length_cons, List.range_succ_eq_map, List.filterMap_cons, List.filterMap_map,
    hlater, hhere]
  cases s.owns? rest <;> rfl

namespace DataSection

theorem contribution_fst (line : Nat) (items : List (Spanned Datum)) :
    (contribution line items).1 =
      (items.takeWhile fun item => item.val.bytes?.isSome).flatMap fun item =>
        item.val.bytes?.getD [] := by
  induction items with
  | nil => rfl
  | cons item items ih =>
    obtain ⟨value, span⟩ := item
    cases value with
    | int n => by_cases hn : n ≤ 0xff <;> simp [contribution, Datum.bytes?, hn, ih]
    | str s => simpa [contribution, List.takeWhile_cons, Datum.bytes?] using ih
    | label name => simp [contribution, Datum.bytes?]

/-- Closing a run of data yields what its label owns. -/
theorem blobs_close_label (s : Stmt) {name : String} (hs : s.label? = some name)
    (rest : List Stmt) :
    (close (some (name, (rest.takeWhile Stmt.isByteData).flatMap Stmt.bytes))).blobs =
      (s.owns? rest).toList := by
  simp only [close, Stmt.owns?, hs, Option.bind_some]
  split <;> rfl

/-- **The walk collects what labels own.** A buffer that is open takes in the run of byte-sized data
ahead of it, and from there on nothing of it is left. -/
theorem blobs_scan (buffer : Option (String × List UInt8)) (placed : List Placed) :
    (scan buffer placed).blobs =
      (close (buffer.map fun b =>
          (b.1, b.2 ++ ((placed.map Placed.stmt).takeWhile Stmt.isByteData).flatMap Stmt.bytes)
        )).blobs ++ ownedData (placed.map Placed.stmt) := by
  induction placed generalizing buffer with
  | nil => cases buffer <;> simp [scan, ownedData]
  | cons p rest ih =>
    obtain ⟨⟨line, span, node⟩, address⟩ := p
    cases node with
    | label name =>
      rw [List.map_cons, ownedData_cons, ← blobs_close_label _ rfl]
      simp only [scan, append, ih, Option.map_some, List.nil_append]
      cases buffer <;> simp [Stmt.isByteData]
    | assign | org | instr =>
      rw [List.map_cons, ownedData_cons]
      cases buffer <;> simp [scan, append, ih, Stmt.isByteData, Stmt.owns?, close]
    | data width items =>
      rw [List.map_cons, ownedData_cons]
      cases width with
      | word => cases buffer <;> simp [scan, append, ih, Stmt.isByteData, Stmt.owns?, close]
      | byte =>
        have hbytes : (contribution line items).1 = Stmt.bytes ⟨line, span, .data .byte items⟩ :=
          contribution_fst line items
        have hdata : Stmt.isByteData ⟨line, span, .data .byte items⟩ = true := rfl
        cases buffer with
        | none => simp [scan, append, ih, Stmt.owns?, close]
        | some b => simp [scan, append, ih, List.takeWhile_cons_of_pos hdata, Stmt.owns?, hbytes]

end DataSection

/-- The constants of a program are what its labels own. -/
theorem blobs_dataOf (stmts : List Stmt) : (dataOf stmts).blobs = ownedData stmts := by
  rw [dataOf, DataSection.ofPlaced, DataSection.blobs_scan, placedOf, Layout.map_stmt_place]
  rfl

/-! ### What is reported, by places -/

/-- What is found at each element in turn, by the places of the elements. -/
theorem findings_eq_flatMap {α β : Type} (found : List α → α → List β) (xs : List α) :
    findings found [] xs =
      (List.range xs.length).flatMap fun j =>
        (xs[j]?.map (found (xs.take j).reverse)).getD [] := by
  induction xs using List.reverseRecOn with
  | nil => rfl
  | append_singleton xs x ih =>
    rw [findings_concat, ih, List.length_append, List.length_singleton, List.range_succ,
      List.flatMap_append]
    congr 1
    · refine List.flatMap_congr fun j hj => ?_
      have hlt : j < xs.length := List.mem_range.mp hj
      rw [List.getElem?_append_left hlt, List.take_append_of_le_length hlt.le]
    · simp

/-- A declaration is owned, looking back from it, if it is in the run of a label. -/
theorem isOwned_reverse_take_iff {stmts : List Stmt} {placed : List Placed}
    (hplaced : placed.map Placed.stmt = stmts) {j : Nat} {t : Stmt} (ht : stmts[j]? = some t)
    (hbyte : t.isByteData = true) :
    isOwned (placed.take j).reverse = true ↔ IsOwned stmts j := by
  induction j generalizing t with
  | zero =>
    refine iff_of_false (by simp [isOwned]) ?_
    rintro ⟨i, hi, -⟩
    omega
  | succ j ih =>
    have hlt : j < placed.length := by
      have := (List.getElem?_eq_some_iff.mp ht).1
      rw [← hplaced, List.length_map] at this
      omega
    have hs : stmts[j]? = some placed[j].stmt := by
      rw [← hplaced, List.getElem?_map, List.getElem?_eq_getElem hlt]
      rfl
    rw [isOwned_succ_iff hs ht hbyte, List.take_succ_eq_append_getElem hlt, List.reverse_append]
    by_cases hdata : placed[j].stmt.isByteData = true
    · -- byte-sized data is no label, so that only what stands before it counts
      rw [← ih hs hdata]
      simp [isOwned, hdata, Stmt.label?_of_isByteData hdata]
    · simp [isOwned, hdata]

theorem map_stmt_placedOf (stmts : List Stmt) : (placedOf stmts).map Placed.stmt = stmts :=
  Layout.map_stmt_place stmts

/-- A statement of a program with the address that the layout gave it. -/
theorem getElem?_placedOf (stmts : List Stmt) (j : Nat) :
    (placedOf stmts)[j]? =
      stmts[j]?.map fun s => ⟨s, (Layout.ofStmts stmts).addressAt? j⟩ := by
  rw [placedOf, Layout.place, List.getElem?_zipWith, Layout.addressAt?]
  rcases Nat.lt_or_ge j stmts.length with hlt | hge
  · have hlt' : j < (Layout.ofStmts stmts).addresses.length := by simpa using hlt
    simp [List.getElem?_eq_getElem hlt, List.getElem?_eq_getElem hlt']
  · simp [List.getElem?_eq_none hge]

/-- What is found in a program, by the places of its statements. -/
theorem findings_placedOf {β : Type} {found : List Placed → Placed → List β} {stmts : List Stmt}
    {at? : Nat → Option β}
    (h : ∀ j s, stmts[j]? = some s →
      found ((placedOf stmts).take j).reverse ⟨s, (Layout.ofStmts stmts).addressAt? j⟩ =
        (at? j).toList) :
    findings found [] (placedOf stmts) = (List.range stmts.length).filterMap at? := by
  have hlength : (placedOf stmts).length = stmts.length := by
    rw [← List.length_map Placed.stmt, map_stmt_placedOf]
  rw [findings_eq_flatMap, hlength, List.filterMap_eq_flatMap_toList]
  refine List.flatMap_congr fun j hj => ?_
  have hj := List.getElem?_eq_getElem (List.mem_range.mp hj)
  rw [getElem?_placedOf, hj, ← h j _ hj]
  rfl

/-- The errors in the data are those of the declarations that labels own. -/
theorem dataErrors_eq (stmts : List Stmt) :
    dataErrors stmts = (List.range stmts.length).filterMap (dataErrorAt? stmts) := by
  refine findings_placedOf fun j s hs => ?_
  have howned := @isOwned_reverse_take_iff stmts _ (map_stmt_placedOf stmts) j s hs
  obtain ⟨line, span, node⟩ := s
  cases node with
  | label | assign | org | instr => simp [dataFindings, dataErrorAt?, hs, Stmt.byteItems]
  | data width items =>
    cases width with
    | word => simp [dataFindings, dataErrorAt?, hs, Stmt.byteItems]
    | byte =>
      simp only [dataFindings, dataErrorAt?, hs, Stmt.byteItems, howned rfl, Option.bind_some]
      split <;> rfl

/-- The data of a program has an address. -/
theorem Layout.addressAt?_isSome {stmts : List Stmt} {j : Nat} {s : Stmt}
    (hs : stmts[j]? = some s) (hbyte : s.isByteData = true) :
    ((ofStmts stmts).addressAt? j).isSome := by
  obtain ⟨items, hnode⟩ := Stmt.exists_of_isByteData hbyte
  rw [addressAt?_ofStmts, hs, Option.bind_some, addressOf, hnode]
  rfl

/-- The warnings about the data are those of the declarations that no label owns. -/
theorem dataWarnings_eq (stmts : List Stmt) :
    dataWarnings stmts = (List.range stmts.length).filterMap (trashAt? stmts) := by
  refine findings_placedOf fun j s hs => ?_
  have howned := @isOwned_reverse_take_iff stmts _ (map_stmt_placedOf stmts) j s hs
  have haddress := Layout.addressAt?_isSome hs
  obtain ⟨line, span, node⟩ := s
  cases node with
  | label | assign | org | instr => simp [trashFindings, trashAt?, hs, Stmt.isByteData]
  | data width items =>
    cases width with
    | word => simp [trashFindings, trashAt?, hs, Stmt.isByteData]
    | byte =>
      obtain ⟨a, ha⟩ := Option.isSome_iff_exists.mp (haddress rfl)
      simp only [trashFindings, trashAt?, hs, howned rfl, Option.bind_some, ha, Stmt.isByteData]
      split <;> rfl

/-! ### The whole output -/

/-- The errors in the code of a program, which is looked at only if all vectors hold a label. -/
def codeErrors (stmts : List Stmt) : List AsmError :=
  match EntryPoints.resolve stmts (Layout.ofStmts stmts) with
  | .ok entries => (accountsOf entries stmts).filterMap fun a => a.fate.error?
  | .error _ => []

/-- The warnings about the code of a program. -/
def codeWarnings (stmts : List Stmt) : List Warning :=
  match EntryPoints.resolve stmts (Layout.ofStmts stmts) with
  | .ok entries => (accountsOf entries stmts).filterMap fun a => a.fate.warning?
  | .error _ => []

/-- The diagnostics of the data stand between those of the layout and those of the code. -/
theorem diagnostics_eq (options : Options) (stmts : List Stmt) :
    (compile options stmts).errors = layoutErrors stmts ++ dataErrors stmts ++ codeErrors stmts ∧
      (compile options stmts).warnings = dataWarnings stmts ++ codeWarnings stmts := by
  rw [← Layout.errors_ofStmts, ← errors_dataOf, ← warnings_dataOf, compile, codeErrors,
    codeWarnings]
  cases hvectors : EntryPoints.resolve stmts (Layout.ofStmts stmts) with
  | error e => exact ⟨(List.append_nil _).symm, (List.append_nil _).symm⟩
  | ok entries =>
    have hcode := accounted_codeOf entries stmts
    simp only [← hcode.errors, ← hcode.warnings, ← List.append_assoc]
    exact ⟨rfl, rfl⟩

/-! ### Constants -/

/-- The constants that a module has stay where they are when others are added. -/
theorem isPrefix_globals_foldl (blobs : List (String × List UInt8)) (m : IR.Module) :
    m.globals <+: (blobs.foldl (fun m b => m.addGlobal b.1 .internal b.2) m).globals := by
  induction blobs generalizing m with
  | nil => exact List.prefix_rfl
  | cons b blobs ih => exact (List.prefix_append _ _).trans (ih (m.addGlobal b.1 .internal b.2))

/-- Constants are added one after the other, each under a name that is not taken. -/
theorem getElem?_globals_foldl (blobs : List (String × List UInt8)) (m : IR.Module) (k : Nat) :
    let m' := blobs.foldl (fun m b => m.addGlobal b.1 .internal b.2) m
    m'.globals[m.globals.length + k]? = blobs[k]?.map fun b =>
      ⟨Text.freshName b.1 ((m'.globals.take (m.globals.length + k)).map IR.Global.name ++
        m.functions.map IR.Function.name), .internal, true, b.2⟩ := by
  induction blobs generalizing m k with
  | nil => simp
  | cons b blobs ih =>
    have hprefix := isPrefix_globals_foldl blobs (m.addGlobal b.1 .internal b.2)
    have hnext : (m.addGlobal b.1 .internal b.2).globals.length = m.globals.length + 1 := by
      simp [IR.Module.addGlobal]
    cases k with
    | zero =>
      obtain ⟨rest, hrest⟩ := hprefix
      simp only [List.foldl_cons, ← hrest, Nat.add_zero]
      simp [IR.Module.addGlobal, IR.Module.symbols]
    | succ k =>
      have hlater := ih (m.addGlobal b.1 .internal b.2) k
      rw [hnext, Nat.add_assoc, Nat.add_comm 1 k] at hlater
      exact hlater

/-- **The constants of a module** are those of its data, in order. -/
theorem getElem?_globals_dataModule (name : String) (data : DataSection) (k : Nat) :
    (dataModule name data).globals[k]? = data.blobs[k]?.map fun b =>
      ⟨Text.freshName b.1 (((dataModule name data).globals.take k).map IR.Global.name ++
        ["putchar", "exit", "main"]), .internal, true, b.2⟩ := by
  have h := getElem?_globals_foldl data.blobs
    { name, functions := [putcharDecl, exitDecl, mainDecl] } k
  simp only [List.length_nil, Nat.zero_add] at h
  exact h

theorem IR.Module.globals_pruneTimes (m : Module) (rounds : Nat) :
    (m.pruneTimes rounds).1.globals = m.globals := by
  induction rounds generalizing m with
  | zero => rfl
  | succ rounds ih => exact ih m.prune.1

/-! ### Blocks -/

/-- Blocks are named after the labels of their segments. -/
theorem CodeSection.getElem?_names (vars : Bindings String UInt32) (entries : EntryPoints)
    (labels names : List String) (locals : List IR.Local) (index : Nat) (segments : List Segment)
    (k : Nat) :
    let blocks := (ofSegments vars entries labels names locals index segments).blocks
    blocks[k]?.map IR.Block.name = segments[k]?.map fun s =>
      Text.freshName s.label (((blocks.take k).map IR.Block.name).reverse ++ names) := by
  induction segments generalizing labels names locals index k with
  | nil => simp [ofSegments]
  | cons s rest ih =>
    rw [ofSegments_cons]
    cases k with
    | zero => rfl
    | succ k => simpa using ih _ _ _ _ k

theorem codeLabels_eq (stmts : List Stmt) : codeLabels stmts = dataFreeLabels stmts := by
  unfold codeLabels dataFreeLabels
  refine List.filter_congr fun name _ => ?_
  have howns : (dataOf stmts).owns name = true ↔ name ∈ (ownedData stmts).map Prod.fst := by
    simp [DataSection.owns, blobs_dataOf]
  rw [Bool.eq_iff_iff, Bool.not_eq_true', decide_eq_true_iff, ← howns, Bool.not_eq_true]

/-- The blocks of `main` after the first are named after the labels that own no bytes. -/
theorem getElem?_names_mainFunction (reset : Nat) (entries : EntryPoints) (stmts : List Stmt)
    (k : Nat) :
    let blocks := (mainFunction reset (codeOf entries stmts)).blocks
    blocks[k + 1]?.map IR.Block.name = (dataFreeLabels stmts)[k]?.map fun name =>
      Text.freshName name ((blocks.take (k + 1)).map IR.Block.name) := by
  have hnames := CodeSection.getElem?_names (Layout.ofStmts stmts).vars entries [] [entryName]
    entryDraft.locals 1 (segmentsOf stmts) k
  simp only [blocks_mainFunction, List.getElem?_cons_succ, List.take_succ_cons, List.map_cons,
    ← codeLabels_eq, ← label_getElem?_segmentsOf, Option.map_map]
  refine hnames.trans ?_
  congr 1
  funext s
  -- the names so far are kept in the opposite order
  refine Text.freshName_perm s.label ?_
  exact List.perm_append_comm.trans ((List.reverse_perm _).cons entryName)

/-- **Data extraction is exact.** The diagnostics of the data are those of the declarations, owned
or not, in source order; the constants of a module are what labels own; and the labels that got a
block of `main` are those that own nothing. -/
theorem ownedData_compile (options : Options) (stmts : List Stmt) :
    (compile options stmts).errors = layoutErrors stmts ++
        (List.range stmts.length).filterMap (dataErrorAt? stmts) ++ codeErrors stmts ∧
    (compile options stmts).warnings =
        (List.range stmts.length).filterMap (trashAt? stmts) ++ codeWarnings stmts ∧
    ∀ m : IR.Module, (compile options stmts).module = .ok m →
      (∀ k : Nat, m.globals[k]? = (ownedData stmts)[k]?.map fun b =>
        (⟨Text.freshName b.1 ((m.globals.take k).map IR.Global.name ++ ["putchar", "exit", "main"]),
          .internal, true, b.2⟩ : IR.Global)) ∧
      (options.optLevel = .none → ∃ f : IR.Function, m.main? = some f ∧
        ∀ k : Nat, f.blocks[k + 1]?.map IR.Block.name = (dataFreeLabels stmts)[k]?.map fun name =>
          Text.freshName name ((f.blocks.take (k + 1)).map IR.Block.name)) := by
  obtain ⟨herrors, hwarnings⟩ := diagnostics_eq options stmts
  rw [dataErrors_eq] at herrors
  rw [dataWarnings_eq] at hwarnings
  refine ⟨herrors, hwarnings, fun m hm => ?_⟩
  obtain ⟨entries, reset, hresolves, rfl⟩ := exists_resolves hm
  constructor
  · intro k
    rw [IR.Module.globals_pruneTimes, ← blobs_dataOf]
    exact getElem?_globals_dataModule options.moduleName (dataOf stmts) k
  · intro hlevel
    rw [hlevel]
    exact ⟨_, (hresolves.isProgram options.moduleName).main?_eq,
      getElem?_names_mainFunction reset entries stmts⟩

/-- A program with data that is owned in part, data that no label owns, a label that owns data only
where it stands first, and labels whose data has no bytes. -/
def scatteredData : List Stmt :=
  (Node.label "t" ::
    .data .byte [⟨.str "é", ⟨0, 0⟩⟩, ⟨.int 1, ⟨0, 0⟩⟩, ⟨.int 256, ⟨0, 0⟩⟩, ⟨.int 2, ⟨0, 0⟩⟩] ::
    .data .byte [⟨.int 3, ⟨0, 0⟩⟩] :: .label "t" :: .org 16 :: .data .byte [⟨.int 9, ⟨0, 0⟩⟩] ::
    .label "e" :: .data .byte [⟨.str "", ⟨0, 0⟩⟩] ::
    .label "d" :: .data .byte [⟨.label "t", ⟨0, 0⟩⟩] ::
    .label "reset" :: .label "nmi" :: vectors "nmi" "reset" "nmi").map Node.stmt

theorem ownedData_compile_scatteredData :
    (compile {} scatteredData).errors.map Located.cause =
        [.duplicateLabel "t", .outOfRange 256 255, .labelInByteData "t"] ∧
      (compile {} scatteredData).warnings.map Located.cause = [.trashedData 16] ∧
      ∃ (m : IR.Module) (f : IR.Function), (compile {} scatteredData).module = .ok m ∧
        m.globals[0]? = some ⟨"t", .internal, true, [0xc3, 0xa9, 1, 3]⟩ ∧ m.globals[1]? = none ∧
        m.main? = some f ∧ f.blocks.length = 5 := by
  obtain ⟨herrors, hwarnings, hmodule⟩ := ownedData_compile {} scatteredData
  have hok : (compile {} scatteredData).module.isOk = true := by decide
  have howned : ownedData scatteredData = [("t", [0xc3, 0xa9, 1, 3])] := by decide
  have hlabels : dataFreeLabels scatteredData = ["e", "d", "reset", "nmi"] := by decide
  rw [herrors, hwarnings]
  refine ⟨by decide, by decide, ?_⟩
  cases hm : (compile {} scatteredData).module with
  | error e => simp [hm, Except.isOk, Except.toBool] at hok
  | ok m =>
    obtain ⟨hglobals, hblocks⟩ := hmodule m hm
    obtain ⟨f, hf, hnames⟩ := hblocks rfl
    rw [howned] at hglobals
    rw [hlabels] at hnames
    have hfirst : m.globals[0]? = some ⟨"t", .internal, true, [0xc3, 0xa9, 1, 3]⟩ :=
      hglobals 0
    have hlt : 4 < f.blocks.length := by
      have h : (f.blocks[3 + 1]?.map IR.Block.name).isSome := by rw [hnames 3]; rfl
      simpa using h
    have hle : f.blocks.length ≤ 5 := by
      have h : f.blocks[4 + 1]?.map IR.Block.name = none := hnames 4
      simpa using h
    exact ⟨m, f, rfl, hfirst, hglobals 1, hf, by omega⟩

end Mos6502
