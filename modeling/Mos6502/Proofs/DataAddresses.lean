import Mos6502.Proofs.OwnedData

/-!
# Addresses of data

Two walks lay out the data of a program. The layout moves a location counter by the size of each
declaration; the data walk fills the buffer of a label with bytes. Neither looks at the other. For
a label that is the first of its name, and whose run of declarations has nothing but bytes in it,
they agree: each declaration adds as many bytes as its size says, and its address is that of the
label plus its offset in the buffer. Addresses wrap, and so does the sum.

The buffer is an argument of the data walk that no result shows. `Holds` says what it is at a place
of the program by what the walk makes of all that may follow, and by `Holds.unique` there is no
choice in it.

## Main definitions

* `DataSection.Holds` — the buffer after some statements

## Main results

* `DataSection.Holds.concat`, `DataSection.holds_run` — one statement, and a run of data
* `Layout.counter_ofStmts_append` — the counter after a run of data
* `dataAddresses_agree`
-/

namespace Mos6502

/-! ### Sizes -/

/-- An item that has bytes has as many as its size says. -/
theorem Datum.length_bytes? {d : Datum} {bytes : List UInt8} (h : d.bytes? = some bytes) :
    bytes.length = d.size := by
  cases d with
  | int n =>
    obtain ⟨-, hbytes⟩ := Option.ite_none_right_eq_some.mp h
    exact Option.some.inj hbytes ▸ rfl
  | str s =>
    obtain rfl : Text.encode s = bytes := Option.some.inj h
    exact Text.length_encode s
  | label => cases h

/-- A byte-sized data declaration of which every item has bytes. -/
structure Stmt.IsPure (s : Stmt) : Prop where
  isByteData : s.isByteData = true
  bytes : ∀ item ∈ s.byteItems, item.val.bytes?.isSome

/-- What a declaration contributes is as long as its size says. -/
theorem Stmt.IsPure.length_bytes {s : Stmt} (h : s.IsPure) {items : List (Spanned Datum)}
    (hs : s.node = .data .byte items) : s.bytes.length = dataSize .byte items := by
  have hitems : s.byteItems = items := by rw [byteItems, hs]
  have hall : ∀ item ∈ items, item.val.bytes?.isSome := hitems ▸ h.bytes
  rw [Stmt.bytes, hitems, List.takeWhile_eq_self_iff.mpr hall, dataSize]
  clear hitems hs
  induction items with
  | nil => rfl
  | cons item items ih =>
    obtain ⟨bytes, hbytes⟩ := Option.isSome_iff_exists.mp (hall item List.mem_cons_self)
    rw [List.flatMap_cons, List.length_append, List.foldr_cons,
      ih fun i hi => hall i (List.mem_cons_of_mem _ hi), hbytes, Option.getD_some,
      Datum.length_bytes? hbytes]

/-! ### The location counter -/

namespace Layout

theorem counter_visit_label (l : Layout) {s : Stmt} (hs : s.label?.isSome) :
    (l.visit s).counter = l.counter := by
  obtain ⟨line, span, node⟩ := s
  cases node with
  | label name => simp only [visit]; split <;> rfl
  | assign | org | data | instr => cases hs

/-- Data moves the counter by as many bytes as it contributes. -/
theorem counter_visit_of_isPure (l : Layout) {s : Stmt} (hs : s.IsPure) :
    (l.visit s).counter = l.counter + UInt32.ofNat s.bytes.length := by
  obtain ⟨items, hnode⟩ := Stmt.exists_of_isByteData hs.isByteData
  rw [hs.length_bytes hnode, visit, hnode]
  rfl

/-- **A run of data** moves the counter by as many bytes as it contributes. -/
theorem counter_ofStmts_append (before : List Stmt) {run : List Stmt}
    (hrun : ∀ d ∈ run, d.IsPure) :
    (ofStmts (before ++ run)).counter =
      (ofStmts before).counter + UInt32.ofNat (run.flatMap Stmt.bytes).length := by
  induction run using List.reverseRecOn with
  | nil => simp
  | append_singleton run d ih =>
    have hd : d.IsPure := hrun d (by simp)
    rw [← List.append_assoc, ofStmts_concat, counter_visit_of_isPure _ hd,
      ih fun e he => hrun e (List.mem_append_left _ he), List.flatMap_append, List.length_append,
      List.flatMap_singleton, UInt32.ofNat_add, UInt32.add_assoc]

end Layout

/-! ### The buffer -/

namespace DataSection

/-- After some statements the data walk holds this buffer: whatever follows, the result is what was
found so far, and then what the walk finds from this buffer on. -/
def Holds (placed : List Placed) (buffer : Option (String × List UInt8)) : Prop :=
  ∃ found, ∀ rest, ofPlaced (placed ++ rest) = append found (scan buffer rest)

theorem append_assoc (a b c : DataSection) : append (append a b) c = append a (append b c) := by
  simp [append]

/-- What a statement leaves of a buffer: data goes into it, a label opens a new one. -/
def after (buffer : Option (String × List UInt8)) (s : Stmt) : Option (String × List UInt8) :=
  match s.node with
  | .data .byte _ => buffer.map fun b => (b.1, b.2 ++ s.bytes)
  | .label name => some (name, [])
  | _ => none

theorem after_label (buffer : Option (String × List UInt8)) {s : Stmt} {name : String}
    (hs : s.label? = some name) : after buffer s = some (name, []) := by
  obtain ⟨line, span, node⟩ := s
  cases node with
  | label n => rw [← Option.some.inj hs, after]
  | assign | org | data | instr => cases hs

/-- One step of the walk. -/
theorem exists_scan_cons (buffer : Option (String × List UInt8)) (p : Placed) :
    ∃ found, ∀ rest, scan buffer (p :: rest) = append found (scan (after buffer p.stmt) rest) := by
  obtain ⟨⟨line, span, node⟩, address⟩ := p
  cases node with
  | label | assign | org | instr => exact ⟨_, fun rest => rfl⟩
  | data width items =>
    cases width with
    | word => exact ⟨_, fun rest => rfl⟩
    | byte =>
      cases buffer with
      | none => exact ⟨_, fun rest => rfl⟩
      | some b =>
        have hbytes : (contribution line items).1 = Stmt.bytes ⟨line, span, .data .byte items⟩ :=
          contribution_fst line items
        refine ⟨{ errors := (contribution line items).2.toList }, fun rest => ?_⟩
        simp only [scan, after, Option.map_some, hbytes]

/-- One more statement is one more step. -/
theorem Holds.concat {placed : List Placed} {buffer : Option (String × List UInt8)}
    (h : Holds placed buffer) (p : Placed) : Holds (placed ++ [p]) (after buffer p.stmt) := by
  obtain ⟨found, hfound⟩ := h
  obtain ⟨more, hmore⟩ := exists_scan_cons buffer p
  refine ⟨append found more, fun rest => ?_⟩
  rw [List.append_assoc, List.singleton_append, hfound, hmore, append_assoc]

theorem exists_holds (placed : List Placed) : ∃ buffer, Holds placed buffer := by
  induction placed using List.reverseRecOn with
  | nil => exact ⟨none, {}, fun rest => rfl⟩
  | append_singleton placed p ih =>
    obtain ⟨buffer, h⟩ := ih
    exact ⟨_, h.concat p⟩

/-- A declaration of one byte, to try a buffer with. -/
def oneByte : Placed :=
  ⟨⟨0, ⟨0, 0⟩, .data .byte [⟨.int 0, ⟨0, 0⟩⟩]⟩, none⟩

/-- No walk holds both an open buffer and none, since only without one it would warn about data. -/
theorem Holds.not_none {placed : List Placed} {b : String × List UInt8}
    (h : Holds placed (some b)) : ¬ Holds placed none := by
  rintro ⟨found', h'⟩
  obtain ⟨found, h⟩ := h
  have hend : found.warnings.length = found'.warnings.length := by
    have hwarnings := congrArg DataSection.warnings ((h []).symm.trans (h' []))
    have hclose : (close (some b)).warnings = [] := by simp only [close]; split <;> rfl
    simpa [append, scan, hclose] using congrArg List.length hwarnings
  have hmore : found.warnings.length = found'.warnings.length + 1 := by
    have hwarnings := congrArg DataSection.warnings ((h [oneByte]).symm.trans (h' [oneByte]))
    simpa [append, scan, oneByte, contribution, close] using congrArg List.length hwarnings
  omega

/-- There is one buffer that a walk can hold after some statements. -/
theorem Holds.unique {placed : List Placed} {buffer buffer' : Option (String × List UInt8)}
    (h : Holds placed buffer) (h' : Holds placed buffer') : buffer = buffer' := by
  cases buffer with
  | none =>
    cases buffer' with
    | none => rfl
    | some b' => exact absurd h h'.not_none
  | some b =>
    cases buffer' with
    | none => exact absurd h' h.not_none
    | some b' =>
      obtain ⟨found, h⟩ := h
      obtain ⟨found', h'⟩ := h'
      -- with one byte more neither buffer is empty, so both turn up as the last constant
      have hblobs : found.blobs ++ [(b.1, b.2 ++ [0])] = found'.blobs ++ [(b'.1, b'.2 ++ [0])] := by
        have hmore := congrArg DataSection.blobs ((h [oneByte]).symm.trans (h' [oneByte]))
        simpa [append, scan, oneByte, contribution, close] using hmore
      have hlast := (List.append_inj' hblobs rfl).2
      simp only [List.cons.injEq, Prod.mk.injEq, List.append_cancel_right_eq, and_true] at hlast
      rw [Prod.ext hlast.1 hlast.2]

/-- **The buffer of a label** holds the bytes of the data between the label and here. -/
theorem holds_run {placed : List Placed} {before run : List Stmt} {s : Stmt} {name : String}
    (hplaced : placed.map Placed.stmt = before ++ s :: run) (hs : s.label? = some name)
    (hrun : ∀ d ∈ run, d.isByteData = true) :
    Holds placed (some (name, run.flatMap Stmt.bytes)) := by
  induction run using List.reverseRecOn generalizing placed with
  | nil =>
    obtain ⟨placed, last, rfl, -, hlast⟩ := List.map_eq_append_iff.mp hplaced
    obtain ⟨p, rfl, rfl⟩ := List.map_eq_singleton_iff.mp hlast
    obtain ⟨buffer, h⟩ := exists_holds placed
    exact after_label buffer hs ▸ h.concat p
  | append_singleton run d ih =>
    rw [← List.cons_append, ← List.append_assoc] at hplaced
    obtain ⟨placed, last, rfl, hinit, hlast⟩ := List.map_eq_append_iff.mp hplaced
    obtain ⟨p, rfl, rfl⟩ := List.map_eq_singleton_iff.mp hlast
    have h := ih hinit fun e he => hrun e (List.mem_append_left _ he)
    obtain ⟨items, hnode⟩ := Stmt.exists_of_isByteData (hrun p.stmt (by simp))
    have hafter : after (some (name, run.flatMap Stmt.bytes)) p.stmt =
        some (name, (run ++ [p.stmt]).flatMap Stmt.bytes) := by
      simp [after, hnode]
    exact hafter ▸ h.concat p

end DataSection

/-! ### Agreement -/

section Run

variable {stmts : List Stmt} {i k : Nat} {s d : Stmt} {name : String}

theorem runAfter_isPrefix (stmts : List Stmt) (i : Nat) :
    runAfter stmts i <+: stmts.drop (i + 1) :=
  List.takeWhile_prefix _

theorem getElem?_of_runAfter (hd : (runAfter stmts i)[k]? = some d) :
    stmts[i + 1 + k]? = some d := by
  have hlt : k < (runAfter stmts i).length := (List.getElem?_eq_some_iff.mp hd).1
  obtain ⟨rest, hrest⟩ := runAfter_isPrefix stmts i
  rw [← List.getElem?_drop, ← hrest, List.getElem?_append_left hlt, hd]

/-- The program up to a place in the run of a label: what stands before the label, the label, and
the first declarations of the run. -/
theorem take_eq_of_runAfter (hs : stmts[i]? = some s) (hk : k ≤ (runAfter stmts i).length) :
    stmts.take (i + 1 + k) = stmts.take i ++ s :: (runAfter stmts i).take k := by
  have htake : (runAfter stmts i).take k = (stmts.drop (i + 1)).take k := by
    rw [List.prefix_iff_eq_take.mp (runAfter_isPrefix stmts i), List.take_take, Nat.min_eq_left hk]
  rw [List.take_add, htake, List.take_add_one, hs, List.append_assoc]
  rfl

/-- At a place in the run, the buffer of the label has the bytes of the run up to there. -/
theorem DataSection.holds_runAfter (hs : stmts[i]? = some s) (hname : s.label? = some name)
    (hk : k ≤ (runAfter stmts i).length) :
    Holds ((placedOf stmts).take (i + 1 + k))
      (some (name, ((runAfter stmts i).take k).flatMap Stmt.bytes)) := by
  have hplaced : ((placedOf stmts).take (i + 1 + k)).map Placed.stmt =
      stmts.take i ++ s :: (runAfter stmts i).take k := by
    rw [List.map_take, map_stmt_placedOf, take_eq_of_runAfter hs hk]
  exact holds_run hplaced hname fun d hd => List.mem_takeWhile_imp (List.mem_of_mem_take hd)

/-- At a place in the run, the location counter is as many bytes after the label. -/
theorem Layout.counter_runAfter (hs : stmts[i]? = some s) (hname : s.label? = some name)
    (hpure : ∀ d ∈ runAfter stmts i, d.IsPure) (hk : k ≤ (runAfter stmts i).length) :
    (ofStmts (stmts.take (i + 1 + k))).counter = (ofStmts (stmts.take i)).counter +
      UInt32.ofNat (((runAfter stmts i).take k).flatMap Stmt.bytes).length := by
  have hlabel : (ofStmts (stmts.take i ++ [s])).counter = (ofStmts (stmts.take i)).counter := by
    rw [ofStmts_concat, counter_visit_label _ (Option.isSome_of_eq_some hname)]
  rw [take_eq_of_runAfter hs hk, ← List.singleton_append, ← List.append_assoc,
    counter_ofStmts_append _ fun d hd => hpure d (List.mem_of_mem_take hd), hlabel]

/-- A label that no statement before it has is bound to the location counter in front of it. -/
theorem Layout.get?_labels_of_first (hs : stmts[i]? = some s) (hname : s.label? = some name)
    (hfirst : ∀ j < i, labelAt? stmts j ≠ some name) :
    (ofStmts stmts).labels.get? name = some (ofStmts (stmts.take i)).counter := by
  have hnew : name ∉ (stmts.take i).filterMap Stmt.label? := by
    intro hmem
    obtain ⟨t, ht, htname⟩ := List.mem_filterMap.mp hmem
    obtain ⟨j, hj, rfl⟩ := List.mem_take_iff_getElem.mp ht
    refine hfirst j (by omega) ?_
    rw [labelAt?, List.getElem?_eq_getElem (by omega), Option.bind_some, htname]
  obtain ⟨hlt, rfl⟩ := List.getElem?_eq_some_iff.mp hs
  have hget := get?_labels_ofStmts hname hnew (stmts.drop (i + 1))
  rwa [← List.drop_eq_getElem_cons hlt, List.take_append_drop] at hget

end Run

/-- **Layout and data agree.** Take a label that is the first of its name and owns declarations with
nothing but bytes in them. Each declaration appends as many bytes to the buffer of the label as its
size says, and its address is that of the label plus the length of the buffer before it. -/
theorem dataAddresses_agree (stmts : List Stmt) (i : Nat) (name : String)
    (hlabel : labelAt? stmts i = some name) (hfirst : ∀ j < i, labelAt? stmts j ≠ some name)
    (hbytes : ∀ d ∈ runAfter stmts i, ∀ item ∈ d.byteItems, item.val.bytes?.isSome) :
    ∃ base : UInt32, (Layout.ofStmts stmts).labels.get? name = some base ∧
      ∀ (k : Nat) (d : Stmt), (runAfter stmts i)[k]? = some d →
        ∃ (items : List (Spanned Datum)) (before own : List UInt8),
          stmts[i + 1 + k]? = some d ∧ d.node = .data .byte items ∧
          DataSection.Holds ((placedOf stmts).take (i + 1 + k)) (some (name, before)) ∧
          DataSection.Holds ((placedOf stmts).take (i + 1 + k + 1)) (some (name, before ++ own)) ∧
          own.length = dataSize .byte items ∧
          (Layout.ofStmts stmts).addressAt? (i + 1 + k) =
            some (base + UInt32.ofNat before.length) := by
  obtain ⟨s, hs, hname⟩ := Option.bind_eq_some_iff.mp hlabel
  have hpure : ∀ d ∈ runAfter stmts i, d.IsPure := fun d hd =>
    ⟨List.mem_takeWhile_imp hd, hbytes d hd⟩
  refine ⟨_, Layout.get?_labels_of_first hs hname hfirst, fun k d hd => ?_⟩
  have hlt : k < (runAfter stmts i).length := (List.getElem?_eq_some_iff.mp hd).1
  have hd' := hpure d (List.mem_of_getElem? hd)
  obtain ⟨items, hnode⟩ := Stmt.exists_of_isByteData hd'.isByteData
  refine ⟨items, ((runAfter stmts i).take k).flatMap Stmt.bytes, d.bytes,
    getElem?_of_runAfter hd, hnode, DataSection.holds_runAfter hs hname hlt.le, ?_,
    hd'.length_bytes hnode, ?_⟩
  · have hnext : (runAfter stmts i).take (k + 1) = (runAfter stmts i).take k ++ [d] := by
      rw [List.take_add_one, hd]
      rfl
    have hholds := DataSection.holds_runAfter hs hname (Nat.succ_le_of_lt hlt)
    rwa [hnext, List.flatMap_append, List.flatMap_singleton] at hholds
  · rw [Layout.addressAt?_ofStmts, getElem?_of_runAfter hd, Option.bind_some, Layout.addressOf,
      hnode, ← Layout.counter_runAfter hs hname hpure hlt.le]

/-- A program with a label at the end of the address space, whose data goes on at its start: letters
of several bytes, a string without any, and a byte. The label stands twice. -/
def wrappingData : List Stmt :=
  [Node.org 0xfffffffe, .label "t", .data .byte [⟨.str "é€", ⟨0, 0⟩⟩, ⟨.int 7, ⟨0, 0⟩⟩],
    .data .byte [⟨.str "", ⟨0, 0⟩⟩], .data .byte [⟨.int 255, ⟨0, 0⟩⟩], .label "t",
    .data .byte [⟨.int 256, ⟨0, 0⟩⟩]].map Node.stmt

theorem dataAddresses_agree_wrappingData :
    (Layout.ofStmts wrappingData).addressAt? 4 = some 4 ∧
      ∃ before own : List UInt8,
        DataSection.Holds ((placedOf wrappingData).take 4) (some ("t", before)) ∧
        DataSection.Holds ((placedOf wrappingData).take 5) (some ("t", before ++ own)) ∧
        own.length = 1 ∧ 0xfffffffe + UInt32.ofNat before.length = 4 := by
  have hbase : (Layout.ofStmts wrappingData).labels.get? "t" = some 0xfffffffe := by decide
  have haddress : (Layout.ofStmts wrappingData).addressAt? 4 = some 4 := by decide
  obtain ⟨base, hlabel, hrun⟩ :=
    dataAddresses_agree wrappingData 1 "t" (by decide) (by decide) (by decide)
  obtain ⟨items, before, own, -, hnode, hbefore, hafter, hsize, ha⟩ := hrun 2 _ rfl
  obtain rfl : base = 0xfffffffe := Option.some.inj (hlabel.symm.trans hbase)
  cases hnode
  exact ⟨haddress, before, own, hbefore, hafter, hsize,
    Option.some.inj (ha.symm.trans haddress)⟩

end Mos6502
