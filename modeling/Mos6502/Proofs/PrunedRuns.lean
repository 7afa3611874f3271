import Mos6502.Proofs.LiveBlocks
import Mos6502.Proofs.WellFormed

/-!
# Runs of a pruned function, instruction by instruction

Where control goes does not depend on data: there is no conditional branch. So the instructions that
a function executes from some block on are fixed, and they can be listed without a frame.
`Function.walk` is the place of control after so many steps. It ends in two ways, at an
`unreachable` and at a branch to a block that does not exist; in a function whose blocks are all
closed it cannot end in any other way, since each place it comes to holds an instruction.

The runs of a function and of the pruned one are compared step by step. Nothing is used of the
pruned function but that it relocates the other one, so the step lemma holds of anything that moves
blocks in this way.

## Main definitions

* `Function.walk`, `Function.EndsAfter` — control, step by step, and its end
* `RunsAlike` — two runs that execute the same instructions

## Main results

* `Function.Relocates.follow_move` — one step
* `Function.Relocates.walk_move` — a whole run
* `runsAlike_prune`
-/

namespace Mos6502.IR

/-! ### Control -/

/-- How control comes to an end. -/
inductive Ending where
  | unreachable
  /-- A branch to a block that does not exist. -/
  | nowhere
deriving DecidableEq

namespace Function

/-- The place after `p`, unless control ends there. -/
def follow (f : Function) (p : Position) : Option Position :=
  ((f.inst? p).bind (Inst.next? p)).filter fun q => q.block < f.blocks.length

/-- The place of control after so many steps. -/
def walk (f : Function) : Nat → Position → Option Position
  | 0, p => some p
  | n + 1, p => (f.follow p).bind (f.walk n)

/-- How control ends at a place, if it does. -/
def ending? (f : Function) (p : Position) : Option Ending :=
  match f.inst? p with
  | some .unreachable => some .unreachable
  | some (.br t) => if t < f.blocks.length then none else some .nowhere
  | _ => none

/-- Control that starts at the front of a block comes to an end after exactly `n` steps. -/
def EndsAfter (f : Function) (n start : Nat) (e : Ending) : Prop :=
  ∃ p, f.walk n ⟨start, 0⟩ = some p ∧ f.ending? p = some e

end Function

/-- The same place of a block that went elsewhere. -/
def Position.move (place : Nat → Nat) (p : Position) : Position :=
  { p with block := place p.block }

/-- The runs of `f` from block `start` and of `g` from the place where this block went: they are
always at the same place of the same block, the instructions there stand for each other, and they
end at the same time and in the same way, or never. -/
structure RunsAlike (f g : Function) (place : Nat → Nat) (start : Nat) : Prop where
  walk : ∀ n, g.walk n ⟨place start, 0⟩ = (f.walk n ⟨start, 0⟩).map (Position.move place)
  inst : ∀ n p, f.walk n ⟨start, 0⟩ = some p → f.Entered p.block ∧
    ∃ i j, f.inst? p = some i ∧ g.inst? (p.move place) = some j ∧ i.StandsFor f g place j
  ends : ∀ n e, f.EndsAfter n start e ↔ g.EndsAfter n (place start) e
  total : (∃ n e, f.EndsAfter n start e ∧ g.EndsAfter n (place start) e) ∨
    ∀ n, (f.walk n ⟨start, 0⟩).isSome ∧ (g.walk n ⟨place start, 0⟩).isSome

/-! ### One step -/

namespace Function

variable {f g : Function} {place : Nat → Nat} {p : Position}

theorem follow_br {t : Nat} (h : f.inst? p = some (.br t)) :
    f.follow p = if t < f.blocks.length then some ⟨t, 0⟩ else none := by
  simp [follow, h, Inst.next?, Option.filter_some]

theorem follow_unreachable (h : f.inst? p = some .unreachable) : f.follow p = none := by
  simp [follow, h, Inst.next?]

theorem follow_of_not_isTerminator {i : Inst} (h : f.inst? p = some i)
    (hi : i.isTerminator = false) : f.follow p = some { p with offset := p.offset + 1 } := by
  obtain ⟨b, hb, -⟩ := Option.bind_eq_some_iff.mp h
  have hlt : p.block < f.blocks.length := (List.getElem?_eq_some_iff.mp hb).1
  simp [follow, h, Inst.next?_of_not_isTerminator hi, hlt]

/-- Control goes on within a block, or along a branch to the front of one. -/
theorem follow_cases {q : Position} (h : f.follow p = some q) :
    (∃ i, f.inst? p = some i ∧ i.isTerminator = false ∧ q = { p with offset := p.offset + 1 }) ∨
    ∃ t, f.inst? p = some (.br t) ∧ t < f.blocks.length ∧ q = ⟨t, 0⟩ := by
  cases hi : f.inst? p with
  | none => simp [follow, hi] at h
  | some i =>
    cases i with
    | br t =>
      rw [follow_br hi] at h
      obtain ⟨hlt, hq⟩ := Option.ite_none_right_eq_some.mp h
      exact .inr ⟨t, rfl, hlt, (Option.some.inj hq).symm⟩
    | unreachable => simp [follow_unreachable hi] at h
    | _ =>
      rw [follow_of_not_isTerminator hi rfl] at h
      exact .inl ⟨_, rfl, rfl, (Option.some.inj h).symm⟩

/-- Control stays in blocks that are entered. -/
theorem Entered.follow (h : f.Entered p.block) {q : Position} (hq : f.follow p = some q) :
    f.Entered q.block := by
  rcases follow_cases hq with ⟨i, -, -, rfl⟩ | ⟨t, hi, hlt, rfl⟩
  · exact h
  · obtain ⟨b, hb, hib⟩ := Option.bind_eq_some_iff.mp hi
    exact .branch h hb (List.mem_of_getElem? hib) hlt

theorem Entered.walk {n : Nat} (h : f.Entered p.block) {q : Position} (hq : f.walk n p = some q) :
    f.Entered q.block := by
  induction n generalizing p with
  | zero => cases hq; exact h
  | succ n ih =>
    obtain ⟨p₁, h₁, hrest⟩ := Option.bind_eq_some_iff.mp hq
    exact ih (h.follow h₁) hrest

namespace Relocates

/-- Where there is an instruction, one that stands for it is found at the new place, and where there
is none, there is none either. -/
theorem inst?_move (hg : f.Relocates g place) (hp : f.Entered p.block) :
    (f.inst? p = none ∧ g.inst? (p.move place) = none) ∨
    ∃ i j, f.inst? p = some i ∧ g.inst? (p.move place) = some j ∧ i.StandsFor f g place j := by
  obtain ⟨b, c, hb, hc, -, -, hinsts⟩ := hg.blocks hp
  have hlength := hinsts.length_eq
  have hf : f.inst? p = b.insts[p.offset]? := by simp [inst?, hb]
  have hgc : g.inst? (p.move place) = c.insts[p.offset]? := by simp [inst?, Position.move, hc]
  rw [hf, hgc]
  rcases Nat.lt_or_ge p.offset b.insts.length with hlt | hge
  · have hlt' : p.offset < c.insts.length := hlength ▸ hlt
    exact .inr ⟨_, _, List.getElem?_eq_getElem hlt, List.getElem?_eq_getElem hlt',
      hinsts.get hlt hlt'⟩
  · exact .inl ⟨List.getElem?_eq_none hge, List.getElem?_eq_none (hlength ▸ hge)⟩

theorem place_lt (hg : f.Relocates g place) {t : Nat} (ht : f.Entered t) :
    place t < g.blocks.length := by
  obtain ⟨b, c, -, hc, -⟩ := hg.blocks ht
  exact (List.getElem?_eq_some_iff.mp hc).1

/-- **One step.** -/
theorem follow_move (hg : f.Relocates g place) (hp : f.Entered p.block) :
    g.follow (p.move place) = (f.follow p).map (Position.move place) := by
  rcases hg.inst?_move hp with ⟨hf, hgp⟩ | ⟨i, j, hi, hj, hij⟩
  · simp [follow, hf, hgp]
  · cases hij with
    | br ht =>
      rw [follow_br hi, follow_br hj, if_pos ht.lt, if_pos (hg.place_lt ht)]
      rfl
    | nowhere h h' =>
      rw [follow_br hi, follow_br hj, if_neg (Nat.not_lt.mpr h), if_neg (Nat.not_lt.mpr h')]
      rfl
    | same h =>
      cases i with
      | br t => cases h
      | unreachable => rw [follow_unreachable hi, follow_unreachable hj]; rfl
      | _ =>
        rw [follow_of_not_isTerminator hi rfl, follow_of_not_isTerminator hj rfl]
        rfl

/-- Control ends at a place as it does where the place went. -/
theorem ending?_move (hg : f.Relocates g place) (hp : f.Entered p.block) :
    g.ending? (p.move place) = f.ending? p := by
  rcases hg.inst?_move hp with ⟨hf, hgp⟩ | ⟨i, j, hi, hj, hij⟩
  · simp [ending?, hf, hgp]
  · rw [ending?, ending?, hi, hj]
    cases hij with
    | br ht => simp only [if_pos ht.lt, if_pos (hg.place_lt ht)]
    | nowhere h h' => simp only [if_neg (Nat.not_lt.mpr h), if_neg (Nat.not_lt.mpr h')]
    | same h =>
      cases i with
      | br t => cases h
      | _ => rfl

/-- **A whole run.** -/
theorem walk_move (hg : f.Relocates g place) (hp : f.Entered p.block) (n : Nat) :
    g.walk n (p.move place) = (f.walk n p).map (Position.move place) := by
  induction n generalizing p with
  | zero => rfl
  | succ n ih =>
    rw [walk, walk, hg.follow_move hp]
    cases h : f.follow p with
    | none => rfl
    | some q => exact ih (hp.follow h)

theorem endsAfter_iff (hg : f.Relocates g place) {start : Nat} (hstart : f.Entered start) (n : Nat)
    (e : Ending) : f.EndsAfter n start e ↔ g.EndsAfter n (place start) e := by
  have hwalk := hg.walk_move (p := ⟨start, 0⟩) hstart n
  constructor
  · rintro ⟨p, hp, he⟩
    have hentered : f.Entered p.block := Entered.walk (p := ⟨start, 0⟩) hstart hp
    rw [hp] at hwalk
    exact ⟨p.move place, hwalk, by rw [hg.ending?_move hentered, he]⟩
  · rintro ⟨q, hq, he⟩
    obtain ⟨p, hp, rfl⟩ := Option.map_eq_some_iff.mp (hwalk.symm.trans hq)
    have hentered : f.Entered p.block := Entered.walk (p := ⟨start, 0⟩) hstart hp
    exact ⟨p, hp, by rw [← hg.ending?_move hentered, he]⟩

end Relocates

/-! ### Closed blocks -/

/-- There is an instruction at the place. -/
def Holds (f : Function) (p : Position) : Prop :=
  ∃ i, f.inst? p = some i

/-- A closed block has a front. -/
theorem holds_front (hclosed : ∀ b ∈ f.blocks, b.Closed) {t : Nat} (ht : t < f.blocks.length) :
    f.Holds ⟨t, 0⟩ := by
  obtain ⟨last, body, hinsts, -⟩ := hclosed _ (List.getElem_mem ht)
  have hpos : 0 < f.blocks[t].insts.length := by simp [hinsts]
  exact ⟨_, by rw [inst?, List.getElem?_eq_getElem ht, Option.bind_some,
    List.getElem?_eq_getElem hpos]⟩

/-- In a closed block each instruction that is no terminator has another one after it. -/
theorem holds_next (hclosed : ∀ b ∈ f.blocks, b.Closed) {i : Inst} (hi : f.inst? p = some i)
    (hplain : i.isTerminator = false) : f.Holds { p with offset := p.offset + 1 } := by
  obtain ⟨b, hb, hib⟩ := Option.bind_eq_some_iff.mp hi
  obtain ⟨last, body, hinsts, hlast, -⟩ := hclosed b (List.mem_of_getElem? hb)
  obtain ⟨hlt, hget⟩ := List.getElem?_eq_some_iff.mp hib
  have hne : p.offset ≠ body.length := by
    intro hoffset
    have hi : i = last := by simpa [hinsts, hoffset] using hget.symm
    rw [hi, hlast] at hplain
    cases hplain
  have hlt' : p.offset + 1 < b.insts.length := by
    simp only [hinsts, List.length_append, List.length_singleton] at hlt ⊢
    omega
  exact ⟨_, by rw [inst?, hb, Option.bind_some, List.getElem?_eq_getElem hlt']⟩

theorem Holds.walk (hclosed : ∀ b ∈ f.blocks, b.Closed) {n : Nat} (h : f.Holds p) {q : Position}
    (hq : f.walk n p = some q) : f.Holds q := by
  induction n generalizing p with
  | zero => cases hq; exact h
  | succ n ih =>
    obtain ⟨p₁, h₁, hrest⟩ := Option.bind_eq_some_iff.mp hq
    refine ih ?_ hrest
    rcases follow_cases h₁ with ⟨i, hi, hplain, rfl⟩ | ⟨t, -, hlt, rfl⟩
    · exact holds_next hclosed hi hplain
    · exact holds_front hclosed hlt

theorem walk_succ (f : Function) (n : Nat) (p : Position) :
    f.walk (n + 1) p = (f.walk n p).bind f.follow := by
  induction n generalizing p with
  | zero => simp [walk]
  | succ n ih =>
    rw [walk, walk, Option.bind_assoc]
    exact congrArg _ (funext ih)

/-- Where there is an instruction, control goes on or comes to an end. -/
theorem Holds.ending? (h : f.Holds p) (hend : f.follow p = none) : ∃ e, f.ending? p = some e := by
  obtain ⟨i, hi⟩ := h
  cases i with
  | br t =>
    rw [follow_br hi] at hend
    have hge : ¬t < f.blocks.length := by
      intro hlt
      simp [hlt] at hend
    exact ⟨.nowhere, by simp [Function.ending?, hi, hge]⟩
  | unreachable => exact ⟨.unreachable, by simp [Function.ending?, hi]⟩
  | _ => simp [follow_of_not_isTerminator hi rfl] at hend

/-- **Control in closed blocks** comes to an end, or it goes on forever. -/
theorem endsAfter_or_forall (hclosed : ∀ b ∈ f.blocks, b.Closed) {start : Nat}
    (hstart : start < f.blocks.length) :
    (∃ n e, f.EndsAfter n start e) ∨ ∀ n, (f.walk n ⟨start, 0⟩).isSome := by
  by_cases hends : ∃ n e, f.EndsAfter n start e
  · exact .inl hends
  · refine .inr fun n => ?_
    induction n with
    | zero => rfl
    | succ n ih =>
      obtain ⟨p, hp⟩ := Option.isSome_iff_exists.mp ih
      rw [walk_succ, hp, Option.bind_some]
      by_contra hstop
      rw [Option.not_isSome_iff_eq_none] at hstop
      obtain ⟨e, he⟩ := ((holds_front hclosed hstart).walk hclosed hp).ending? hstop
      exact hends ⟨n, e, p, hp, he⟩

/-- Runs of a function with closed blocks and of one that relocates it are alike. -/
theorem Relocates.runsAlike (hg : f.Relocates g place) (hclosed : ∀ b ∈ f.blocks, b.Closed)
    {start : Nat} (hstart : f.Entered start) : RunsAlike f g place start where
  walk := hg.walk_move (p := ⟨start, 0⟩) hstart
  inst n p hp := by
    have hentered : f.Entered p.block := Entered.walk (p := ⟨start, 0⟩) hstart hp
    obtain ⟨i, hi⟩ := (holds_front hclosed hstart.lt).walk hclosed hp
    refine ⟨hentered, (hg.inst?_move hentered).resolve_left ?_⟩
    rintro ⟨hnone, -⟩
    rw [hi] at hnone
    cases hnone
  ends := hg.endsAfter_iff hstart
  total := by
    refine (endsAfter_or_forall hclosed hstart.lt).imp ?_ fun hforever n => ⟨hforever n, ?_⟩
    · rintro ⟨n, e, hends⟩
      exact ⟨n, e, hends, (hg.endsAfter_iff hstart n e).mp hends⟩
    · have hwalk := hg.walk_move (p := ⟨start, 0⟩) hstart n
      rw [Position.move] at hwalk
      rw [hwalk, Option.isSome_map]
      exact hforever n

end Function

/-- **Pruning preserves behaviour.** From the first block, and from every pinned one, a function
with closed blocks and the pruned function go through the same blocks and execute the same
instructions. -/
theorem runsAlike_prune (f : Function) (hclosed : ∀ b ∈ f.blocks, b.Closed) :
    ∃ place : Nat → Nat, f.Relocates f.prune.1 place ∧
      ∀ start b, f.blocks[start]? = some b → start = 0 ∨ b.pinned = true →
        RunsAlike f f.prune.1 place start :=
  ⟨renumber f.live, f.relocates_prune, fun _ _ hb h =>
    f.relocates_prune.runsAlike hclosed (.entry hb h)⟩

/-- A function that runs forever from its first block, and from its pinned one ends at a branch to no
block. Nothing enters its second block. -/
def endlessFunction : Function :=
  { name := "f", ret := .i32, params := [], linkage := .external
    blocks := [⟨"Entry", [.br 3], false⟩, ⟨"dead", [.br 2], false⟩,
      ⟨"handler", [.alloca 0 .i8, .br 9], true⟩, ⟨"loop", [.br 3], false⟩]
    locals := [⟨"A", .ptr⟩] }

theorem runsAlike_prune_endlessFunction :
    (∀ b ∈ endlessFunction.blocks, b.Closed) ∧
      endlessFunction.prune.1.blocks.map Block.name = ["Entry", "handler", "loop"] ∧
      ∃ place : Nat → Nat, endlessFunction.Relocates endlessFunction.prune.1 place ∧
        RunsAlike endlessFunction endlessFunction.prune.1 place 0 ∧
        RunsAlike endlessFunction endlessFunction.prune.1 place 2 ∧
        endlessFunction.prune.1.EndsAfter 1 (place 2) .nowhere := by
  have hclosed : ∀ b ∈ endlessFunction.blocks, b.Closed := fun b hb =>
    Block.terminatorFault?_eq_none_iff.mp
      ((by decide : ∀ b ∈ endlessFunction.blocks, b.terminatorFault? "f" = none) b hb)
  obtain ⟨place, hplace, hruns⟩ := runsAlike_prune endlessFunction hclosed
  have hhandler := hruns 2 _ rfl (.inr rfl)
  have hends : endlessFunction.EndsAfter 1 2 .nowhere := ⟨⟨2, 1⟩, rfl, rfl⟩
  exact ⟨hclosed, by cbv, place, hplace, hruns 0 _ rfl (.inl rfl), hhandler,
    (hhandler.ends 1 .nowhere).mp hends⟩

end Mos6502.IR
