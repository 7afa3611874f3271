import Mos6502.Proofs.Execution
import Mos6502.Proofs.WellFormed

/-!
# Runs, block by block

A run that halts goes through whole blocks: it enters a block at its front, executes everything up
to the terminator, and stops or goes on at the front of another block. `Function.StopsWith` says
this without positions and without counting steps, so that what holds of a run can be proved by
induction on the blocks it goes through.

A run of a function can also stop in the middle of a block if a terminator stands there. Functions
in which every block is closed have no such terminators.

## Main results

* `Function.HaltsWith.stopsWith` — a run that halts goes through whole blocks
-/

namespace Mos6502.IR.Function

/-- The run from the front of block `b` with the frame `s` goes through whole blocks, stops at an
`unreachable` and leaves `s'`. -/
inductive StopsWith (f : Function) : Nat → Frame → Frame → Prop
  | unreachable {b : Nat} {block : Block} {code : List Inst} {s s' : Frame}
      (hb : f.blocks[b]? = some block) (hinsts : block.insts = code ++ [.unreachable])
      (hplain : ∀ i ∈ code, i.isTerminator = false) (hs : execAll code s = some s') :
      StopsWith f b s s'
  | br {b target : Nat} {block : Block} {code : List Inst} {s s₁ s' : Frame}
      (hb : f.blocks[b]? = some block) (hinsts : block.insts = code ++ [.br target])
      (hplain : ∀ i ∈ code, i.isTerminator = false) (hs : execAll code s = some s₁)
      (h : StopsWith f target s₁ s') : StopsWith f b s s'

variable {f : Function} {p : Position} {s s' : Frame}

/-- A run that is not at its end yet takes a step. -/
theorem exists_step_of_run {n : Nat} {q : Position} {i : Inst} (hq : f.inst? q = some i)
    (hi : i ≠ .unreachable) (hrun : f.run n ⟨q, s⟩ = some ⟨p, s'⟩)
    (hp : f.inst? p = some .unreachable) :
    ∃ m q' s₁, n = m + 1 ∧ i.next? q = some q' ∧ i.exec s = some s₁ ∧
      f.run m ⟨q', s₁⟩ = some ⟨p, s'⟩ := by
  cases n with
  | zero =>
    cases hrun
    rw [hq] at hp
    exact absurd (Option.some.inj hp) hi
  | succ m =>
    obtain ⟨c, hstep, hrest⟩ := Option.bind_eq_some_iff.mp hrun
    simp only [step, hq] at hstep
    split at hstep
    · next q' s₁ hnext hexec =>
      cases hstep
      exact ⟨m, q', s₁, rfl, hnext, hexec, hrest⟩
    · cases hstep

/-- A run that halts executes code without terminators up to its end. -/
theorem exists_execAll_of_run {block : Nat} {b : Block} (hb : f.blocks[block]? = some b)
    (hp : f.inst? p = some .unreachable) :
    ∀ {code : List Inst} (before after : List Inst) {n : Nat} {s : Frame},
      b.insts = before ++ code ++ after → (∀ i ∈ code, i.isTerminator = false) →
      f.run n ⟨⟨block, before.length⟩, s⟩ = some ⟨p, s'⟩ →
      ∃ m s₁, m ≤ n ∧ execAll code s = some s₁ ∧
        f.run m ⟨⟨block, before.length + code.length⟩, s₁⟩ = some ⟨p, s'⟩ := by
  intro code
  induction code with
  | nil => exact fun before after n s _ _ hrun => ⟨n, s, Nat.le_refl n, rfl, hrun⟩
  | cons i code ih =>
    intro before after n s hinsts hplain hrun
    have hq : f.inst? ⟨block, before.length⟩ = some i := by
      simp [inst?, hb, hinsts]
    have hi := hplain i List.mem_cons_self
    have hne : i ≠ .unreachable := by
      rintro rfl
      cases hi
    obtain ⟨n, q', s₁, rfl, hnext, hexec, hrest⟩ := exists_step_of_run hq hne hrun hp
    rw [Inst.next?_of_not_isTerminator hi, Option.some.injEq] at hnext
    subst hnext
    have hlength : (before ++ [i]).length = before.length + 1 := by simp
    rw [← hlength] at hrest
    obtain ⟨m, s₂, hm, hcode, hrun'⟩ := ih (before ++ [i]) after (by simp [hinsts])
      (fun j hj => hplain j (List.mem_cons_of_mem i hj)) hrest
    refine ⟨m, s₂, Nat.le_succ_of_le hm, ?_, ?_⟩
    · rw [execAll_cons, hexec, Option.bind_some, hcode]
    · rw [List.length_cons, Nat.add_comm code.length, ← Nat.add_assoc, ← hlength]
      exact hrun'

/-- The run reaches a block only at its front, and a block that does not exist has no run. -/
theorem exists_block_of_run {n b : Nat} (hrun : f.run n ⟨⟨b, 0⟩, s⟩ = some ⟨p, s'⟩)
    (hp : f.inst? p = some .unreachable) : ∃ block, f.blocks[b]? = some block := by
  cases hb : f.blocks[b]? with
  | some block => exact ⟨block, rfl⟩
  | none =>
    have hnone : f.inst? ⟨b, 0⟩ = none := by rw [inst?, hb, Option.bind_none]
    cases n with
    | zero =>
      cases hrun
      rw [hnone] at hp
      cases hp
    | succ n => simp [run_succ, step, hnone] at hrun

/-- **A run that halts goes through whole blocks.** The induction is on the number of steps, and a
block takes at least that of its terminator. -/
theorem stopsWith_of_run (hclosed : ∀ b ∈ f.blocks, b.Closed) (hp : f.inst? p = some .unreachable) :
    ∀ {n b : Nat} {s : Frame}, f.run n ⟨⟨b, 0⟩, s⟩ = some ⟨p, s'⟩ → f.StopsWith b s s' := by
  intro n
  induction n using Nat.strongRecOn with
  | ind n ih =>
    intro b s hrun
    obtain ⟨block, hb⟩ := exists_block_of_run hrun hp
    obtain ⟨t, code, hinsts, ht, hplain⟩ := hclosed block (List.mem_of_getElem? hb)
    obtain ⟨m, s₁, hm, hs, hrest⟩ :=
      exists_execAll_of_run hb hp [] [t] (by simpa using hinsts) hplain hrun
    have hlast : f.inst? ⟨b, ([] : List Inst).length + code.length⟩ = some t := by
      simp [inst?, hb, hinsts]
    cases t with
    | unreachable =>
      -- nothing comes after it, so the run is over
      cases m with
      | zero =>
        cases hrest
        exact .unreachable hb hinsts hplain hs
      | succ m =>
        rw [run_succ, step, hlast] at hrest
        cases hrest
    | br target =>
      obtain ⟨m, q', s₂, rfl, hnext, hexec, hrun'⟩ := exists_step_of_run hlast (by simp) hrest hp
      cases hnext
      cases hexec
      exact .br hb hinsts hplain hs (ih m hm hrun')
    | _ => cases ht

theorem HaltsWith.stopsWith (hclosed : ∀ b ∈ f.blocks, b.Closed) {b : Nat}
    (h : f.HaltsWith ⟨⟨b, 0⟩, s⟩ s') : f.StopsWith b s s' := by
  obtain ⟨n, p, hrun, hp⟩ := h
  exact stopsWith_of_run hclosed hp hrun

end Mos6502.IR.Function
