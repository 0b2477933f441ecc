import TapeMachine.Proofs.Machine.Step

/-! # Runs with and without a budget

A budget only cuts a run off: as long as it is not used up, every step is the step of the unlimited
run, and the first instruction that it refuses is the next computational instruction of the
unlimited run. Such an instruction is never far away, because `debug` instructions only lead
forward, so that the unlimited run either ends or goes on to be charged. -/

namespace TapeMachine
set_option autoImplicit false

theorem Budget.ofNat_of_pos {n : Nat} (h : 0 < n) : Budget.ofNat n = .atMost n := by
  cases n with
  | zero => cases h
  | succ n => rfl

variable {p : Program} {b : Budget}

/-! ## Charged instructions -/

/-- The address of a computational instruction that was dispatched. -/
def Event.charged? : Event → Option Nat
  | dispatch _ pc _ i => if i.isComputational then some pc else none
  | _ => none

namespace Run

variable {r : Run}

/-- The addresses of the computational instructions that a run performed, in order. -/
def charged (r : Run) : List Nat :=
  r.events.toList.filterMap Event.charged?

theorem filterMap_charged?_eventsOf (m : Machine) (i : Instruction) :
    (eventsOf m i).filterMap Event.charged? = if i.isComputational then [m.pc] else [] := by
  cases i <;> rfl

theorem charged_step_of_perform {i : Instruction} (hr : r.status = .running)
    (h : r.machine.action p b = .perform i) :
    (r.step p b).charged =
      r.charged ++ if i.isComputational then [r.machine.pc] else [] := by
  rw [step_of_perform hr h]
  simp [charged, filterMap_charged?_eventsOf, Machine.charge]

theorem charged_push (r : Run) {e : Event} (he : e.charged? = none) (st : Status) :
    charged ⟨r.machine, r.events.push e, st⟩ = r.charged := by
  simp [charged, he]

/-- The counter of the machine counts the charged instructions. -/
def Counted (r : Run) : Prop :=
  r.charged.length = r.machine.steps

theorem Counted.step (h : r.Counted) : (r.step p b).Counted := by
  obtain ⟨-, hs⟩ | ⟨hr, i, hi, hs⟩ | ⟨-, -, hs⟩ | ⟨-, e, -, hs⟩ := step_cases p b r
  · rwa [hs]
  · have hc := charged_step_of_perform hr hi
    unfold Counted at h ⊢
    rw [hc, hs, List.length_append, h]
    cases hic : i.isComputational with
    | true => simp [Machine.perform_steps_of_isComputational _ hic]
    | false =>
      rw [Instruction.isComputational_eq_false_iff] at hic
      simp [hic, Machine.perform_steps]
  · rw [hs]
    exact (congrArg List.length (charged_push r rfl _)).trans h
  · rw [hs]
    exact (congrArg List.length (charged_push r rfl _)).trans h

theorem counted_run (p : Program) (tape : Tape) (b : Budget) (fuel : Nat) :
    (p.run tape b fuel).Counted := by
  apply advance_invariant
  · intro r h
    exact h.step
  · rfl

/-! ## The next charge of the unlimited run -/

/-- The run is about to perform a computational instruction, unless its budget refuses it. -/
def AtCharge (p : Program) (r : Run) : Prop :=
  r.status = .running ∧ ∃ i, p.get? r.machine.pc = some i ∧ i.isComputational = true

theorem AtCharge.status_step (h : r.AtCharge p) : (r.step p .unlimited).status = .running := by
  obtain ⟨hr, i, hi, -⟩ := h
  rw [step_of_perform hr (Machine.action_of_spent?_eq_none hi (Machine.spent?_unlimited _))]

theorem AtCharge.steps_step (h : r.AtCharge p) :
    (r.step p .unlimited).machine.steps = r.machine.steps + 1 := by
  obtain ⟨hr, i, hi, hc⟩ := h
  rw [step_of_perform hr (Machine.action_of_spent?_eq_none hi (Machine.spent?_unlimited _))]
  exact Machine.perform_steps_of_isComputational _ hc

theorem AtCharge.charged_step (h : r.AtCharge p) :
    (r.step p .unlimited).charged = r.charged ++ [r.machine.pc] := by
  obtain ⟨hr, i, hi, hc⟩ := h
  have ha := Machine.action_of_spent?_eq_none (b := .unlimited) hi (Machine.spent?_unlimited _)
  rw [charged_step_of_perform hr ha, if_pos hc]

theorem AtCharge.step_atMost (h : r.AtCharge p) {n : Nat} (hn : n ≤ r.machine.steps) :
    r.step p (.atMost n) =
      ⟨r.machine, r.events.push (.refuse ⟨n, r.machine.pc⟩), .refused ⟨n, r.machine.pc⟩⟩ := by
  obtain ⟨hr, i, hi, hc⟩ := h
  have hs : r.machine.spent? (.atMost n) = some ⟨n, r.machine.pc⟩ := by
    rw [Machine.spent?_atMost, if_pos hn]
  exact step_of_refuse hr (Machine.action_of_spent?_eq_some hi hc hs)

/-- The unlimited run ends or comes to a computational instruction without being charged. -/
theorem exists_ended_or_atCharge (hr : r.status = .running) :
    ∃ n, (r.advance p .unlimited n).machine.steps = r.machine.steps ∧
      ((r.advance p .unlimited n).status ≠ .running ∨ (r.advance p .unlimited n).AtCharge p) := by
  -- A `debug` instruction moves the address towards the end of the program.
  induction hd : p.size - r.machine.pc using Nat.strongRecOn generalizing r with
  | ind d ih =>
    cases hi : p.get? r.machine.pc with
    | none =>
      have ha : r.machine.action p .unlimited = .halt :=
        Machine.action_eq_halt_iff.2 (Program.get?_eq_none_iff.1 hi)
      refine ⟨1, ?_, .inl ?_⟩
      · rw [advance_one, step_of_halt hr ha]
      · rw [advance_one, step_of_halt hr ha]
        simp
    | some i =>
      cases hc : i.isComputational with
      | true => exact ⟨0, rfl, .inr ⟨hr, i, hi, hc⟩⟩
      | false =>
        rw [Instruction.isComputational_eq_false_iff] at hc
        subst hc
        have hstep := step_of_perform hr (Machine.action_debug (b := .unlimited) hi)
        have hlt := Program.lt_size_of_get? hi
        have hpc : (r.step p .unlimited).machine.pc = r.machine.pc + 1 := by
          rw [hstep]
          rfl
        obtain ⟨n, hn⟩ := ih (p.size - (r.step p .unlimited).machine.pc) (by omega)
          (congrArg status hstep) rfl
        refine ⟨n + 1, ?_⟩
        rw [advance_succ]
        refine ⟨hn.1.trans ?_, hn.2⟩
        rw [hstep]
        exact Machine.perform_steps _ _

/-- The unlimited run ends within `k` charges or comes to one more. -/
theorem exists_ended_or_charges (hr : r.status = .running) (k : Nat) :
    ∃ n, (r.advance p .unlimited n).machine.steps ≤ r.machine.steps + k ∧
        (r.advance p .unlimited n).status ≠ .running ∨
      (r.advance p .unlimited n).machine.steps = r.machine.steps + k ∧
        (r.advance p .unlimited n).AtCharge p := by
  induction k with
  | zero =>
    obtain ⟨n, hn, he | hc⟩ := exists_ended_or_atCharge (p := p) hr
    · exact ⟨n, .inl ⟨Nat.le_of_eq hn, he⟩⟩
    · exact ⟨n, .inr ⟨hn, hc⟩⟩
  | succ k ih =>
    obtain ⟨n, ⟨hn, he⟩ | ⟨hn, hc⟩⟩ := ih
    · exact ⟨n, .inl ⟨by omega, he⟩⟩
    · have hsteps := hc.steps_step
      obtain ⟨n', hn', hend⟩ := exists_ended_or_atCharge (p := p) hc.status_step
      refine ⟨n + (1 + n'), ?_⟩
      rw [advance_add, advance_add, advance_one]
      obtain he | hc' := hend
      · exact .inl ⟨by omega, he⟩
      · exact .inr ⟨by omega, hc'⟩

/-! ## The run within its budget -/

/-- As long as the unlimited run is charged no more than the budget, the budget plays no part. -/
theorem advance_atMost_eq_unlimited {budget n : Nat}
    (h : (r.advance p .unlimited n).machine.steps ≤ budget) :
    r.advance p (.atMost budget) n = r.advance p .unlimited n := by
  induction n with
  | zero => rfl
  | succ n ih =>
    rw [advance_succ_last] at h
    have hle := machine_steps_le_step p .unlimited (r.advance p .unlimited n)
    rw [advance_succ_last, advance_succ_last, ih (by omega)]
    by_cases hr : (r.advance p .unlimited n).status = .running
    · apply step_eq_unlimited
      -- A refusal would come at a charge that takes the unlimited run over the budget.
      intro e he
      obtain ⟨hs, hi⟩ := Machine.of_action_eq_refuse he
      have hspent := Machine.le_steps_of_spent? hs
      have hmore := AtCharge.steps_step ⟨hr, hi⟩
      omega
    · rw [step_of_ended hr, step_of_ended hr]

theorem status_unlimited_ne_refused (p : Program) (tape : Tape) (fuel : Nat) (e : BudgetSpent) :
    (p.run tape .unlimited fuel).status ≠ .refused e := by
  refine advance_invariant (P := fun r => r.status ≠ .refused e) ?_ ?_ fuel
  · intro r hr
    obtain ⟨-, hs⟩ | ⟨-, i, -, hs⟩ | ⟨-, -, hs⟩ | ⟨-, e', he, -⟩ := step_cases p .unlimited r
    · rwa [hs]
    · simp [hs]
    · simp [hs]
    · exact absurd he (Machine.action_unlimited_ne_refuse _ e')
  · simp [resume]

theorem snapshots_push (r : Run) {e : Event} (he : e.snapshot? = none) (st : Status) :
    snapshots ⟨r.machine, r.events.push e, st⟩ = r.snapshots := by
  simp [snapshots, he]

end Run

/-! ## Whole runs -/

namespace Program

variable {tape : Tape} {s : Run} {budget : Nat}

theorem Ends.status_unlimited (h : p.Ends tape .unlimited s) : s.status = .halted := by
  obtain ⟨hs, n, hn⟩ := h
  have hne : ∀ e, s.status ≠ .refused e := by
    intro e
    rw [← hn]
    exact Run.status_unlimited_ne_refused p tape n e
  cases hst : s.status with
  | running => exact absurd hst hs
  | halted => rfl
  | refused e => exact absurd hst (hne e)

theorem Ends.atMost_of_unlimited (h : p.Ends tape .unlimited s)
    (hle : s.charged.length ≤ budget) : p.Ends tape (.atMost budget) s := by
  obtain ⟨hs, n, hn⟩ := h
  have hcounted : s.charged.length = s.machine.steps := by
    rw [← hn]
    exact Run.counted_run p tape .unlimited n
  refine ⟨hs, n, ?_⟩
  rw [Run.advance_atMost_eq_unlimited, hn]
  rw [hn]
  omega

theorem Ends.ofNat_of_unlimited (h : p.Ends tape .unlimited s)
    (hle : budget = 0 ∨ s.charged.length ≤ budget) : p.Ends tape (.ofNat budget) s := by
  by_cases hzero : budget = 0
  · rw [hzero]
    exact h
  · rw [Budget.ofNat_of_pos (by omega)]
    exact h.atMost_of_unlimited (by omega)

/-- An unlimited run that does not end within the budget comes to a charge that is one too many. -/
theorem exists_atCharge (h : ¬ ∃ s, p.Ends tape .unlimited s ∧ s.charged.length ≤ budget) :
    ∃ n, (p.run tape .unlimited n).AtCharge p ∧
      (p.run tape .unlimited n).machine.steps = budget := by
  obtain ⟨n, ⟨hle, hend⟩ | ⟨heq, hcharge⟩⟩ :=
    Run.exists_ended_or_charges (p := p) (r := .resume (.start tape)) rfl budget
  · refine absurd ⟨_, ⟨hend, n, rfl⟩, ?_⟩ h
    have hcounted := Run.counted_run p tape .unlimited n
    have hzero : (Run.resume (.start tape)).machine.steps = 0 := rfl
    rw [hzero, Nat.zero_add] at hle
    exact Nat.le_trans (Nat.le_of_eq hcounted) hle
  · exact ⟨n, hcharge, heq.trans (Nat.zero_add budget)⟩

theorem ends_atMost_of_atCharge {n : Nat} (hcharge : (p.run tape .unlimited n).AtCharge p)
    (hsteps : (p.run tape .unlimited n).machine.steps = budget) :
    p.Ends tape (.atMost budget) ((p.run tape .unlimited n).step p (.atMost budget)) := by
  have hstep := hcharge.step_atMost (Nat.le_of_eq hsteps.symm)
  refine ⟨?_, n + 1, ?_⟩
  · rw [hstep]
    simp
  · rw [Run.advance_succ_last, Run.advance_atMost_eq_unlimited (Nat.le_of_eq hsteps)]
    rfl

/-- A budget plays no part in a run that it lets halt. -/
theorem Ends.unlimited_of_atMost (h : p.Ends tape (.atMost budget) s) (hs : s.status = .halted) :
    p.Ends tape .unlimited s ∧ s.charged.length ≤ budget := by
  by_cases hex : ∃ s, p.Ends tape .unlimited s ∧ s.charged.length ≤ budget
  · obtain ⟨s', hends, hle⟩ := hex
    have heq : s' = s := Run.Ends.unique (hends.atMost_of_unlimited hle) h
    rw [← heq]
    exact ⟨hends, hle⟩
  · obtain ⟨n, hcharge, hsteps⟩ := exists_atCharge hex
    have heq : _ = s := Run.Ends.unique (ends_atMost_of_atCharge hcharge hsteps) h
    rw [← heq, hcharge.step_atMost (Nat.le_of_eq hsteps.symm)] at hs
    cases hs

/-- A run with a budget is the part of the unlimited run that the budget pays for. If the unlimited
run halts within the budget, both are the same run. Otherwise the run with the budget stops as the
unlimited run, after `n` steps, is about to perform the first computational instruction that the
budget does not pay for. A run that a budget lets halt is the same with every larger one. -/
theorem ends_within_budget (p : Program) (tape : Tape) (budget : Nat) (hpos : 0 < budget) :
    (∀ s, p.Ends tape (.ofNat 0) s → s.charged.length ≤ budget →
      s.result? = some (.ok s.machine.tape.render) ∧ p.Ends tape (.ofNat budget) s) ∧
    ((¬ ∃ s, p.Ends tape (.ofNat 0) s ∧ s.charged.length ≤ budget) →
      ∃ n address s,
        (p.run tape (.ofNat 0) n).charged.length = budget ∧
        (p.run tape (.ofNat 0) (n + 1)).charged =
          (p.run tape (.ofNat 0) n).charged ++ [address] ∧
        p.Ends tape (.ofNat budget) s ∧
        s.result? = some (.error ⟨budget, address⟩) ∧
        s.machine = (p.run tape (.ofNat 0) n).machine ∧
        s.machine.steps = budget ∧
        s.snapshots = (p.run tape (.ofNat 0) n).snapshots) ∧
    (∀ s output, p.Ends tape (.ofNat budget) s → s.result? = some (.ok output) →
      ∀ larger, larger = 0 ∨ budget ≤ larger → p.Ends tape (.ofNat larger) s) := by
  have hzero : Budget.ofNat 0 = .unlimited := rfl
  rw [Budget.ofNat_of_pos hpos, hzero]
  refine ⟨?_, ?_, ?_⟩
  · intro s hends hle
    refine ⟨?_, hends.atMost_of_unlimited hle⟩
    rw [Run.result?, hends.status_unlimited]
  · intro hex
    obtain ⟨n, hcharge, hsteps⟩ := exists_atCharge hex
    have hends := ends_atMost_of_atCharge hcharge hsteps
    rw [hcharge.step_atMost (Nat.le_of_eq hsteps.symm)] at hends
    refine ⟨n, _, _, ?_, ?_, hends, rfl, rfl, hsteps, Run.snapshots_push _ rfl _⟩
    · exact (Run.counted_run p tape .unlimited n).trans hsteps
    · have hnext := Run.advance_succ_last p .unlimited n (.resume (.start tape))
      rw [run, hnext]
      exact hcharge.charged_step
  · intro s output hends hok larger hlarger
    have hs : s.status = .halted := by
      rw [Run.result?] at hok
      split at hok
      · cases hok
      · assumption
      · cases hok
    obtain ⟨hunlimited, hle⟩ := hends.unlimited_of_atMost hs
    obtain rfl | hlarger := hlarger
    · exact hunlimited
    · rw [Budget.ofNat_of_pos (by omega)]
      exact hunlimited.atMost_of_unlimited (by omega)

/-- Two computational instructions with a free one between them, under the budgets two and one. -/
theorem ends_within_budget_right_debug_left :
    let p := ofList [.right, .debug, .left]
    let s := p.run .empty (.ofNat 0) 4
    (p.Ends .empty (.ofNat 0) s ∧ s.charged.length ≤ 2 ∧ p.Ends .empty (.ofNat 2) s ∧
      p.Ends .empty (.ofNat 9) s) ∧
    (¬ ∃ s, p.Ends .empty (.ofNat 0) s ∧ s.charged.length ≤ 1) ∧
    ∃ n address s,
      (p.run .empty (.ofNat 0) (n + 1)).charged =
        (p.run .empty (.ofNat 0) n).charged ++ [address] ∧
      p.Ends .empty (.ofNat 1) s ∧ s.result? = some (.error ⟨1, address⟩) := by
  intro p s
  have hends : p.Ends .empty (.ofNat 0) s := ⟨by decide, 4, rfl⟩
  have htwo := ends_within_budget p .empty 2 (by decide)
  have hsame := htwo.1 s hends (by decide)
  have hmore : ¬ ∃ s, p.Ends .empty (.ofNat 0) s ∧ s.charged.length ≤ 1 := by
    rintro ⟨s', hends', hle⟩
    have heq : s = s' := Run.Ends.unique hends hends'
    rw [← heq] at hle
    revert hle
    decide
  obtain ⟨n, address, s', -, hnext, hends', hresult, -⟩ :=
    (ends_within_budget p .empty 1 (by decide)).2.1 hmore
  exact ⟨⟨hends, by decide, hsame.2, htwo.2.2 s _ hsame.2 hsame.1 9 (by decide)⟩, hmore,
    n, address, s', hnext, hends', hresult⟩

end Program
end TapeMachine
