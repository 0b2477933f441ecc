import Mathlib.Data.List.Basic
import TapeMachine.Proofs.Machine.Debug

/-! # Straight-line programs

Without jumps a program is performed from its first instruction to its last, each instruction once,
and what a run counts is what the program holds: after `n` steps the run has performed the first
`n` instructions (`Run.Passed`). A budget that is too small stops it at the first computational
instruction that it does not pay for. -/

namespace TapeMachine
set_option autoImplicit false

/-- The instruction that was dispatched, with its address. -/
def Event.performed? : Event → Option (Instruction × Nat)
  | dispatch _ pc _ i => some (i, pc)
  | _ => none

/-- The instructions that a run performed, in order, with their addresses. -/
def Run.performed (r : Run) : List (Instruction × Nat) :=
  r.events.toList.filterMap Event.performed?

variable {p : Program} {n : Nat}

namespace Program

theorem below_size (p : Program) : p.below p.size = p.computationalSize := by
  rw [below, rank_of_length_le (Nat.le_of_eq p.size_eq_length.symm), computationalSize,
    List.countP_eq_length_filter]

theorem exists_get? (h : n < p.size) : ∃ i, p.get? n = some i := by
  cases hi : p.get? n with
  | none =>
    rw [get?_eq_none_iff] at hi
    omega
  | some i => exact ⟨i, rfl⟩

theorem perform_pc_of_isStraightLine {i : Instruction} (h : p.isStraightLine = true) {m : Machine}
    (hi : p.get? m.pc = some i) : (m.perform i).pc = m.pc + 1 := by
  obtain hnext | ⟨value, hjump⟩ := m.perform_pc i
  · exact hnext
  · rw [get?_eq_getElem?] at hi
    have hmem := List.mem_of_getElem? hi
    have hnone : ∀ j ∈ p.toList, j.isJump = false := by
      simpa [isStraightLine] using h
    have hi' := hnone i hmem
    rw [hjump] at hi'
    cases hi'

theorem zipIdx_take_succ {i : Instruction} (hi : p.get? n = some i) :
    p.toList.zipIdx.take (n + 1) = p.toList.zipIdx.take n ++ [(i, n)] := by
  rw [get?_eq_getElem?] at hi
  rw [List.take_add_one, List.getElem?_zipIdx, hi]
  simp

theorem idxsOf_take_succ {i : Instruction} (hi : p.get? n = some i) :
    (p.toList.take (n + 1)).idxsOf .debug =
      (p.toList.take n).idxsOf .debug ++ if i = .debug then [n] else [] := by
  have hlt := lt_size_of_get? hi
  rw [size_eq_length] at hlt
  rw [get?_eq_getElem?] at hi
  have hlength : (p.toList.take n).length = n := List.length_take_of_le (Nat.le_of_lt hlt)
  rw [List.take_add_one, hi, List.idxsOf, List.findIdxs_append, hlength]
  by_cases hd : i = .debug
  · simp [List.idxsOf, hd]
  · simp [List.idxsOf, hd]

end Program

namespace Run

variable {r : Run}

theorem filterMap_performed?_eventsOf (m : Machine) (i : Instruction) :
    (eventsOf m i).filterMap Event.performed? = [(i, m.pc)] := by
  cases i <;> rfl

theorem performed_push (r : Run) {e : Event} (he : e.performed? = none) (st : Status) :
    performed ⟨r.machine, r.events.push e, st⟩ = r.performed := by
  simp [performed, he]

/-! ## One instruction after the other -/

/-- The run has performed the first `n` instructions of the program, each of them once. -/
structure Passed (p : Program) (n : Nat) (r : Run) : Prop where
  status : r.status = .running
  pc : r.machine.pc = n
  steps : r.machine.steps = p.below n
  dispatched : r.machine.dispatched = n
  performed : r.performed = p.toList.zipIdx.take n
  snapshots : r.snapshots.map Snapshot.step = ((p.toList.take n).idxsOf .debug).map (· + 1)

theorem Passed.step (h : r.Passed p n) (hp : p.isStraightLine = true) (hn : n < p.size) :
    (r.step p .unlimited).Passed p (n + 1) := by
  obtain ⟨i, hi⟩ := Program.exists_get? hn
  have hi' : p.get? r.machine.pc = some i := by
    rw [h.pc]
    exact hi
  have ha := Machine.action_of_spent?_eq_none (b := .unlimited) hi' (Machine.spent?_unlimited _)
  have hs := step_of_perform h.status ha
  refine ⟨by rw [hs], ?_, ?_, ?_, ?_, ?_⟩
  · rw [hs]
    exact (Program.perform_pc_of_isStraightLine hp hi').trans (congrArg (· + 1) h.pc)
  · rw [hs, Program.below_succ hi, ← h.steps]
    exact r.machine.perform_steps_eq_add i
  · rw [hs]
    exact (r.machine.perform_dispatched i).trans (congrArg (· + 1) h.dispatched)
  · rw [hs, Program.zipIdx_take_succ hi, ← h.performed]
    have hpc : (r.machine.charge i).pc = n := h.pc
    simp [Run.performed, filterMap_performed?_eventsOf, hpc]
  · rw [snapshots_step_of_perform h.status ha, Program.idxsOf_take_succ hi, List.map_append,
      List.map_append, h.snapshots]
    have hcount : (r.machine.charge i).snapshot.step = n + 1 := congrArg (· + 1) h.dispatched
    by_cases hd : i = .debug
    · rw [if_pos hd, if_pos hd, List.map_singleton, List.map_singleton, hcount]
    · rw [if_neg hd, if_neg hd, List.map_nil, List.map_nil]

theorem passed_run (hp : p.isStraightLine = true) (tape : Tape) (hn : n ≤ p.size) :
    (p.run tape .unlimited n).Passed p n := by
  induction n with
  | zero => exact ⟨rfl, rfl, rfl, rfl, rfl, rfl⟩
  | succ n ih =>
    rw [Program.run, advance_succ_last]
    exact (ih (by omega)).step hp hn

theorem Passed.atCharge (h : r.Passed p n) {i : Instruction} (hi : p.get? n = some i)
    (hc : i.isComputational = true) : r.AtCharge p := by
  rw [← h.pc] at hi
  exact ⟨h.status, i, hi, hc⟩

end Run

namespace Program

/-- Behind the last instruction the run halts. -/
theorem ends_of_isStraightLine (h : p.isStraightLine = true) (tape : Tape) :
    let r := p.run tape .unlimited p.size
    p.Ends tape .unlimited
      ⟨r.machine, r.events.push (.halt r.machine.pc r.machine.steps r.machine.tape.size),
        .halted⟩ := by
  intro r
  have hall : r.Passed p p.size := Run.passed_run h tape (Nat.le_refl p.size)
  have hhalt : r.machine.action p .unlimited = .halt :=
    Machine.action_eq_halt_iff.2 (Nat.le_of_eq hall.pc.symm)
  refine ⟨by simp, p.size + 1, ?_⟩
  rw [Run.advance_succ_last]
  exact Run.step_of_halt hall.status hhalt

/-- A budget that pays for `k` computational instructions, but not for all, comes to one more. -/
theorem exists_unpaid {k : Nat} (h : k < p.computationalSize) :
    let address := p.toList.findIdxNth (·.isComputational) k
    address ≤ p.size ∧ p.below address = k ∧
      ∃ i, p.get? address = some i ∧ i.isComputational = true := by
  intro address
  have hlt : address < p.toList.length := List.findIdxNth_lt_length_of_lt_countP h
  refine ⟨?_, ?_, p.toList[address], ?_, List.pos_findIdxNth_getElem⟩
  · rw [size_eq_length]
    exact Nat.le_of_lt hlt
  · rw [below, rank, ← List.countPBefore_eq_countP_take]
    exact List.countPBefore_findIdxNth_of_lt_countP h
  · rw [get?_eq_getElem?, List.getElem?_eq_getElem hlt]

/-- A straight-line program is performed from the first instruction to the last, each once, if the
budget pays for its computational instructions: the counters and the snapshots show the sizes and
the addresses that the program has. Otherwise the budget refuses the first computational
instruction that it does not pay for. -/
theorem straightLine_once (p : Program) (h : p.isStraightLine = true) (tape : Tape)
    (budget : Nat) :
    (budget = 0 ∨ p.computationalSize ≤ budget →
      ∃ s, p.Ends tape (.ofNat budget) s ∧
        s.result? = some (.ok s.machine.tape.render) ∧
        s.machine.pc = p.size ∧
        s.machine.steps = p.computationalSize ∧
        s.machine.dispatched = p.size ∧
        s.performed = p.toList.zipIdx ∧
        s.snapshots.map Snapshot.step = (p.toList.idxsOf .debug).map (· + 1)) ∧
    (0 < budget → budget < p.computationalSize →
      let address := p.toList.findIdxNth (·.isComputational) budget
      ∃ s, p.Ends tape (.ofNat budget) s ∧
        s.result? = some (.error ⟨budget, address⟩) ∧
        s.machine.steps = budget ∧
        s.performed = p.toList.zipIdx.take address) := by
  refine ⟨?_, ?_⟩
  · intro hbudget
    -- The run without a limit charges what the budget pays for, so it is also the run under it.
    have hall := Run.passed_run h tape (Nat.le_refl p.size)
    have hcounted := Run.counted_run p tape .unlimited p.size
    have hends := ends_of_isStraightLine h tape
    have hsteps := hall.steps.trans p.below_size
    have hperformed := hall.performed
    have hsnapshots := hall.snapshots
    rw [List.take_of_length_le (by simp [size_eq_length])] at hperformed hsnapshots
    refine ⟨_, hends.ofNat_of_unlimited ?_, rfl, hall.pc, hsteps, hall.dispatched, ?_, ?_⟩
    · rw [Run.charged_push _ rfl, hcounted, hsteps]
      exact hbudget
    · rw [Run.performed_push _ rfl]
      exact hperformed
    · rw [Run.snapshots_push _ rfl]
      exact hsnapshots
  · intro hpos hlt address
    obtain ⟨hle, hbelow, i, hi, hc⟩ := exists_unpaid hlt
    have hpassed := Run.passed_run h tape hle
    have hcharge := hpassed.atCharge hi hc
    have hsteps := hpassed.steps.trans hbelow
    have hends := ends_atMost_of_atCharge hcharge hsteps
    rw [hcharge.step_atMost (Nat.le_of_eq hsteps.symm), hpassed.pc] at hends
    rw [Budget.ofNat_of_pos hpos]
    refine ⟨_, hends, rfl, hsteps, ?_⟩
    rw [Run.performed_push _ rfl]
    exact hpassed.performed

/-- Five instructions, three of them computational, without a limit and under the budget two. -/
theorem straightLine_once_two_debugs :
    let p := ofList [.set (.mark 'a'), .debug, .right, .set (.mark 'b'), .debug]
    p.isStraightLine = true ∧ p.computationalSize = 3 ∧
    (∃ s, p.Ends .empty (.ofNat 0) s ∧ s.machine.steps = 3 ∧ s.machine.dispatched = 5 ∧
      s.snapshots.map Snapshot.step = [2, 5]) ∧
    ∃ s, p.Ends .empty (.ofNat 2) s ∧ s.result? = some (.error ⟨2, 3⟩) ∧ s.machine.steps = 2 := by
  intro p
  have hline : p.isStraightLine = true := by decide
  obtain ⟨s, hends, -, -, hsteps, hdispatched, -, hsnapshots⟩ :=
    (straightLine_once p hline .empty 0).1 (.inl rfl)
  obtain ⟨s', hends', hresult, hsteps', -⟩ :=
    (straightLine_once p hline .empty 2).2 (by decide) (by decide)
  exact ⟨hline, by decide, ⟨s, hends, hsteps, hdispatched, hsnapshots⟩, s', hends', hresult,
    hsteps'⟩

end Program
end TapeMachine
