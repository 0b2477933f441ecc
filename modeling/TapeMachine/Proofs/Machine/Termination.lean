import TapeMachine.Proofs.Machine.Resume
import TapeMachine.Proofs.Machine.Skip

/-! # Termination under a budget

A `debug` instruction is free, so a budget does not count everything that a run does. But a `debug`
instruction only leads to the next address: between two charges a run passes each of them at most
once. This bounds the dispatched instructions by the charged steps (`Machine.Paced`), whatever the
budgets are. Under a budget the charged steps are bounded too, and a run that dispatches only so
many instructions comes to its end. -/

namespace TapeMachine
set_option autoImplicit false

variable {p : Program} {b : Budget}

/-! ## Free instructions -/

namespace Program

def debugCount (p : Program) : Nat :=
  p.toList.count .debug

/-- The number of `debug` instructions below an address. -/
def debugsBelow (p : Program) (address : Nat) : Nat :=
  rank (· == Instruction.debug) p.toList address

theorem debugsBelow_le (p : Program) (address : Nat) : p.debugsBelow address ≤ p.debugCount := by
  rw [debugCount, List.count_eq_countP, List.countP_eq_length_filter]
  exact rank_le _ _ _

theorem debugsBelow_succ {address : Nat} (h : p.get? address = some .debug) :
    p.debugsBelow (address + 1) = p.debugsBelow address + 1 := by
  rw [get?_eq_getElem?] at h
  exact rank_succ h

end Program

/-! ## Dispatched instructions -/

namespace Machine

variable {m : Machine} {i : Instruction}

/-- For each charge at most all `debug` instructions were dispatched before it, and since the last
one at most those below the address. -/
def Paced (p : Program) (m : Machine) : Prop :=
  m.dispatched ≤ m.steps + m.steps * p.debugCount + p.debugsBelow m.pc

theorem paced_start (p : Program) (tape : Tape) : (start tape).Paced p := Nat.zero_le _

theorem Paced.dispatched_le (h : m.Paced p) :
    m.dispatched ≤ m.steps + (m.steps + 1) * p.debugCount := by
  have hbelow := p.debugsBelow_le m.pc
  unfold Paced at h
  rw [Nat.succ_mul]
  omega

theorem Paced.perform (h : m.Paced p) (hi : p.get? m.pc = some i) : (m.perform i).Paced p := by
  have hdispatched := m.perform_dispatched i
  have hsteps := m.perform_steps i
  unfold Paced
  rw [hdispatched, hsteps]
  by_cases hd : i = .debug
  · subst hd
    have hnext := Program.debugsBelow_succ hi
    have hpc : (m.perform .debug).pc = m.pc + 1 := rfl
    rw [if_pos rfl, hpc, hnext]
    unfold Paced at h
    omega
  · have hle := h.dispatched_le
    rw [if_neg hd]
    omega

theorem steps_lt_of_action {n : Nat} (h : m.action p (.atMost n) = .perform i)
    (hc : i.isComputational = true) : m.steps < n := by
  apply Nat.lt_of_not_le
  intro hle
  have hs : m.spent? (.atMost n) = some ⟨n, m.pc⟩ := by rw [spent?_atMost, if_pos hle]
  rw [action_of_spent?_eq_some (get?_of_action h) hc hs] at h
  cases h

theorem perform_steps_le {n k : Nat} (h : m.action p (.atMost n) = .perform i) (hn : n ≤ k)
    (hk : m.steps ≤ k) : (m.perform i).steps ≤ k := by
  cases hc : i.isComputational with
  | true =>
    have hlt := steps_lt_of_action h hc
    rw [perform_steps_of_isComputational m hc]
    omega
  | false =>
    rw [Instruction.isComputational_eq_false_iff] at hc
    rw [perform_steps, if_pos hc]
    exact hk

end Machine

namespace Run

variable {r : Run}

theorem paced_advance (h : r.machine.Paced p) (n : Nat) : (r.advance p b n).machine.Paced p :=
  machine_advance_invariant (fun _ _ hi hm => hm.perform (Machine.get?_of_action hi)) h n

/-- A budget never lets a run be charged more than it allows, or than it was charged before. -/
theorem steps_advance_le {n k : Nat} (hn : n ≤ k) (h : r.machine.steps ≤ k) (fuel : Nat) :
    (r.advance p (.atMost n) fuel).machine.steps ≤ k :=
  machine_advance_invariant (P := fun m => m.steps ≤ k)
    (fun _ _ hi hm => Machine.perform_steps_le hi hn hm) h fuel

/-- As long as a run goes on, each of its steps dispatches an instruction. -/
theorem dispatched_of_running {n : Nat} (h : (r.advance p b n).status = .running) :
    (r.advance p b n).machine.dispatched = r.machine.dispatched + n := by
  induction n with
  | zero => rfl
  | succ n ih =>
    rw [advance_succ_last] at h ⊢
    obtain ⟨hr, i, hi⟩ := running_of_running_step h
    have hn := ih hr
    have hone := (r.advance p b n).machine.perform_dispatched i
    rw [step_of_perform hr hi]
    show ((r.advance p b n).machine.perform i).dispatched = _
    omega

/-! ## The end of a run -/

/-- A run that takes up a machine which is not ahead of its charges has ended after as many steps as
the instructions that the budget lets it dispatch. -/
theorem status_ne_running_of_paced {m : Machine} {n k : Nat} (hm : m.Paced p) (hn : n ≤ k)
    (hk : m.steps ≤ k) :
    ((resume m).advance p (.atMost n) (k + (k + 1) * p.debugCount + 1)).status ≠ .running := by
  intro hr
  have hdispatched := dispatched_of_running hr
  have hpaced := (paced_advance (r := resume m) (b := .atMost n) hm
    (k + (k + 1) * p.debugCount + 1)).dispatched_le
  have hsteps := steps_advance_le (r := resume m) (p := p) hn hk (k + (k + 1) * p.debugCount + 1)
  have hmul := Nat.mul_le_mul_right p.debugCount (Nat.add_le_add_right hsteps 1)
  omega

end Run

theorem Session.paced {m m' : Machine} {ns : List Nat} {ss : List Run} (h : Session p m ns ss m')
    (hm : m.Paced p) : m'.Paced p := by
  induction h with
  | nil m => exact hm
  | cons first rest ih =>
    obtain ⟨-, k, rfl⟩ := first
    exact ih (Run.paced_advance hm k)

/-- Under a budget above zero the run of a program ends, although `debug` is free: the budget bounds
the charged steps, and the charged steps bound the dispatched instructions. The second bound holds
in every state that a session comes to, also in the middle of a run without a limit, and a run that
takes up the machine of a session under a budget above zero ends as well. -/
theorem Program.budget_terminates (p : Program) (tape : Tape) :
    (∀ budget, 0 < budget → ∃ s, p.Ends tape (.ofNat budget) s ∧
      s = p.run tape (.ofNat budget) (budget + (budget + 1) * p.debugCount + 1) ∧
      s.machine.steps ≤ budget ∧
      s.machine.dispatched ≤ s.machine.steps + (s.machine.steps + 1) * p.debugCount) ∧
    ∀ budgets runs m, Session p (.start tape) budgets runs m → ∀ budget,
      (0 < budget → ∃ s, (Run.resume m).Ends p (.ofNat budget) s) ∧
      ∀ n,
        let r := (Run.resume m).advance p (.ofNat budget) n
        r.machine.dispatched ≤ r.machine.steps + (r.machine.steps + 1) * p.debugCount := by
  have hstart := Machine.paced_start p tape
  refine ⟨?_, ?_⟩
  · intro budget hpos
    rw [Budget.ofNat_of_pos hpos]
    have hend := Run.status_ne_running_of_paced hstart (Nat.le_refl budget) (Nat.zero_le budget)
    refine ⟨_, ⟨hend, _, rfl⟩, rfl, ?_, ?_⟩
    · exact Run.steps_advance_le (Nat.le_refl budget) (Nat.zero_le budget) _
    · exact (Run.paced_advance (r := .resume (.start tape)) hstart _).dispatched_le
  · intro budgets runs m hsession budget
    have hm := hsession.paced hstart
    refine ⟨?_, ?_⟩
    · intro hpos
      rw [Budget.ofNat_of_pos hpos]
      have hend := Run.status_ne_running_of_paced hm (Nat.le_max_left budget m.steps)
        (Nat.le_max_right budget m.steps)
      exact ⟨_, hend, _, rfl⟩
    · intro n r
      exact (Run.paced_advance (r := .resume m) hm n).dispatched_le

/-- A loop around a `debug` instruction dispatches as many instructions as the bound allows, under
the budget two, and then without a limit. -/
theorem Program.budget_terminates_debug_loop :
    let p := ofList [.debug, .jump .blank 0]
    ∃ s, p.Ends .empty (.ofNat 2) s ∧ s.result? = some (.error ⟨2, 1⟩) ∧ s.machine.steps = 2 ∧
      s.machine.dispatched = 2 + (2 + 1) * p.debugCount ∧
      let r := (Run.resume s.machine).advance p (.ofNat 0) 2
      r.machine.steps = 3 ∧ r.machine.dispatched = 3 + (3 + 1) * p.debugCount ∧
      r.machine.dispatched ≤ r.machine.steps + (r.machine.steps + 1) * p.debugCount := by
  intro p
  obtain ⟨hends, hsessions⟩ := budget_terminates p .empty
  obtain ⟨s, hs, hrun, -, -⟩ := hends 2 (by decide)
  rw [hrun] at hs
  have h : Session p (.start .empty) [2] [_] _ := .cons hs (.nil _)
  exact ⟨_, hs, by decide, by decide, by decide, by decide, by decide,
    (hsessions _ _ _ h 0).2 2⟩

end TapeMachine
