import TapeMachine.Machine.Run

/-! # One step and many

What the machine may be about to do, what one step of a run makes of it, and what follows for as
many steps as there are: invariants, counters that only grow, and the end of a run. -/

namespace TapeMachine
set_option autoImplicit false

variable {p : Program} {b : Budget}

theorem Program.lt_size_of_get? {address : Nat} {i : Instruction}
    (h : p.get? address = some i) : address < p.size := by
  apply Nat.lt_of_not_le
  intro hle
  rw [get?_eq_none_iff.2 hle] at h
  cases h

/-! ## Actions -/

namespace Machine

variable {m : Machine} {i : Instruction} {e : BudgetSpent}

@[simp]
theorem spent?_unlimited (m : Machine) : m.spent? .unlimited = none := rfl

theorem spent?_atMost (m : Machine) (n : Nat) :
    m.spent? (.atMost n) = if n ≤ m.steps then some ⟨n, m.pc⟩ else none := rfl

/-- The test of a budget that is given as a number. -/
theorem spent?_ofNat (m : Machine) (n : Nat) :
    m.spent? (.ofNat n) = if 0 < n ∧ n ≤ m.steps then some ⟨n, m.pc⟩ else none := by
  cases n with
  | zero => rfl
  | succ n => simp [Budget.ofNat, spent?_atMost]

theorem le_steps_of_spent? {n : Nat} (h : m.spent? (.atMost n) = some e) : n ≤ m.steps := by
  rw [spent?_atMost] at h
  split at h
  · assumption
  · cases h

theorem action_debug (h : p.get? m.pc = some .debug) : m.action p b = .perform .debug := by
  simp [action, h, Instruction.isComputational, Instruction.opcode, Opcode.isComputational]

theorem action_of_spent?_eq_none (h : p.get? m.pc = some i) (hs : m.spent? b = none) :
    m.action p b = .perform i := by
  simp [action, h, hs]

theorem action_of_spent?_eq_some (h : p.get? m.pc = some i) (hi : i.isComputational = true)
    (hs : m.spent? b = some e) : m.action p b = .refuse e := by
  simp [action, h, hi, hs]

theorem of_action_eq_refuse (h : m.action p b = .refuse e) :
    m.spent? b = some e ∧ ∃ i, p.get? m.pc = some i ∧ i.isComputational = true := by
  cases hi : p.get? m.pc with
  | none =>
    simp [action, hi] at h
  | some i =>
    cases hs : m.spent? b with
    | none =>
      rw [action_of_spent?_eq_none hi hs] at h
      simp at h
    | some e' =>
      cases hc : i.isComputational with
      | false => simp [action, hi, hc] at h
      | true =>
        rw [action_of_spent?_eq_some hi hc hs] at h
        injection h with h
        exact ⟨by rw [h], i, rfl, hc⟩

/-- A budget that does not refuse the next instruction plays no part in it. -/
theorem action_eq_unlimited (h : ∀ e, m.action p b ≠ .refuse e) :
    m.action p b = m.action p .unlimited := by
  cases hi : p.get? m.pc with
  | none => simp [action, hi]
  | some i =>
    rw [action_of_spent?_eq_none hi (spent?_unlimited m)]
    cases hs : m.spent? b with
    | none => exact action_of_spent?_eq_none hi hs
    | some e =>
      cases hc : i.isComputational with
      | false => simp [action, hi, hc]
      | true => exact absurd (action_of_spent?_eq_some hi hc hs) (h e)

theorem action_unlimited_ne_refuse (m : Machine) (e : BudgetSpent) :
    m.action p .unlimited ≠ .refuse e := by
  intro h
  have hs := (of_action_eq_refuse h).1
  simp at hs

theorem perform_steps_of_isComputational (m : Machine) (hi : i.isComputational = true) :
    (m.perform i).steps = m.steps + 1 := by
  have hne : i ≠ .debug := by
    intro h
    simp [h, Instruction.isComputational, Instruction.opcode, Opcode.isComputational] at hi
  simp [perform_steps, hne]

theorem perform_steps_eq_add (m : Machine) (i : Instruction) :
    (m.perform i).steps = m.steps + if i.isComputational then 1 else 0 := by
  cases i <;> rfl

theorem perform_jump_pc (m : Machine) (value : Cell) (target : Nat) :
    (m.perform (.jump value target)).pc =
      if m.tape.read = value.normalize then target else m.pc + 1 := rfl

/-- An instruction leads to the next address, or it is a jump that leads to its target. -/
theorem perform_pc (m : Machine) (i : Instruction) :
    (m.perform i).pc = m.pc + 1 ∨ ∃ value, i = .jump value (m.perform i).pc := by
  cases i with
  | set | right | left | debug => exact .inl rfl
  | jump value target =>
    rw [perform_jump_pc]
    by_cases hread : m.tape.read = value.normalize
    · rw [if_pos hread]
      exact .inr ⟨value, rfl⟩
    · rw [if_neg hread]
      exact .inl rfl

theorem steps_le_perform (m : Machine) (i : Instruction) : m.steps ≤ (m.perform i).steps := by
  rw [perform_steps]
  split <;> omega

end Machine

/-! ## Steps -/

namespace Run

variable {r s : Run}

theorem step_of_perform {i : Instruction} (hr : r.status = .running)
    (h : r.machine.action p b = .perform i) :
    r.step p b = ⟨r.machine.perform i, r.events ++ eventsOf (r.machine.charge i) i, .running⟩ := by
  simp [step, hr, h, Machine.perform]

theorem filterMap_snapshot?_eventsOf (m : Machine) (i : Instruction) :
    (eventsOf m i).filterMap Event.snapshot? = if i = .debug then [m.snapshot] else [] := by
  cases i <;> rfl

/-- Performing an instruction adds a snapshot if it is `debug`. -/
theorem snapshots_step_of_perform {i : Instruction} (hr : r.status = .running)
    (h : r.machine.action p b = .perform i) :
    (r.step p b).snapshots =
      r.snapshots ++ if i = .debug then [(r.machine.charge i).snapshot] else [] := by
  rw [step_of_perform hr h]
  simp [snapshots, filterMap_snapshot?_eventsOf]

theorem step_of_halt (hr : r.status = .running) (h : r.machine.action p b = .halt) :
    r.step p b =
      ⟨r.machine, r.events.push (.halt r.machine.pc r.machine.steps r.machine.tape.size),
        .halted⟩ := by
  simp [step, hr, h]

theorem step_of_refuse {e : BudgetSpent} (hr : r.status = .running)
    (h : r.machine.action p b = .refuse e) :
    r.step p b = ⟨r.machine, r.events.push (.refuse e), .refused e⟩ := by
  simp [step, hr, h]

theorem step_cases (p : Program) (b : Budget) (r : Run) :
    (r.status ≠ .running ∧ r.step p b = r) ∨
    (r.status = .running ∧ ∃ i, r.machine.action p b = .perform i ∧
      r.step p b =
        ⟨r.machine.perform i, r.events ++ eventsOf (r.machine.charge i) i, .running⟩) ∨
    (r.status = .running ∧ r.machine.action p b = .halt ∧
      r.step p b =
        ⟨r.machine, r.events.push (.halt r.machine.pc r.machine.steps r.machine.tape.size),
          .halted⟩) ∨
    (r.status = .running ∧ ∃ e, r.machine.action p b = .refuse e ∧
      r.step p b = ⟨r.machine, r.events.push (.refuse e), .refused e⟩) := by
  by_cases hr : r.status = .running
  · cases h : r.machine.action p b with
    | perform i => exact .inr (.inl ⟨hr, i, rfl, step_of_perform hr h⟩)
    | halt => exact .inr (.inr (.inl ⟨hr, rfl, step_of_halt hr h⟩))
    | refuse e => exact .inr (.inr (.inr ⟨hr, e, rfl, step_of_refuse hr h⟩))
  · exact .inl ⟨hr, step_of_ended hr⟩

theorem step_eq_unlimited (h : ∀ e, r.machine.action p b ≠ .refuse e) :
    r.step p b = r.step p .unlimited := by
  have ha := Machine.action_eq_unlimited h
  simp only [step, ha]

theorem machine_steps_le_step (p : Program) (b : Budget) (r : Run) :
    r.machine.steps ≤ (r.step p b).machine.steps := by
  obtain ⟨-, h⟩ | ⟨-, i, -, h⟩ | ⟨-, -, h⟩ | ⟨-, e, -, h⟩ := step_cases p b r
  · simp [h]
  · rw [h]
    exact Machine.steps_le_perform r.machine i
  · simp [h]
  · simp [h]

/-! ## Many steps -/

@[simp]
theorem advance_one (p : Program) (b : Budget) (r : Run) : r.advance p b 1 = r.step p b := by
  rw [advance_succ]
  rfl

theorem advance_succ_last (p : Program) (b : Budget) (fuel : Nat) (r : Run) :
    r.advance p b (fuel + 1) = (r.advance p b fuel).step p b := by
  rw [advance_add, advance_one]

/-- What every step keeps, every run keeps. -/
theorem advance_invariant {P : Run → Prop} (hstep : ∀ r, P r → P (r.step p b)) (hr : P r)
    (fuel : Nat) : P (r.advance p b fuel) := by
  induction fuel with
  | zero => exact hr
  | succ fuel ih =>
    rw [advance_succ_last]
    exact hstep _ ih

/-- What the machine keeps when it performs an instruction, it keeps in a run: the end of a run
leaves it as it is. -/
theorem machine_step_invariant {P : Machine → Prop}
    (hperform : ∀ m i, m.action p b = .perform i → P m → P (m.perform i)) (hr : P r.machine) :
    P (r.step p b).machine := by
  obtain ⟨-, h⟩ | ⟨-, i, hi, h⟩ | ⟨-, -, h⟩ | ⟨-, e, -, h⟩ := step_cases p b r
  · rwa [h]
  · rw [h]
    exact hperform r.machine i hi hr
  · rwa [h]
  · rwa [h]

theorem machine_advance_invariant {P : Machine → Prop}
    (hperform : ∀ m i, m.action p b = .perform i → P m → P (m.perform i)) (hr : P r.machine)
    (fuel : Nat) : P (r.advance p b fuel).machine :=
  advance_invariant (P := fun r => P r.machine) (fun _ => machine_step_invariant hperform) hr fuel

/-! ## Ends -/

/-- The run `r` goes on until it ends as `s`. -/
def Ends (p : Program) (b : Budget) (r s : Run) : Prop :=
  s.status ≠ .running ∧ ∃ fuel, r.advance p b fuel = s

theorem Ends.unique {s' : Run} (h : r.Ends p b s) (h' : r.Ends p b s') : s = s' := by
  obtain ⟨hs, n, hn⟩ := h
  obtain ⟨hs', n', hn'⟩ := h'
  have hmore : r.advance p b (n + n') = s := by
    rw [advance_add, hn, advance_of_ended hs]
  have hmore' : r.advance p b (n + n') = s' := by
    rw [Nat.add_comm, advance_add, hn', advance_of_ended hs']
  rw [← hmore, hmore']

end Run

/-- The run of `p` on the tape ends as `s`. -/
def Program.Ends (p : Program) (tape : Tape) (b : Budget) (s : Run) : Prop :=
  (Run.resume (.start tape)).Ends p b s

end TapeMachine
