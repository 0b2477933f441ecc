import TapeMachine.Proofs.Machine.Resume
import TapeMachine.Proofs.Machine.Skip

/-! # Programs without `debug`

A `debug` instruction only shows the tape. Without its `debug` instructions, and with its jump
targets moved to where their instructions have moved, a program computes the same: its run is the
run of the full program without the idle steps at `debug`. -/

namespace TapeMachine
set_option autoImplicit false

/-- The instruction with another jump target. -/
def Instruction.retarget (f : Nat → Nat) : Instruction → Instruction
  | jump value target => jump value (f target)
  | i => i

theorem Instruction.isComputational_retarget (f : Nat → Nat) (i : Instruction) :
    (i.retarget f).isComputational = i.isComputational := by
  cases i <;> rfl

namespace Program

/-- The number of instructions below an address that are not `debug`. -/
def below (p : Program) (address : Nat) : Nat :=
  rank Instruction.isComputational p.toList address

/-- The program without its `debug` instructions, jumps following what they lead to. -/
def strip (p : Program) : Program :=
  ofList ((p.toList.filter Instruction.isComputational).map (·.retarget p.below))

variable {p : Program} {address : Nat} {i : Instruction}

theorem size_strip (p : Program) :
    p.strip.size = (p.toList.filter Instruction.isComputational).length := by
  rw [size_eq_length, strip, toList_ofList, List.length_map]

theorem get?_strip_of_none (h : p.get? address = none) : p.strip.get? (p.below address) = none := by
  rw [get?_eq_none_iff, size_eq_length] at h
  rw [get?_eq_none_iff, size_strip]
  exact Nat.le_of_eq (rank_of_length_le h).symm

theorem get?_strip_of_some (h : p.get? address = some i) (hi : i.isComputational = true) :
    p.strip.get? (p.below address) = some (i.retarget p.below) := by
  rw [get?_eq_getElem?] at h
  rw [get?_eq_getElem?, strip, toList_ofList, List.getElem?_map, below,
    getElem?_filter_rank h hi]
  rfl

theorem below_succ (h : p.get? address = some i) :
    p.below (address + 1) = p.below address + if i.isComputational then 1 else 0 := by
  rw [get?_eq_getElem?] at h
  exact rank_succ h

end Program

/-! ## One step -/

/-- The status of a run whose addresses have moved. -/
def Status.relocate (f : Nat → Nat) : Status → Status
  | running => running
  | halted => halted
  | refused e => refused ⟨e.budget, f e.address⟩

theorem Status.relocate_eq_running {f : Nat → Nat} {st : Status} :
    st.relocate f = running ↔ st = running := by
  cases st <;> simp [relocate]

/-- The run `s` of the stripped program is where the run `r` of the program is. -/
structure Mirrors (p : Program) (r s : Run) : Prop where
  tape : s.machine.tape = r.machine.tape
  steps : s.machine.steps = r.machine.steps
  pc : s.machine.pc = p.below r.machine.pc
  status : s.status = r.status.relocate p.below

namespace Mirrors

variable {p : Program} {b : Budget} {r s : Run} {i : Instruction}

theorem running_iff (h : Mirrors p r s) : r.status = .running ↔ s.status = .running := by
  rw [h.status, Status.relocate_eq_running]

theorem spent? (h : Mirrors p r s) :
    s.machine.spent? b =
      (r.machine.spent? b).map fun e => ⟨e.budget, p.below e.address⟩ := by
  cases b with
  | unlimited => rfl
  | atMost n =>
    rw [Machine.spent?_atMost, Machine.spent?_atMost, h.steps, h.pc]
    split <;> rfl

/-- Performing an instruction and performing its counterpart lead to the same tape and to addresses
that correspond. -/
theorem perform (h : Mirrors p r s) (hi : p.get? r.machine.pc = some i)
    (hc : i.isComputational = true) :
    (s.machine.perform (i.retarget p.below)).tape = (r.machine.perform i).tape ∧
      (s.machine.perform (i.retarget p.below)).pc = p.below (r.machine.perform i).pc := by
  have hnext : p.below (r.machine.pc + 1) = s.machine.pc + 1 := by
    rw [Program.below_succ hi, if_pos hc, h.pc]
  cases i with
  | set value => exact ⟨congrArg (·.write value) h.tape, hnext.symm⟩
  | right => exact ⟨congrArg Tape.moveRight h.tape, hnext.symm⟩
  | left => exact ⟨congrArg Tape.moveLeft h.tape, hnext.symm⟩
  | debug => cases hc
  | jump value target =>
    refine ⟨h.tape, ?_⟩
    rw [Instruction.retarget, Machine.perform_jump_pc, Machine.perform_jump_pc, h.tape]
    by_cases hread : r.machine.tape.read = value.normalize
    · rw [if_pos hread, if_pos hread]
    · rw [if_neg hread, if_neg hread, hnext]

theorem step_debug (h : Mirrors p r s) (hr : r.status = .running)
    (hi : p.get? r.machine.pc = some .debug) : Mirrors p (r.step p b) s := by
  rw [Run.step_of_perform hr (Machine.action_debug hi)]
  refine ⟨h.tape, h.steps, ?_, ?_⟩
  · have hnext := Program.below_succ hi
    rw [h.pc]
    exact hnext.symm
  · rw [h.status, hr]

theorem step_computational (h : Mirrors p r s) (hr : r.status = .running)
    (hi : p.get? r.machine.pc = some i) (hc : i.isComputational = true) :
    Mirrors p (r.step p b) (s.step p.strip b) := by
  have hs := h.running_iff.1 hr
  have hi' := Program.get?_strip_of_some hi hc
  rw [← h.pc] at hi'
  have hc' := (i.isComputational_retarget p.below).trans hc
  have hspent := h.spent? (b := b)
  cases hb : r.machine.spent? b with
  | none =>
    rw [hb] at hspent
    rw [Run.step_of_perform hr (Machine.action_of_spent?_eq_none hi hb),
      Run.step_of_perform hs (Machine.action_of_spent?_eq_none hi' hspent)]
    obtain ⟨htape, hpc⟩ := h.perform hi hc
    refine ⟨htape, ?_, hpc, rfl⟩
    simp only [Machine.perform_steps_of_isComputational _ hc,
      Machine.perform_steps_of_isComputational _ hc', h.steps]
  | some e =>
    rw [hb] at hspent
    rw [Run.step_of_refuse hr (Machine.action_of_spent?_eq_some hi hc hb),
      Run.step_of_refuse hs (Machine.action_of_spent?_eq_some hi' hc' hspent)]
    exact ⟨h.tape, h.steps, h.pc, rfl⟩

theorem step_halt (h : Mirrors p r s) (hr : r.status = .running)
    (hi : p.get? r.machine.pc = none) : Mirrors p (r.step p b) (s.step p.strip b) := by
  have hs := h.running_iff.1 hr
  have hi' := Program.get?_strip_of_none hi
  rw [← h.pc] at hi'
  rw [Run.step_of_halt hr (Machine.action_eq_halt_iff.2 (Program.get?_eq_none_iff.1 hi)),
    Run.step_of_halt hs (Machine.action_eq_halt_iff.2 (Program.get?_eq_none_iff.1 hi'))]
  exact ⟨h.tape, h.steps, h.pc, rfl⟩

end Mirrors

theorem stutters_strip (p : Program) (b : Budget) :
    Stutters (Run.step p b) (Run.step p.strip b) (Mirrors p)
      (fun r => p.size - r.machine.pc) := by
  intro r s h
  by_cases hr : r.status = .running
  · cases hi : p.get? r.machine.pc with
    | none => exact .inl (h.step_halt hr hi)
    | some i =>
      cases hc : i.isComputational with
      | true => exact .inl (h.step_computational hr hi hc)
      | false =>
        rw [Instruction.isComputational_eq_false_iff] at hc
        subst hc
        refine .inr ⟨h.step_debug hr hi, ?_⟩
        -- A `debug` instruction moves the address towards the end of the program.
        have hlt := Program.lt_size_of_get? hi
        have hpc : (r.step p b).machine.pc = r.machine.pc + 1 := by
          rw [Run.step_of_perform hr (Machine.action_debug hi)]
          rfl
        show p.size - (r.step p b).machine.pc < p.size - r.machine.pc
        omega
  · have hs : s.status ≠ .running := fun hs => hr (h.running_iff.2 hs)
    rw [Run.step_of_ended hr, Run.step_of_ended hs]
    exact .inl h

/-! ## Whole runs -/

namespace Program

/-- A program and the program without its `debug` instructions both run on for ever, or both halt
with the same tape after the same number of steps, or both are refused by the budget, at addresses
that correspond. -/
theorem strip_inert (p : Program) (tape : Tape) (budget : Nat) :
    (¬ ∃ s, p.Ends tape (.ofNat budget) s) ∧ (¬ ∃ s', p.strip.Ends tape (.ofNat budget) s') ∨
    ∃ s s', p.Ends tape (.ofNat budget) s ∧ p.strip.Ends tape (.ofNat budget) s' ∧
      s'.machine.tape = s.machine.tape ∧ s'.machine.steps = s.machine.steps ∧
      ((∃ output, s.result? = some (.ok output) ∧ s'.result? = some (.ok output)) ∨
        ∃ address, s.result? = some (.error ⟨budget, address⟩) ∧
          s'.result? = some (.error ⟨budget, p.below address⟩)) := by
  have hstart : Mirrors p (.resume (.start tape)) (.resume (.start tape)) := ⟨rfl, rfl, rfl, rfl⟩
  have hdone : ∀ r s, Mirrors p r s → (r.status ≠ .running ↔ s.status ≠ .running) := by
    intro r s h
    exact not_congr h.running_iff
  have hrests := (stutters_strip p (.ofNat budget)).rests hdone hstart
  simp only [← Run.ends_iff_rests] at hrests
  obtain hnone | ⟨s, s', hs, hs', h⟩ := hrests
  · exact .inl hnone
  · refine .inr ⟨s, s', hs, hs', h.tape, h.steps, ?_⟩
    have hstatus := Ends.status_eq hs
    have hstatus' := h.status
    by_cases hhalted : s.machine.isHalted p
    · rw [if_pos hhalted] at hstatus
      rw [hstatus] at hstatus'
      refine .inl ⟨s.machine.tape.render, ?_, ?_⟩
      · rw [Run.result?, hstatus]
      · rw [Run.result?, hstatus', h.tape]
        rfl
    · rw [if_neg hhalted] at hstatus
      rw [hstatus] at hstatus'
      refine .inr ⟨s.machine.pc, ?_, ?_⟩
      · rw [Run.result?, hstatus]
      · rw [Run.result?, hstatus']
        rfl

example : (ofList [.debug, .jump .blank 3, .debug, .debug, .right]).strip =
    ofList [.jump .blank 1, .right] := by decide

end Program
end TapeMachine
