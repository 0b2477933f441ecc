import TapeMachine.Proofs.Machine.Debug
import TapeMachine.Proofs.Machine.Normal

/-! # Targets past the end

All addresses past the end of a program are alike: a machine that comes to one of them halts. So the
targets of the jumps may be cut off at any limit that does not lie inside of the program. The run is
then the run with its address cut off (`Program.run_cutOff`), and only a halted machine has an
address that this changes. -/

namespace TapeMachine
set_option autoImplicit false

variable {p : Program} {b : Budget} {limit : Nat}

def Instruction.cutOff (limit : Nat) (i : Instruction) : Instruction :=
  i.retarget (min · limit)

/-- The program with no jump target above the limit. -/
def Program.cutOff (limit : Nat) (p : Program) : Program :=
  ofList (p.toList.map (Instruction.cutOff limit))

def Action.cutOff (limit : Nat) : Action → Action
  | perform i => perform (i.cutOff limit)
  | a => a

def Machine.cutOff (limit : Nat) (m : Machine) : Machine :=
  { m with pc := min m.pc limit }

def Event.cutOff (limit : Nat) : Event → Event
  | dispatch steps pc head i => dispatch steps pc head (i.cutOff limit)
  | halt pc steps size => halt (min pc limit) steps size
  | e => e

/-- The run with the address of its machine and the targets of its jumps cut off. -/
def Run.cutOff (limit : Nat) (r : Run) : Run :=
  { r with machine := r.machine.cutOff limit, events := r.events.map (Event.cutOff limit) }

theorem Instruction.isComputational_cutOff (limit : Nat) (i : Instruction) :
    (i.cutOff limit).isComputational = i.isComputational :=
  i.isComputational_retarget _

theorem Program.size_cutOff (limit : Nat) (p : Program) : (p.cutOff limit).size = p.size := by
  rw [size_eq_length, size_eq_length, cutOff, toList_ofList, List.length_map]

/-- An address that is cut off was past the end before and still is. -/
theorem Program.get?_cutOff (h : p.size ≤ limit) (address : Nat) :
    (p.cutOff limit).get? (min address limit) =
      (p.get? address).map (Instruction.cutOff limit) := by
  by_cases hin : address < p.size
  · have hmin : min address limit = address := by omega
    rw [hmin, get?_eq_getElem?, get?_eq_getElem?, cutOff, toList_ofList, List.getElem?_map]
  · have hpast : (p.cutOff limit).size ≤ min address limit := by
      rw [size_cutOff]
      omega
    rw [get?_eq_none_iff.2 hpast, get?_eq_none_iff.2 (Nat.le_of_not_lt hin)]
    rfl

@[simp]
theorem Event.snapshot?_cutOff (limit : Nat) (e : Event) :
    (e.cutOff limit).snapshot? = e.snapshot? := by
  cases e <;> rfl

/-! ## One step -/

namespace Machine

variable {m : Machine}

theorem cutOff_of_le (h : m.pc ≤ limit) : m.cutOff limit = m := by
  rw [cutOff, Nat.min_eq_left h]

theorem action_cutOff (h : p.size ≤ limit) (m : Machine) :
    (m.cutOff limit).action (p.cutOff limit) b = (m.action p b).cutOff limit := by
  have hget := Program.get?_cutOff h m.pc
  cases hi : p.get? m.pc with
  | none =>
    rw [hi] at hget
    have haction : m.action p b = .halt := by
      rw [action_eq_halt_iff, ← Program.get?_eq_none_iff]
      exact hi
    rw [haction]
    show _ = Action.halt
    rw [action_eq_halt_iff, ← Program.get?_eq_none_iff]
    exact hget
  | some i =>
    have hlt := Program.lt_size_of_get? hi
    have hle : m.pc ≤ limit := by omega
    rw [hi, Nat.min_eq_left hle] at hget
    rw [cutOff_of_le hle, action, action, hi, hget]
    simp only [Option.map_some, Instruction.isComputational_cutOff]
    split
    · split <;> rfl
    · rfl

theorem charge_cutOff (m : Machine) (i : Instruction) : m.charge (i.cutOff limit) = m.charge i := by
  rw [charge, charge, Instruction.isComputational_cutOff]

theorem apply_cutOff (h : m.pc < limit) (i : Instruction) :
    m.apply (i.cutOff limit) = (m.apply i).cutOff limit := by
  cases i with
  | set | right | left | debug => exact (cutOff_of_le h).symm
  | jump value target =>
    have hnext : m.pc + 1 = min (m.pc + 1) limit := by omega
    simp only [Instruction.cutOff, Instruction.retarget, apply, cutOff]
    by_cases hread : m.tape.read = value.normalize
    · rw [if_pos hread, if_pos hread]
    · rw [if_neg hread, if_neg hread, ← hnext]

theorem perform_cutOff (h : m.pc < limit) (i : Instruction) :
    m.perform (i.cutOff limit) = (m.perform i).cutOff limit := by
  rw [perform, perform, charge_cutOff, apply_cutOff (m := m.charge i) h]

end Machine

namespace Run

theorem eventsOf_cutOff (m : Machine) (i : Instruction) :
    eventsOf m (i.cutOff limit) = (eventsOf m i).map (Event.cutOff limit) := by
  cases i <;> rfl

theorem step_cutOff (h : p.size ≤ limit) (r : Run) :
    (r.step p b).cutOff limit = (r.cutOff limit).step (p.cutOff limit) b := by
  have haction := r.machine.action_cutOff (b := b) h
  obtain ⟨hr, hs⟩ | ⟨hr, i, hi, hs⟩ | ⟨hr, hi, hs⟩ | ⟨hr, e, he, hs⟩ := step_cases p b r
  · rw [hs, step_of_ended (r := r.cutOff limit) hr]
  · -- The machine is inside of the program, where nothing is cut off.
    have hlt := Program.lt_size_of_get? (Machine.get?_of_action hi)
    have hpc : r.machine.pc < limit := by omega
    have hsame : (r.cutOff limit).machine = r.machine := Machine.cutOff_of_le (Nat.le_of_lt hpc)
    rw [hi] at haction
    rw [hs, step_of_perform (r := r.cutOff limit) hr haction, hsame, Machine.perform_cutOff hpc,
      Machine.charge_cutOff, eventsOf_cutOff]
    simp [cutOff, ← Array.toList_inj]
  · rw [hi] at haction
    rw [hs, step_of_halt (r := r.cutOff limit) hr haction]
    simp [cutOff, Machine.cutOff, Event.cutOff]
  · rw [he] at haction
    rw [hs, step_of_refuse (r := r.cutOff limit) hr haction]
    simp [cutOff, Event.cutOff]

theorem cutOff_resume (m : Machine) :
    (resume m).cutOff limit = resume (m.cutOff limit) := by
  simp [cutOff, resume]

theorem result?_cutOff (r : Run) : (r.cutOff limit).result? = r.result? := rfl

theorem snapshots_cutOff (r : Run) : (r.cutOff limit).snapshots = r.snapshots := by
  simp [snapshots, cutOff, List.filterMap_map]

end Run

/-! ## Whole runs -/

/-- With its targets cut off at or past its end, a program runs as before, and the address of a
machine that has left the program is cut off as well. -/
theorem Program.run_cutOff (h : p.size ≤ limit) (tape : Tape) (b : Budget) (n : Nat) :
    (p.cutOff limit).run tape b n = (p.run tape b n).cutOff limit := by
  have hmap := Run.map_advance (r := .resume (.start tape)) (n := n)
    fun _ _ => Run.step_cutOff (b := b) h _
  have hstart : (Machine.start tape).cutOff limit = .start tape :=
    Machine.cutOff_of_le (Nat.zero_le limit)
  rw [Run.cutOff_resume, hstart] at hmap
  exact hmap.symm

end TapeMachine
