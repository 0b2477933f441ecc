import TapeMachine.Proofs.Machine.Resume

/-! # Written spaces

A written space shows what a blank cell shows, and is another cell. As the operand of an
instruction it makes no difference (`Program.normalize_inert`): it is brought to normal form before
it is written or compared. On the tape it does make one: a jump compares the cell under the head as
it is. A run on a tape with written spaces is the run on the tape in normal form exactly as long as
no jump on blank meets one of them (`Program.run_ofCells_iff`). -/

namespace TapeMachine
set_option autoImplicit false

variable {p : Program} {b : Budget}

@[simp]
theorem Cell.normalize_normalize (x : Cell) : x.normalize.normalize = x.normalize :=
  normalize_ofChar x.toChar

theorem Cell.ofChar_ne_space (c : Char) : ofChar c ≠ mark ' ' :=
  normalize_eq_self_iff.1 (normalize_ofChar c)

theorem Cell.normalize_ne_space (x : Cell) : x.normalize ≠ mark ' ' :=
  ofChar_ne_space x.toChar

theorem Cell.map_normalize_eq_self_iff {cells : Array Cell} :
    cells.map normalize = cells ↔ mark ' ' ∉ cells := by
  have hid : cells.map normalize = cells ↔ cells.map normalize = cells.map id := by
    rw [Array.map_id]
  rw [hid, Array.map_inj_left]
  constructor
  · intro h hmem
    exact normalize_eq_self_iff.1 (h _ hmem) rfl
  · intro h x hx
    refine normalize_eq_self_iff.2 ?_
    rintro rfl
    exact h hx

/-- What commutes with every step of a run commutes with the run. -/
theorem Run.map_advance {f : Run → Run} {q : Program} {r : Run} {n : Nat}
    (h : ∀ k < n, f ((r.advance p b k).step p b) = (f (r.advance p b k)).step q b) :
    f (r.advance p b n) = (f r).advance q b n := by
  induction n with
  | zero => rfl
  | succ n ih =>
    rw [advance_succ_last, advance_succ_last, h n (Nat.lt_succ_self n),
      ih fun k hk => h k (Nat.lt_succ_of_lt hk)]

/-! ## Programs in normal form -/

/-- The instruction with its operand in normal form. -/
def Instruction.normalize : Instruction → Instruction
  | set value => set value.normalize
  | jump value target => jump value.normalize target
  | i => i

/-- The program with all operands in normal form. -/
def Program.normalize (p : Program) : Program :=
  ofList (p.toList.map Instruction.normalize)

def Action.normalize : Action → Action
  | perform i => perform i.normalize
  | a => a

def Event.normalizeOperand : Event → Event
  | dispatch steps pc head i => dispatch steps pc head i.normalize
  | e => e

/-- The run with the operands of the instructions that it dispatched in normal form. -/
def Run.normalizeOperands (r : Run) : Run :=
  { r with events := r.events.map Event.normalizeOperand }

namespace Instruction

variable (i : Instruction)

@[simp]
theorem isComputational_normalize : i.normalize.isComputational = i.isComputational := by
  cases i <;> rfl

theorem spelling_normalize : i.normalize.spelling = i.spelling := by
  cases i <;> simp [normalize, spelling, opcode, arguments]

theorem text_normalize : i.normalize.text = i.text := by
  rw [text, text, spelling_normalize]

end Instruction

theorem Program.get?_normalize (p : Program) (address : Nat) :
    p.normalize.get? address = (p.get? address).map Instruction.normalize := by
  rw [get?_eq_getElem?, get?_eq_getElem?, normalize, toList_ofList, List.getElem?_map]

namespace Machine

theorem action_program_normalize (m : Machine) :
    m.action p.normalize b = (m.action p b).normalize := by
  rw [action, action, Program.get?_normalize]
  cases p.get? m.pc with
  | none => rfl
  | some i =>
    simp only [Option.map_some, Instruction.isComputational_normalize]
    split
    · split <;> rfl
    · rfl

theorem charge_instruction_normalize (m : Machine) (i : Instruction) :
    m.charge i.normalize = m.charge i := by
  rw [charge, charge, Instruction.isComputational_normalize]

theorem perform_instruction_normalize (m : Machine) (i : Instruction) :
    m.perform i.normalize = m.perform i := by
  rw [perform, perform, charge_instruction_normalize]
  cases i with
  | set value => simp [Instruction.normalize, apply, Tape.write]
  | jump value target => simp [Instruction.normalize, apply]
  | right | left | debug => rfl

end Machine

namespace Event

@[simp]
theorem snapshot?_normalizeOperand (e : Event) : e.normalizeOperand.snapshot? = e.snapshot? := by
  cases e <;> rfl

@[simp]
theorem record?_normalizeOperand (e : Event) : e.normalizeOperand.record? = e.record? := by
  cases e with
  | dispatch steps pc head i => rw [normalizeOperand, record?, record?, i.text_normalize]
  | trace | halt | refuse => rfl

end Event

namespace Run

theorem eventsOf_instruction_normalize (m : Machine) (i : Instruction) :
    eventsOf m i.normalize = (eventsOf m i).map Event.normalizeOperand := by
  cases i <;> rfl

theorem step_normalizeOperands (p : Program) (b : Budget) (r : Run) :
    (r.step p b).normalizeOperands = r.normalizeOperands.step p.normalize b := by
  have haction := r.machine.action_program_normalize (p := p) (b := b)
  obtain ⟨hr, hs⟩ | ⟨hr, i, hi, hs⟩ | ⟨hr, hi, hs⟩ | ⟨hr, e, he, hs⟩ := step_cases p b r
  · rw [hs, step_of_ended (r := r.normalizeOperands) hr]
  · rw [hi] at haction
    rw [hs, step_of_perform (r := r.normalizeOperands) hr haction]
    simp [normalizeOperands, Machine.perform_instruction_normalize,
      Machine.charge_instruction_normalize, eventsOf_instruction_normalize, ← Array.toList_inj]
  · rw [hi] at haction
    rw [hs, step_of_halt (r := r.normalizeOperands) hr haction]
    simp [normalizeOperands, Event.normalizeOperand]
  · rw [he] at haction
    rw [hs, step_of_refuse (r := r.normalizeOperands) hr haction]
    simp [normalizeOperands, Event.normalizeOperand]

theorem normalizeOperands_resume (m : Machine) : (resume m).normalizeOperands = resume m := by
  simp [normalizeOperands, resume]

theorem snapshots_normalizeOperands (r : Run) : r.normalizeOperands.snapshots = r.snapshots := by
  simp [snapshots, normalizeOperands, List.filterMap_map]

theorem records_normalizeOperands (r : Run) : r.normalizeOperands.records = r.records := by
  simp [records, normalizeOperands, List.filterMap_map]

end Run

theorem Program.run_normalize (p : Program) (tape : Tape) (b : Budget) (n : Nat) :
    p.normalize.run tape b n = (p.run tape b n).normalizeOperands := by
  have hmap := Run.map_advance (r := .resume (.start tape)) (n := n)
    fun _ _ => Run.step_normalizeOperands p b _
  rw [Run.normalizeOperands_resume] at hmap
  exact hmap.symm

/-! ## Tapes in normal form -/

/-- The tape with its cells in normal form. -/
def Tape.normalize (t : Tape) : Tape :=
  { t with cells := t.cells.map Cell.normalize }

def Machine.normalize (m : Machine) : Machine :=
  { m with tape := m.tape.normalize }

def Snapshot.normalize (s : Snapshot) : Snapshot :=
  { s with cells := s.cells.map Cell.normalize }

def Event.normalizeCells : Event → Event
  | trace s => trace s.normalize
  | e => e

/-- The run with all cells that it holds and has shown in normal form. -/
def Run.normalizeCells (r : Run) : Run :=
  { r with machine := r.machine.normalize, events := r.events.map Event.normalizeCells }

namespace Tape

variable (t : Tape)

theorem ofCells_eq_normalize (cells : List Cell) : ofCells cells = (holding cells).normalize := by
  simp [ofCells, holding, normalize]

theorem normalize_eq_self_iff {t : Tape} : t.normalize = t ↔ Cell.mark ' ' ∉ t.cells := by
  rw [← Cell.map_normalize_eq_self_iff]
  exact ⟨congrArg cells, fun h => by rw [normalize, h]⟩

@[simp]
theorem size_normalize : t.normalize.size = t.size :=
  Array.size_map

@[simp]
theorem render_normalize : t.normalize.render = t.render := by
  have hchar : Cell.toChar ∘ Cell.normalize = Cell.toChar := funext Cell.toChar_normalize
  simp [render, chars, normalize, hchar]

theorem read_normalize : t.normalize.read = t.read.normalize := by
  rw [read, read, get_eq, get_eq, normalize, Array.getElem?_map]
  cases t.cells[t.head]? <;> rfl

theorem write_normalize (x : Cell) : t.normalize.write x = (t.write x).normalize := by
  simp [write, normalize, Array.rightpad, Array.map_setIfInBounds]

theorem moveLeft_normalize : t.normalize.moveLeft = t.moveLeft.normalize := by
  obtain ⟨cells, head⟩ := t
  cases head with
  | zero => simp [moveLeft, normalize]
  | succ n => rfl

end Tape

@[simp]
theorem Event.snapshot?_normalizeCells (e : Event) :
    e.normalizeCells.snapshot? = e.snapshot?.map Snapshot.normalize := by
  cases e <;> rfl

namespace Machine

variable {m : Machine} {i : Instruction}

theorem charge_normalize (m : Machine) (i : Instruction) :
    (m.charge i).normalize = m.normalize.charge i := rfl

/-- A jump on blank meets a written space, and does not go where it would go from a blank cell. -/
def Misreads (m : Machine) (i : Instruction) : Prop :=
  ∃ value target, i = .jump value target ∧ value.normalize = .blank ∧
    m.tape.read = .mark ' ' ∧ target ≠ m.pc + 1

/-- Performing an instruction sees the normal form of the tape exactly when it misreads nothing. -/
theorem perform_normalize_iff :
    (m.perform i).normalize = m.normalize.perform i ↔ ¬ m.Misreads i := by
  cases i with
  | set value =>
    refine iff_of_true ?_ (by simp [Misreads])
    simp [perform, charge, apply, normalize, Tape.write_normalize]
  | right =>
    refine iff_of_true ?_ (by simp [Misreads])
    rfl
  | left =>
    refine iff_of_true ?_ (by simp [Misreads])
    simp [perform, charge, apply, normalize, Tape.moveLeft_normalize]
  | debug =>
    refine iff_of_true ?_ (by simp [Misreads])
    rfl
  | jump value target =>
    have hpc : (m.perform (.jump value target)).normalize =
          m.normalize.perform (.jump value target) ↔
        (if m.tape.read = value.normalize then target else m.pc + 1) =
          if m.tape.read.normalize = value.normalize then target else m.pc + 1 := by
      rw [← Tape.read_normalize]
      exact ⟨congrArg pc,
        congrArg fun n => { (m.charge (.jump value target)).normalize with pc := n }⟩
    rw [hpc]
    -- The two comparisons differ only if the cell is a written space and the operand is blank.
    by_cases hread : m.tape.read = .mark ' '
    · have hne : Cell.mark ' ' ≠ value.normalize := value.normalize_ne_space.symm
      have hblank : (Cell.mark ' ').normalize = .blank := rfl
      rw [hread, if_neg hne, hblank]
      by_cases hvalue : value.normalize = .blank
      · simp [Misreads, hread, hvalue, eq_comm]
      · simp [Misreads, hvalue, Ne.symm hvalue]
    · rw [Cell.normalize_eq_self_iff.2 hread]
      simp [Misreads, hread]

end Machine

namespace Run

variable {r : Run}

theorem eventsOf_normalize (m : Machine) (i : Instruction) :
    eventsOf m.normalize i = (eventsOf m i).map Event.normalizeCells := by
  cases i <;> rfl

/-- The run goes on to an instruction that misreads the tape. -/
def Misreads (p : Program) (b : Budget) (r : Run) : Prop :=
  r.status = .running ∧ ∃ i, r.machine.action p b = .perform i ∧ r.machine.Misreads i

theorem step_normalizeCells_iff :
    (r.step p b).normalizeCells = r.normalizeCells.step p b ↔ ¬ r.Misreads p b := by
  obtain ⟨hr, hs⟩ | ⟨hr, i, hi, hs⟩ | ⟨hr, hi, hs⟩ | ⟨hr, e, he, hs⟩ := step_cases p b r
  · refine iff_of_true ?_ fun h => hr h.1
    rw [hs, step_of_ended (r := r.normalizeCells) hr]
  · have hevents : (r.events ++ eventsOf (r.machine.charge i) i).map Event.normalizeCells =
        r.normalizeCells.events ++ eventsOf (r.normalizeCells.machine.charge i) i := by
      simp [normalizeCells, ← eventsOf_normalize, ← Machine.charge_normalize, ← Array.toList_inj]
    have hmisreads : r.Misreads p b ↔ r.machine.Misreads i := by
      simp [Misreads, hr, hi]
    rw [hs, step_of_perform (r := r.normalizeCells) hr hi, hmisreads,
      ← Machine.perform_normalize_iff, ← hevents]
    simp [normalizeCells]
  · refine iff_of_true ?_ ?_
    · rw [hs, step_of_halt (r := r.normalizeCells) hr hi]
      simp [normalizeCells, Event.normalizeCells, Machine.normalize]
    · simp [Misreads, hi]
  · refine iff_of_true ?_ ?_
    · rw [hs, step_of_refuse (r := r.normalizeCells) hr he]
      simp [normalizeCells, Event.normalizeCells]
    · simp [Misreads, he]

theorem normalizeCells_resume (m : Machine) :
    (resume m).normalizeCells = resume m.normalize := by
  simp [normalizeCells, resume]

theorem result?_normalizeCells (r : Run) : r.normalizeCells.result? = r.result? := by
  obtain ⟨m, events, status⟩ := r
  cases status <;> simp [normalizeCells, result?, Machine.normalize]

theorem snapshots_normalizeCells (r : Run) :
    r.normalizeCells.snapshots = r.snapshots.map Snapshot.normalize := by
  simp [snapshots, normalizeCells, List.filterMap_map, List.map_filterMap]

end Run

theorem Program.run_succ (p : Program) (tape : Tape) (b : Budget) (n : Nat) :
    p.run tape b (n + 1) = (p.run tape b n).step p b :=
  Run.advance_succ_last ..

/-- Up to the first misread cell, the run on the cells as they are is the run on their normal forms,
and it parts from it there. A run that misreads nothing has the same result. -/
theorem Program.run_ofCells_iff (p : Program) (cells : List Cell) (budget : Nat) :
    let raw := p.run (.holding cells) (.ofNat budget)
    let normal := p.run (.ofCells cells) (.ofNat budget)
    (∀ n, (∀ k ≤ n, normal k = (raw k).normalizeCells) ↔
      ∀ k < n, ¬ (raw k).Misreads p (.ofNat budget)) ∧
    ((∀ n, ¬ (raw n).Misreads p (.ofNat budget)) → ∀ n, (normal n).result? = (raw n).result?) := by
  intro raw normal
  have hstart : Run.resume (.start (.ofCells cells)) =
      (Run.resume (.start (.holding cells))).normalizeCells := by
    rw [Run.normalizeCells_resume, Tape.ofCells_eq_normalize]
    rfl
  have hsame : ∀ n, (∀ k < n, ¬ (raw k).Misreads p (.ofNat budget)) →
      normal n = (raw n).normalizeCells := by
    intro n h
    have hmap := Run.map_advance fun k hk => Run.step_normalizeCells_iff.2 (h k hk)
    rw [← hstart] at hmap
    exact hmap.symm
  refine ⟨fun n => ⟨?_, ?_⟩, ?_⟩
  · intro h k hk
    have hnow := h k (Nat.le_of_lt hk)
    have hnext := h (k + 1) hk
    have hraw : raw (k + 1) = (raw k).step p (.ofNat budget) := run_succ ..
    have hnormal : normal (k + 1) = (normal k).step p (.ofNat budget) := run_succ ..
    rw [← Run.step_normalizeCells_iff, ← hnow, ← hraw, ← hnormal, hnext]
  · intro h k hk
    exact hsame k fun j hj => h j (Nat.lt_of_lt_of_le hj hk)
  · intro h n
    rw [hsame n fun k _ => h k, Run.result?_normalizeCells]

/-- A jump on blank does not see a written space: the run on the cell as it is writes a letter, the
run on the normal form of the cell jumps over that. -/
theorem Program.run_holding_ne_ofCells :
    let p := ofList [.jump .blank 2, .set (.mark 'n')]
    let cells := [Cell.mark ' ']
    (p.run (.holding cells) (.ofNat 0) 3).result? = some (.ok "n") ∧
      (p.run (.ofCells cells) (.ofNat 0) 2).result? = some (.ok "") := by
  decide

/-! ## Tapes without written spaces -/

namespace Run

variable {r : Run}

/-- No written space is on the tape or was shown. -/
def IsNormal (r : Run) : Prop :=
  r.normalizeCells = r

theorem isNormal_resume {m : Machine} (h : m.normalize = m) : (resume m).IsNormal := by
  rw [IsNormal, normalizeCells_resume, h]

theorem IsNormal.machine_eq (h : r.IsNormal) : r.machine.normalize = r.machine :=
  congrArg machine h

theorem IsNormal.not_misreads (h : r.IsNormal) : ¬ r.Misreads p b := by
  rintro ⟨-, i, -, value, target, -, -, hread, -⟩
  have htape : r.machine.tape.normalize = r.machine.tape := congrArg Machine.tape h.machine_eq
  rw [← htape, Tape.read_normalize] at hread
  exact Cell.normalize_ne_space _ hread

theorem IsNormal.step (h : r.IsNormal) : (r.step p b).IsNormal := by
  have hstep := step_normalizeCells_iff.2 (h.not_misreads (p := p) (b := b))
  rw [h] at hstep
  exact hstep

theorem IsNormal.advance (h : r.IsNormal) (n : Nat) : (r.advance p b n).IsNormal :=
  advance_invariant (fun _ hr => hr.step) h n

theorem IsNormal.not_mem_tape (h : r.IsNormal) : Cell.mark ' ' ∉ r.machine.tape.cells :=
  Tape.normalize_eq_self_iff.1 (congrArg Machine.tape h.machine_eq)

theorem IsNormal.not_mem_snapshot (h : r.IsNormal) {s : Snapshot} (hs : s ∈ r.snapshots) :
    Cell.mark ' ' ∉ s.cells := by
  have hmap : r.snapshots.map Snapshot.normalize = r.snapshots.map id := by
    rw [← snapshots_normalizeCells, h, List.map_id]
  have hsame : s.normalize = s := List.map_inj_left.1 hmap s hs
  exact Cell.map_normalize_eq_self_iff.1 (congrArg Snapshot.cells hsame)

end Run

theorem Session.isNormal {m m' : Machine} {ns : List Nat} {ss : List Run}
    (h : Session p m ns ss m') (hm : m.normalize = m) :
    (∀ s ∈ ss, s.IsNormal) ∧ m'.normalize = m' := by
  induction h with
  | nil m => exact ⟨by simp, hm⟩
  | @cons m m' n ns s ss first rest ih =>
    obtain ⟨-, k, rfl⟩ := first
    have hfirst := (Run.isNormal_resume hm).advance (p := p) (b := .ofNat n) k
    obtain ⟨hall, hlast⟩ := ih hfirst.machine_eq
    exact ⟨List.forall_mem_cons.2 ⟨hfirst, hall⟩, hlast⟩

/-- A program and the program with its operands in normal form go through the same machines, show
the same snapshots, log the same and have the same result. On a tape without written spaces, as the
empty one and those made of normal forms or of a text, no session ever comes to a written space, on
the tape or in a snapshot. -/
theorem Program.normalize_inert (p : Program) (tape : Tape) :
    (∀ budget n,
      let r := p.run tape (.ofNat budget) n
      let s := p.normalize.run tape (.ofNat budget) n
      s.machine = r.machine ∧ s.snapshots = r.snapshots ∧ s.records = r.records ∧
        s.result? = r.result?) ∧
    (Cell.mark ' ' ∉ tape.cells → ∀ budgets runs m, Session p (.start tape) budgets runs m →
      ∀ budget n,
        let r := (Run.resume m).advance p (.ofNat budget) n
        Cell.mark ' ' ∉ r.machine.tape.cells ∧
          ∀ s ∈ runs.flatMap Run.snapshots ++ r.snapshots, Cell.mark ' ' ∉ s.cells) ∧
    Cell.mark ' ' ∉ Tape.empty.cells ∧ (∀ cells, Cell.mark ' ' ∉ (Tape.ofCells cells).cells) ∧
      ∀ text, Cell.mark ' ' ∉ (Tape.ofString text).cells := by
  refine ⟨?_, ?_, ?_, ?_, ?_⟩
  · intro budget n r s
    have hs : s = r.normalizeOperands := p.run_normalize tape (.ofNat budget) n
    rw [hs]
    exact ⟨rfl, r.snapshots_normalizeOperands, r.records_normalizeOperands, rfl⟩
  · intro htape budgets runs m hsession budget n r
    have hstart : (Machine.start tape).normalize = .start tape := by
      rw [Machine.normalize, Machine.start, Tape.normalize_eq_self_iff.2 htape]
    obtain ⟨hruns, hm⟩ := hsession.isNormal hstart
    have hr : r.IsNormal := (Run.isNormal_resume hm).advance n
    refine ⟨hr.not_mem_tape, ?_⟩
    intro s hs
    obtain hs | hs := List.mem_append.1 hs
    · obtain ⟨u, hu, hs⟩ := List.mem_flatMap.1 hs
      exact (hruns u hu).not_mem_snapshot hs
    · exact hr.not_mem_snapshot hs
  · simp [Tape.empty]
  · intro cells h
    obtain ⟨x, -, hx⟩ := List.mem_map.1 (List.mem_toArray.1 h)
    exact x.normalize_ne_space hx
  · intro text h
    obtain ⟨c, -, hc⟩ := List.mem_map.1 (List.mem_toArray.1 h)
    exact Cell.ofChar_ne_space c hc

/-- A written space is put on the tape, shown and compared; what is shown is a blank cell. -/
theorem Program.normalize_inert_written_space :
    let p := ofList [.set (.mark ' '), .debug, .jump (.mark ' ') 9]
    let tape := Tape.ofString "x"
    p.normalize ≠ p ∧ Cell.mark ' ' ∉ tape.cells ∧
      ∃ runs m, Session p (.start tape) [1, 0] runs m ∧
        runs.flatMap Run.snapshots = [⟨#[.blank], 0, 2⟩] ∧ m.pc = 9 ∧
        ∀ s ∈ runs.flatMap Run.snapshots, Cell.mark ' ' ∉ s.cells := by
  intro p tape
  let first := (Run.resume (.start tape)).advance p (.ofNat 1) 3
  let second := (Run.resume first.machine).advance p (.ofNat 0) 2
  have hfirst : (Run.resume (.start tape)).Ends p (.ofNat 1) first := ⟨by decide, 3, rfl⟩
  have hsecond : (Run.resume first.machine).Ends p (.ofNat 0) second := ⟨by decide, 2, rfl⟩
  have h : Session p (.start tape) [1, 0] [first, second] second.machine :=
    .cons hfirst (.cons hsecond (.nil _))
  have htape : Cell.mark ' ' ∉ tape.cells := (normalize_inert p tape).2.2.2.2 "x"
  obtain ⟨-, hclean⟩ := (normalize_inert p tape).2.1 htape _ _ _ h 0 0
  refine ⟨by decide, htape, _, _, h, by decide, by decide, ?_⟩
  intro s hs
  exact hclean s (List.mem_append_left _ hs)

end TapeMachine
