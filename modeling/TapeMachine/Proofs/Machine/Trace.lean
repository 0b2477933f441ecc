import TapeMachine.Proofs.Machine.Resume

/-! # What a trace tells

Every instruction that a machine dispatches is charged or shows a snapshot, and never both. So the
snapshots of a session account for the difference of the two counters, and the number that a
snapshot carries tells how many instructions came before it, of which kind, and what the machine
looked like then (`Session.trace_accounted`). Budgets, refusals and resumed runs play no part in
this: all that counts is the history of the machine. -/

namespace TapeMachine
set_option autoImplicit false

variable {p : Program} {b : Budget}

/-- An instruction is charged or shows a snapshot, and never both. -/
theorem Run.charged_or_shown (m : Machine) (i : Instruction) :
    let charged := (eventsOf m i).filterMap Event.charged?
    let shown := (eventsOf m i).filterMap Event.snapshot?
    charged.length = (if i.isComputational then 1 else 0) ∧
      shown.length + charged.length = 1 := by
  cases i <;> exact ⟨rfl, rfl⟩

/-! ## Histories -/

/-- What happens on the way from the machine `m` to another: instructions are performed, and runs
come to an end, which shows nothing and leaves the machine as it is. -/
inductive History (p : Program) (m : Machine) : List Event → Machine → Prop
  | nil : History p m [] m
  | perform {es : List Event} {m' : Machine} {i : Instruction} (past : History p m es m')
      (hi : p.get? m'.pc = some i) :
      History p m (es ++ Run.eventsOf (m'.charge i) i) (m'.perform i)
  | stop {es : List Event} {m' : Machine} {e : Event} (past : History p m es m')
      (hshown : e.snapshot? = none) (hcharged : e.charged? = none) : History p m (es ++ [e]) m'

namespace History

variable {m m' m'' : Machine} {es es' : List Event} {tape : Tape}

theorem trans (h : History p m es m') (h' : History p m' es' m'') :
    History p m (es ++ es') m'' := by
  induction h' with
  | nil =>
    rw [List.append_nil]
    exact h
  | perform _ hi ih =>
    rw [← List.append_assoc]
    exact .perform ih hi
  | stop _ hshown hcharged ih =>
    rw [← List.append_assoc]
    exact .stop ih hshown hcharged

theorem step {r : Run} (h : History p m r.events.toList r.machine) :
    History p m (r.step p b).events.toList (r.step p b).machine := by
  obtain ⟨-, hs⟩ | ⟨-, i, hi, hs⟩ | ⟨-, -, hs⟩ | ⟨-, e, -, hs⟩ := Run.step_cases p b r
  · rwa [hs]
  · rw [hs]
    simpa using h.perform (Machine.get?_of_action hi)
  · rw [hs]
    simpa using h.stop (e := .halt _ _ _) rfl rfl
  · rw [hs]
    simpa using h.stop (e := .refuse e) rfl rfl

theorem advance (p : Program) (b : Budget) (m : Machine) (n : Nat) :
    let r := (Run.resume m).advance p b n
    History p m r.events.toList r.machine :=
  Run.advance_invariant (P := fun r => History p m r.events.toList r.machine)
    (fun _ h => h.step) .nil n

/-! ## Counters -/

theorem counters (h : History p m es m') :
    m'.steps = m.steps + (es.filterMap Event.charged?).length ∧
    m'.dispatched = m.dispatched + (es.filterMap Event.snapshot?).length
      + (es.filterMap Event.charged?).length := by
  induction h with
  | nil => exact ⟨rfl, rfl⟩
  | @perform es m' i past hi ih =>
    obtain ⟨hcharged, honce⟩ := Run.charged_or_shown (m'.charge i) i
    rw [List.filterMap_append, List.filterMap_append, List.length_append, List.length_append,
      m'.perform_steps_eq_add, m'.perform_dispatched, ← hcharged]
    omega
  | stop past hshown hcharged ih =>
    simpa [hshown, hcharged] using ih

/-- The machine is the one that the unlimited run has after as many instructions. -/
theorem run_dispatched (h : History p (.start tape) es m) :
    (p.run tape .unlimited m.dispatched).status = .running ∧
      (p.run tape .unlimited m.dispatched).machine = m := by
  induction h with
  | nil => exact ⟨rfl, rfl⟩
  | @perform es m i past hi ih =>
    obtain ⟨hr, hm⟩ := ih
    rw [← hm] at hi
    have hi' := Machine.action_of_spent?_eq_none (b := .unlimited) hi (Machine.spent?_unlimited _)
    rw [m.perform_dispatched, Program.run, Run.advance_succ_last]
    rw [Program.run] at hr hm hi'
    rw [Run.step_of_perform hr hi', hm]
    exact ⟨rfl, rfl⟩
  | stop past hshown hcharged ih => exact ih

/-! ## Snapshots -/

theorem step_le_dispatched (h : History p m es m') :
    ∀ s ∈ es.filterMap Event.snapshot?, s.step ≤ m'.dispatched := by
  induction h with
  | nil => simp
  | @perform es m' i past hi ih =>
    intro s hs
    have hdispatched := m'.perform_dispatched i
    rw [List.filterMap_append, Run.filterMap_snapshot?_eventsOf, List.mem_append] at hs
    obtain hs | hs := hs
    · have hle := ih s hs
      omega
    · split at hs
      · rw [List.mem_singleton.1 hs]
        exact Nat.le_of_eq hdispatched.symm
      · cases hs
  | stop past hshown hcharged ih => simpa [hshown] using ih

theorem step_increasing (h : History p m es m') :
    (es.filterMap Event.snapshot?).Pairwise fun s t => s.step < t.step := by
  induction h with
  | nil => exact .nil
  | @perform es m' i past hi ih =>
    have hle := past.step_le_dispatched
    rw [List.filterMap_append, Run.filterMap_snapshot?_eventsOf, List.pairwise_append]
    split
    · refine ⟨ih, List.pairwise_singleton _ _, ?_⟩
      intro s hs t ht
      rw [List.mem_singleton.1 ht]
      exact Nat.lt_succ_of_le (hle s hs)
    · exact ⟨ih, .nil, by simp⟩
  | stop past hshown hcharged ih => simpa [hshown] using ih

/-- The snapshot `s`, with `k` others before it, is what a `debug` instruction showed in the course
of the events. -/
def ShownAt (p : Program) (m : Machine) (es : List Event) (k : Nat) (s : Snapshot) : Prop :=
  ∃ past mid, History p m past mid ∧ p.get? mid.pc = some .debug ∧
    (past.filterMap Event.snapshot?).length = k ∧ s = (mid.charge .debug).snapshot ∧
    past ++ Run.eventsOf (mid.charge .debug) .debug <+: es

theorem ShownAt.append {k : Nat} {s : Snapshot} (h : ShownAt p m es k s) (more : List Event) :
    ShownAt p m (es ++ more) k s := by
  obtain ⟨past, mid, hpast, hdebug, hlength, hs, hprefix⟩ := h
  exact ⟨past, mid, hpast, hdebug, hlength, hs, hprefix.trans (List.prefix_append es more)⟩

theorem shownAt (h : History p m es m') {k : Nat} {s : Snapshot}
    (hk : (es.filterMap Event.snapshot?)[k]? = some s) : ShownAt p m es k s := by
  induction h with
  | nil => simp at hk
  | @perform es m' i past hi ih =>
    rw [List.filterMap_append, Run.filterMap_snapshot?_eventsOf] at hk
    by_cases hlt : k < (es.filterMap Event.snapshot?).length
    · rw [List.getElem?_append_left hlt] at hk
      exact (ih hk).append _
    · -- The instruction shows one snapshot at most, so it is the one asked for.
      rw [List.getElem?_append_right (Nat.le_of_not_lt hlt)] at hk
      split at hk
      · next hdebug =>
        subst hdebug
        have hzero := (List.getElem?_eq_some_iff.1 hk).1
        rw [List.length_singleton] at hzero
        have hlength : (es.filterMap Event.snapshot?).length = k := by omega
        rw [hlength, Nat.sub_self] at hk
        injection hk with hs
        exact ⟨es, m', past, hi, hlength, hs.symm, List.prefix_refl _⟩
      · cases hk
  | @stop es m' e past hshown hcharged ih =>
    have hsame : (es.filterMap Event.snapshot?)[k]? = some s := by
      simpa [hshown] using hk
    exact (ih hsame).append [e]

/-- The number of a snapshot counts the snapshots up to it and the charges before it, and the
unlimited run shows the same after as many instructions. -/
theorem ShownAt.accounted {k : Nat} {s : Snapshot} (h : ShownAt p (.start tape) es k s) :
    (∃ before, before ++ [.trace s] <+: es ∧ (before.filterMap Event.snapshot?).length = k ∧
      s.step = (k + 1) + (before.filterMap Event.charged?).length) ∧
    (p.run tape .unlimited s.step).machine.snapshot = s := by
  obtain ⟨past, mid, hpast, hdebug, hlength, rfl, hprefix⟩ := h
  let e := Event.dispatch mid.steps mid.pc mid.tape.head .debug
  have hshown : (past ++ [e]).filterMap Event.snapshot? = past.filterMap Event.snapshot? := by
    rw [List.filterMap_append]
    exact List.append_nil _
  have hcharged : (past ++ [e]).filterMap Event.charged? = past.filterMap Event.charged? := by
    rw [List.filterMap_append]
    exact List.append_nil _
  have hcounters := hpast.counters.2
  have hzero : (Machine.start tape).dispatched = 0 := rfl
  refine ⟨⟨past ++ [e], ?_, ?_, ?_⟩, ?_⟩
  · rw [List.append_assoc]
    exact hprefix
  · rw [hshown, hlength]
  · rw [hcharged]
    show mid.dispatched + 1 = _
    omega
  · have hrun := (hpast.perform hdebug).run_dispatched.2
    rw [Machine.perform_dispatched] at hrun
    show (p.run tape .unlimited (mid.dispatched + 1)).machine.snapshot = _
    rw [hrun]
    rfl

end History

/-! ## Sessions -/

theorem Session.history {m m' : Machine} {ns : List Nat} {ss : List Run}
    (h : Session p m ns ss m') : History p m (ss.flatMap fun s => s.events.toList) m' := by
  induction h with
  | nil m => exact .nil
  | @cons m m' n ns s ss first rest ih =>
    obtain ⟨-, k, rfl⟩ := first
    rw [List.flatMap_cons]
    exact (History.advance p (.ofNat n) m k).trans ih

/-- In every state that a session comes to, also in the middle of a run, the snapshots so far are as
many as the dispatched instructions that were not charged, and their numbers increase. The number of
a snapshot is its place among the snapshots and the charges before it; after as many instructions,
the tape and the head of the unlimited run are those of the snapshot. -/
theorem Session.trace_accounted {tape : Tape} {budgets : List Nat} {runs : List Run} {m : Machine}
    (h : Session p (.start tape) budgets runs m) (budget n : Nat) :
    let r := (Run.resume m).advance p (.ofNat budget) n
    let events := (runs.flatMap fun s => s.events.toList) ++ r.events.toList
    let snapshots := runs.flatMap Run.snapshots ++ r.snapshots
    snapshots.length + r.machine.steps = r.machine.dispatched ∧
    (snapshots.Pairwise fun s t => s.step < t.step) ∧
    (∀ s ∈ snapshots, s.step ≤ r.machine.dispatched) ∧
    ∀ k s, snapshots[k]? = some s →
      (∃ before, before ++ [.trace s] <+: events ∧
        (before.filterMap Event.snapshot?).length = k ∧
        s.step = (k + 1) + (before.filterMap Event.charged?).length) ∧
      let m' := (p.run tape (.ofNat 0) s.step).machine
      m'.dispatched = s.step ∧ m'.tape.cells = s.cells ∧ m'.tape.head = s.head := by
  intro r events snapshots
  have hhistory : History p (.start tape) events r.machine :=
    h.history.trans (History.advance p (.ofNat budget) m n)
  have hsnapshots : events.filterMap Event.snapshot? = snapshots := by
    rw [List.filterMap_append, List.filterMap_flatMap]
    rfl
  have hzero : (Machine.start tape).steps = 0 ∧ (Machine.start tape).dispatched = 0 := ⟨rfl, rfl⟩
  have hcounters := hhistory.counters
  have hincreasing := hhistory.step_increasing
  have hle := hhistory.step_le_dispatched
  rw [hsnapshots] at hcounters hincreasing hle
  refine ⟨by omega, hincreasing, hle, ?_⟩
  intro k s hk
  rw [← hsnapshots] at hk
  obtain ⟨hbefore, hshown⟩ := (hhistory.shownAt hk).accounted
  exact ⟨hbefore, congrArg Snapshot.step hshown, congrArg Snapshot.cells hshown,
    congrArg Snapshot.head hshown⟩

/-- A loop around a `debug` instruction, refused under the budget one, taken up under the budget
three and then without a limit: three snapshots, the last of them from the unfinished run. -/
theorem Session.trace_accounted_loop :
    let p := Program.ofList [.right, .debug, .jump .blank 0]
    ∃ runs m, Session p (.start .empty) [1, 3] runs m ∧
      let r := (Run.resume m).advance p (.ofNat 0) 3
      let snapshots := runs.flatMap Run.snapshots ++ r.snapshots
      snapshots = [⟨#[], 1, 2⟩, ⟨#[], 2, 5⟩, ⟨#[], 3, 8⟩] ∧
      snapshots.length + r.machine.steps = r.machine.dispatched ∧
      ∀ (k : Nat) (s : Snapshot), snapshots[k]? = some s →
        (p.run .empty (.ofNat 0) s.step).machine.tape.head = s.head := by
  intro p
  let first := (Run.resume (.start .empty)).advance p (.ofNat 1) 3
  let second := (Run.resume first.machine).advance p (.ofNat 3) 4
  have hfirst : (Run.resume (.start .empty)).Ends p (.ofNat 1) first := ⟨by decide, 3, rfl⟩
  have hsecond : (Run.resume first.machine).Ends p (.ofNat 3) second := ⟨by decide, 4, rfl⟩
  have h : Session p (.start .empty) [1, 3] [first, second] second.machine :=
    .cons hfirst (.cons hsecond (.nil _))
  obtain ⟨hlength, -, -, hshown⟩ := trace_accounted h 0 3
  exact ⟨_, _, h, by decide, hlength, fun k s hk => (hshown k s hk).2.2.2⟩

end TapeMachine
