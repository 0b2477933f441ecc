import TapeMachine.Proofs.Command.Pipe

/-! # The command line and the interpreter

The commands read a program text and run it on their own path, and `interpret` does so on another.
When nothing is logged, both come to the same: a run reports what `interpret` gives, with one line
for each snapshot if a trace is asked for (`Request.outcome?_run`), and the other two commands fail
exactly where `interpret` finds a fault in the text. -/

namespace TapeMachine
set_option autoImplicit false

variable {text : String} {tape : Tape} {b : Budget} {fuel : Nat}

/-! ## What is interpreted -/

/-- The snapshots that the interpretation of a text shows; none if the text is not a program. -/
def interpretSnapshots (text : String) (tape : Tape) (b : Budget) (fuel : Nat) : List Snapshot :=
  match Interpretation.ofText text tape b fuel with
  | .error _ => []
  | .ok x => x.run.snapshots

theorem interpret_of_fault {e : Source.Fault} (h : Source.Assembly.ofText text = .error e) :
    interpret text tape b fuel = some (.error (.source e)) := by
  simp [interpret, Interpretation.ofText, h, Except.map]

theorem interpret_of_assembly {a : Source.Assembly} (h : Source.Assembly.ofText text = .ok a) :
    interpret text tape b fuel =
      (a.program.run tape b fuel).result?.map (Except.mapError .budget) := by
  simp [interpret, Interpretation.ofText, h, Except.map]

theorem interpretSnapshots_of_assembly {a : Source.Assembly}
    (h : Source.Assembly.ofText text = .ok a) :
    interpretSnapshots text tape b fuel = (a.program.run tape b fuel).snapshots := by
  simp [interpretSnapshots, Interpretation.ofText, h, Except.map]

theorem interpret_eq_source_iff {e : Source.Fault} :
    interpret text tape b fuel = some (.error (.source e)) ↔
      Source.Assembly.ofText text = .error e := by
  constructor
  · intro h
    cases ha : Source.Assembly.ofText text with
    | error e' =>
      rw [interpret_of_fault ha] at h
      injection h with h
      injection h with h
      injection h with h
      rw [h]
    | ok a =>
      -- A run has no other failure than a spent budget.
      rw [interpret_of_assembly ha] at h
      obtain ⟨result, -, hresult⟩ := Option.map_eq_some_iff.1 h
      cases result with
      | ok out => cases hresult
      | error spent => cases hresult
  · exact interpret_of_fault

namespace Command

/-! ## Lines of a trace -/

/-- The lines of snapshots, if a trace is asked for. -/
def traceLines (trace : Bool) (shown : List Snapshot) : List String :=
  if trace then shown.map snapshotLine else []

theorem eventLines_off (trace : Bool) (e : Event) :
    eventLines .off trace e = traceLines trace e.snapshot?.toList := by
  cases e with
  | trace s => rfl
  | dispatch | halt | refuse =>
    rw [eventLines, logLines_off]
    · cases trace <;> rfl
    · simp

/-- With nothing logged, the events of a run write the lines of its snapshots, in order. -/
theorem flatMap_eventLines_off (trace : Bool) (r : Run) :
    r.events.toList.flatMap (eventLines .off trace) = traceLines trace r.snapshots := by
  rw [Run.snapshots]
  induction r.events.toList with
  | nil => cases trace <;> rfl
  | cons e events ih =>
    rw [List.flatMap_cons, ih, eventLines_off]
    cases trace with
    | false => rfl
    | true => cases hs : e.snapshot? <;> simp [traceLines, hs]

/-! ## Reports -/

/-- What a run of the command line comes to when the text is interpreted with this result. -/
def report (traced : List String) : Except Failure String → Outcome
  | .ok out => ⟨0, [out], traced⟩
  | .error (.source e) => ⟨1, [], ["error: " ++ e.message]⟩
  | .error (.budget e) => ⟨3, [], traced ++ ["runtime error: " ++ e.message]⟩

/-- The lines of a trace are all that two reports of one result can differ in. -/
theorem report_code_out (traced traced' : List String) (result : Except Failure String) :
    (report traced result).code = (report traced' result).code ∧
      (report traced result).out = (report traced' result).out := by
  cases result with
  | ok out => exact ⟨rfl, rfl⟩
  | error e => cases e <;> exact ⟨rfl, rfl⟩

theorem loadProgram_of_fault {e : Source.Fault} (h : Source.Assembly.ofText text = .error e)
    (f : Log.Filter) (path : String) :
    loadProgram f path (.ok text) = .error ⟨1, [], ["error: " ++ e.message]⟩ := by
  rw [loadProgram]
  simp only [h]

theorem loadProgram_of_assembly {a : Source.Assembly} (h : Source.Assembly.ofText text = .ok a)
    (path : String) : loadProgram .off path (.ok text) = .ok (a.program, []) := by
  apply loadProgram_off
  rw [Source.assemble, h]
  rfl

theorem RunJob.outcome?_off (p : Program) (tape : Tape) (b : Budget) (trace : Bool) (r : Run) :
    RunJob.outcome? ⟨p, tape, b, trace, []⟩ .off r =
      (r.result?.map (Except.mapError .budget)).map (report (traceLines trace r.snapshots)) := by
  rw [RunJob.outcome?, Option.map_map, flatMap_eventLines_off]
  congr 1
  funext result
  cases result with
  | ok out => simp [closing, report, Except.mapError]
  | error e => simp [closing, report, Except.mapError]

namespace Request

variable {env : Environment} {file input : String} {limit : Nat} {trace : Bool}

theorem outcome?_of_fault {e : Source.Fault} (h : Source.Assembly.ofText text = .error e)
    {request : Request}
    (hrequest : request ∈ [run file input limit trace, check file, disassemble file]) :
    request.outcome? env (.ok text) fuel = some ⟨1, [], ["error: " ++ e.message]⟩ := by
  simp only [List.mem_cons, List.not_mem_nil, or_false] at hrequest
  obtain rfl | rfl | rfl := hrequest <;>
    simp only [outcome?, job, loadProgram_of_fault h, Job.outcome?]

theorem code_of_assembly {a : Source.Assembly} (h : Source.Assembly.ofText text = .ok a)
    {request : Request} (hrequest : request ∈ [check file, disassemble file]) :
    ∃ o, request.outcome? env (.ok text) fuel = some o ∧ o.code = 0 := by
  simp only [List.mem_cons, List.not_mem_nil, or_false] at hrequest
  obtain rfl | rfl := hrequest <;>
    simp only [outcome?, job, loadProgram, h, Job.outcome?, Option.some.injEq, exists_eq_left']

theorem exists_code_iff {request : Request} (hrequest : request ∈ [check file, disassemble file]) :
    ∃ o, request.outcome? env (.ok text) fuel = some o ∧
      (o.code = 0 ↔ ∀ e, interpret text tape b fuel ≠ some (.error (.source e))) := by
  cases ha : Source.Assembly.ofText text with
  | error e =>
    have hmem := List.mem_cons_of_mem (run file "" 0 false) hrequest
    refine ⟨_, outcome?_of_fault ha hmem, ?_⟩
    simp [interpret_of_fault ha]
  | ok a =>
    obtain ⟨o, ho, hcode⟩ := code_of_assembly ha hrequest
    refine ⟨o, ho, iff_of_true hcode ?_⟩
    intro e he
    rw [interpret_eq_source_iff.1 he] at ha
    cases ha

theorem outcome?_run (hoff : env.logged = .off) :
    (run file input limit trace).outcome? env (.ok text) fuel =
      (interpret text (.ofString input) (.ofNat limit) fuel).map
        (report (traceLines trace
          (interpretSnapshots text (.ofString input) (.ofNat limit) fuel))) := by
  cases ha : Source.Assembly.ofText text with
  | error e =>
    rw [interpret_of_fault ha, outcome?_of_fault ha List.mem_cons_self]
    rfl
  | ok a =>
    rw [interpret_of_assembly ha, interpretSnapshots_of_assembly ha, outcome?, job, hoff]
    simp only [loadProgram_of_assembly ha, Job.outcome?]
    exact RunJob.outcome?_off _ _ _ _ _

/-- The commands agree with the interpreter on every text, tape, limit and trace flag when nothing
is logged. A run prints the output of the interpreter as a line, or fails with its error; the lines
of its snapshots stand before the line of a spent budget, and only if a trace is asked for. A fault
in the text is reported by all three commands alike, and it is all that the last two can fail on. -/
theorem agrees_with_interpret (hoff : env.logged = .off) (file text input : String) (limit : Nat)
    (trace : Bool) (fuel : Nat) :
    let result := interpret text (.ofString input) (.ofNat limit) fuel
    let shown := interpretSnapshots text (.ofString input) (.ofNat limit) fuel
    let traced := traceLines trace shown
    let outcomeOf (request : Request) := request.outcome? env (.ok text) fuel
    (∀ out, result = some (.ok out) →
      ∃ o, outcomeOf (run file input limit trace) = some o ∧ o.code = 0 ∧
        o.outText = out ++ "\n" ∧ o.err = traced) ∧
    (∀ e, result = some (.error (.source e)) →
      ∀ request ∈ [run file input limit trace, check file, disassemble file],
        outcomeOf request = some ⟨1, [], ["error: " ++ e.message]⟩) ∧
    (∀ e, result = some (.error (.budget e)) →
      outcomeOf (run file input limit trace) =
        some ⟨3, [], traced ++ ["runtime error: " ++ e.message]⟩) ∧
    (result = none → outcomeOf (run file input limit trace) = none) ∧
    (∀ request ∈ [check file, disassemble file],
      ∃ o, outcomeOf request = some o ∧ (o.code = 0 ↔ ∀ e, result ≠ some (.error (.source e)))) ∧
    ∀ trace',
      (outcomeOf (run file input limit trace')).map (fun o => (o.code, o.out)) =
        (outcomeOf (run file input limit trace)).map (fun o => (o.code, o.out)) := by
  intro result shown traced outcomeOf
  have hrun : outcomeOf (run file input limit trace) = result.map (report traced) :=
    outcome?_run hoff
  refine ⟨?_, ?_, ?_, ?_, ?_, ?_⟩
  · intro out hout
    rw [hrun, hout]
    exact ⟨_, rfl, rfl, outText_line _ _ _, rfl⟩
  · intro e he request hrequest
    exact outcome?_of_fault (interpret_eq_source_iff.1 he) hrequest
  · intro e he
    rw [hrun, he]
    rfl
  · intro hnone
    rw [hrun, hnone]
    rfl
  · intro request hrequest
    exact exists_code_iff hrequest
  · intro trace'
    have hrun' : outcomeOf (run file input limit trace') =
        result.map (report (traceLines trace' shown)) := outcome?_run hoff
    rw [hrun, hrun', Option.map_map, Option.map_map]
    congr 1
    funext x
    obtain ⟨hcode, hout⟩ := report_code_out (traceLines trace' shown) traced x
    exact Prod.ext hcode hout

theorem agrees_with_interpret_spent_traced :
    let env : Environment := ⟨none, .off⟩
    let text := "d sx d jx0"
    let result := interpret text (.ofString "a") (.ofNat 3) 9
    env.logged = .off ∧ result = some (.error (.budget ⟨3, 3⟩)) ∧
      (run "program" "a" 3 true).outcome? env (.ok text) 9 =
        some ⟨3, [], ["step=1 head=0 |a|", "step=3 head=0 |x|", "step=5 head=0 |x|",
          "step=7 head=0 |x|",
          "runtime error: maximal steps exceeded: budget of 3 exhausted at instruction 3"]⟩ := by
  intro env text result
  have hp : Source.assemble text =
      .ok (.ofList [.debug, .set (.mark 'x'), .debug, .jump (.mark 'x') 0]) := by decide +kernel
  obtain ⟨a, ha, hprogram⟩ := exists_assembly hp
  have hresult : result = some (.error (.budget ⟨3, 3⟩)) := by
    rw [show result = _ from interpret_of_assembly ha, hprogram]
    decide
  have hshown : interpretSnapshots text (.ofString "a") (.ofNat 3) 9 =
      [⟨#[.mark 'a'], 0, 1⟩, ⟨#[.mark 'x'], 0, 3⟩, ⟨#[.mark 'x'], 0, 5⟩, ⟨#[.mark 'x'], 0, 7⟩] := by
    rw [interpretSnapshots_of_assembly ha, hprogram]
    decide
  have henv : env.logged = .off := rfl
  obtain ⟨-, -, hspent, -⟩ := agrees_with_interpret henv "program" text "a" 3 true 9
  refine ⟨rfl, hresult, (hspent ⟨3, 3⟩ hresult).trans ?_⟩
  rw [hshown]
  decide

end Request
end Command
end TapeMachine
