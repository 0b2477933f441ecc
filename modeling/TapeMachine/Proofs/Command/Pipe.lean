import TapeMachine.Command.Outcome
import TapeMachine.Proofs.Source.Line

/-! # The disassembler in a pipe

A request sees its input only through the program that the input assembles to, and, when nothing is
logged, not even through the name of the input. The standard output of the disassembler is the
canonical text of the program as a line, which assembles to the program. So whatever is asked of
that output is answered as if it were asked of the first input (`Request.pipe_transparent`). -/

namespace TapeMachine.Command
set_option autoImplicit false

/-! ## Bytes and texts -/

theorem decode_toUTF8 (text : String) : decode text.toUTF8 = .ok text := by
  have hvalid : String.fromUTF8? text.toUTF8 = some text := dif_pos text.isValidUTF8
  rw [decode, hvalid]

theorem utf8ByteSize_of_decode {bytes : ByteArray} {text : String} (h : decode bytes = .ok text) :
    text.utf8ByteSize = bytes.size := by
  rw [decode, String.fromUTF8?] at h
  split at h
  · next hsome =>
    split at hsome
    · injection h with h
      injection hsome with hsome
      rw [← h, ← hsome]
      rfl
    · cases hsome
  · cases h

/-! ## What a request sees of its input -/

theorem ofPath_dash : Input.ofPath "-" = .standard := by
  have hsplit : "-".splitOn "/" = ["-"] := by
    rw [String.splitOn, if_neg (by decide), String.splitOnAux, if_neg (by decide),
      if_neg (by decide), String.splitOnAux, if_pos (by decide)]
    decide
  rw [Input.ofPath, hsplit]
  rfl

theorem logLines_off (records : List Log.Record) : logLines .off records = [] := by
  have hnone : ∀ r ∈ records, ¬ Log.Filter.off.passes r = true := by
    intro r _
    cases hr : r.level <;> simp [Log.Filter.passes, Log.Filter.off, Log.Level.rank, hr]
  rw [logLines, List.filter_eq_nil_iff.2 hnone, List.map_nil]

theorem exists_assembly {text : String} {p : Program} (h : Source.assemble text = .ok p) :
    ∃ a, Source.Assembly.ofText text = .ok a ∧ a.program = p := by
  rw [Source.assemble] at h
  cases ha : Source.Assembly.ofText text with
  | error e =>
    rw [ha] at h
    cases h
  | ok a =>
    rw [ha] at h
    injection h with h
    exact ⟨a, rfl, h⟩

theorem loadProgram_off {text : String} {p : Program} (h : Source.assemble text = .ok p)
    (path : String) : loadProgram .off path (.ok text) = .ok (p, []) := by
  obtain ⟨a, ha, rfl⟩ := exists_assembly h
  rw [loadProgram]
  simp only [ha, logLines_off]

/-- An input is refused with the exit code one, or it is a text that assembles to the program. -/
theorem loadProgram_cases (f : Log.Filter) (path : String) (content : Except ReadFailure String) :
    (∃ o, loadProgram f path content = .error o ∧ o.code = 1) ∨
    ∃ text p err, content = .ok text ∧ Source.assemble text = .ok p ∧
      loadProgram f path content = .ok (p, err) := by
  cases content with
  | error e => exact .inl ⟨_, rfl, rfl⟩
  | ok text =>
    cases ha : Source.Assembly.ofText text with
    | error e =>
      refine .inl ⟨⟨1, [], ["error: " ++ e.message]⟩, ?_, rfl⟩
      simp only [loadProgram, ha]
    | ok a =>
      refine .inr ⟨text, a.program, logLines f [a.record, loadRecord path a.program], rfl, ?_, ?_⟩
      · rw [Source.assemble, ha]
        rfl
      · simp only [loadProgram, ha]

/-! ## Disassembling -/

theorem outText_line (code : Nat) (line : String) (err : List String) :
    Outcome.outText ⟨code, [line], err⟩ = line ++ "\n" := by
  rw [Outcome.outText, unlines, List.map_singleton, String.join_cons, String.join_nil,
    String.append_empty]

namespace Request

variable {env : Environment} {file : String} {fuel : Nat} {o : Outcome}

theorem outcome?_disassemble {content : Except ReadFailure String} {p : Program}
    {err : List String} (h : loadProgram env.logged file content = .ok (p, err)) (fuel : Nat) :
    (disassemble file).outcome? env content fuel = some ⟨0, [p.text], err⟩ := by
  rw [outcome?, job]
  simp only [h, Job.outcome?]

theorem of_disassemble {content : Except ReadFailure String}
    (h : (disassemble file).outcome? env content fuel = some o) (hcode : o.code = 0) :
    ∃ text p, content = .ok text ∧ Source.assemble text = .ok p ∧ o.outText = p.text ++ "\n" := by
  obtain ⟨o', hload, hone⟩ | ⟨text, p, err, hcontent, hp, hload⟩ :=
    loadProgram_cases env.logged file content
  · rw [outcome?, job] at h
    simp only [hload, Job.outcome?, Option.some.injEq] at h
    rw [h, hcode] at hone
    cases hone
  · refine ⟨text, p, hcontent, hp, ?_⟩
    rw [outcome?_disassemble hload] at h
    injection h with h
    rw [← h, outText_line]

/-- What the disassembler writes, read from the standard input, can take the place of what it read
itself. It assembles to the same program; if nothing is logged, disassembling it gives it again, and
checking and running it come to what checking and running the first input come to, within the same
fuel. -/
theorem pipe_transparent {bytes : ByteArray} (hsize : bytes.size < UInt64.size)
    (h : (disassemble file).outcome? env (decode bytes) fuel = some o) (hcode : o.code = 0) :
    let piped := decode o.outText.toUTF8
    Input.ofPath "-" = .standard ∧
    (∃ text p, decode bytes = .ok text ∧ Source.assemble text = .ok p ∧
      piped = .ok o.outText ∧ Source.assemble o.outText = .ok p) ∧
    (env.logged = .off → ∀ fuel,
      (disassemble "-").outcome? env piped fuel = some o ∧
      (check "-").outcome? env piped fuel = (check file).outcome? env (decode bytes) fuel ∧
      ∀ tape maxSteps trace,
        (run "-" tape maxSteps trace).outcome? env piped fuel =
          (run file tape maxSteps trace).outcome? env (decode bytes) fuel) := by
  intro piped
  obtain ⟨text, p, htext, hp, hout⟩ := of_disassemble h hcode
  have hpiped : piped = .ok o.outText := decode_toUTF8 o.outText
  have hp' : Source.assemble o.outText = .ok p := by
    rw [hout]
    apply Source.assemble_text_line hp
    rw [utf8ByteSize_of_decode htext]
    exact hsize
  refine ⟨ofPath_dash, ⟨text, p, htext, hp, hpiped, hp'⟩, ?_⟩
  intro hoff fuel
  -- With nothing logged, the program is all that a request sees of its input.
  have hfirst : loadProgram env.logged file (decode bytes) = .ok (p, []) := by
    rw [hoff, htext, loadProgram_off hp]
  have hsecond : loadProgram env.logged "-" piped = .ok (p, []) := by
    rw [hoff, hpiped, loadProgram_off hp']
  refine ⟨?_, ?_, ?_⟩
  · rw [outcome?_disassemble hsecond, ← h, outcome?_disassemble hfirst]
  · simp only [outcome?, job, hfirst, hsecond]
  · intro tape maxSteps trace
    simp only [outcome?, job, hfirst, hsecond]

theorem pipe_transparent_comment_label :
    let env : Environment := ⟨none, .off⟩
    let bytes := ":01 sx j 01 / until it is x".toUTF8
    let o : Outcome := ⟨0, ["sx j 0"], []⟩
    bytes.size < UInt64.size ∧ (disassemble "program").outcome? env (decode bytes) 9 = some o ∧
      (disassemble "-").outcome? env (decode "sx j 0\n".toUTF8) 9 = some o ∧
      (run "-" "y" 0 true).outcome? env (decode "sx j 0\n".toUTF8) 9 = some ⟨0, ["x"], []⟩ := by
  intro env bytes o
  have hsize : bytes.size < UInt64.size := by decide
  have hp : Source.assemble ":01 sx j 01 / until it is x" =
      .ok (.ofList [.set (.mark 'x'), .jump .blank 0]) := by decide +kernel
  have hload := loadProgram_off hp "program"
  rw [← decode_toUTF8] at hload
  have h : (disassemble "program").outcome? env (decode bytes) 9 = some o := by
    rw [outcome?_disassemble hload]
    decide
  obtain ⟨-, -, hoff⟩ := pipe_transparent hsize h rfl
  obtain ⟨hagain, -, hrun⟩ := hoff rfl 9
  rw [outText_line] at hagain hrun
  refine ⟨hsize, h, hagain, ?_⟩
  have hfirst : (run "program" "y" 0 true).outcome? env (decode bytes) 9 = some ⟨0, ["x"], []⟩ := by
    rw [outcome?, job, hload]
    decide
  exact (hrun "y" 0 true).trans hfirst

end Request
end TapeMachine.Command
