import TapeMachine.Interpret
import TapeMachine.Proofs.Tape.Render

/-! # Outputs

The output of a run is what its final tape shows: the characters of the cells without the spaces at
the two ends, and no other white space is cut off. Put on a tape, an output shows itself again
(`Tape.render_stable`). -/

namespace TapeMachine
set_option autoImplicit false

/-! ## What a tape shows -/

namespace Tape

@[simp]
theorem toList_render (t : Tape) : t.render.toList = trim t.chars := by
  rw [render, String.toList_ofList]

@[simp]
theorem chars_ofString (text : String) : (ofString text).chars = text.toList := by
  have hchar : Cell.toChar ∘ Cell.ofChar = id := funext Cell.toChar_ofChar
  simp [chars, ofString, holding, hchar]

theorem render_eq_empty_iff {t : Tape} : t.render = "" ↔ ∀ x ∈ t.cells, x.toChar = ' ' := by
  have hspaces : (∀ x ∈ t.cells, x.toChar = ' ') ↔ ∀ c ∈ t.chars, c = ' ' := by
    simp [chars]
  rw [← String.toList_inj, toList_render, hspaces]
  constructor
  · intro h
    obtain ⟨i, k, hchars⟩ := exists_spaces_trim t.chars
    rw [hchars, h]
    simp
  · intro h
    refine trim_eq_iff.2 ⟨.inl rfl, t.chars.length, 0, ?_⟩
    simpa using List.eq_replicate_of_mem h

/-- A tape that holds a trimmed text shows the text. -/
theorem render_ofString {text : String} (h : Trimmed text.toList) :
    (ofString text).render = text := by
  have htrim : trim (ofString text).chars = text.toList := by
    rw [chars_ofString]
    exact trim_eq_iff.2 ⟨h, 0, 0, by simp⟩
  rw [render, htrim, String.ofList_toList]

theorem trimmed_render (t : Tape) : Trimmed t.render.toList := by
  rw [toList_render]
  exact trimmed_trim t.chars

end Tape

/-! ## What a run gives -/

theorem Run.exists_render_of_result? {r : Run} {out : String} (h : r.result? = some (.ok out)) :
    ∃ t : Tape, t.render = out := by
  obtain ⟨m, events, status⟩ := r
  cases status with
  | running => cases h
  | halted =>
    injection h with h
    injection h with h
    exact ⟨m.tape, h⟩
  | refused e =>
    injection h with h
    cases h

theorem exists_render_of_interpret {text : String} {tape : Tape} {b : Budget} {fuel : Nat}
    {out : String} (h : interpret text tape b fuel = some (.ok out)) :
    ∃ t : Tape, t.render = out := by
  rw [interpret] at h
  split at h
  · injection h with h
    cases h
  · next x hx =>
    obtain ⟨result, hresult, hout⟩ := Option.map_eq_some_iff.1 h
    cases result with
    | error e => cases hout
    | ok out' =>
      injection hout with hout
      subst hout
      exact Run.exists_render_of_result? hresult

/-- What a tape shows is the text of its cells without the spaces at the two ends. It is empty
exactly if every cell shows a space, and a tape that holds it shows it again. So does every output
of a run and of an interpretation. -/
theorem Tape.render_stable :
    (∀ t : Tape,
      (∃ i k, t.chars = List.replicate i ' ' ++ (t.render.toList ++ List.replicate k ' ')) ∧
      Trimmed t.render.toList ∧
      (t.render = "" ↔ ∀ x ∈ t.cells, x.toChar = ' ') ∧
      (ofString t.render).render = t.render) ∧
    (∀ (p : Program) tape b fuel out, (p.run tape b fuel).result? = some (.ok out) →
      Trimmed out.toList ∧ (ofString out).render = out) ∧
    ∀ text tape b fuel out, interpret text tape b fuel = some (.ok out) →
      Trimmed out.toList ∧ (ofString out).render = out := by
  have houtput : ∀ t : Tape, Trimmed t.render.toList ∧ (ofString t.render).render = t.render :=
    fun t => ⟨t.trimmed_render, render_ofString t.trimmed_render⟩
  refine ⟨?_, ?_, ?_⟩
  · intro t
    have hspaces := exists_spaces_trim t.chars
    rw [← toList_render] at hspaces
    exact ⟨hspaces, (houtput t).1, render_eq_empty_iff, (houtput t).2⟩
  · intro p tape b fuel out h
    obtain ⟨t, rfl⟩ := Run.exists_render_of_result? h
    exact houtput t
  · intro text tape b fuel out h
    obtain ⟨t, rfl⟩ := exists_render_of_interpret h
    exact houtput t

/-- A tab is kept at the front, a blank cell and a written space are cut off at the end. -/
theorem Tape.render_stable_tab :
    let p := Program.ofList [.right, .right]
    let tape := holding [.blank, .mark '\t', .blank, .mark 'x', .mark ' ', .blank]
    (p.run tape .unlimited 3).result? = some (.ok "\t x") ∧
      interpret "rr" tape .unlimited 3 = some (.ok "\t x") ∧
      Trimmed "\t x".toList ∧ (ofString "\t x").render = "\t x" := by
  intro p tape
  have hrun : (p.run tape .unlimited 3).result? = some (.ok "\t x") := by decide
  have hinterpret : interpret "rr" tape .unlimited 3 = some (.ok "\t x") := by decide +kernel
  have hstable := render_stable.2.1 p tape .unlimited 3 "\t x" hrun
  exact ⟨hrun, hinterpret, hstable.1, (render_stable.2.2 _ _ _ _ _ hinterpret).2⟩

end TapeMachine
