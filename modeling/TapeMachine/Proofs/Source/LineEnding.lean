import TapeMachine.Proofs.Source.Clean

/-! # Line endings

A text with a line feed at the end of each line reads like the text with a carriage return and a
line feed there (`assemble_crlf`). A line break is met by the body of a comment, which it ends, by
a comment that takes it along, and by the joining of lines, and none of them sees the difference:
the passes that remove comments commute with the change of line ending, and the joining of lines
undoes it. The text itself must not have carriage returns: behind another one, the carriage return
of a line break would be the first of two. -/

namespace TapeMachine.Source
set_option autoImplicit false

/-- The text with a carriage return before each line feed. -/
def crlf (cs : List Char) : List Char :=
  cs.flatMap fun c => if c = '\n' then ['\r', '\n'] else [c]

@[simp]
theorem crlf_nil : crlf [] = [] := rfl

@[simp]
theorem crlf_lineFeed (cs : List Char) : crlf ('\n' :: cs) = '\r' :: '\n' :: crlf cs := rfl

theorem crlf_cons {c : Char} (hc : c ≠ '\n') (cs : List Char) : crlf (c :: cs) = c :: crlf cs := by
  simp [crlf, hc]

theorem dropWhile_crlf {q : Char → Bool} (hlf : q '\n' = false) (hcr : q '\r' = false)
    (cs : List Char) : (crlf cs).dropWhile q = crlf (cs.dropWhile q) := by
  induction cs with
  | nil => rfl
  | cons c cs ih =>
    by_cases hc : c = '\n'
    · -- The carriage return before the line feed stops it as the line feed did.
      subst hc
      rw [List.dropWhile_cons_of_neg (by simp [hlf]), crlf_lineFeed,
        List.dropWhile_cons_of_neg (by simp [hcr])]
    · rw [crlf_cons hc]
      by_cases hq : q c = true
      · rw [List.dropWhile_cons_of_pos hq, List.dropWhile_cons_of_pos hq, ih]
      · rw [List.dropWhile_cons_of_neg hq, List.dropWhile_cons_of_neg hq, crlf_cons hc]

/-! ## Comments closed by a backslash -/

theorem afterCommentEnd?_crlf (cs : List Char) :
    afterCommentEnd? (crlf cs) = (afterCommentEnd? cs).map crlf := by
  rw [afterCommentEnd?, afterCommentEnd?, dropWhile_crlf (by decide) (by decide)]
  cases cs.dropWhile isClosedBody with
  | nil => rfl
  | cons c rest =>
    by_cases hc : c = '\n'
    · subst hc
      rfl
    · rw [crlf_cons hc]
      by_cases hend : c = Reserved.commentEnd
      · simp [hend]
      · simp [hend]

theorem dropClosedComments_crlf (cs : List Char) :
    dropClosedComments (crlf cs) = crlf (dropClosedComments cs) := by
  have hslash : Reserved.commentStart ≠ '\n' := by decide
  fun_induction dropClosedComments cs with
  | case1 => rw [crlf_nil, dropClosedComments_nil]
  | case2 cs rest h ih =>
    have hcrlf : afterCommentEnd? (crlf cs) = some (crlf rest) := by
      rw [afterCommentEnd?_crlf, h, Option.map_some]
    rw [crlf_cons hslash, dropClosedComments_start_of_some hcrlf, ih]
  | case3 cs h ih =>
    have hcrlf : afterCommentEnd? (crlf cs) = none := by
      rw [afterCommentEnd?_crlf, h, Option.map_none]
    rw [crlf_cons hslash, dropClosedComments_start_of_none hcrlf, ih, crlf_cons hslash]
  | case4 c cs hc ih =>
    by_cases hlf : c = '\n'
    · subst hlf
      rw [crlf_lineFeed, dropClosedComments_cons (by decide), dropClosedComments_cons (by decide),
        ih, crlf_lineFeed]
    · rw [crlf_cons hlf, dropClosedComments_cons hc, ih, crlf_cons hlf]

/-! ## Comments that end with their line -/

theorem dropLineBreak_cons {c : Char} (hlf : c ≠ '\n') (hcr : c ≠ '\r') (cs : List Char) :
    dropLineBreak (c :: cs) = c :: cs := by
  apply dropLineBreak.eq_3
  · intro rest h
    injection h with h
    exact hcr h
  · intro rest h
    injection h with h
    exact hlf h

theorem dropLineBreak_crlf {cs : List Char} (h : '\r' ∉ cs) :
    dropLineBreak (crlf cs) = crlf (dropLineBreak cs) := by
  cases cs with
  | nil => rfl
  | cons c cs =>
    by_cases hc : c = '\n'
    · subst hc
      rfl
    · have hcr : c ≠ '\r' := by
        rintro rfl
        exact h List.mem_cons_self
      rw [crlf_cons hc, dropLineBreak_cons hc hcr, dropLineBreak_cons hc hcr, crlf_cons hc]

theorem afterLine_crlf {cs : List Char} (h : '\r' ∉ cs) :
    afterLine (crlf cs) = crlf (afterLine cs) := by
  have hrest : '\r' ∉ cs.dropWhile fun c => !isLineEnd c :=
    fun hmem => h ((List.dropWhile_suffix _).subset hmem)
  rw [afterLine, dropWhile_crlf (by decide) (by decide), dropLineBreak_crlf hrest, afterLine]

theorem dropLineComments_crlf {cs : List Char} (h : '\r' ∉ cs) :
    dropLineComments (crlf cs) = crlf (dropLineComments cs) := by
  fun_induction dropLineComments cs with
  | case1 => rw [crlf_nil, dropLineComments_nil]
  | case2 cs ih =>
    have hcs : '\r' ∉ cs := List.not_mem_of_not_mem_cons h
    have hafter : '\r' ∉ afterLine cs := fun hmem => hcs ((afterLine_suffix cs).subset hmem)
    rw [crlf_cons (by decide), dropLineComments_start, afterLine_crlf hcs, ih hafter]
  | case3 c cs hc ih =>
    have hcs : '\r' ∉ cs := List.not_mem_of_not_mem_cons h
    by_cases hlf : c = '\n'
    · subst hlf
      rw [crlf_lineFeed, dropLineComments_cons (by decide), dropLineComments_cons (by decide),
        ih hcs, crlf_lineFeed]
    · rw [crlf_cons hlf, dropLineComments_cons hc, ih hcs, crlf_cons hlf]

/-! ## The cleaned text -/

theorem dropComments_crlf {cs : List Char} (h : '\r' ∉ cs) :
    dropComments (crlf cs) = crlf (dropComments cs) := by
  have hclosed : '\r' ∉ dropClosedComments cs :=
    fun hmem => h ((dropClosedComments_sublist cs).subset hmem)
  rw [dropComments, dropClosedComments_crlf, dropLineComments_crlf hclosed, dropComments]

theorem joinLines_crlf {cs : List Char} (h : '\r' ∉ cs) : joinLines (crlf cs) = joinLines cs := by
  induction cs with
  | nil => rfl
  | cons c cs ih =>
    rw [List.mem_cons, not_or] at h
    by_cases hc : c = '\n'
    · subst hc
      rw [crlf_lineFeed, joinLines, joinLines, ih h.2]
    · have hcr : c = '\r' → False := fun he => h.1 he.symm
      rw [crlf_cons hc, joinLines_cons hc fun he => (hcr he).elim,
        joinLines_cons hc fun he => (hcr he).elim, ih h.2]

theorem clean_crlf {cs : List Char} (h : '\r' ∉ cs) : clean (crlf cs) = clean cs := by
  have hcomments : '\r' ∉ dropComments cs :=
    fun hmem => h ((dropComments_sublist cs).subset hmem)
  rw [clean, dropComments_crlf h, joinLines_crlf hcomments, clean]

/-- A text without carriage returns cleans to the same text, and has the same program or the same
fault at the same place, if its lines end in a carriage return and a line feed instead. -/
theorem assemble_crlf (text : String) (h : '\r' ∉ text.toList) :
    normalize (String.ofList (crlf text.toList)) = normalize text ∧
      assemble (String.ofList (crlf text.toList)) = assemble text := by
  have hclean := clean_crlf h
  constructor
  · rw [normalize, normalize, String.toList_ofList, hclean]
  · rw [assemble_eq, assemble_eq, String.toList_ofList, hclean]

/-- Line breaks as the operands of a `set` and a jump, one at the end of a comment, and a fault. -/
theorem assemble_crlf_operands :
    let text := "s\nr/x\nj\n1?"
    '\r' ∉ text.toList ∧ String.ofList (crlf text.toList) = "s\r\nr/x\r\nj\r\n1?" ∧
      normalize "s\r\nr/x\r\nj\r\n1?" = "s rj 1?" ∧
      assemble "s\r\nr/x\r\nj\r\n1?" = .error (.invalidCode 6 '?') := by
  intro text
  have hnone : '\r' ∉ text.toList := by decide
  have htext : String.ofList (crlf text.toList) = "s\r\nr/x\r\nj\r\n1?" := by decide
  have hnormal : normalize text = "s rj 1?" := by decide +kernel
  have hscan : scanAll (clean text.toList) =
      ([.set ' ', .right, .jumpAddress ' ' ['1']], ['?']) := by decide +kernel
  have hfault : assemble text = .error (.invalidCode 6 '?') := by
    rw [assemble_eq, tokens, hscan]
    rfl
  obtain ⟨hsame, hresult⟩ := assemble_crlf text hnone
  rw [htext] at hsame hresult
  exact ⟨hnone, htext, hsame.trans hnormal, hresult.trans hfault⟩

end TapeMachine.Source
