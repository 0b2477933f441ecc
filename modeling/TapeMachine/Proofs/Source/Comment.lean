import TapeMachine.Source.Comment

/-! # Comments and line breaks, piece by piece

What the passes over a whole text do to one piece at its front: to characters without a slash, to
a comment that a backslash closes, to a comment that a line break or the end of the text ends, and
to line breaks. A pass leaves the text behind the piece to itself in each case. -/

namespace TapeMachine.Source
set_option autoImplicit false

/-- The text is at its end or goes on with the end of a line. -/
def LineEnds (rest : List Char) : Prop :=
  ∀ c ∈ rest.head?, isLineEnd c = true

theorem isLineEnd_of_isClosedBody {c : Char} (h : isClosedBody c = true) :
    isLineEnd c = false := by
  simp only [isClosedBody, Bool.and_eq_true, Bool.not_eq_true'] at h
  exact h.1

theorem isClosedBody_of_isLineEnd {c : Char} (h : isLineEnd c = true) :
    isClosedBody c = false := by
  simp [isClosedBody, h]

/-! ## Comments closed by a backslash -/

theorem dropClosedComments_nil : dropClosedComments [] = [] := by
  rw [dropClosedComments]

theorem dropClosedComments_cons {c : Char} (h : c ≠ Reserved.commentStart) (cs : List Char) :
    dropClosedComments (c :: cs) = c :: dropClosedComments cs := by
  rw [dropClosedComments, if_neg h]

theorem dropClosedComments_start_of_some {cs rest : List Char}
    (h : afterCommentEnd? cs = some rest) :
    dropClosedComments (Reserved.commentStart :: cs) = dropClosedComments rest := by
  rw [dropClosedComments, if_pos rfl]
  split
  · next rest' heq =>
    rw [h] at heq
    injection heq with heq
    rw [heq]
  · next heq =>
    rw [h] at heq
    cases heq

theorem dropClosedComments_start_of_none {cs : List Char} (h : afterCommentEnd? cs = none) :
    dropClosedComments (Reserved.commentStart :: cs)
      = Reserved.commentStart :: dropClosedComments cs := by
  rw [dropClosedComments, if_pos rfl]
  split
  · next heq =>
    rw [h] at heq
    cases heq
  · rfl

theorem dropClosedComments_append {cs : List Char} (h : Reserved.commentStart ∉ cs)
    (rest : List Char) :
    dropClosedComments (cs ++ rest) = cs ++ dropClosedComments rest := by
  induction cs with
  | nil => rfl
  | cons c cs ih =>
    rw [List.mem_cons, not_or] at h
    rw [List.cons_append, dropClosedComments_cons (Ne.symm h.1), ih h.2, List.cons_append]

theorem afterCommentEnd?_closed {body : List Char} (hb : ∀ c ∈ body, isClosedBody c = true)
    (rest : List Char) : afterCommentEnd? (body ++ Reserved.commentEnd :: rest) = some rest := by
  have hend : ¬ isClosedBody Reserved.commentEnd = true := by decide
  rw [afterCommentEnd?, List.dropWhile_append_of_pos hb, List.dropWhile_cons_of_neg hend]
  exact if_pos rfl

theorem afterCommentEnd?_line {body rest : List Char} (hb : ∀ c ∈ body, isClosedBody c = true)
    (hr : LineEnds rest) : afterCommentEnd? (body ++ rest) = none := by
  rw [afterCommentEnd?, List.dropWhile_append_of_pos hb]
  cases rest with
  | nil => rfl
  | cons c rest =>
    have hc : isLineEnd c = true := hr c rfl
    have hne : c ≠ Reserved.commentEnd := by
      rintro rfl
      exact absurd hc (by decide)
    rw [List.dropWhile_cons_of_neg (by simp [isClosedBody_of_isLineEnd hc])]
    exact if_neg hne

theorem dropClosedComments_closed {body : List Char} (hb : ∀ c ∈ body, isClosedBody c = true)
    (rest : List Char) :
    dropClosedComments (Reserved.commentStart :: (body ++ Reserved.commentEnd :: rest))
      = dropClosedComments rest :=
  dropClosedComments_start_of_some (afterCommentEnd?_closed hb rest)

/-- What reaches the end of its line without a backslash stays, whatever slashes are in it. -/
theorem dropClosedComments_line {body rest : List Char} (hb : ∀ c ∈ body, isClosedBody c = true)
    (hr : LineEnds rest) :
    dropClosedComments (body ++ rest) = body ++ dropClosedComments rest := by
  induction body with
  | nil => rfl
  | cons c body ih =>
    have hbody : ∀ d ∈ body, isClosedBody d = true := fun d hd => hb d (List.mem_cons_of_mem c hd)
    rw [List.cons_append, List.cons_append]
    by_cases hc : c = Reserved.commentStart
    · rw [hc, dropClosedComments_start_of_none (afterCommentEnd?_line hbody hr), ih hbody]
    · rw [dropClosedComments_cons hc, ih hbody]

theorem suffix_of_afterCommentEnd? {cs rest : List Char} (h : afterCommentEnd? cs = some rest) :
    rest <:+ cs := by
  unfold afterCommentEnd? at h
  split at h
  · cases h
  · next c r hd =>
    split at h
    · injection h with h
      subst h
      have hsuffix := List.dropWhile_suffix isClosedBody (l := cs)
      rw [hd] at hsuffix
      exact (List.suffix_cons c r).trans hsuffix
    · cases h

theorem dropClosedComments_sublist (cs : List Char) : (dropClosedComments cs).Sublist cs := by
  fun_induction dropClosedComments cs with
  | case1 => exact .slnil
  | case2 cs rest h ih => exact (ih.trans (suffix_of_afterCommentEnd? h).sublist).cons _
  | case3 cs h ih => exact ih.cons_cons _
  | case4 c cs hc ih => exact ih.cons_cons _

/-! ## Comments that end with their line -/

theorem afterLine_suffix (cs : List Char) : afterLine cs <:+ cs := by
  have hbreak : ∀ ds, dropLineBreak ds <:+ ds := by
    intro ds
    unfold dropLineBreak
    split
    · exact (List.suffix_cons _ _).trans (List.suffix_cons _ _)
    · exact List.suffix_cons _ _
    · exact List.suffix_rfl
  exact (hbreak _).trans (List.dropWhile_suffix _)

theorem dropLineComments_sublist (cs : List Char) : (dropLineComments cs).Sublist cs := by
  fun_induction dropLineComments cs with
  | case1 => exact .slnil
  | case2 cs ih => exact (ih.trans (afterLine_suffix cs).sublist).cons _
  | case3 c cs hc ih => exact ih.cons_cons _

theorem dropLineComments_nil : dropLineComments [] = [] := by
  rw [dropLineComments]

theorem dropLineComments_cons {c : Char} (h : c ≠ Reserved.commentStart) (cs : List Char) :
    dropLineComments (c :: cs) = c :: dropLineComments cs := by
  rw [dropLineComments, if_neg h]

theorem dropLineComments_start (cs : List Char) :
    dropLineComments (Reserved.commentStart :: cs) = dropLineComments (afterLine cs) := by
  rw [dropLineComments, if_pos rfl]

theorem dropLineComments_append {cs : List Char} (h : Reserved.commentStart ∉ cs)
    (rest : List Char) : dropLineComments (cs ++ rest) = cs ++ dropLineComments rest := by
  induction cs with
  | nil => rfl
  | cons c cs ih =>
    rw [List.mem_cons, not_or] at h
    rw [List.cons_append, dropLineComments_cons (Ne.symm h.1), ih h.2, List.cons_append]

theorem afterLine_append {body rest : List Char} (hb : ∀ c ∈ body, isLineEnd c = false)
    (hr : LineEnds rest) : afterLine (body ++ rest) = dropLineBreak rest := by
  rw [afterLine, List.dropWhile_append_of_pos fun c hc => by simp [hb c hc]]
  cases rest with
  | nil => rfl
  | cons c rest => rw [List.dropWhile_cons_of_neg (by simp [hr c rfl])]

theorem commentStart_not_mem_dropLineComments (cs : List Char) :
    Reserved.commentStart ∉ dropLineComments cs := by
  fun_induction dropLineComments cs with
  | case1 => exact List.not_mem_nil
  | case2 cs ih => exact ih
  | case3 c cs hc ih =>
    rw [List.mem_cons, not_or]
    exact ⟨Ne.symm hc, ih⟩

/-! ## Both passes -/

theorem dropComments_nil : dropComments [] = [] := by
  rw [dropComments, dropClosedComments_nil, dropLineComments_nil]

theorem dropComments_sublist (cs : List Char) : (dropComments cs).Sublist cs :=
  (dropLineComments_sublist _).trans (dropClosedComments_sublist cs)

theorem dropComments_append {cs : List Char} (h : Reserved.commentStart ∉ cs)
    (rest : List Char) : dropComments (cs ++ rest) = cs ++ dropComments rest := by
  rw [dropComments, dropClosedComments_append h, dropLineComments_append h, dropComments]

theorem dropComments_of_not_mem {cs : List Char} (h : Reserved.commentStart ∉ cs) :
    dropComments cs = cs := by
  have happ := dropComments_append h []
  rw [List.append_nil, dropComments_nil, List.append_nil] at happ
  exact happ

theorem dropComments_closed {body : List Char} (hb : ∀ c ∈ body, isClosedBody c = true)
    (rest : List Char) :
    dropComments (Reserved.commentStart :: (body ++ Reserved.commentEnd :: rest))
      = dropComments rest := by
  rw [dropComments, dropClosedComments_closed hb, dropComments]

/-! ## Line breaks -/

theorem joinLines_cons {c : Char} {rest : List Char} (hc : c ≠ '\n')
    (hr : c = '\r' → rest.head? ≠ some '\n') : joinLines (c :: rest) = c :: joinLines rest := by
  apply joinLines.eq_3
  · intro rest' h₁ h₂
    rw [h₂] at hr
    exact hr h₁ rfl
  · intro h
    exact hc h

/-- Two parts of a text are joined on their own unless a line break stands across them. -/
theorem joinLines_append {a b : List Char} (hb : b.head? ≠ some '\n') :
    joinLines (a ++ b) = joinLines a ++ joinLines b := by
  fun_induction joinLines a with
  | case1 rest ih => simp only [List.cons_append, joinLines, ih]
  | case2 rest ih => simp only [List.cons_append, joinLines, ih]
  | case3 c rest hcr hlf ih =>
    rw [List.cons_append, joinLines_cons hlf, ih, List.cons_append]
    intro hc
    cases rest with
    | nil => exact hb
    | cons d rest =>
      intro hd
      injection hd with hd
      subst hd
      exact hcr rest hc rfl
  | case4 => rfl

theorem joinLines_plain_append {a : List Char} (ha : ∀ c ∈ a, isLineEnd c = false)
    (b : List Char) : joinLines (a ++ b) = a ++ joinLines b := by
  induction a with
  | nil => rfl
  | cons c a ih =>
    have hc : c ≠ '\n' ∧ c ≠ '\r' := by simpa [isLineEnd] using ha c List.mem_cons_self
    rw [List.cons_append, joinLines_cons hc.1 (fun h => absurd h hc.2),
      ih fun d hd => ha d (List.mem_cons_of_mem c hd), List.cons_append]

theorem joinLines_ne_nil {cs : List Char} (h : cs ≠ []) : joinLines cs ≠ [] := by
  fun_cases joinLines cs with
  | case1 | case2 | case3 => exact List.cons_ne_nil _ _
  | case4 => exact absurd rfl h

theorem mem_of_mem_joinLines {cs : List Char} {c : Char} (h : c ∈ joinLines cs) :
    c ∈ cs ∨ c = ' ' := by
  fun_induction joinLines cs with
  | case1 rest ih =>
    rcases List.mem_cons.1 h with h | h
    · exact Or.inr h
    · exact (ih h).imp_left fun hc => List.mem_cons_of_mem _ (List.mem_cons_of_mem _ hc)
  | case2 rest ih =>
    rcases List.mem_cons.1 h with h | h
    · exact Or.inr h
    · exact (ih h).imp_left (List.mem_cons_of_mem _)
  | case3 d rest _ _ ih =>
    rcases List.mem_cons.1 h with h | h
    · exact Or.inl (h ▸ List.mem_cons_self)
    · exact (ih h).imp_left (List.mem_cons_of_mem _)
  | case4 => cases h

end TapeMachine.Source
