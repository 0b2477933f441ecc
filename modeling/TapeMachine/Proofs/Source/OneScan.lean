import TapeMachine.Proofs.Source.Layout

/-! # Comments in one scan

Comments are removed in two passes, and the second pass sees a text that the first has glued
together. One scan from left to right does the same, as long as every carriage return stands before
a line feed: a slash that the first pass leaves has no backslash behind it on its line, so the rest
of the line is as it was when the second pass comes to it. A carriage return that stands alone ends
a comment for both passes and no line. -/

namespace TapeMachine.Source
set_option autoImplicit false

/-! ## The scan -/

/-- What follows a comment; `cs` is the text behind its slash. The comment takes the first backslash
of the line along, or the whole line with its line feed if there is none. -/
def afterComment (cs : List Char) : List Char :=
  if Reserved.commentEnd ∈ cs.takeWhile (· != '\n') then
    (cs.dropWhile (· != Reserved.commentEnd)).tail
  else (cs.dropWhile (· != '\n')).tail

theorem afterComment_suffix (cs : List Char) : afterComment cs <:+ cs := by
  unfold afterComment
  split
  · exact (List.tail_suffix _).trans (List.dropWhile_suffix _)
  · exact (List.tail_suffix _).trans (List.dropWhile_suffix _)

/-- The text without comments, read once from left to right. -/
def scanComments : List Char → List Char
  | [] => []
  | c :: cs =>
    if c = Reserved.commentStart then scanComments (afterComment cs)
    else c :: scanComments cs
termination_by cs => cs.length
decreasing_by
  · have := (afterComment_suffix cs).length_le
    simp only [List.length_cons]
    omega
  · simp

/-! ## Carriage returns -/

/-- Every carriage return stands directly before a line feed. -/
def ReturnsPaired (cs : List Char) : Prop :=
  ∀ i, cs[i]? = some '\r' → cs[i + 1]? = some '\n'

instance (cs : List Char) : Decidable (ReturnsPaired cs) :=
  decidable_of_iff (∀ i < cs.length, cs[i]? = some '\r' → cs[i + 1]? = some '\n')
    ⟨fun h i hi => h i (List.getElem?_eq_some_iff.1 hi).1 hi, fun h i _ => h i⟩

theorem ReturnsPaired.of_suffix {cs rest : List Char} (h : ReturnsPaired cs)
    (hrest : rest <:+ cs) : ReturnsPaired rest := by
  obtain ⟨before, rfl⟩ := hrest
  intro i hi
  have hshift : ∀ k, (before ++ rest)[before.length + k]? = rest[k]? := by
    intro k
    rw [List.getElem?_append_right (Nat.le_add_right _ _), Nat.add_sub_cancel_left]
  have hnext := h (before.length + i) ((hshift i).trans hi)
  rw [Nat.add_assoc, hshift] at hnext
  exact hnext

/-! ## The ends of a comment -/

/-- A backslash, a line break, or the end of the text ends a comment, whichever comes first. -/
theorem comment_cases {cs : List Char} (h : ReturnsPaired cs) :
    (∃ (body : CommentBody) (rest : List Char), cs = body.chars ++ Reserved.commentEnd :: rest) ∨
    (∃ (body : CommentBody) (b : LineBreak) (rest : List Char),
      cs = body.chars ++ (b.spelling ++ rest)) ∨
    ∃ body : CommentBody, cs = body.chars := by
  induction cs with
  | nil => exact .inr (.inr ⟨⟨[], by simp⟩, rfl⟩)
  | cons c cs ih =>
    by_cases hc : isClosedBody c = true
    · have hbody : ∀ body : CommentBody, ∀ d ∈ c :: body.chars, isClosedBody d = true := by
        intro body
        rw [List.forall_mem_cons]
        exact ⟨hc, body.inside⟩
      obtain ⟨body, rest, rfl⟩ | ⟨body, b, rest, rfl⟩ | ⟨body, rfl⟩ :=
        ih (h.of_suffix (List.suffix_cons c cs))
      · exact .inl ⟨⟨c :: body.chars, hbody body⟩, rest, rfl⟩
      · exact .inr (.inl ⟨⟨c :: body.chars, hbody body⟩, b, rest, rfl⟩)
      · exact .inr (.inr ⟨⟨c :: body.chars, hbody body⟩, rfl⟩)
    · have hend : c = '\n' ∨ c = '\r' ∨ c = Reserved.commentEnd := by
        apply Decidable.byContradiction
        intro hother
        simp only [not_or] at hother
        exact hc (by simp [isClosedBody, isLineEnd, hother])
      obtain rfl | rfl | rfl := hend
      · exact .inr (.inl ⟨⟨[], by simp⟩, .lf, cs, rfl⟩)
      · -- A carriage return is the first half of a line break.
        have hnext := h 0 rfl
        cases cs with
        | nil => cases hnext
        | cons d rest =>
          injection hnext with hd
          exact .inr (.inl ⟨⟨[], by simp⟩, .crlf, rest, by rw [hd]; rfl⟩)
      · exact .inl ⟨⟨[], by simp⟩, cs, rfl⟩

namespace CommentBody

variable (body : CommentBody)

theorem ne_of_mem {c : Char} (h : c ∈ body.chars) : c ≠ '\n' ∧ c ≠ Reserved.commentEnd := by
  have hc := body.inside c h
  constructor
  · rintro rfl
    exact absurd hc (by decide)
  · rintro rfl
    exact absurd hc (by decide)

theorem takeWhile_append (rest : List Char) :
    (body.chars ++ rest).takeWhile (· != '\n') = body.chars ++ rest.takeWhile (· != '\n') :=
  List.takeWhile_append_of_pos fun c hc => by simp [(body.ne_of_mem hc).1]

theorem afterComment_closed (rest : List Char) :
    afterComment (body.chars ++ Reserved.commentEnd :: rest) = rest := by
  have hmem : Reserved.commentEnd ∈
      body.chars ++ (Reserved.commentEnd :: rest).takeWhile (· != '\n') := by
    rw [List.takeWhile_cons_of_pos (by decide)]
    simp
  rw [afterComment, body.takeWhile_append, if_pos hmem,
    List.dropWhile_append_of_pos fun c hc => by simp [(body.ne_of_mem hc).2],
    List.dropWhile_cons_of_neg (by simp), List.tail_cons]

/-- Without a backslash the comment ends with the first line feed. -/
theorem afterComment_line {stop : List Char}
    (h : Reserved.commentEnd ∉ stop.takeWhile (· != '\n')) :
    afterComment (body.chars ++ stop) = (stop.dropWhile (· != '\n')).tail := by
  have hnone : Reserved.commentEnd ∉ body.chars ++ stop.takeWhile (· != '\n') := by
    rw [List.mem_append, not_or]
    exact ⟨fun hmem => (body.ne_of_mem hmem).2 rfl, h⟩
  rw [afterComment, body.takeWhile_append, if_neg hnone,
    List.dropWhile_append_of_pos fun c hc => by simp [(body.ne_of_mem hc).1]]

end CommentBody

/-! ## Both ways to remove comments -/

/-- Both passes together drop what one comment of the scan drops. -/
theorem dropComments_start {cs : List Char} (h : ReturnsPaired cs) :
    dropComments (Reserved.commentStart :: cs) = dropComments (afterComment cs) := by
  obtain ⟨body, rest, rfl⟩ | ⟨body, b, rest, rfl⟩ | ⟨body, rfl⟩ := comment_cases h
  · rw [dropComments_closed body.inside, body.afterComment_closed]
  · have hbreak : Reserved.commentEnd ∉ (b.spelling ++ rest).takeWhile (· != '\n') ∧
        ((b.spelling ++ rest).dropWhile (· != '\n')).tail = rest := by
      cases b <;> simp [LineBreak.spelling, Reserved.commentEnd]
    rw [dropComments_line, body.afterComment_line hbreak.1, hbreak.2]
  · have hend : afterComment (body.chars ++ []) = [] := body.afterComment_line (by simp)
    rw [List.append_nil] at hend
    rw [dropComments_unended, hend]
    exact dropComments_nil.symm

theorem dropComments_eq_scanComments {cs : List Char} (h : ReturnsPaired cs) :
    dropComments cs = scanComments cs := by
  fun_induction scanComments cs with
  | case1 => exact dropComments_nil
  | case2 cs ih =>
    have hcs := h.of_suffix (List.suffix_cons _ cs)
    rw [dropComments_start hcs, ih (hcs.of_suffix (afterComment_suffix cs))]
  | case3 c cs hc ih =>
    have hslash : Reserved.commentStart ∉ [c] := by simp [Ne.symm hc]
    have hcons := dropComments_append hslash cs
    rw [List.singleton_append, ih (h.of_suffix (List.suffix_cons c cs))] at hcons
    exact hcons

/-! ## No line feed is left -/

theorem lineFeed_not_mem_joinLines (cs : List Char) : '\n' ∉ joinLines cs := by
  fun_induction joinLines cs with
  | case1 rest ih => simpa using ih
  | case2 rest ih => simpa using ih
  | case3 c rest _ hlf ih =>
    rw [List.mem_cons, not_or]
    exact ⟨fun hc => hlf hc.symm, ih⟩
  | case4 => exact List.not_mem_nil

theorem lineFeed_not_mem_clean (cs : List Char) : '\n' ∉ clean cs := by
  intro h
  exact lineFeed_not_mem_joinLines _
    (mem_of_mem_dropGaps ((List.dropWhile_suffix _).subset h))

/-- Removing the comments that a backslash closes and then those that end with their line is
removing comments in one scan, for every text whose carriage returns belong to line breaks. In every
cleaned text there is neither a slash nor a line feed. -/
theorem comments_in_one_scan (text : String) :
    (ReturnsPaired text.toList →
      dropLineComments (dropClosedComments text.toList) = scanComments text.toList) ∧
    '/' ∉ (normalize text).toList ∧ '\n' ∉ (normalize text).toList := by
  rw [normalize, String.toList_ofList]
  exact ⟨dropComments_eq_scanComments, commentStart_not_mem_clean _, lineFeed_not_mem_clean _⟩

/-- A closed comment, one that takes a carriage return and a line feed along, a backslash outside of
comments, and a slash inside of a comment. -/
theorem comments_in_one_scan_crlf :
    let text := "a/x\\b/y/z\r\nc\\d/ /e\\f/"
    ReturnsPaired text.toList ∧
      dropLineComments (dropClosedComments text.toList) = scanComments text.toList ∧
      scanComments text.toList = ['a', 'b', 'c', '\\', 'd', 'f'] := by
  intro text
  have hpaired : ReturnsPaired text.toList := by decide
  exact ⟨hpaired, (comments_in_one_scan text).1 hpaired, by decide +kernel⟩

end TapeMachine.Source
