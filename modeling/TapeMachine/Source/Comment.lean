import TapeMachine.Opcode

/-! # Comments and line breaks

A slash starts a comment. The comment ends at the first backslash of its line; where the line has
none, it ends with the line and takes the line break along. The two kinds are removed one after
the other over the whole text: first the comments that a backslash closes, then what is left. A
line break is a line feed, or a carriage return and a line feed; a carriage return that stands
alone breaks no line, and no comment reaches past it. -/

namespace TapeMachine.Source
set_option autoImplicit false

/-- Whether a character ends a line or may start a line break. -/
def isLineEnd (c : Char) : Bool :=
  c == '\n' || c == '\r'

/-! ## Comments closed by a backslash -/

/-- Whether a character can stand inside a comment that a backslash closes. -/
def isClosedBody (c : Char) : Bool :=
  !isLineEnd c && c != Reserved.commentEnd

/-- What follows the first backslash of the line. -/
def afterCommentEnd? (cs : List Char) : Option (List Char) :=
  match cs.dropWhile isClosedBody with
  | [] => none
  | c :: rest => if c = Reserved.commentEnd then some rest else none

theorem length_lt_of_afterCommentEnd? {cs rest : List Char}
    (h : afterCommentEnd? cs = some rest) : rest.length < cs.length := by
  unfold afterCommentEnd? at h
  split at h
  · simp at h
  · next c r hd =>
    split at h
    · injection h with h
      subst h
      have hle := (List.dropWhile_suffix isClosedBody (l := cs)).length_le
      rw [hd, List.length_cons] at hle
      omega
    · simp at h

/-- The text without the comments that a backslash closes. -/
def dropClosedComments : List Char → List Char
  | [] => []
  | c :: cs =>
    if c = Reserved.commentStart then
      match _h : afterCommentEnd? cs with
      | some rest => dropClosedComments rest
      | none => c :: dropClosedComments cs
    else c :: dropClosedComments cs
termination_by cs => cs.length
decreasing_by
  · have := length_lt_of_afterCommentEnd? _h
    simp only [List.length_cons]
    omega
  · simp
  · simp

/-! ## Comments that end with their line -/

/-- The text without the line break at its front, if it starts with one. -/
def dropLineBreak : List Char → List Char
  | '\r' :: '\n' :: rest => rest
  | '\n' :: rest => rest
  | cs => cs

/-- What follows the line that the text starts with. -/
def afterLine (cs : List Char) : List Char :=
  dropLineBreak (cs.dropWhile fun c => !isLineEnd c)

theorem length_dropLineBreak_le (cs : List Char) : (dropLineBreak cs).length ≤ cs.length := by
  unfold dropLineBreak
  split
  · simp only [List.length_cons]
    omega
  · simp only [List.length_cons]
    omega
  · exact Nat.le_refl _

theorem length_afterLine_le (cs : List Char) : (afterLine cs).length ≤ cs.length :=
  Nat.le_trans (length_dropLineBreak_le _) (List.dropWhile_suffix _).length_le

/-- The text without what stands between a slash and the end of its line, line break included. -/
def dropLineComments : List Char → List Char
  | [] => []
  | c :: cs =>
    if c = Reserved.commentStart then dropLineComments (afterLine cs)
    else c :: dropLineComments cs
termination_by cs => cs.length
decreasing_by
  · have := length_afterLine_le cs
    simp only [List.length_cons]
    omega
  · simp

/-- The text without comments. -/
def dropComments (cs : List Char) : List Char :=
  dropLineComments (dropClosedComments cs)

/-! ## Line breaks -/

/-- The text with a space for each line break. -/
def joinLines : List Char → List Char
  | '\r' :: '\n' :: rest => ' ' :: joinLines rest
  | '\n' :: rest => ' ' :: joinLines rest
  | c :: rest => c :: joinLines rest
  | [] => []

end TapeMachine.Source
