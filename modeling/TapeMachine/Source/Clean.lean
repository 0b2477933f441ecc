import TapeMachine.Source.Comment
import TapeMachine.Source.Lexeme
import TapeMachine.Text.Property

/-! # Cleaned texts

A program text is cleaned before it is read: comments go, line breaks become spaces, and the white
space after a lexeme goes. White space that no lexeme stands before is kept, so that the operand
of `s ` survives. A lexeme is looked for at every place of the text, also inside of what will be
read as another lexeme. -/

namespace TapeMachine.Source
set_option autoImplicit false

/-- The text without the white space after a lexeme. The places of the text are taken from left to
right; at a place where a lexeme is followed by white space, the text goes on after both. -/
def dropGaps : List Char → List Char
  | [] => []
  | c :: cs =>
    match _h : scan? (c :: cs) with
    | some (w, b :: rest) =>
      if Text.isWhitespace b then w.spelling ++ dropGaps (rest.dropWhile Text.isWhitespace)
      else c :: dropGaps cs
    | _ => c :: dropGaps cs
termination_by cs => cs.length
decreasing_by
  · have h₁ := length_lt_of_scan? _h
    have h₂ := (List.dropWhile_suffix Text.isWhitespace (l := rest)).length_le
    simp only [List.length_cons] at h₁ ⊢
    omega
  · simp
  · simp

/-- The cleaned characters of a program text. -/
def clean (cs : List Char) : List Char :=
  (dropGaps (joinLines (dropComments cs))).dropWhile Text.isWhitespace

/-- The cleaned program text. -/
def normalize (text : String) : String :=
  String.ofList (clean text.toList)

end TapeMachine.Source
