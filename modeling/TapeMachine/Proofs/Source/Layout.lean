import TapeMachine.Proofs.Source.Clean

/-! # Laid-out program texts

A layout is a program text as somebody may write it: words, and between them separators of white
space and comments. A separator may be empty, and the text may end inside of a comment. One place
needs white space: behind `ss` if it is not the last word, since the cleaning of a text would take
its second `s` and the marker of the next word for a lexeme, and a blank operand for the gap behind
that. A laid-out text is read as it is written (`Layout.tokenize_text`). -/

namespace TapeMachine.Source
set_option autoImplicit false

/-! ## Separators -/

/-- The characters between the slash and the end of a comment: no backslash, no line end. -/
structure CommentBody where
  chars : List Char
  inside : ∀ c ∈ chars, isClosedBody c = true

/-- The ways to end a line. -/
inductive LineBreak where
  | lf
  | crlf
  deriving DecidableEq, Repr

def LineBreak.spelling : LineBreak → List Char
  | lf => ['\n']
  | crlf => ['\r', '\n']

/-- A part of a separator. -/
inductive Filler where
  /-- One character of white space. -/
  | space (c : Char) (h : Text.isWhitespace c = true)
  /-- A comment that a backslash closes. -/
  | closedComment (body : CommentBody)
  /-- A comment that takes the end of its line along. -/
  | lineComment (body : CommentBody) (lineBreak : LineBreak)

namespace Filler

def spelling : Filler → List Char
  | space c _ => [c]
  | closedComment body => Reserved.commentStart :: (body.chars ++ [Reserved.commentEnd])
  | lineComment body lineBreak => Reserved.commentStart :: (body.chars ++ lineBreak.spelling)

/-- Whether the part is white space outside of comments. -/
def isSpace : Filler → Bool
  | space _ _ => true
  | closedComment _ | lineComment _ _ => false

/-- What the part leaves when comments are gone. -/
def blanks : Filler → List Char
  | space c _ => [c]
  | closedComment _ | lineComment _ _ => []

theorem isWhitespace_of_mem_blanks (f : Filler) : ∀ c ∈ f.blanks, Text.isWhitespace c = true := by
  cases f with
  | space c h =>
    intro d hd
    rw [blanks, List.mem_singleton] at hd
    rw [hd, h]
  | closedComment | lineComment =>
    intro d hd
    cases hd

end Filler

theorem CommentBody.isClosedBody_of_mem (body : CommentBody) :
    ∀ c ∈ Reserved.commentStart :: body.chars, isClosedBody c = true := by
  intro c hc
  rcases List.mem_cons.1 hc with rfl | hc
  · decide
  · exact body.inside c hc

theorem CommentBody.isLineEnd_of_mem (body : CommentBody) :
    ∀ c ∈ body.chars, isLineEnd c = false := by
  intro c hc
  exact isLineEnd_of_isClosedBody (body.inside c hc)

theorem lineEnds_lineBreak_append (b : LineBreak) (rest : List Char) :
    LineEnds (b.spelling ++ rest) := by
  intro c hc
  cases b <;> (injection hc with hc; subst hc; rfl)

theorem dropLineBreak_append (b : LineBreak) (rest : List Char) :
    dropLineBreak (b.spelling ++ rest) = rest := by
  cases b <;> rfl

theorem dropComments_line (body : CommentBody) (b : LineBreak) (rest : List Char) :
    dropComments (Reserved.commentStart :: (body.chars ++ (b.spelling ++ rest)))
      = dropComments rest := by
  have hbreak : Reserved.commentStart ∉ b.spelling := by cases b <;> decide
  have hclosed := dropClosedComments_line body.isClosedBody_of_mem
    (lineEnds_lineBreak_append b rest)
  rw [List.cons_append, List.cons_append, dropClosedComments_append hbreak] at hclosed
  rw [dropComments, hclosed, dropLineComments_start,
    afterLine_append body.isLineEnd_of_mem (lineEnds_lineBreak_append b _), dropLineBreak_append,
    dropComments]

theorem dropComments_unended (body : CommentBody) :
    dropComments (Reserved.commentStart :: body.chars) = [] := by
  have hend : LineEnds [] := by
    intro c hc
    simp at hc
  have hclosed := dropClosedComments_line body.isClosedBody_of_mem hend
  rw [dropClosedComments_nil, List.append_nil] at hclosed
  have hline := afterLine_append body.isLineEnd_of_mem hend
  rw [List.append_nil] at hline
  rw [dropComments, hclosed, dropLineComments_start, hline]
  exact dropLineComments_nil

theorem dropComments_filler (f : Filler) (rest : List Char) :
    dropComments (f.spelling ++ rest) = f.blanks ++ dropComments rest := by
  cases f with
  | space c h =>
    apply dropComments_append
    rw [Filler.spelling, List.mem_singleton]
    rintro rfl
    exact absurd h (by decide)
  | closedComment body =>
    have hclosed := dropComments_closed body.inside rest
    rw [Filler.spelling, List.cons_append, List.append_assoc]
    exact hclosed
  | lineComment body b =>
    rw [Filler.spelling, List.cons_append, List.append_assoc]
    exact dropComments_line body b rest

theorem dropComments_separator (fs : List Filler) (rest : List Char) :
    dropComments (fs.flatMap Filler.spelling ++ rest)
      = fs.flatMap Filler.blanks ++ dropComments rest := by
  induction fs with
  | nil => rfl
  | cons f fs ih =>
    rw [List.flatMap_cons, List.append_assoc, dropComments_filler, ih, List.flatMap_cons,
      List.append_assoc]

theorem isWhitespace_of_mem_separator (fs : List Filler) :
    ∀ c ∈ fs.flatMap Filler.blanks, Text.isWhitespace c = true := by
  intro c hc
  obtain ⟨f, _, hc⟩ := List.mem_flatMap.1 hc
  exact f.isWhitespace_of_mem_blanks c hc

theorem blanks_ne_nil_of_any_isSpace {fs : List Filler} (h : fs.any Filler.isSpace = true) :
    fs.flatMap Filler.blanks ≠ [] := by
  obtain ⟨f, hf, hs⟩ := List.any_eq_true.1 h
  intro hnil
  rw [List.flatMap_eq_nil_iff] at hnil
  have hblank := hnil f hf
  cases f with
  | space c h => cases hblank
  | closedComment | lineComment => cases hs

/-! ## Layouts -/

/-- A word that can stand in a program text, with the separator behind it. -/
structure Piece where
  word : Lexeme
  separator : List Filler
  writable : word.isWritable = true

def Piece.spelling (x : Piece) : List Char :=
  x.word.spelling ++ x.separator.flatMap Filler.spelling

/-- A program text as it is written: a separator, the words with theirs, and the comment, if any,
that the end of the text ends. -/
structure Layout where
  lead : List Filler
  pieces : List Piece
  unended : Option CommentBody
  /-- There is white space behind `ss`, unless it is the last word. -/
  set_spaced : ∀ x ∈ pieces.dropLast, x.word = .set Opcode.set.marker →
    x.separator.any Filler.isSpace = true

namespace Layout

def words (l : Layout) : List Lexeme :=
  l.pieces.map Piece.word

/-- The comment at the end of a layout. -/
def trailer (l : Layout) : List Char :=
  match l.unended with
  | none => []
  | some body => Reserved.commentStart :: body.chars

def spelling (l : Layout) : List Char :=
  l.lead.flatMap Filler.spelling ++ (l.pieces.flatMap Piece.spelling ++ l.trailer)

def text (l : Layout) : String :=
  String.ofList l.spelling

/-- The words with what their separators leave. -/
def items (l : Layout) : List (Lexeme × List Char) :=
  l.pieces.map fun x => (x.word, x.separator.flatMap Filler.blanks)

theorem isWord_of_mem_words (l : Layout) : ∀ w ∈ l.words, w.isWord = true := by
  intro w hw
  obtain ⟨x, _, rfl⟩ := List.mem_map.1 hw
  exact Lexeme.isWord_of_isWritable x.writable

theorem dropComments_trailer (l : Layout) : dropComments l.trailer = [] := by
  rw [trailer]
  cases l.unended with
  | none => exact dropComments_nil
  | some body => exact dropComments_unended body

theorem dropComments_pieces (xs : List Piece) (rest : List Char) :
    dropComments (xs.flatMap Piece.spelling ++ rest)
      = gapped (xs.map fun x => (x.word, x.separator.flatMap Filler.blanks))
        ++ dropComments rest := by
  induction xs with
  | nil => rfl
  | cons x xs ih =>
    rw [List.flatMap_cons, Piece.spelling, List.append_assoc, List.append_assoc,
      dropComments_append (commentStart_not_mem_spelling x.writable), dropComments_separator, ih,
      List.map_cons, gapped_cons, List.append_assoc, List.append_assoc]

theorem dropComments_spelling (l : Layout) :
    dropComments l.spelling = l.lead.flatMap Filler.blanks ++ gapped l.items := by
  rw [spelling, dropComments_separator, dropComments_pieces, dropComments_trailer,
    List.append_nil, items]

theorem areItems_items (l : Layout) : AreItems l.items := by
  intro i hi
  obtain ⟨x, _, rfl⟩ := List.mem_map.1 hi
  exact ⟨Lexeme.isWord_of_isWritable x.writable, isWhitespace_of_mem_separator x.separator⟩

theorem isChain_items (l : Layout) : l.items.IsChain KeepsAfterGap := by
  apply isChain_keepsAfterGap
  intro i hi hset
  rw [items, ← List.map_dropLast] at hi
  obtain ⟨x, hx, rfl⟩ := List.mem_map.1 hi
  exact blanks_ne_nil_of_any_isSpace (l.set_spaced x hx hset)

theorem clean_spelling (l : Layout) : clean l.spelling = unspaced l.words := by
  have hwords : l.items.map Prod.fst = l.words := by
    rw [items, words, List.map_map]
    rfl
  rw [clean_of_dropComments l.dropComments_spelling (isWhitespace_of_mem_separator l.lead)
    l.areItems_items l.isChain_items, hwords]

/-- A laid-out text is read as it is written: its tokens are those of its words, and it assembles
to what these tokens resolve to. -/
theorem tokenize_text (l : Layout) :
    tokenize (normalize l.text) = .ok (l.words.map Lexeme.token)
      ∧ assemble l.text = (parse (l.words.map Lexeme.token)).map Program.ofList := by
  have hclean : clean l.text.toList = unspaced l.words := by
    rw [text, String.toList_ofList, l.clean_spelling]
  constructor
  · rw [tokenize, normalize, String.toList_ofList, hclean, tokens_words l.isWord_of_mem_words]
  · exact assemble_of_clean hclean l.isWord_of_mem_words

/-- In `sj:01 ` the search takes `j:01` for a lexeme, and this ends where the label ends. -/
theorem tokenize_text_unseparated :
    let text := "sj:01 ss/ a/b\r\n\tj\\01/\\sxrs "
    tokenize (normalize text) =
        .ok [.set 'j', .label "01", .set 's', .jump '\\' (.label "01"), .set 'x', .right, .set ' ']
      ∧ assemble text = .ok (.ofList [.set (.mark 'j'), .set (.mark 's'), .jump (.mark '\\') 1,
        .set (.mark 'x'), .right, .set .blank]) := by
  let layout : Layout :=
    { lead := []
      pieces :=
        [⟨.set 'j', [], by decide⟩,
         ⟨.label ['0', '1'], [.space ' ' (by decide)], by decide⟩,
         ⟨.set 's',
            [.lineComment ⟨[' ', 'a', '/', 'b'], List.all_eq_true.1 (by decide)⟩ .crlf,
              .space '\t' (by decide)],
            by decide⟩,
         ⟨.jumpLabel '\\' ['0', '1'], [.closedComment ⟨[], List.all_eq_true.1 rfl⟩],
            by decide⟩,
         ⟨.set 'x', [], by decide⟩,
         ⟨.right, [], by decide⟩,
         ⟨.set ' ', [], by decide⟩]
      unended := none
      set_spaced := by decide }
  exact tokenize_text layout

end Layout
end TapeMachine.Source
