/-! # Tape cells

One square of the tape, the character it shows, and the normal form in which a square that shows
a space is always `blank`. -/

namespace TapeMachine
set_option autoImplicit false

/-- One square of the tape: nothing written, or a written character. A hand-built `mark ' '`
shows the same character as `blank` and is a different value. -/
inductive Cell where
  | blank
  | mark (c : Char)
  deriving DecidableEq, Repr

namespace Cell

instance : Inhabited Cell := ⟨blank⟩

/-- The character that stands for a blank square, in programs and in output. -/
def blankChar : Char := ' '

/-- Whether nothing is written. -/
def isBlank : Cell → Bool
  | blank => true
  | mark _ => false

/-- The character a square shows. -/
def toChar : Cell → Char
  | blank => blankChar
  | mark c => c

/-- The square that a character writes: a space writes nothing. -/
def ofChar (c : Char) : Cell :=
  if c = blankChar then blank else mark c

/-- The square that shows the same character and is `blank` whenever it shows a space. -/
def normalize (x : Cell) : Cell :=
  ofChar x.toChar

/-- The text of one square. -/
def text (x : Cell) : String :=
  String.ofList [x.toChar]

/-! ## Reading back what is shown -/

@[simp]
theorem toChar_blank : blank.toChar = ' ' := rfl

@[simp]
theorem toChar_mark (c : Char) : (mark c).toChar = c := rfl

@[simp]
theorem toChar_ofChar (c : Char) : (ofChar c).toChar = c := by
  unfold ofChar
  split
  · next h => rw [h]; rfl
  · rfl

theorem ofChar_inj {c d : Char} : ofChar c = ofChar d ↔ c = d := by
  constructor
  · intro h
    rw [← toChar_ofChar c, h, toChar_ofChar]
  · intro h
    rw [h]

@[simp]
theorem ofChar_toChar (x : Cell) : ofChar x.toChar = x.normalize := rfl

@[simp]
theorem toChar_normalize (x : Cell) : x.normalize.toChar = x.toChar :=
  toChar_ofChar _

@[simp]
theorem normalize_ofChar (c : Char) : (ofChar c).normalize = ofChar c := by
  rw [normalize, toChar_ofChar]

@[simp]
theorem normalize_blank : blank.normalize = blank := rfl

/-- Two squares show the same character exactly when their normal forms are equal. -/
theorem toChar_eq_iff {x y : Cell} : x.toChar = y.toChar ↔ x.normalize = y.normalize := by
  constructor
  · intro h
    rw [normalize, normalize, h]
  · intro h
    rw [← toChar_normalize x, h, toChar_normalize]

/-- A square is in normal form unless it is a written space. -/
theorem normalize_eq_self_iff {x : Cell} : x.normalize = x ↔ x ≠ mark ' ' := by
  cases x with
  | blank => simp
  | mark c =>
    by_cases h : c = ' '
    · subst h
      simp [normalize, ofChar, blankChar]
    · simp [normalize, ofChar, blankChar, h]

end Cell
end TapeMachine
