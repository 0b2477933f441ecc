import TapeMachine.Opcode

/-! # Lexemes

The words of the program language, as they are written:

* `s` and an operand character, `r`, `l`, `d`;
* `j`, an operand character, and an address: `0`, or digits that do not start with a zero;
* `j`, an operand character, and a label name: a zero and then digits of which the first is not
  zero;
* `:` and a label name, which declares the label.

`scan?` reads the lexeme at the front of a text. Digits are read as far as they go. -/

namespace TapeMachine.Source
set_option autoImplicit false

/-- One word of the program language, digits kept as written. -/
inductive Lexeme where
  | set (operand : Char)
  | right
  | left
  | debug
  | jumpAddress (operand : Char) (digits : List Char)
  | jumpLabel (operand : Char) (name : List Char)
  | label (name : List Char)
  deriving DecidableEq, Repr

/-- The characters of a lexeme. -/
def Lexeme.spelling : Lexeme → List Char
  | set operand => [Opcode.set.marker, operand]
  | right => [Opcode.right.marker]
  | left => [Opcode.left.marker]
  | debug => [Opcode.debug.marker]
  | jumpAddress operand digits => Opcode.jump.marker :: operand :: digits
  | jumpLabel operand name => Opcode.jump.marker :: operand :: name
  | label name => Reserved.label :: name

theorem Lexeme.spelling_ne_nil (w : Lexeme) : w.spelling ≠ [] := by
  cases w <;> simp [spelling]

/-- The text of lexemes that follow one another directly. -/
def unspaced (ws : List Lexeme) : List Char :=
  ws.flatMap Lexeme.spelling

theorem unspaced_nil : unspaced [] = [] :=
  rfl

theorem unspaced_cons (w : Lexeme) (ws : List Lexeme) :
    unspaced (w :: ws) = w.spelling ++ unspaced ws := by
  rw [unspaced, unspaced, List.flatMap_cons]

theorem unspaced_singleton (w : Lexeme) : unspaced [w] = w.spelling := by
  rw [unspaced_cons, unspaced_nil, List.append_nil]

/-! ## Parts of a lexeme -/

/-- Whether a character can be an operand: a space or a visible ASCII character. -/
def isOperand (c : Char) : Bool :=
  decide (' ' ≤ c) && decide (c ≤ '~')

/-- Whether a character is a digit other than zero. -/
def isNonzeroDigit (c : Char) : Bool :=
  c.isDigit && c != '0'

/-- The address at the front of a text: a zero, or all digits if the first is not zero. -/
def address? : List Char → Option (List Char × List Char)
  | [] => none
  | c :: cs =>
    if c = '0' then some (['0'], cs)
    else if c.isDigit then some (c :: cs.takeWhile Char.isDigit, cs.dropWhile Char.isDigit)
    else none

/-- The label name at the front of a text: a zero and all digits after it, if the first of them
is not zero. -/
def labelName? : List Char → Option (List Char × List Char)
  | '0' :: c :: cs =>
    if isNonzeroDigit c then
      some ('0' :: c :: cs.takeWhile Char.isDigit, cs.dropWhile Char.isDigit)
    else none
  | _ => none

/-- Nothing is lost when an address is read. -/
theorem append_of_address? {cs ds rest : List Char} (h : address? cs = some (ds, rest)) :
    ds ++ rest = cs := by
  unfold address? at h
  split at h
  · simp at h
  · next c cs =>
    split at h
    · next hc =>
      injection h with h
      injection h with h₁ h₂
      subst h₁ h₂ hc
      rfl
    · split at h
      · injection h with h
        injection h with h₁ h₂
        subst h₁ h₂
        simp
      · simp at h

/-- Nothing is lost when a label name is read. -/
theorem append_of_labelName? {cs ds rest : List Char} (h : labelName? cs = some (ds, rest)) :
    ds ++ rest = cs := by
  unfold labelName? at h
  split at h
  · split at h
    · injection h with h
      injection h with h₁ h₂
      subst h₁ h₂
      simp
    · simp at h
  · simp at h

/-! ## The lexeme at the front of a text -/

/-- The lexeme after a jump marker. A zero that a label name can follow starts a label name. -/
def jump? : List Char → Option (Lexeme × List Char)
  | [] => none
  | c :: cs =>
    if isOperand c then
      match labelName? cs with
      | some (name, rest) => some (.jumpLabel c name, rest)
      | none => (address? cs).map fun (digits, rest) => (.jumpAddress c digits, rest)
    else none

/-- The lexeme after a set marker. -/
def set? : List Char → Option (Lexeme × List Char)
  | [] => none
  | c :: cs => if isOperand c then some (.set c, cs) else none

/-- The lexeme at the front of a text, and the rest of the text. -/
def scan? : List Char → Option (Lexeme × List Char)
  | [] => none
  | c :: cs =>
    match Opcode.ofMarker? c with
    | some .set => set? cs
    | some .right => some (.right, cs)
    | some .left => some (.left, cs)
    | some .debug => some (.debug, cs)
    | some .jump => jump? cs
    | none =>
      if c = Reserved.label then (labelName? cs).map fun (name, rest) => (.label name, rest)
      else none

theorem spelling_append_of_set? {cs rest : List Char} {w : Lexeme}
    (h : set? cs = some (w, rest)) : w.spelling ++ rest = Opcode.set.marker :: cs := by
  unfold set? at h
  split at h
  · simp at h
  · split at h
    · injection h with h
      injection h with h₁ h₂
      subst h₁ h₂
      rfl
    · simp at h

theorem spelling_append_of_jump? {cs rest : List Char} {w : Lexeme}
    (h : jump? cs = some (w, rest)) : w.spelling ++ rest = Opcode.jump.marker :: cs := by
  unfold jump? at h
  split at h
  · simp at h
  · split at h
    · split at h
      · next hn =>
        injection h with h
        injection h with h₁ h₂
        subst h₁ h₂
        simp [Lexeme.spelling, append_of_labelName? hn]
      · obtain ⟨⟨ds, r⟩, ha, he⟩ := Option.map_eq_some_iff.1 h
        injection he with h₁ h₂
        subst h₁ h₂
        simp [Lexeme.spelling, append_of_address? ha]
    · simp at h

/-- The lexeme and the rest make up the text. -/
theorem spelling_append_of_scan? {cs rest : List Char} {w : Lexeme}
    (h : scan? cs = some (w, rest)) : w.spelling ++ rest = cs := by
  unfold scan? at h
  split at h
  · simp at h
  · next c cs =>
    split at h
    · next hm => rw [spelling_append_of_set? h, Opcode.ofMarker?_eq_some_iff.1 hm]
    · next hm =>
      injection h with h
      injection h with h₁ h₂
      subst h₁ h₂
      simp [Lexeme.spelling, Opcode.ofMarker?_eq_some_iff.1 hm]
    · next hm =>
      injection h with h
      injection h with h₁ h₂
      subst h₁ h₂
      simp [Lexeme.spelling, Opcode.ofMarker?_eq_some_iff.1 hm]
    · next hm =>
      injection h with h
      injection h with h₁ h₂
      subst h₁ h₂
      simp [Lexeme.spelling, Opcode.ofMarker?_eq_some_iff.1 hm]
    · next hm => rw [spelling_append_of_jump? h, Opcode.ofMarker?_eq_some_iff.1 hm]
    · split at h
      · next hc =>
        obtain ⟨⟨name, r⟩, hn, he⟩ := Option.map_eq_some_iff.1 h
        injection he with h₁ h₂
        subst h₁ h₂
        simp [Lexeme.spelling, append_of_labelName? hn, hc]
      · simp at h

/-- Reading a lexeme uses up some of the text. -/
theorem length_lt_of_scan? {cs rest : List Char} {w : Lexeme}
    (h : scan? cs = some (w, rest)) : rest.length < cs.length := by
  have hw := List.length_pos_iff.2 w.spelling_ne_nil
  rw [← spelling_append_of_scan? h, List.length_append]
  omega

/-! ## The lexemes of a text -/

/-- The lexemes that can be read one after the other from the front of a text, and the rest in
front of which none can be read. -/
def scanAll (cs : List Char) : List Lexeme × List Char :=
  match _h : scan? cs with
  | none => ([], cs)
  | some (w, rest) =>
    let (ws, left) := scanAll rest
    (w :: ws, left)
termination_by cs.length
decreasing_by exact length_lt_of_scan? _h

/-- Nothing is lost when lexemes are read. -/
theorem spelling_append_scanAll (cs : List Char) :
    unspaced (scanAll cs).1 ++ (scanAll cs).2 = cs := by
  fun_induction scanAll cs with
  | case1 cs h => rfl
  | case2 cs w rest h ws left heq ih =>
    rw [heq] at ih
    rw [unspaced_cons, List.append_assoc, ih, spelling_append_of_scan? h]

end TapeMachine.Source
