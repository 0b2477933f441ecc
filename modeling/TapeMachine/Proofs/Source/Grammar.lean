import TapeMachine.Source.Clean
import TapeMachine.Source.Token

/-! # The words of the grammar

Which lexemes are words, said by their parts and without `scan?`: an operand is a space or a
visible ASCII character, an address is `0` or digits that do not start with a zero, a label name
is a zero and then digits that do not start with one. `scan?` reads a word wherever no further
digit follows it (`scan?_spelling_append`), and whatever it reads is a word (`isWord_of_scan?`).
No word starts with a digit, so words that follow one another are read back one by one
(`scanAll_words`). -/

namespace TapeMachine.Source
set_option autoImplicit false

/-! ## Classes of characters -/

theorem isDigit_iff {c : Char} : c.isDigit = true ↔ 48 ≤ c.toNat ∧ c.toNat ≤ 57 := by
  simp only [Char.isDigit, Bool.and_eq_true, decide_eq_true_eq, ge_iff_le, UInt32.le_iff_toNat_le]
  exact Iff.rfl

theorem isOperand_iff {c : Char} : isOperand c = true ↔ 32 ≤ c.toNat ∧ c.toNat ≤ 126 := by
  simp only [isOperand, Bool.and_eq_true, decide_eq_true_eq, Char.le_def, UInt32.le_iff_toNat_le]
  exact Iff.rfl

theorem isNonzeroDigit_iff {c : Char} :
    isNonzeroDigit c = true ↔ c.isDigit = true ∧ c ≠ '0' := by
  simp [isNonzeroDigit]

theorem isOperand_of_isDigit {c : Char} (h : c.isDigit = true) : isOperand c = true := by
  rw [isDigit_iff] at h
  rw [isOperand_iff]
  omega

theorem toNat_of_isWhitespace {c : Char} (h : Text.isWhitespace c = true) :
    c.toNat ≤ 32 ∨ 127 ≤ c.toNat := by
  obtain ⟨r, hr, h₁, h₂⟩ := Text.inRanges_iff.1 h
  simp only [Text.whitespaceRanges, List.mem_cons, List.not_mem_nil, or_false] at hr
  obtain rfl | rfl | rfl | rfl | rfl | rfl | rfl | rfl | rfl | rfl := hr <;> omega

theorem isDigit_of_isWhitespace {c : Char} (h : Text.isWhitespace c = true) :
    c.isDigit = false := by
  have hw := toNat_of_isWhitespace h
  rw [← Bool.not_eq_true, isDigit_iff]
  omega

theorem isWhitespace_of_isDigit {c : Char} (h : c.isDigit = true) :
    Text.isWhitespace c = false := by
  rw [← Bool.not_eq_true]
  intro hw
  rw [isDigit_of_isWhitespace hw] at h
  exact Bool.false_ne_true h

theorem isWhitespace_iff_of_isOperand {c : Char} (ho : isOperand c = true) :
    Text.isWhitespace c = true ↔ c = ' ' := by
  constructor
  · intro h
    have hw := toNat_of_isWhitespace h
    rw [isOperand_iff] at ho
    have hn : c.toNat = 32 := by omega
    exact Char.toNat_inj.1 hn
  · rintro rfl
    exact Text.isWhitespace_space

/-! ## Words -/

def isAddress : List Char → Bool
  | [] => false
  | c :: cs => if c = '0' then cs.isEmpty else c.isDigit && cs.all Char.isDigit

def isLabelName : List Char → Bool
  | '0' :: c :: cs => isNonzeroDigit c && cs.all Char.isDigit
  | _ => false

namespace Lexeme

def operand? : Lexeme → Option Char
  | set operand => some operand
  | jumpAddress operand _ => some operand
  | jumpLabel operand _ => some operand
  | right | left | debug | label _ => none

/-- Whether a lexeme is a word of the grammar. -/
def isWord : Lexeme → Bool
  | set operand => isOperand operand
  | right | left | debug => true
  | jumpAddress operand digits => isOperand operand && isAddress digits
  | jumpLabel operand name => isOperand operand && isLabelName name
  | label name => isLabelName name

/-- Whether a lexeme is a word that can stand in a program text: a slash would start a comment. -/
def isWritable (w : Lexeme) : Bool :=
  w.isWord && w.operand? != some Reserved.commentStart

def marker : Lexeme → Char
  | set _ => Opcode.set.marker
  | right => Opcode.right.marker
  | left => Opcode.left.marker
  | debug => Opcode.debug.marker
  | jumpAddress _ _ | jumpLabel _ _ => Opcode.jump.marker
  | label _ => Reserved.label

def arguments : Lexeme → List Char
  | set operand => [operand]
  | right | left | debug => []
  | jumpAddress operand digits => operand :: digits
  | jumpLabel operand name => operand :: name
  | label name => name

theorem spelling_eq (w : Lexeme) : w.spelling = w.marker :: w.arguments := by
  cases w <;> rfl

theorem spelling_set (c : Char) : (set c).spelling = [Opcode.set.marker, c] := rfl

def markers : List Char :=
  Reserved.label :: Opcode.all.map Opcode.marker

theorem marker_mem (w : Lexeme) : w.marker ∈ markers := by
  cases w <;> simp [marker, markers, Opcode.all]

theorem isDigit_of_mem_markers {c : Char} (h : c ∈ markers) : c.isDigit = false := by
  have hall : markers.all (fun d => d.isDigit == false) = true := by decide
  simpa using List.all_eq_true.1 hall c h

theorem isWhitespace_of_mem_markers {c : Char} (h : c ∈ markers) :
    Text.isWhitespace c = false := by
  have hall : markers.all (fun d => Text.isWhitespace d == false) = true := by decide
  simpa using List.all_eq_true.1 hall c h

theorem isDigit_marker (w : Lexeme) : w.marker.isDigit = false :=
  isDigit_of_mem_markers w.marker_mem

theorem isWhitespace_marker (w : Lexeme) : Text.isWhitespace w.marker = false :=
  isWhitespace_of_mem_markers w.marker_mem

theorem isOperand_marker (w : Lexeme) : isOperand w.marker = true := by
  cases w <;> rfl

theorem marker_ne_commentStart (w : Lexeme) : w.marker ≠ Reserved.commentStart := by
  cases w <;> simp [marker, Opcode.marker, Reserved.label, Reserved.commentStart]

theorem isWord_of_isWritable {w : Lexeme} (h : w.isWritable = true) : w.isWord = true := by
  rw [isWritable, Bool.and_eq_true] at h
  exact h.1

end Lexeme

/-! ## Digits -/

/-- The text does not go on with a digit. -/
def DigitsEnd (rest : List Char) : Prop :=
  ∀ c ∈ rest.head?, c.isDigit = false

theorem digitsEnd_nil : DigitsEnd [] := by
  intro c hc
  simp at hc

theorem digitsEnd_cons {c : Char} {rest : List Char} (h : c.isDigit = false) :
    DigitsEnd (c :: rest) := by
  intro d hd
  rw [List.head?_cons, Option.mem_some_iff] at hd
  rw [← hd, h]

theorem digitsEnd_spelling_append (w : Lexeme) (rest : List Char) :
    DigitsEnd (w.spelling ++ rest) := by
  rw [w.spelling_eq, List.cons_append]
  exact digitsEnd_cons w.isDigit_marker

theorem digitsEnd_words (ws : List Lexeme) {rest : List Char} (h : DigitsEnd rest) :
    DigitsEnd (unspaced ws ++ rest) := by
  cases ws with
  | nil => exact h
  | cons w ws =>
    rw [unspaced_cons, List.append_assoc]
    exact digitsEnd_spelling_append w _

theorem takeWhile_digits {ds rest : List Char} (hd : ∀ c ∈ ds, c.isDigit = true)
    (hr : DigitsEnd rest) : (ds ++ rest).takeWhile Char.isDigit = ds := by
  rw [List.takeWhile_append_of_pos hd]
  cases rest with
  | nil => simp
  | cons c rest => simp [hr c rfl]

theorem dropWhile_digits {ds rest : List Char} (hd : ∀ c ∈ ds, c.isDigit = true)
    (hr : DigitsEnd rest) : (ds ++ rest).dropWhile Char.isDigit = rest := by
  rw [List.dropWhile_append_of_pos hd]
  cases rest with
  | nil => simp
  | cons c rest => simp [hr c rfl]

theorem digits_append_inj {ds es x y : List Char} (hds : ∀ c ∈ ds, c.isDigit = true)
    (hes : ∀ c ∈ es, c.isDigit = true) (hx : DigitsEnd x) (hy : DigitsEnd y)
    (h : ds ++ x = es ++ y) : ds = es ∧ x = y := by
  have htake := congrArg (List.takeWhile Char.isDigit) h
  have hdrop := congrArg (List.dropWhile Char.isDigit) h
  rw [takeWhile_digits hds hx, takeWhile_digits hes hy] at htake
  rw [dropWhile_digits hds hx, dropWhile_digits hes hy] at hdrop
  exact ⟨htake, hdrop⟩

theorem isDigit_of_isAddress {ds : List Char} (h : isAddress ds = true) :
    ∀ c ∈ ds, c.isDigit = true := by
  cases ds with
  | nil => simp
  | cons d ds =>
    intro c hc
    by_cases hz : d = '0'
    · subst hz
      simp only [isAddress, if_true, List.isEmpty_iff] at h
      rw [h, List.mem_singleton] at hc
      rw [hc]
      rfl
    · simp only [isAddress, if_neg hz, Bool.and_eq_true, List.all_eq_true] at h
      rcases List.mem_cons.1 hc with rfl | hc
      · exact h.1
      · exact h.2 c hc

theorem isLabelName_iff {ds : List Char} :
    isLabelName ds = true ↔
      ∃ c cs, ds = '0' :: c :: cs ∧ isNonzeroDigit c = true ∧ ∀ d ∈ cs, d.isDigit = true := by
  constructor
  · intro h
    unfold isLabelName at h
    split at h
    · next c cs =>
      rw [Bool.and_eq_true, List.all_eq_true] at h
      exact ⟨c, cs, rfl, h.1, h.2⟩
    · simp at h
  · rintro ⟨c, cs, rfl, hc, hcs⟩
    simp only [isLabelName, hc, Bool.true_and, List.all_eq_true]
    exact hcs

theorem isDigit_of_isLabelName {ds : List Char} (h : isLabelName ds = true) :
    ∀ c ∈ ds, c.isDigit = true := by
  obtain ⟨c, cs, rfl, hc, hcs⟩ := isLabelName_iff.1 h
  intro d hd
  rcases List.mem_cons.1 hd with rfl | hd
  · rfl
  · rcases List.mem_cons.1 hd with rfl | hd
    · exact (isNonzeroDigit_iff.1 hc).1
    · exact hcs d hd

/-! ## The characters of a word -/

/-- Behind its marker a word has an operand, if it takes one, and digits. -/
theorem mem_arguments {w : Lexeme} (h : w.isWord = true) {c : Char} (hc : c ∈ w.arguments) :
    w.operand? = some c ∨ c.isDigit = true := by
  cases w with
  | set d =>
    rw [Lexeme.arguments, List.mem_singleton] at hc
    exact Or.inl (congrArg some hc.symm)
  | right | left | debug => cases hc
  | jumpAddress d ds =>
    rw [Lexeme.isWord, Bool.and_eq_true] at h
    rcases List.mem_cons.1 hc with hc | hc
    · exact Or.inl (congrArg some hc.symm)
    · exact Or.inr (isDigit_of_isAddress h.2 c hc)
  | jumpLabel d name =>
    rw [Lexeme.isWord, Bool.and_eq_true] at h
    rcases List.mem_cons.1 hc with hc | hc
    · exact Or.inl (congrArg some hc.symm)
    · exact Or.inr (isDigit_of_isLabelName h.2 c hc)
  | label name => exact Or.inr (isDigit_of_isLabelName h c hc)

theorem exists_arguments_of_operand? {w : Lexeme} {c : Char} (h : w.operand? = some c) :
    ∃ ds, w.arguments = c :: ds := by
  cases w with
  | set | jumpAddress | jumpLabel =>
    injection h with h
    rw [← h]
    exact ⟨_, rfl⟩
  | right | left | debug | label => cases h

theorem isDigit_of_mem_arguments {w : Lexeme} (hw : w.isWord = true)
    (ho : ∀ c ∈ w.operand?, c.isDigit = true) : ∀ c ∈ w.arguments, c.isDigit = true := by
  intro c hc
  rcases mem_arguments hw hc with h | h
  · exact ho c h
  · exact h

/-- Where digits stand behind the marker of a word, its operand is one of them. -/
theorem isDigit_of_arguments_append {w : Lexeme} {ds x y : List Char} (hw : w.isWord = true)
    (hne : ds ≠ []) (hds : ∀ c ∈ ds, c.isDigit = true) (h : w.arguments ++ x = ds ++ y) :
    ∀ c ∈ w.arguments, c.isDigit = true := by
  apply isDigit_of_mem_arguments hw
  intro c hc
  obtain ⟨as, has⟩ := exists_arguments_of_operand? hc
  obtain ⟨d, ds, rfl⟩ := List.exists_cons_of_ne_nil hne
  rw [has] at h
  rw [(List.cons.inj h).1]
  exact hds d List.mem_cons_self

theorem digits_of_jump {w : Lexeme} {c : Char} {ds : List Char} (hw : w.isWord = true)
    (h : w.spelling = Opcode.jump.marker :: c :: ds) :
    ds ≠ [] ∧ ∀ c ∈ ds, c.isDigit = true := by
  cases w with
  | set | right | left | debug | label =>
    injection h with hmarker _
    cases hmarker
  | jumpAddress d es =>
    obtain rfl : es = ds := (List.cons.inj (List.cons.inj h).2).2
    rw [Lexeme.isWord, Bool.and_eq_true] at hw
    refine ⟨?_, isDigit_of_isAddress hw.2⟩
    rintro rfl
    cases hw.2
  | jumpLabel d es =>
    obtain rfl : es = ds := (List.cons.inj (List.cons.inj h).2).2
    rw [Lexeme.isWord, Bool.and_eq_true] at hw
    refine ⟨?_, isDigit_of_isLabelName hw.2⟩
    rintro rfl
    cases hw.2

theorem isDigit_of_mem_tail_arguments {w : Lexeme} (hw : w.isWord = true) {c : Char}
    (ho : w.operand? = some c) : ∀ d ∈ w.arguments.tail, d.isDigit = true := by
  cases w with
  | set d =>
    intro e he
    cases he
  | jumpAddress d ds | jumpLabel d ds => exact (digits_of_jump hw rfl).2
  | right | left | debug | label => cases ho

theorem mem_spelling_of_operand? {w : Lexeme} {c : Char} (hc : w.operand? = some c) :
    c ∈ w.spelling := by
  cases w with
  | set | jumpAddress | jumpLabel =>
    injection hc with hc
    rw [← hc]
    exact List.mem_cons_of_mem _ List.mem_cons_self
  | right | left | debug | label => cases hc

theorem isOperand_of_operand? {w : Lexeme} (h : w.isWord = true) {c : Char}
    (hc : w.operand? = some c) : isOperand c = true := by
  cases w with
  | set d =>
    injection hc with hc
    rw [← hc]
    exact h
  | right | left | debug | label => cases hc
  | jumpAddress | jumpLabel =>
    rw [Lexeme.isWord, Bool.and_eq_true] at h
    injection hc with hc
    rw [← hc]
    exact h.1

/-- White space in a word could only be a blank operand. -/
theorem operand?_of_isWhitespace {w : Lexeme} {b : Char} (hw : w.isWord = true)
    (hmem : b ∈ w.arguments) (hb : Text.isWhitespace b = true) : w.operand? = some ' ' := by
  obtain hop | hdigit := mem_arguments hw hmem
  · rwa [(isWhitespace_iff_of_isOperand (isOperand_of_operand? hw hop)).1 hb] at hop
  · rw [isWhitespace_of_isDigit hdigit] at hb
    cases hb

theorem isOperand_of_mem_spelling {w : Lexeme} (h : w.isWord = true) {c : Char}
    (hc : c ∈ w.spelling) : isOperand c = true := by
  rw [w.spelling_eq] at hc
  rcases List.mem_cons.1 hc with rfl | hc
  · exact w.isOperand_marker
  · rcases mem_arguments h hc with hc | hc
    · exact isOperand_of_operand? h hc
    · exact isOperand_of_isDigit hc

theorem isLineEnd_of_mem_spelling {w : Lexeme} (h : w.isWord = true) {c : Char}
    (hc : c ∈ w.spelling) : isLineEnd c = false := by
  have ho := isOperand_of_mem_spelling h hc
  rw [← Bool.not_eq_true, isLineEnd, Bool.or_eq_true, beq_iff_eq, beq_iff_eq]
  rintro (rfl | rfl) <;> exact absurd ho (by decide)

/-- A slash in a word could only be its operand. -/
theorem commentStart_not_mem_spelling {w : Lexeme} (h : w.isWritable = true) :
    Reserved.commentStart ∉ w.spelling := by
  rw [Lexeme.isWritable, Bool.and_eq_true, bne_iff_ne] at h
  rw [w.spelling_eq, List.mem_cons, not_or]
  refine ⟨Ne.symm w.marker_ne_commentStart, ?_⟩
  intro hc
  rcases mem_arguments h.1 hc with hc | hc
  · exact h.2 hc
  · exact absurd hc (by decide)

/-! ## Reading a number -/

theorem address?_append {ds rest : List Char} (h : isAddress ds = true) (hr : DigitsEnd rest) :
    address? (ds ++ rest) = some (ds, rest) := by
  have hd := isDigit_of_isAddress h
  cases ds with
  | nil => simp [isAddress] at h
  | cons d ds =>
    rw [List.cons_append, address?]
    by_cases hz : d = '0'
    · subst hz
      simp only [isAddress, if_true, List.isEmpty_iff] at h
      rw [h, if_pos rfl, List.nil_append]
    · have hds : ∀ c ∈ ds, c.isDigit = true := fun c hc => hd c (List.mem_cons_of_mem d hc)
      rw [if_neg hz, if_pos (hd d List.mem_cons_self), takeWhile_digits hds hr,
        dropWhile_digits hds hr]

theorem labelName?_append {ds rest : List Char} (h : isLabelName ds = true)
    (hr : DigitsEnd rest) : labelName? (ds ++ rest) = some (ds, rest) := by
  obtain ⟨c, cs, rfl, hc, hcs⟩ := isLabelName_iff.1 h
  simp only [List.cons_append, labelName?, if_pos hc, takeWhile_digits hcs hr,
    dropWhile_digits hcs hr]

/-- An address is not taken for a label name: no digit follows the address `0`. -/
theorem labelName?_address_append {ds rest : List Char} (h : isAddress ds = true)
    (hr : DigitsEnd rest) : labelName? (ds ++ rest) = none := by
  cases ds with
  | nil => simp [isAddress] at h
  | cons d ds =>
    by_cases hz : d = '0'
    · subst hz
      simp only [isAddress, if_true, List.isEmpty_iff] at h
      subst h
      cases rest with
      | nil => rfl
      | cons c rest => simp [labelName?, isNonzeroDigit, hr c rfl]
    · unfold labelName?
      split
      · next heq =>
        injection heq with heq
        exact absurd heq hz
      · rfl

theorem isAddress_of_address? {cs ds rest : List Char} (h : address? cs = some (ds, rest)) :
    isAddress ds = true := by
  unfold address? at h
  split at h
  · simp at h
  · next c cs =>
    split at h
    · injection h with h
      injection h with h₁ h₂
      rw [← h₁]
      rfl
    · next hz =>
      split at h
      · next hc =>
        injection h with h
        injection h with h₁ h₂
        rw [← h₁, isAddress, if_neg hz, hc, Bool.true_and, List.all_takeWhile]
      · simp at h

theorem isLabelName_of_labelName? {cs ds rest : List Char}
    (h : labelName? cs = some (ds, rest)) : isLabelName ds = true := by
  unfold labelName? at h
  split at h
  · split at h
    · next hc =>
      injection h with h
      injection h with h₁ h₂
      rw [← h₁, isLabelName, hc, Bool.true_and, List.all_takeWhile]
    · simp at h
  · simp at h

/-! ## Reading a word -/

theorem scan?_set (cs : List Char) : scan? (Opcode.set.marker :: cs) = set? cs := rfl

theorem scan?_jump (cs : List Char) : scan? (Opcode.jump.marker :: cs) = jump? cs := rfl

theorem scan?_label (cs : List Char) :
    scan? (Reserved.label :: cs) = (labelName? cs).map fun (name, rest) => (.label name, rest) :=
  rfl

theorem scan?_spelling_append {w : Lexeme} {rest : List Char} (h : w.isWord = true)
    (hr : DigitsEnd rest) : scan? (w.spelling ++ rest) = some (w, rest) := by
  cases w with
  | set c =>
    simp only [Lexeme.isWord] at h
    simp only [Lexeme.spelling, List.cons_append, List.nil_append, scan?_set, set?, if_pos h]
  | right => rfl
  | left => rfl
  | debug => rfl
  | jumpAddress c ds =>
    simp only [Lexeme.isWord, Bool.and_eq_true] at h
    simp only [Lexeme.spelling, List.cons_append, scan?_jump, jump?, if_pos h.1,
      labelName?_address_append h.2 hr, address?_append h.2 hr, Option.map_some]
  | jumpLabel c name =>
    simp only [Lexeme.isWord, Bool.and_eq_true] at h
    simp only [Lexeme.spelling, List.cons_append, scan?_jump, jump?, if_pos h.1,
      labelName?_append h.2 hr]
  | label name =>
    simp only [Lexeme.isWord] at h
    simp only [Lexeme.spelling, List.cons_append, scan?_label, labelName?_append h hr,
      Option.map_some]

theorem isWord_of_set? {cs rest : List Char} {w : Lexeme} (h : set? cs = some (w, rest)) :
    w.isWord = true := by
  unfold set? at h
  split at h
  · simp at h
  · split at h
    · next hc =>
      injection h with h
      injection h with h₁ h₂
      rw [← h₁]
      exact hc
    · simp at h

theorem isWord_of_jump? {cs rest : List Char} {w : Lexeme} (h : jump? cs = some (w, rest)) :
    w.isWord = true := by
  unfold jump? at h
  split at h
  · simp at h
  · split at h
    · next hc =>
      split at h
      · next hn =>
        injection h with h
        injection h with h₁ h₂
        rw [← h₁, Lexeme.isWord, hc, isLabelName_of_labelName? hn]
        rfl
      · obtain ⟨⟨ds, r⟩, ha, he⟩ := Option.map_eq_some_iff.1 h
        injection he with h₁ h₂
        rw [← h₁, Lexeme.isWord, hc, isAddress_of_address? ha]
        rfl
    · simp at h

theorem isWord_of_scan? {cs rest : List Char} {w : Lexeme} (h : scan? cs = some (w, rest)) :
    w.isWord = true := by
  unfold scan? at h
  split at h
  · simp at h
  · split at h
    · exact isWord_of_set? h
    · injection h with h
      injection h with h₁ h₂
      rw [← h₁]
      rfl
    · injection h with h
      injection h with h₁ h₂
      rw [← h₁]
      rfl
    · injection h with h
      injection h with h₁ h₂
      rw [← h₁]
      rfl
    · exact isWord_of_jump? h
    · split at h
      · obtain ⟨⟨name, r⟩, hn, he⟩ := Option.map_eq_some_iff.1 h
        injection he with h₁ h₂
        rw [← h₁, Lexeme.isWord, isLabelName_of_labelName? hn]
      · simp at h

/-! ## Reading words one after the other -/

theorem scanAll_of_none {cs : List Char} (h : scan? cs = none) : scanAll cs = ([], cs) := by
  rw [scanAll]
  split
  · rfl
  · next heq => simp [h] at heq

theorem scanAll_nil : scanAll [] = ([], []) :=
  scanAll_of_none rfl

theorem scanAll_of_some {cs rest : List Char} {w : Lexeme} (h : scan? cs = some (w, rest)) :
    scanAll cs = (w :: (scanAll rest).1, (scanAll rest).2) := by
  rw [scanAll]
  split
  · next heq => simp [h] at heq
  · next w' rest' heq =>
    rw [h] at heq
    injection heq with heq
    injection heq with h₁ h₂
    subst h₁ h₂
    rfl

/-- Words at the front of a text are read back one by one. -/
theorem scanAll_words_append {ws : List Lexeme} (h : ∀ w ∈ ws, w.isWord = true)
    {rest : List Char} (hr : DigitsEnd rest) :
    scanAll (unspaced ws ++ rest) = (ws ++ (scanAll rest).1, (scanAll rest).2) := by
  induction ws with
  | nil => rfl
  | cons w ws ih =>
    have hw : scan? (w.spelling ++ (unspaced ws ++ rest)) = some (w, unspaced ws ++ rest) :=
      scan?_spelling_append (h w List.mem_cons_self) (digitsEnd_words ws hr)
    rw [unspaced_cons, List.append_assoc, scanAll_of_some hw,
      ih fun v hv => h v (List.mem_cons_of_mem w hv)]
    rfl

theorem scanAll_words {ws : List Lexeme} (h : ∀ w ∈ ws, w.isWord = true) :
    scanAll (unspaced ws) = (ws, []) := by
  have hs := scanAll_words_append h digitsEnd_nil
  rw [List.append_nil, scanAll_nil, List.append_nil] at hs
  exact hs

theorem isWord_of_mem_scanAll {cs : List Char} :
    ∀ w ∈ (scanAll cs).1, w.isWord = true := by
  fun_induction scanAll cs with
  | case1 cs h => simp
  | case2 cs w rest h ws left heq ih =>
    rw [heq] at ih
    intro v hv
    rcases List.mem_cons.1 hv with rfl | hv
    · exact isWord_of_scan? h
    · exact ih v hv

theorem tokens_words {ws : List Lexeme} (h : ∀ w ∈ ws, w.isWord = true) :
    tokens (unspaced ws) = .ok (ws.map Lexeme.token) := by
  rw [tokens, scanAll_words h]

/-- A text that has tokens is made of the words that they come from. -/
theorem exists_words_of_tokens {cs : List Char} {ts : List Token} (h : tokens cs = .ok ts) :
    ∃ ws : List Lexeme, (∀ w ∈ ws, w.isWord = true) ∧ unspaced ws = cs
      ∧ ws.map Lexeme.token = ts := by
  have hcs := spelling_append_scanAll cs
  refine ⟨(scanAll cs).1, isWord_of_mem_scanAll, ?_⟩
  unfold tokens at h
  split at h
  · next ws heq =>
    injection h with h
    rw [heq, List.append_nil] at hcs
    rw [heq]
    exact ⟨hcs, h⟩
  · simp at h

end TapeMachine.Source
