import TapeMachine.Proofs.Source.Grammar

/-! # The language that is tokenized

A text has tokens exactly if it is words, written one after the other, and there is only one way to
see it so. Words are read greedily and no choice is taken back. That loses nothing: of two words at
the front of a text the longer one goes on with a digit where the shorter one ends, and no word
starts with a digit. So the words that are read reach as far as any words do
(`longestWritten_scanAll`), and the fault is where they end. -/

namespace TapeMachine.Source
set_option autoImplicit false

/-! ## Texts of words -/

/-- The characters are those of the words, one word after the other. -/
def Spells (ws : List Lexeme) (cs : List Char) : Prop :=
  (∀ w ∈ ws, w.isWord = true) ∧ unspaced ws = cs

theorem Spells.scanAll_eq {ws : List Lexeme} {cs : List Char} (h : Spells ws cs) :
    scanAll cs = (ws, []) := by
  rw [← h.2]
  exact scanAll_words h.1

theorem Spells.unique {ws vs : List Lexeme} {cs : List Char} (hw : Spells ws cs)
    (hv : Spells vs cs) : ws = vs := by
  have hsame := hw.scanAll_eq.symm.trans hv.scanAll_eq
  injection hsame

theorem spells_scanAll (cs : List Char) :
    Spells (scanAll cs).1 (unspaced (scanAll cs).1) :=
  ⟨isWord_of_mem_scanAll, rfl⟩

theorem exists_spells_iff {cs : List Char} : (∃ ws, Spells ws cs) ↔ (scanAll cs).2 = [] := by
  constructor
  · rintro ⟨ws, h⟩
    rw [h.scanAll_eq]
  · intro h
    have hcs := spelling_append_scanAll cs
    rw [h, List.append_nil] at hcs
    exact ⟨_, isWord_of_mem_scanAll, hcs⟩

/-! ## The longest word at the front -/

theorem labelName?_append_takeWhile {ds : List Char} (h : isLabelName ds = true)
    (rest : List Char) :
    labelName? (ds ++ rest) =
      some (ds ++ rest.takeWhile Char.isDigit, rest.dropWhile Char.isDigit) := by
  obtain ⟨c, cs, rfl, hc, hcs⟩ := isLabelName_iff.1 h
  simp only [List.cons_append, labelName?, if_pos hc, List.takeWhile_append_of_pos hcs,
    List.dropWhile_append_of_pos hcs]

/-- Whatever number is read at an address reaches at least to the end of the address. -/
theorem prefix_of_labelName? {ds rest name left : List Char} (h : isAddress ds = true)
    (hn : labelName? (ds ++ rest) = some (name, left)) : ds <+: name := by
  have hname : name <+: ds ++ rest := ⟨left, append_of_labelName? hn⟩
  obtain ⟨d, e, es, hsplit⟩ : ∃ d e es, name = d :: e :: es := by
    obtain ⟨e, es, rfl, -, -⟩ := isLabelName_iff.1 (isLabelName_of_labelName? hn)
    exact ⟨_, e, es, rfl⟩
  cases ds with
  | nil => exact List.nil_prefix
  | cons c ds =>
    by_cases hz : c = '0'
    · simp only [isAddress, if_pos hz, List.isEmpty_iff] at h
      subst h
      refine List.prefix_of_prefix_length_le (List.prefix_append _ _) hname ?_
      rw [hsplit]
      simp
    · unfold labelName? at hn
      split at hn
      · next heq =>
        injection heq with heq
        exact absurd heq hz
      · cases hn

theorem exists_address?_append {ds : List Char} (h : isAddress ds = true) (rest : List Char) :
    ∃ digits left, address? (ds ++ rest) = some (digits, left) ∧ ds <+: digits := by
  cases ds with
  | nil => cases h
  | cons c ds =>
    rw [List.cons_append, address?]
    by_cases hz : c = '0'
    · simp only [isAddress, if_pos hz, List.isEmpty_iff] at h
      subst h hz
      exact ⟨['0'], rest, rfl, List.prefix_rfl⟩
    · simp only [isAddress, if_neg hz, Bool.and_eq_true, List.all_eq_true] at h
      rw [if_neg hz, if_pos h.1, List.takeWhile_append_of_pos h.2]
      exact ⟨_, _, rfl, List.prefix_append (c :: ds) _⟩

/-- Where a word stands at the front of a text, a word is read that reaches at least as far. -/
theorem exists_scan?_append {v : Lexeme} (hv : v.isWord = true) (rest : List Char) :
    ∃ w left, scan? (v.spelling ++ rest) = some (w, left) ∧ v.spelling <+: w.spelling := by
  cases v with
  | set c =>
    refine ⟨.set c, rest, ?_, List.prefix_rfl⟩
    rw [Lexeme.isWord] at hv
    simp only [Lexeme.spelling, List.cons_append, List.nil_append, scan?_set, set?, if_pos hv]
  | right => exact ⟨.right, rest, rfl, List.prefix_rfl⟩
  | left => exact ⟨.left, rest, rfl, List.prefix_rfl⟩
  | debug => exact ⟨.debug, rest, rfl, List.prefix_rfl⟩
  | jumpAddress c ds =>
    rw [Lexeme.isWord, Bool.and_eq_true] at hv
    simp only [Lexeme.spelling, List.cons_append, scan?_jump, jump?, if_pos hv.1]
    cases hn : labelName? (ds ++ rest) with
    | some found =>
      obtain ⟨name, left⟩ := found
      refine ⟨.jumpLabel c name, left, rfl, ?_⟩
      exact (List.prefix_append_right_inj [Opcode.jump.marker, c]).2 (prefix_of_labelName? hv.2 hn)
    | none =>
      obtain ⟨digits, left, ha, hprefix⟩ := exists_address?_append hv.2 rest
      refine ⟨.jumpAddress c digits, left, ?_, ?_⟩
      · simp only [ha, Option.map_some]
      · exact (List.prefix_append_right_inj [Opcode.jump.marker, c]).2 hprefix
  | jumpLabel c name =>
    rw [Lexeme.isWord, Bool.and_eq_true] at hv
    simp only [Lexeme.spelling, List.cons_append, scan?_jump, jump?, if_pos hv.1,
      labelName?_append_takeWhile hv.2]
    exact ⟨_, _, rfl, List.prefix_append (Opcode.jump.marker :: c :: name) _⟩
  | label name =>
    rw [Lexeme.isWord] at hv
    simp only [Lexeme.spelling, List.cons_append, scan?_label, labelName?_append_takeWhile hv,
      Option.map_some]
    exact ⟨_, _, rfl, List.prefix_append (Reserved.label :: name) _⟩

/-! ## The longest words at the front -/

/-- No words at the front of a text reach further than those that are read. -/
theorem words_prefix_scanAll {vs : List Lexeme} (hvs : ∀ v ∈ vs, v.isWord = true)
    {cs : List Char} (h : unspaced vs <+: cs) : unspaced vs <+: unspaced (scanAll cs).1 := by
  induction vs generalizing cs with
  | nil => exact List.nil_prefix
  | cons v vs ih =>
    have hv := hvs v List.mem_cons_self
    rw [unspaced_cons] at h ⊢
    obtain ⟨rest, rfl⟩ := h
    rw [List.append_assoc]
    by_cases hend : DigitsEnd (unspaced vs ++ rest)
    · rw [scanAll_of_some (scan?_spelling_append hv hend), unspaced_cons,
        List.prefix_append_right_inj]
      exact ih (fun u hu => hvs u (List.mem_cons_of_mem v hu)) (List.prefix_append _ _)
    · -- A digit follows the word, so it is the last one; what is read may take the digit along.
      have hlast : vs = [] := by
        cases vs with
        | nil => rfl
        | cons u us =>
          rw [unspaced_cons, List.append_assoc] at hend
          exact absurd (digitsEnd_spelling_append u _) hend
      subst hlast
      obtain ⟨w, left, hw, hprefix⟩ := exists_scan?_append hv rest
      rw [unspaced_nil, List.append_nil, List.nil_append, scanAll_of_some hw, unspaced_cons]
      exact hprefix.trans (List.prefix_append _ _)

/-- The longest front of the text that is words. -/
structure LongestWritten (cs front : List Char) : Prop where
  isPrefix : front <+: cs
  written : ∃ ws, Spells ws front
  longest : ∀ other, other <+: cs → (∃ ws, Spells ws other) → other <+: front

theorem longestWritten_scanAll (cs : List Char) :
    LongestWritten cs (unspaced (scanAll cs).1) where
  isPrefix := ⟨(scanAll cs).2, spelling_append_scanAll cs⟩
  written := ⟨_, spells_scanAll cs⟩
  longest := by
    rintro other hother ⟨ws, hws, rfl⟩
    exact words_prefix_scanAll hws hother

theorem LongestWritten.unique {cs front front' : List Char} (h : LongestWritten cs front)
    (h' : LongestWritten cs front') : front = front' :=
  (h'.longest front h.isPrefix h.written).eq_of_length_le
    (h.longest front' h'.isPrefix h'.written).length_le

/-! ## Bytes -/

theorem byteLength_append (cs ds : List Char) :
    byteLength (cs ++ ds) = byteLength cs + byteLength ds := by
  induction cs with
  | nil => exact (Nat.zero_add _).symm
  | cons c cs ih =>
    unfold byteLength at ih ⊢
    rw [List.cons_append, List.foldr_cons, List.foldr_cons, ih]
    omega

theorem byteLength_toList (text : String) : byteLength text.toList = text.utf8ByteSize := by
  induction text using String.push_induction with
  | empty => rfl
  | push text c ih =>
    have hc : byteLength [c] = c.utf8Size := rfl
    rw [String.toList_push, byteLength_append, ih, hc, String.utf8ByteSize_push]

theorem byteLength_lt (front : List Char) (c : Char) (rest : List Char) :
    byteLength front < byteLength (front ++ c :: rest) := by
  have hc := c.utf8Size_pos
  have hcons : byteLength (c :: rest) = c.utf8Size + byteLength rest := rfl
  rw [byteLength_append, hcons]
  omega

/-! ## Reading a word by its characters -/

/-- The characters behind the first bytes; none if there are not so many bytes, or if they end
inside of a character. -/
def dropBytes? : Nat → List Char → Option (List Char)
  | 0, cs => some cs
  | _ + 1, [] => none
  | n + 1, c :: cs => if c.utf8Size ≤ n + 1 then dropBytes? (n + 1 - c.utf8Size) cs else none

/-- The target that digits stand for: several of them name a label if the first is a zero. -/
def Target.ofDigits (digits : List Char) : Target :=
  if 1 < byteLength digits ∧ digits.head? = some '0' then .label (String.ofList digits)
  else .address (addressOfDigits digits)

/-- The token that characters stand for, looked up by the first of them. There is none if no opcode
has that marker, or if the part behind the marker or behind the operand cannot be cut off. -/
def Token.ofSpelling? (cs : List Char) : Option Token :=
  let marker := cs.headD '\x00'
  let operand := cs.tail.headD '\x00'
  if marker = Reserved.label then (dropBytes? 1 cs).map fun name => .label (String.ofList name)
  else
    match Opcode.ofMarker? marker with
    | some .set => some (.set operand)
    | some .right => some .right
    | some .left => some .left
    | some .jump => (dropBytes? 2 cs).map fun digits => .jump operand (.ofDigits digits)
    | some .debug => some .debug
    | none => none

theorem utf8Size_of_isOperand {c : Char} (h : isOperand c = true) : c.utf8Size = 1 := by
  rw [isOperand_iff] at h
  rw [Char.utf8Size_eq_one_iff, UInt32.le_iff_toNat_le]
  show c.toNat ≤ 127
  omega

theorem dropBytes?_zero (cs : List Char) : dropBytes? 0 cs = some cs := by
  unfold dropBytes?
  rfl

theorem dropBytes?_succ {c : Char} (h : isOperand c = true) (n : Nat) (cs : List Char) :
    dropBytes? (n + 1) (c :: cs) = dropBytes? n cs := by
  rw [dropBytes?, utf8Size_of_isOperand h, if_pos (by omega), Nat.add_sub_cancel]

theorem Target.ofDigits_of_isAddress {ds : List Char} (h : isAddress ds = true) :
    ofDigits ds = .address (addressOfDigits ds) := by
  rw [ofDigits, if_neg]
  rintro ⟨hlength, hhead⟩
  cases ds with
  | nil => cases hhead
  | cons c ds =>
    rw [List.head?_cons, Option.some.injEq] at hhead
    simp only [isAddress, if_pos hhead, List.isEmpty_iff] at h
    subst h hhead
    revert hlength
    decide

theorem Target.ofDigits_of_isLabelName {ds : List Char} (h : isLabelName ds = true) :
    ofDigits ds = .label (String.ofList ds) := by
  obtain ⟨c, cs, rfl, -, -⟩ := isLabelName_iff.1 h
  have hzero : byteLength ['0'] = 1 := by decide
  have hlength := byteLength_lt ['0'] c cs
  rw [hzero] at hlength
  rw [ofDigits, if_pos ⟨hlength, rfl⟩]

theorem Token.ofSpelling?_jump {c : Char} (h : isOperand c = true) (digits : List Char) :
    ofSpelling? (Opcode.jump.marker :: c :: digits) = some (.jump c (.ofDigits digits)) := by
  have hmarker : isOperand Opcode.jump.marker = true := by decide
  show (dropBytes? 2 (Opcode.jump.marker :: c :: digits)).map _ = _
  rw [dropBytes?_succ hmarker, dropBytes?_succ h, dropBytes?_zero, Option.map_some]
  rfl

theorem Token.ofSpelling?_label (name : List Char) :
    ofSpelling? (Reserved.label :: name) = some (.label (String.ofList name)) := by
  have hmarker : isOperand Reserved.label = true := by decide
  show (dropBytes? 1 (Reserved.label :: name)).map _ = _
  rw [dropBytes?_succ hmarker, dropBytes?_zero, Option.map_some]

/-- A word stands for its token: its marker is known, and its parts can be cut off. -/
theorem Token.ofSpelling?_spelling {w : Lexeme} (h : w.isWord = true) :
    ofSpelling? w.spelling = some w.token := by
  cases w with
  | set | right | left | debug => rfl
  | jumpAddress c ds =>
    rw [Lexeme.isWord, Bool.and_eq_true] at h
    rw [Lexeme.spelling, Token.ofSpelling?_jump h.1, Target.ofDigits_of_isAddress h.2]
    rfl
  | jumpLabel c name =>
    rw [Lexeme.isWord, Bool.and_eq_true] at h
    rw [Lexeme.spelling, Token.ofSpelling?_jump h.1, Target.ofDigits_of_isLabelName h.2]
    rfl
  | label name => exact Token.ofSpelling?_label name

/-! ## Tokens and faults -/

theorem tokens_eq_ok_iff {cs : List Char} {ts : List Token} :
    tokens cs = .ok ts ↔ ∃ ws, Spells ws cs ∧ ws.map Lexeme.token = ts := by
  constructor
  · intro h
    obtain ⟨ws, hw, hcs, hts⟩ := exists_words_of_tokens h
    exact ⟨ws, ⟨hw, hcs⟩, hts⟩
  · rintro ⟨ws, ⟨hw, rfl⟩, rfl⟩
    exact tokens_words hw

theorem tokens_of_scanAll {cs left : List Char} {ws : List Lexeme} {c : Char}
    (h : scanAll cs = (ws, c :: left)) :
    tokens cs = .error (.invalidCode (byteLength (unspaced ws)) c) := by
  rw [tokens, h]

theorem tokens_eq_error_iff {cs : List Char} {e : Fault} :
    tokens cs = .error e ↔
      ∃ front found rest, LongestWritten cs front ∧ cs = front ++ found :: rest ∧
        e = .invalidCode (byteLength front) found := by
  have hlongest := longestWritten_scanAll cs
  have hcs := spelling_append_scanAll cs
  constructor
  · intro h
    cases hleft : (scanAll cs).2 with
    | nil =>
      obtain ⟨ws, hws⟩ := exists_spells_iff.2 hleft
      rw [tokens_eq_ok_iff.2 ⟨ws, hws, rfl⟩] at h
      cases h
    | cons c left =>
      rw [tokens_of_scanAll (Prod.ext rfl hleft)] at h
      injection h with h
      rw [hleft] at hcs
      exact ⟨_, c, left, hlongest, hcs.symm, h.symm⟩
  · rintro ⟨front, found, rest, hfront, hsplit, rfl⟩
    have hsame := hfront.unique hlongest
    have hleft : (scanAll cs).2 = found :: rest := by
      rw [← hsame] at hcs
      exact List.append_cancel_left (hcs.trans hsplit)
    rw [tokens_of_scanAll (Prod.ext rfl hleft), ← hsame]

/-- A text has tokens if and only if it is words, one after the other; the words are unique, and the
tokens are theirs in order. Otherwise the fault stands behind the longest front of the text that is
words: its offset is the number of bytes of that front, less than those of the text, and it shows
the character that follows. Every word that is read, also before a fault, stands for its token: its
marker is known, and its parts can be cut off. -/
theorem tokenize_exact (text : String) :
    (∀ ts, tokenize text = .ok ts ↔ ∃ ws, Spells ws text.toList ∧ ws.map Lexeme.token = ts) ∧
    (∀ ws vs, Spells ws text.toList → Spells vs text.toList → ws = vs) ∧
    (∀ e, tokenize text = .error e ↔
      ∃ front found rest, LongestWritten text.toList front ∧
        text.toList = front ++ found :: rest ∧ byteLength front < text.utf8ByteSize ∧
        e = .invalidCode (byteLength front) found) ∧
    ∀ w ∈ (scanAll text.toList).1, Token.ofSpelling? w.spelling = some w.token := by
  refine ⟨fun _ => tokens_eq_ok_iff, fun _ _ => Spells.unique, ?_, ?_⟩
  · intro e
    rw [tokenize, tokens_eq_error_iff]
    constructor
    · rintro ⟨front, found, rest, hfront, hsplit, he⟩
      refine ⟨front, found, rest, hfront, hsplit, ?_, he⟩
      rw [← byteLength_toList, hsplit]
      exact byteLength_lt front found rest
    · rintro ⟨front, found, rest, hfront, hsplit, -, he⟩
      exact ⟨front, found, rest, hfront, hsplit, he⟩
  · intro w hw
    exact Token.ofSpelling?_spelling (isWord_of_mem_scanAll w hw)

/-- Three words, the last of them an address that a label name could go on from, in front of a wide
character that starts no word. -/
theorem tokenize_exact_wide :
    let text := "jx01s jx0é"
    tokenize text = .error (.invalidCode 9 'é') ∧
      (∃ front rest, LongestWritten text.toList front ∧ text.toList = front ++ 'é' :: rest ∧
        byteLength front = 9 ∧ 9 < text.utf8ByteSize) ∧
      ¬ (∃ ws, Spells ws text.toList) ∧
      tokenize "jx01s jx0" = .ok [.jump 'x' (.label "01"), .set ' ', .jump 'x' (.address 0)] := by
  intro text
  let ws : List Lexeme := [.jumpLabel 'x' ['0', '1'], .set ' ', .jumpAddress 'x' ['0']]
  have hws : ∀ w ∈ ws, w.isWord = true := by decide
  obtain ⟨hok, -, herror, -⟩ := tokenize_exact text
  have h : tokenize text = .error (.invalidCode 9 'é') := by
    have hrest : scanAll ['é'] = ([], ['é']) := scanAll_of_none (by decide)
    have hend : DigitsEnd ['é'] := digitsEnd_cons (by decide)
    have hscan := scanAll_words_append hws hend
    have htext : text.toList = unspaced ws ++ ['é'] := by decide
    have hlength : byteLength (unspaced ws) = 9 := by decide
    rw [hrest, List.append_nil] at hscan
    rw [tokenize, htext, tokens_of_scanAll hscan, hlength]
  obtain ⟨front, found, rest, hfront, hsplit, hlt, he⟩ := (herror _).1 h
  injection he with hoffset hfound
  rw [← hfound] at hsplit
  rw [← hoffset] at hlt
  refine ⟨h, ⟨front, rest, hfront, hsplit, hoffset.symm, hlt⟩, ?_, ?_⟩
  · rintro ⟨ws, hws⟩
    rw [(hok _).2 ⟨ws, hws, rfl⟩] at h
    cases h
  · exact ((tokenize_exact _).1 _).2 ⟨ws, ⟨hws, by decide⟩, by decide⟩

end TapeMachine.Source
