/-! # Plain text

A terminal takes some characters as commands: the controls, and the control sequences that the
escape character starts. A stream that is no terminal gets the text without them. Tabs, line feeds,
form feeds and carriage returns are layout and stay. Texts of several lines that start at a column
are laid out with a hanging indent. -/

namespace TapeMachine.Text
set_option autoImplicit false

/-! ## Control sequences -/

/-- The part of a control sequence that is being read. -/
inductive Sequence where
  /-- No sequence: characters are text. -/
  | ground
  /-- After the escape character. -/
  | escape
  /-- After the escape character and an intermediate character. -/
  | intermediate
  /-- A control sequence: parameters up to a final character. -/
  | control
  /-- An operating system command, up to a bell. -/
  | command
  /-- The start of a device control string. -/
  | deviceEntry
  /-- The parameters of a device control string. -/
  | deviceParameter
  /-- The intermediate characters of a device control string. -/
  | deviceIntermediate
  /-- The body of a string, up to a string terminator. -/
  | string
  deriving DecidableEq, Repr

namespace Sequence

/-- What an escape character and a byte start. Some controls are passed over. -/
def start (b : Nat) : Sequence :=
  if b = 0x5B then control
  else if b = 0x5D then command
  else if b = 0x50 then deviceEntry
  else if b = 0x58 || b = 0x5E || b = 0x5F then string
  else if 0x20 ≤ b && b ≤ 0x2F then intermediate
  else if 0x30 ≤ b && b ≤ 0x7E then ground
  else escape

/-- The sequence after one more byte. Cancel, substitute and escape break off any sequence. -/
def next (s : Sequence) (b : Nat) : Sequence :=
  if b = 0x18 || b = 0x1A then ground
  else if b = 0x1B then escape
  else
    match s with
    | ground => ground
    | escape => start b
    | intermediate => if 0x30 ≤ b && b ≤ 0x7E then ground else intermediate
    | control => if 0x40 ≤ b && b ≤ 0x7E then ground else control
    | command => if b = 0x07 then ground else command
    | deviceEntry =>
      if 0x20 ≤ b && b ≤ 0x2F then deviceIntermediate
      else if 0x30 ≤ b && b ≤ 0x3F then deviceParameter
      else if 0x40 ≤ b && b ≤ 0x7E then string
      else deviceEntry
    | deviceParameter =>
      if 0x20 ≤ b && b ≤ 0x2F then deviceIntermediate
      else if 0x3C ≤ b && b ≤ 0x7E then string
      else deviceParameter
    | deviceIntermediate => if 0x30 ≤ b && b ≤ 0x7E then string else deviceIntermediate
    | string => if b = 0x9C then ground else string

/-- The sequence after the bytes of one more character. -/
def after (s : Sequence) (c : Char) : Sequence :=
  (String.utf8EncodeChar c).foldl (fun s b => s.next b.toNat) s

end Sequence

/-! ## What is shown -/

/-- Whether a character is a control that lays out text. -/
def isLayout (c : Char) : Bool :=
  c == '\t' || c == '\n' || c == '\x0c' || c == '\r'

/-- Whether a character is text where no sequence is being read. -/
def isShown (c : Char) : Bool :=
  isLayout c || (decide (' ' ≤ c) && c != '\x7f')

/-- Whether a character is text in a sequence. Layout stands out of the sequences that end with
one final character, and is part of the strings. -/
def Sequence.shows (s : Sequence) (c : Char) : Bool :=
  match s with
  | ground => isShown c
  | escape | intermediate | control => isLayout c
  | _ => false

/-- The text that is left when the sequence `s` is being read. Layout inside of a sequence lets
text through, `passing`, up to the next control, where the sequence goes on; a character beyond
ASCII that is let through ends the sequence. -/
def plainFrom (passing : Bool) (s : Sequence) : List Char → List Char
  | [] => []
  | c :: cs =>
    if passing && isShown c then
      c :: plainFrom true (if c.toNat < 0x80 then s else .ground) cs
    else if s.shows c then c :: plainFrom true (s.after c) cs
    else plainFrom false (s.after c) cs

/-- The text without controls and control sequences. -/
def plain (text : String) : String :=
  String.ofList (plainFrom false .ground text.toList)

/-! ## Hanging indents -/

/-- A text that starts at a column, with its further lines indented to the same column. -/
def hanging (column : Nat) (text : String) : String :=
  String.ofList
    (text.toList.flatMap fun c => if c = '\n' then '\n' :: List.replicate column ' ' else [c])

end TapeMachine.Text
