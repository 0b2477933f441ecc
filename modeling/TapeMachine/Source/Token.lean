import TapeMachine.Source.Lexeme
import TapeMachine.Text.Quoted

/-! # Tokens

What a lexeme means: a token holds the number of an address and the name of a label. `tokenize`
reads a cleaned text as tokens; a text that no token starts at some place is refused with the byte
offset of that place. This is one of the two ways in which a text fails to be a program. -/

namespace TapeMachine.Source
set_option autoImplicit false

/-! ## Faults -/

/-- Why a text is not a program. -/
inductive Fault where
  /-- No token can be read at this byte offset of the cleaned text, where `found` stands. -/
  | invalidCode (offset : Nat) (found : Char)
  /-- A jump names a label that is declared nowhere. -/
  | unknownLabel (name : String)
  deriving DecidableEq, Repr

/-- The wording of a fault. -/
def Fault.message : Fault → String
  | invalidCode offset found =>
    "syntax error: invalid code at offset " ++ toString offset ++ " near " ++ Text.quoted found
  | unknownLabel name => "syntax error: invalid label ':" ++ name ++ "'"

/-! ## Tokens -/

/-- Where a jump goes before labels are resolved. -/
inductive Target where
  | address (n : Nat)
  | label (name : String)
  deriving DecidableEq, Repr

/-- One token of a program text. -/
inductive Token where
  | set (operand : Char)
  | right
  | left
  | debug
  | jump (operand : Char) (target : Target)
  | label (name : String)
  deriving DecidableEq, Repr

/-- The largest address; larger literals stand for it. -/
def maxAddress : Nat :=
  UInt64.size - 1

/-- The address that digits denote: their decimal value, cut off at the largest address. -/
def addressOfDigits (digits : List Char) : Nat :=
  min (Nat.ofDigitChars 10 digits 0) maxAddress

/-- The meaning of a lexeme. -/
def Lexeme.token : Lexeme → Token
  | set operand => .set operand
  | right => .right
  | left => .left
  | debug => .debug
  | jumpAddress operand digits => .jump operand (.address (addressOfDigits digits))
  | jumpLabel operand name => .jump operand (.label (String.ofList name))
  | label name => .label (String.ofList name)

/-! ## The tokens of a text -/

/-- The number of bytes of characters in UTF-8. -/
def byteLength (cs : List Char) : Nat :=
  cs.foldr (fun c n => c.utf8Size + n) 0

/-- The tokens of a list of characters. The fault is at the first place where no lexeme starts. -/
def tokens (cs : List Char) : Except Fault (List Token) :=
  match scanAll cs with
  | (ws, []) => .ok (ws.map Lexeme.token)
  | (ws, c :: _) => .error (.invalidCode (byteLength (unspaced ws)) c)

/-- The tokens of a cleaned text. -/
def tokenize (text : String) : Except Fault (List Token) :=
  tokens text.toList

end TapeMachine.Source
