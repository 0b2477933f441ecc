import TapeMachine.Text.Extender
import TapeMachine.Text.Unprintable

/-! # Quoted characters

How messages show one character: between apostrophes, with an escape where the character itself
could not be read there. -/

namespace TapeMachine.Text
set_option autoImplicit false

/-- The code point of a character in lower-case hexadecimal digits, in braces after `\u`. -/
def codePointEscape (c : Char) : List Char :=
  ['\\', 'u', '\x7b'] ++ Nat.toDigits 16 c.toNat ++ ['\x7d']

/-- A character as it stands between apostrophes. The backslash, the apostrophe and four controls
have two-character escapes; what is unprintable, ignorable or drawn onto its neighbour is shown by
its code point. -/
def escape (c : Char) : List Char :=
  if c = '\x00' then ['\\', '0']
  else if c = '\t' then ['\\', 't']
  else if c = '\n' then ['\\', 'n']
  else if c = '\r' then ['\\', 'r']
  else if c = '\x27' then ['\\', '\x27']
  else if c = '\\' then ['\\', '\\']
  else if isUnprintable c || isIgnorable c || isExtender c then codePointEscape c
  else [c]

/-- A character between apostrophes. -/
def quoted (c : Char) : String :=
  String.ofList (['\x27'] ++ escape c ++ ['\x27'])

end TapeMachine.Text
