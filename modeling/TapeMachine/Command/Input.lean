/-! # Program files

Where a command finds its program text, and what can go wrong when the text is read. -/

namespace TapeMachine.Command
set_option autoImplicit false

/-- Where a program text comes from. -/
inductive Input where
  | standard
  | file (path : String)
  deriving DecidableEq, Repr

/-- The input that a file argument names: the standard input for a lone dash. Slashes and dots
after the dash change nothing. -/
def Input.ofPath (path : String) : Input :=
  match path.splitOn "/" with
  | "-" :: rest => if rest.all fun s => s == "" || s == "." then .standard else .file path
  | _ => .file path

/-- Why a program text could not be read. -/
inductive ReadFailure where
  | notFound
  | isDirectory
  | notDirectory
  | nameTooLong
  | notUtf8
  | other (description : String)
  deriving DecidableEq, Repr

/-- The wording of a failure. -/
def ReadFailure.message : ReadFailure → String
  | notFound => "No such file or directory (os error 2)"
  | isDirectory => "Is a directory (os error 21)"
  | notDirectory => "Not a directory (os error 20)"
  | nameTooLong => "File name too long (os error 36)"
  | notUtf8 => "stream did not contain valid UTF-8"
  | other description => description

/-- The report of a failure to read an input. -/
def ReadFailure.report (e : ReadFailure) : Input → String
  | .standard => "error: cannot read stdin: " ++ e.message
  | .file path => "error: cannot read '" ++ path ++ "': " ++ e.message

/-- The text that bytes stand for. -/
def decode (bytes : ByteArray) : Except ReadFailure String :=
  match String.fromUTF8? bytes with
  | some text => .ok text
  | none => .error .notUtf8

end TapeMachine.Command
