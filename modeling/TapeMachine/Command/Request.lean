import TapeMachine.Log

/-! # Requests

What the arguments of a command line ask for. The arguments are taken in order: the first that is
not allowed makes the command line invalid, and a call for help ends the reading. -/

namespace TapeMachine.Command
set_option autoImplicit false

/-! ## Words -/

/-- The shapes of an argument. -/
inductive Word where
  /-- Two dashes: what follows are files. -/
  | escape
  /-- A name after two dashes, and the value after an equality sign. -/
  | long (name : String) (value? : Option String)
  /-- Letters after one dash. -/
  | short (letters : List Char)
  | plain
  deriving DecidableEq, Repr

/-- The text after the first equality sign. -/
def inlineValue? (cs : List Char) : Option String :=
  match cs.dropWhile (· != '=') with
  | [] => none
  | _ :: value => some (String.ofList value)

/-- The shape of an argument. A lone dash is plain. -/
def Word.ofString (s : String) : Word :=
  match s.toList with
  | ['-', '-'] => .escape
  | '-' :: '-' :: cs => .long (String.ofList (cs.takeWhile (· != '='))) (inlineValue? cs)
  | '-' :: c :: cs => .short (c :: cs)
  | _ => .plain

/-- Whether an argument calls for help. The letter `h` does so before any letter after it is
looked at. -/
def Word.isHelp : Word → Bool
  | long name value? => name == "help" && value?.isNone
  | short letters => letters.head? == some 'h'
  | _ => false

/-! ## Numerals -/

/-- The characters after one plus sign, if the text starts with one. -/
def dropPlus : List Char → List Char
  | '+' :: cs => cs
  | cs => cs

/-- The number that decimal digits denote if it is below the limit. There is at least one digit,
zeros may come first, and one plus sign may stand before the digits. -/
def readBelow? (limit : Nat) (text : String) : Option Nat :=
  let digits := dropPlus text.toList
  if digits.isEmpty || !digits.all Char.isDigit then none
  else
    let n := Nat.ofDigitChars 10 digits 0
    if n < limit then some n else none

/-! ## Requests -/

/-- What the program can do with a program file. -/
inductive Verb where
  | run
  | check
  | disassemble
  deriving DecidableEq, Repr

/-- The word that selects a verb. -/
def Verb.ofWord? : String → Option Verb
  | "run" => some .run
  | "check" => some .check
  | "disassemble" => some .disassemble
  | _ => none

/-- What there is help about. -/
inductive Topic where
  | overview
  | verb (v : Verb)
  | help
  deriving DecidableEq, Repr

/-- What a command line asks for. -/
inductive Request where
  | help (topic : Topic)
  | run (file : String) (tape : String) (maxSteps : Nat) (trace : Bool)
  | check (file : String)
  | disassemble (file : String)
  deriving DecidableEq, Repr

/-- What the environment says. -/
structure Environment where
  /-- The step limit that holds if the command line gives none. -/
  maxSteps? : Option String
  /-- What is logged. -/
  logged : Log.Filter

/-! ## Arguments of a verb -/

/-- What the arguments read so far have set. -/
structure Draft where
  file? : Option String
  tape? : Option String
  maxSteps? : Option Nat
  trace : Bool
  deriving DecidableEq, Repr

namespace Draft

/-- Nothing is set. -/
def empty : Draft :=
  ⟨none, none, none, false⟩

/-- Step limits are below this number. -/
def stepLimit : Nat :=
  UInt64.size

/-- The draft with a file. There is one file, and its name is not empty. -/
def addFile? (d : Draft) (name : String) : Option Draft :=
  if d.file?.isNone && name != "" then some { d with file? := some name } else none

/-- The draft with several files, which succeeds for at most one. -/
def addFiles? (d : Draft) : List String → Option Draft
  | [] => some d
  | name :: rest => (d.addFile? name).bind (·.addFiles? rest)

/-- The draft with the value of an option of `run`. Each option is given once. -/
def addOption? (d : Draft) (name value : String) : Option Draft :=
  match name with
  | "tape" => if d.tape?.isNone then some { d with tape? := some value } else none
  | "max-steps" =>
    if d.maxSteps?.isNone then
      (readBelow? stepLimit value).map fun n => { d with maxSteps? := some n }
    else none
  | _ => none

/-- The draft with a flag of `run`. Each flag is given once. -/
def addFlag? (d : Draft) (name : String) : Option Draft :=
  if name = "trace" && !d.trace then some { d with trace := true } else none

/-- The request that a complete draft makes. The environment gives the step limit of a run if no
argument does. -/
def request? (d : Draft) (env : Environment) : Verb → Option Request
  | .run => do
    let file ← d.file?
    let maxSteps ←
      match d.maxSteps?, env.maxSteps? with
      | some n, _ => some n
      | none, some value => readBelow? stepLimit value
      | none, none => some 0
    return .run file (d.tape?.getD "") maxSteps d.trace
  | .check => d.file?.map .check
  | .disassemble => d.file?.map .disassemble

end Draft

/-- What the arguments of a verb come to. -/
inductive Reading where
  | help
  | complete (d : Draft)
  deriving DecidableEq, Repr

/-- Reads the arguments of a verb. The value of an option stands after an equality sign or is the
next argument, which then is plain. -/
def readArguments? (v : Verb) (d : Draft) : List String → Option Reading
  | [] => some (.complete d)
  | a :: rest =>
    let word := Word.ofString a
    if word.isHelp then some .help
    else
      match word with
      | .escape => (d.addFiles? rest).map .complete
      | .plain =>
        match d.addFile? a with
        | some d' => readArguments? v d' rest
        | none => none
      | .short _ => none
      | .long name value? =>
        if v ≠ .run then none
        else
          match value? with
          | some value =>
            match d.addOption? name value with
            | some d' => readArguments? v d' rest
            | none => none
          | none =>
            match d.addFlag? name, rest with
            | some d', rest => readArguments? v d' rest
            | none, [] => none
            | none, value :: rest =>
              if Word.ofString value = .plain then
                match d.addOption? name value with
                | some d' => readArguments? v d' rest
                | none => none
              else none

/-- The topic that the arguments of `help` name. -/
def topic? : List String → Option Topic
  | [] => some .overview
  | ["help"] => some .help
  | [name] => (Verb.ofWord? name).map .verb
  | _ => none

/-- The request of a command line, or none if the command line is invalid. -/
def Request.ofArguments? (env : Environment) : List String → Option Request
  | [] => none
  | name :: rest =>
    if (Word.ofString name).isHelp then some (.help .overview)
    else if name = "help" then (topic? rest).map .help
    else do
      let v ← Verb.ofWord? name
      match ← readArguments? v .empty rest with
      | .help => return .help (.verb v)
      | .complete d => d.request? env v

end TapeMachine.Command
