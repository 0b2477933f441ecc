import TapeMachine.Log
import TapeMachine.Source.Clean
import TapeMachine.Source.Label

/-! # Assembly

From a program text to a program: the text is cleaned, read as tokens, and its labels are
resolved. -/

namespace TapeMachine.Source
set_option autoImplicit false

/-- A program together with the tokens it was made of. -/
structure Assembly where
  tokens : List Token
  program : Program

namespace Assembly

/-- The assembly of a list of tokens. -/
def ofTokens (ts : List Token) : Except Fault Assembly :=
  (parse ts).map fun is => ⟨ts, .ofList is⟩

/-- The assembly of a program text. -/
def ofText (text : String) : Except Fault Assembly := do
  let ts ← tokenize (normalize text)
  ofTokens ts

/-- The report of a finished assembly. -/
def record (a : Assembly) : Log.Record where
  level := .debug
  origin := "turmin_assembler"
  message :=
    "parsed " ++ toString a.program.size ++ " instructions from "
      ++ toString a.tokens.length ++ " tokens"

end Assembly

/-- The program of a text. -/
def assemble (text : String) : Except Fault Program :=
  (Assembly.ofText text).map (·.program)

end TapeMachine.Source
