import TapeMachine.Text.Plain

/-! # Log records

What the program reports about its own work: a level, the part of the program that reports, and a
message. -/

namespace TapeMachine
set_option autoImplicit false

namespace Log

/-- How detailed a record is, from the gravest to the most detailed. -/
inductive Level where
  | error
  | warn
  | info
  | debug
  | trace
  deriving DecidableEq, Repr

namespace Level

/-- The name that records show. -/
def name : Level → String
  | error => "ERROR"
  | warn => "WARN"
  | info => "INFO"
  | debug => "DEBUG"
  | trace => "TRACE"

/-- Larger for more detail. -/
def rank : Level → Nat
  | error => 1
  | warn => 2
  | info => 3
  | debug => 4
  | trace => 5

end Level

/-- One report. -/
structure Record where
  level : Level
  origin : String
  message : String
  deriving DecidableEq, Repr

/-- How much is reported: records up to a rank, none at rank zero. -/
structure Filter where
  rank : Nat
  deriving DecidableEq, Repr

namespace Filter

/-- Reports nothing. -/
def off : Filter := ⟨0⟩

/-- The filter that a word names, whatever the case of its letters. -/
def ofWord? (word : String) : Option Filter :=
  match String.ofList (word.toList.map Char.toLower) with
  | "off" => some ⟨0⟩
  | "error" => some ⟨1⟩
  | "warn" => some ⟨2⟩
  | "info" => some ⟨3⟩
  | "debug" => some ⟨4⟩
  | "trace" => some ⟨5⟩
  | _ => none

/-- Whether a record is reported. -/
def passes (f : Filter) (r : Record) : Bool :=
  r.level.rank ≤ f.rank

end Filter

/-- A record as a line: the level filled up to five columns, the origin, the message. Further lines
of a message are indented by four columns. -/
def Record.line (r : Record) : String :=
  "[" ++ String.ofList (r.level.name.toList.rightpad 5 ' ') ++ " " ++ r.origin ++ "] "
    ++ Text.hanging 4 r.message

end Log
end TapeMachine
