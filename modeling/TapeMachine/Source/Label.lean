import Std.Data.TreeMap
import TapeMachine.Program
import TapeMachine.Source.Token

/-! # Labels

A label stands for the address of the instruction after its declaration. Declarations take no
address of their own, a jump may name a label that is declared later, and of two declarations of
one name the later counts. -/

namespace TapeMachine.Source
set_option autoImplicit false

/-- The addresses of the declared labels, in the order of their names. -/
abbrev Labels :=
  Std.TreeMap String Nat

/-- The labels that tokens declare, when `address` instructions come before them and `labels` are
already declared. -/
def Labels.extend (labels : Labels) (address : Nat) : List Token → Labels
  | [] => labels
  | .label name :: ts => Labels.extend (labels.insert name address) address ts
  | _ :: ts => Labels.extend labels (address + 1) ts

/-- The labels that a list of tokens declares. -/
def Labels.ofTokens (ts : List Token) : Labels :=
  Labels.extend ∅ 0 ts

/-- The address of a jump target. -/
def Target.resolve (labels : Labels) : Target → Except Fault Nat
  | address n => .ok n
  | label name =>
    match labels[name]? with
    | some n => .ok n
    | none => .error (.unknownLabel name)

/-- The instruction of a token; a label declaration has none. -/
def Token.instruction? (labels : Labels) : Token → Except Fault (Option Instruction)
  | set operand => .ok (some (.set (.ofChar operand)))
  | right => .ok (some .right)
  | left => .ok (some .left)
  | debug => .ok (some .debug)
  | jump operand target =>
    match target.resolve labels with
    | .ok n => .ok (some (.jump (.ofChar operand) n))
    | .error e => .error e
  | label _ => .ok none

/-- The instructions of tokens, the fault being that of the first jump with an unknown label. -/
def resolve (labels : Labels) : List Token → Except Fault (List Instruction)
  | [] => .ok []
  | t :: ts =>
    match t.instruction? labels with
    | .error e => .error e
    | .ok none => resolve labels ts
    | .ok (some i) => (resolve labels ts).map (i :: ·)

/-- The instructions of a list of tokens. -/
def parse (ts : List Token) : Except Fault (List Instruction) :=
  resolve (Labels.ofTokens ts) ts

end TapeMachine.Source
