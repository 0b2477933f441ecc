import TapeMachine.Command.Request
import TapeMachine.Text.Plain

/-! # Help pages

A page is written for a terminal, with headings and literal words set off, and shown plain. -/

namespace TapeMachine.Command
set_option autoImplicit false

/-! ## Styles -/

/-- A word that is typed as it stands: bold. -/
def literal (word : String) : String :=
  "\x1b[1m" ++ word ++ "\x1b[0m"

/-- A heading: bold and underlined. -/
def heading (word : String) : String :=
  "\x1b[1m\x1b[4m" ++ word ++ "\x1b[0m"

/-! ## Pages -/

/-- The line of the help option; the gap stands before its description. -/
def helpLine (gap : String) : String :=
  "  " ++ literal "-h" ++ ", " ++ literal "--help" ++ gap ++ "Print help"

/-- The end of every page about a verb or the whole program. -/
def helpOption : List String :=
  [heading "Options:", helpLine "  "]

/-- The lines that describe the file argument. -/
def fileArgument : List String :=
  [heading "Arguments:", "  <FILE>  Program file, or `-` for stdin", ""]

/-- The description of the step limit, with the limit of the environment. -/
def maxStepsDescription (env : Environment) : String :=
  "Maximum computational steps, 0 for no limit [env: TURMIN_MAX_STEPS="
    ++ env.maxSteps?.getD "" ++ "] [default: 0]"

/-- The lines of a page. The page about `run` shows the step limit of the environment. -/
def Topic.lines (env : Environment) : Topic → List String
  | overview =>
    ["Minimal Turing-machine tape interpreter", "",
     heading "Usage:" ++ " " ++ literal "turmin" ++ " <COMMAND>", "",
     heading "Commands:",
     "  " ++ literal "run" ++ "          Run a program and print the final tape",
     "  " ++ literal "check" ++ "        Parse a program without running it",
     "  " ++ literal "disassemble" ++ "  Print a program in canonical form, labels resolved",
     "  " ++ literal "help" ++ "         Print this message or the help of the given subcommand(s)",
     ""] ++ helpOption
  | verb .run =>
    ["Run a program and print the final tape", "",
     heading "Usage:" ++ " " ++ literal "turmin run" ++ " [OPTIONS] <FILE>", ""]
      ++ fileArgument ++
    [heading "Options:",
     "      " ++ literal "--tape" ++ " <TAPE>            "
       ++ "Initial tape contents (space is a blank cell) [default: \"\"]",
     "      " ++ literal "--max-steps" ++ " <MAX_STEPS>  "
       ++ Text.hanging 31 (maxStepsDescription env),
     "      " ++ literal "--trace"
       ++ "                  Print a snapshot to stderr at every DEBUG instruction",
     helpLine "                   "]
  | verb .check =>
    ["Parse a program without running it", "",
     heading "Usage:" ++ " " ++ literal "turmin check" ++ " <FILE>", ""]
      ++ fileArgument ++ helpOption
  | verb .disassemble =>
    ["Print a program in canonical form, labels resolved", "",
     heading "Usage:" ++ " " ++ literal "turmin disassemble" ++ " <FILE>", ""]
      ++ fileArgument ++ helpOption
  | help =>
    ["Print this message or the help of the given subcommand(s)", "",
     heading "Usage:" ++ " " ++ literal "turmin help" ++ " [COMMAND]...", "",
     heading "Arguments:",
     "  [COMMAND]...  Print help for the subcommand(s)"]

/-- The page about a topic, as a stream shows it that is no terminal. The line feed after the last
line is not part of it. -/
def Topic.page (env : Environment) (topic : Topic) : String :=
  Text.plain ("\n".intercalate (topic.lines env))

end TapeMachine.Command
