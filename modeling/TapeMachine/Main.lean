import TapeMachine.Command.Outcome

/-! # The command line program

Reads arguments, environment and inputs, shows what a request comes to, and returns the exit code.
A run is shown slice by slice while it goes on. -/

namespace TapeMachine.Command
set_option autoImplicit false

/-- The number of a system error. Some calls report it as a negative number. -/
def errorNumber (osCode : UInt32) : Nat :=
  if osCode.toNat < UInt32.size / 2 then osCode.toNat else UInt32.size - osCode.toNat

/-- The failure that an error of the system stands for. -/
def readFailure : IO.Error → ReadFailure
  | .noFileOrDirectory .. => .notFound
  | .inappropriateType _ osCode details | .permissionDenied _ osCode details
  | .invalidArgument _ osCode details =>
    match errorNumber osCode with
    | 20 => .notDirectory
    | 21 => .isDirectory
    | 36 => .nameTooLong
    | n => .other (details ++ " (os error " ++ toString n ++ ")")
  | e => .other e.toString

/-- The bytes of a stream up to its end. -/
partial def readAll (stream : IO.FS.Stream) (sofar : ByteArray) : IO ByteArray := do
  let block ← stream.read 65536
  if block.isEmpty then return sofar else readAll stream (sofar ++ block)

/-- The text of an input. -/
def fetch (input : Input) : IO (Except ReadFailure String) := do
  let read : IO ByteArray :=
    match input with
    | .standard => do readAll (← IO.getStdin) .empty
    | .file path => IO.FS.readBinFile path
  match ← read.toBaseIO with
  | .ok bytes => return decode bytes
  | .error e => return .error (readFailure e)

/-- Writes lines to the two output streams. -/
def emit (out err : List String) : IO Unit := do
  err.forM IO.eprintln
  out.forM IO.println

/-- Lets a run go on to its end and shows its events after each slice. -/
partial def follow (job : RunJob) (f : Log.Filter) (r : Run) : IO UInt32 := do
  let r := r.advance job.program job.budget 4096
  emit [] (r.events.toList.flatMap (eventLines f job.trace))
  match r.result? with
  | none => follow job f { r with events := #[] }
  | some result =>
    let last := closing result
    emit last.out last.err
    return last.code.toUInt32

/-- What the environment variables say. -/
def environment : IO Environment := do
  let word ← IO.getEnv "RUST_LOG"
  return ⟨← IO.getEnv "TURMIN_MAX_STEPS", (word.bind Log.Filter.ofWord?).getD .off⟩

/-- Does what a request asks for. -/
def serve (env : Environment) (request : Request) : IO UInt32 := do
  let content ←
    match request.input? with
    | none => pure (.ok "")
    | some input => fetch input
  match request.job env content with
  | .done o =>
    emit o.out o.err
    return o.code.toUInt32
  | .run job =>
    emit [] job.opening
    follow job env.logged (.resume (.start job.tape))

end TapeMachine.Command

open TapeMachine.Command in
/-- The program. -/
def main (arguments : List String) : IO UInt32 := do
  let env ← environment
  match Request.ofArguments? env arguments with
  | some request => serve env request
  | none =>
    IO.eprintln "error: invalid command line\n\nFor more information, try '--help'."
    return Outcome.invalid.code.toUInt32
