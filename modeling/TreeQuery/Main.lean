import TreeQuery.Command

/-!
# The command

Reads files and lines and shows what the session or the request answers. A session shows its prompt
before it waits for a line.
-/

namespace TreeQuery.Command

/-- Why a file or the input cannot be read. -/
def reasonOf : IO.Error → Failure
  | .noFileOrDirectory .. => .absentFile
  | e => .file (toString e)

/-- Reads the document of a request, if it has one. -/
def load (r : Request) : IO (Except Failure (Option String)) := do
  match r.document with
  | none => return .ok none
  | some path =>
    try return .ok (some (← IO.FS.readFile path))
    catch e => return .error (reasonOf e)

/-- Shows an outcome and gives its exit code. -/
def conclude (o : Outcome) : IO UInt32 := do
  (← IO.getStdout).putStr o.output
  (← IO.getStderr).putStr o.errors
  return o.exitCode.toUInt32

/-- Holds a session until it or its lines end. -/
partial def hold (s : Session) : IO UInt32 := do
  let output ← IO.getStdout
  output.putStr Session.prompt
  output.flush
  let line ← (← IO.getStdin).getLine
  if line.isEmpty then return 0
  let (reply, s) := s.take line
  output.putStr reply.shown
  match reply with
  | .done => return 0
  | .crash => return crashCode.toUInt32
  | .silence | .text _ => hold s

/-- Answers a request. -/
def respond (r : Request) : IO UInt32 := do
  match ← load r with
  | .error e => conclude (.ofError e)
  | .ok document =>
    match r.session document, r.expression with
    | .error e, _ => conclude (.ofError e)
    | .ok s, none =>
      try hold s
      catch e => conclude (.ofError (reasonOf e))
    | .ok s, some expression => conclude (.ofAnswer (valueLine s expression))

/-- Carries out what the arguments ask for. -/
def carryOut (arguments : List String) : IO UInt32 :=
  match Task.ofArguments? arguments with
  | none => conclude .misuse
  | some .help => conclude ⟨0, Task.usage, ""⟩
  | some .version => conclude ⟨0, Task.versionText, ""⟩
  | some (.answer r) => respond r

end TreeQuery.Command

/-- Carries out what the arguments ask for. -/
def main (arguments : List String) : IO UInt32 := TreeQuery.Command.carryOut arguments
