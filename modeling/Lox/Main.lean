import Lox.CommandLine.Program

/-!
# The command line

The program as the host runs it: it reads the script and the lines that are typed, and writes what
the machine wrote. Everything else is decided by `CommandLine.start` and `Prompt.respond`.

## Main definitions

* `prompt b config m`: the prompt, on the lines that are typed
* `runArguments args`, `main args`: the program
-/

namespace Lox.CommandLine

/-- Writes a log, its newest write coming first. -/
def flush (log : List Write) : IO Unit := do
  let out ← IO.getStdout
  let err ← IO.getStderr
  for w in log.reverse do
    match w.channel with
    | .out | .hostOut => out.putStr w.text
    | .err | .hostErr => err.putStr w.text
  out.flush
  err.flush

/-- What the host finds under a path. A directory can be opened, and only the reading of it fails,
with no name in the error. -/
def readScript (path : String) : IO ScriptFile := do
  try
    return .bytes (← IO.FS.readBinFile path).toList
  catch
    | .permissionDenied .. => return .denied
    | .inappropriateType none _ _ => return .directory
    | .inappropriateType (some _) _ _ => return .belowFile
    | _ => return .missing

/-- The script that a command line names, if it names one. -/
def scriptOf : Except UsageError Invocation → Option String
  | .ok (.run settings) => settings.scripts.head?
  | _ => none

/-- Writes what a run wrote and, if it failed, why; and goes on with what it left otherwise. -/
def settle {α : Type} (outcome : Outcome α) (next : α → Machine → IO UInt32) : IO UInt32 := do
  match outcome with
  | .done a m =>
    flush m.log
    next a { m with log := [] }
  | .failed f m =>
    flush (.complaint (failureLine f) :: m.log)
    return ExitCode.software.toUInt32
  | .unfinished => return ExitCode.software.toUInt32

/-- The prompt, on the lines that are typed. -/
partial def prompt (b : Budget) (config : Config) (m : Machine) : IO UInt32 := do
  flush [.mark]
  let line ← (← IO.getStdin).getLine
  if line.isEmpty then
    settle (Prompt.reply ["", "Goodbye!"] config m) fun _ _ => return 0
  else
    let line := if line.endsWith "\n" then (line.dropEnd 1).toString else line
    settle (Prompt.respond b line config m) fun goesOn m =>
      if goesOn then prompt b config m else return 0

/-- The program, from its command line on. -/
def runArguments (args : List String) : IO UInt32 := do
  let invocation := Invocation.ofArguments args
  let file ← match scriptOf invocation with
    | some path => readScript path
    | none => pure .missing
  let seconds := (← IO.monoMsNow).toFloat / 1000
  let config : Config := ⟨isDebug invocation, fun _ => seconds⟩
  settle (start .standard (fun _ => file) invocation config .initial) fun phase m =>
    match phase with
    | .exited code => return code.toUInt32
    | .prompting => prompt .standard config m

end Lox.CommandLine

/-- The program. -/
def main (args : List String) : IO UInt32 :=
  Lox.CommandLine.runArguments args
