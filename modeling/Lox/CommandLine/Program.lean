import Lox.CommandLine.Options
import Lox.CommandLine.Usage
import Lox.Prompt
import Lox.Text.Place

/-!
# The program

What a command line does: it shows a text, lists the tokens or the trees of a script, runs a script,
or starts the prompt.

## Main definitions

* `ScriptFile`: what is found under the path of a script
* `start b invocation file`: what happens before the first prompt
* `converse b lines`: the prompt, with the lines that are typed
* `runProgram b files input args`: all that a command line does
-/

namespace Lox.CommandLine

open Eval

/-! ## Scripts -/

/-- What is found under the path of a script. -/
inductive ScriptFile where
  | bytes (content : List UInt8)
  | missing
  | denied
  | directory
  /-- the path goes through a file as if that were a directory -/
  | belowFile

/-- The source in a script, or why there is none. -/
def ScriptFile.source (path : String) : ScriptFile → Except String String
  | bytes content =>
    (Text.readText content).mapError fun fault =>
      s!"Error: Cannot decode file '{path}': {fault.message}"
  | missing => .error s!"Error: Script file '{path}' not found"
  | denied => .error s!"Error: Permission denied reading '{path}'"
  | directory => .error s!"Error: Cannot read '{path}': [Errno 21] Is a directory: {Text.quoted path}"
  | belowFile =>
    .error s!"Error: Cannot read '{path}': [Errno 20] Not a directory: {Text.quoted path}"

/-! ## Phases -/

/-- What comes next: nothing after an exit with this code, or the prompt. -/
inductive Phase where
  | exited (code : Nat)
  | prompting
  deriving DecidableEq, Repr

/-- Writes lines about a mistake of the user. -/
def complain : List String → Eval Unit
  | [] => return ()
  | line :: lines => do
    write (.complaint line)
    complain lines

/-- Reports the diagnostics of a script that is only listed, and exits. -/
def exitListing (ds : List Diagnostic) (source : String) : Eval Phase := do
  if ds.isEmpty then return .exited ExitCode.ok
  Session.reportDiagnostics ds source
  return .exited ExitCode.dataError

/-- Lists the tokens of a script, each one after its line number. -/
def listTokens (source : String) : Eval Phase := do
  let s ← Session.scanTraced source
  Prompt.reply (s.stream.toList.map fun t =>
    String.ofList (Text.paddedNumber t.line) ++ "  " ++ t.display)
  exitListing (s.errors.map ScanError.diagnostic) source

/-- Lists the printed forms of the declarations of a script. -/
def listTrees (source : String) : Eval Phase := do
  let p ← Session.parseTraced source
  let printed ← ofExcept .fault (Node.printAll p.parse.program)
  Prompt.reply printed
  exitListing p.diagnostics source

/-- Runs a script. -/
def runScript (b : Budget) (source : String) : Eval Phase := do
  let report ← Session.run b source
  return .exited report.exitCode

/-- Writes the lines in front of the first prompt. -/
def openPrompt : Eval Phase := do
  Prompt.reply (Prompt.banner (← debug))
  return .prompting

/-- What the settings ask for of a source. -/
def useSource (b : Budget) (settings : Settings) (source : String) : Eval Phase := do
  if settings.interactive then
    let _ ← Session.run b source
    openPrompt
  else if settings.tokens then listTokens source
  else if settings.parse then listTrees source
  else runScript b source

/-- What a command line does before the first prompt. If the host does not accept the limit of the
recursion, it stops the program; what it reports then is left out. -/
def start (b : Budget) (file : String → ScriptFile) : Except UsageError Invocation → Eval Phase
  | .error e => do
    complain (usage ++ ["lox: error: " ++ e.message])
    return .exited ExitCode.usage
  | .ok .help => do
    Prompt.reply help
    return .exited ExitCode.ok
  | .ok .version => do
    Prompt.reply [Prompt.version]
    return .exited ExitCode.ok
  | .ok (.run settings) => do
    if 1 < settings.scripts.length then
      complain ["Usage: lox [script]"]
      return .exited ExitCode.usage
    if largestHostLimit < settings.hostLimit then return .exited ExitCode.uncaught
    match settings.scripts with
    | [] => openPrompt
    | path :: _ =>
      match (file path).source path with
      | .ok source => useSource b settings source
      | .error line =>
        complain [line]
        return .exited ExitCode.noInput

/-- The prompt, with the lines that are typed. It ends with the lines, or before. -/
def converse (b : Budget) : List String → Eval Unit
  | [] => do
    write .mark
    Prompt.reply ["", "Goodbye!"]
  | line :: lines => do
    write .mark
    if ← Prompt.respond b line then converse b lines

/-! ## The whole program -/

/-- Whether the phases of a command line are traced. -/
def isDebug : Except UsageError Invocation → Bool
  | .ok (.run settings) => settings.debug
  | _ => false

/-- The last line of a run that failed. -/
def failureLine : Failure → String
  | .tooDeep => "Fatal: maximum recursion depth exceeded."
  | .runtime error => error.text
  | .fault fault => fault.message

/-- How the program ends: its exit code, if it does not end at the prompt, and what it wrote, the
newest write first. -/
structure Ending where
  exit : Option Nat
  log : List Write

/-- The end of a run. A failure is reported. -/
def Ending.ofOutcome : Outcome (Option Nat) → Ending
  | .done exit m => ⟨exit, m.log⟩
  | .failed f m => ⟨some ExitCode.software, .complaint (failureLine f) :: m.log⟩
  | .unfinished => ⟨none, []⟩

/-- The lines of an input. A newline at its end begins no further line. -/
def inputLines (input : String) : List String :=
  let lines := Text.splitLines input.toList
  let lines := if lines.getLast? = some [] then lines.dropLast else lines
  lines.map String.ofList

/-- All that a command line does, with this input at the prompt. -/
def perform (b : Budget) (file : String → ScriptFile) (input : String)
    (invocation : Except UsageError Invocation) : Eval (Option Nat) := do
  match ← start b file invocation with
  | .exited code => return some code
  | .prompting =>
    converse b (inputLines input)
    return none

/-- The program: all that a command line does from the first state on. -/
def runProgram (b : Budget) (clock : Nat → Float) (file : String → ScriptFile) (input : String)
    (arguments : List String) : Ending :=
  let invocation := Invocation.ofArguments arguments
  .ofOutcome (perform b file input invocation ⟨isDebug invocation, clock⟩ .initial)

end Lox.CommandLine
