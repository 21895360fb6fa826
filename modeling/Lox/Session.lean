import Lox.Evaluation
import Lox.ExitCode
import Lox.Grammar.Program
import Lox.Text.Utf8

/-!
# Sessions

A session is a machine that runs one source after another; what a source binds in the global scope
stays bound for the next one.

## Main definitions

* `Report`: what came out of a run
* `run b source`: runs a source, if nothing is wrong with it
* `runFile b bytes`: runs the source in a file
* `interpretAnyway b source`: runs what is left of a source when its errors are taken out
-/

namespace Lox.Session

/-- What came out of a run: the diagnostics, or else the runtime error that ended it. -/
structure Report where
  diagnostics : List Diagnostic
  runtimeError : Option RuntimeError

namespace Report

/-- The source was not run. -/
def hadError (r : Report) : Bool :=
  !r.diagnostics.isEmpty

/-- The run was ended by a runtime error. -/
def hadRuntimeError (r : Report) : Bool :=
  r.runtimeError.isSome

/-- The exit code of a program that ran nothing else. -/
def exitCode (r : Report) : Nat :=
  if r.hadError || r.hadRuntimeError then ExitCode.dataError else ExitCode.ok

end Report

/-- The scan of a source; it is traced in debug mode. -/
def scanTraced (source : String) : Eval Scan := do
  let s := scan source
  Eval.trace (.scanned s.stream.toList.length s.errors.length)
  return s

/-- The declarations of a source; the scan and the parse are traced in debug mode. -/
def parseTraced (source : String) : Eval Grammar.SourceParse := do
  let s ← scanTraced source
  let p := Grammar.parse s.stream
  Eval.trace (.parsed p.program.length p.errors.length)
  return ⟨s, p⟩

/-- Reports diagnostics, in debug mode with the lines of the source. -/
def reportDiagnostics (ds : List Diagnostic) (source : String) : Eval Unit := do
  Eval.write (.diagnostics ds (if ← Eval.debug then some source else none))

/-- Runs a source. If anything is wrong with it, that is reported and nothing is run. -/
def run (b : Budget) (source : String) : Eval Report := do
  let p ← parseTraced source
  let ds := p.diagnostics
  if ds.isEmpty then
    let error ← interpret b p.parse.program
    return ⟨[], error⟩
  else
    reportDiagnostics ds source
    return ⟨ds, none⟩

/-- Runs the source in a file. -/
def runFile (b : Budget) (bytes : List UInt8) : Eval (Except Text.Utf8Fault Report) :=
  match Text.readText bytes with
  | .ok source => return .ok (← run b source)
  | .error fault => return .error fault

/-- Runs the declarations of a source that have no fatal error. The syntax errors are not reported,
but are part of the result. -/
def interpretAnyway (b : Budget) (source : String) :
    Eval (List Diagnostic × Option RuntimeError) := do
  let p := Grammar.parseSource source
  let error ← interpret b p.parse.program
  return (p.parseDiagnostics, error)

end Lox.Session
