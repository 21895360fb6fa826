import Lox.Node.Printer
import Lox.Session
import Lox.Text.Blank

/-!
# The prompt

The interactive use of a session: lines of source, commands that begin with a colon, and the
completion of words.

## Main definitions

* `command line`: the command that a line is, carried out
* `respond b line`: what the prompt does with a line
* `completions text`: the words that can complete a text
-/

namespace Lox.Prompt

open Eval

/-- The name and the version of the program. -/
def version : String :=
  "Lox v0.3.0 (Tree-walking Interpreter)"

/-- The lines in front of the first prompt. -/
def banner (debug : Bool) : List String :=
  [version ++ " - Interactive Mode",
    "Type 'exit' to quit, ':help' for commands",
    "Readline enabled: Use ↑/↓ for history, Tab for completion"]
    ++ (if debug then ["Debug mode enabled"] else [])
    ++ [""]

/-- The answer to `:help`. -/
def helpLines : List String :=
  ["REPL Commands:",
    "  :parse <expr>     - Show the parsed AST of an expression",
    "  :tokens <source>  - Show the tokens of some source",
    "  :env              - Show global bindings",
    "  :help             - Show this help",
    "  exit              - Exit REPL",
    "",
    "Language features:",
    "  var x = 5;                      - Variable declaration",
    "  func add(a, b) \x7b return a + b; \x7d - Function declaration",
    "  print add(1, 2);                - Print a value",
    "  for (var i = 0; i < 3; i = i + 1) print i;"]

/-- Writes lines of an answer. -/
def reply : List String → Eval Unit
  | [] => return ()
  | line :: lines => do
    write (.reply line)
    reply lines

/-! ## Commands -/

/-- Shows the printed form of an expression. -/
def showExpression (source : String) : Eval Unit := do
  let s ← Session.scanTraced source
  match Grammar.expressionOfScan s with
  | .ok e =>
    let printed ← ofExcept .fault e.print
    write (.reply printed)
  | .error error => write (.complaint error.diagnostic.text)

/-- Shows the tokens of a source. -/
def showTokens (source : String) : Eval Unit := do
  let s ← Session.scanTraced source
  reply (s.stream.toList.map fun t => "  " ++ t.display)
  unless s.errors.isEmpty do
    write (.complaint (Context.plainReport (s.errors.map ScanError.diagnostic)))

/-- What the global scope binds. -/
def globals : Eval Bindings :=
  fun _ m => .done (m.store.bindings globalScope) m

/-- Shows bindings, one to a line. -/
def showBindings : Bindings → Eval Unit
  | [] => return ()
  | (name, v) :: bs => do
    let shown ← ofExcept .fault v.display
    write (.reply ("  " ++ name ++ " = " ++ shown))
    showBindings bs

/-- Shows what the global scope binds, apart from the clock. -/
def showGlobals : Eval Unit := do
  match (← globals).filter fun (name, _) => name ≠ "clock" with
  | [] => write (.reply "  (no user-defined bindings)")
  | bs => showBindings bs

/-- The commands. -/
inductive Command where
  | parse (source : String)
  | tokens (source : String)
  | env
  | help
  deriving DecidableEq, Repr

/-- The text after a start that it may have. -/
def after? (start text : String) : Option String :=
  if start.toList.isPrefixOf text.toList then
    some (String.ofList (text.toList.drop start.toList.length))
  else none

/-- The command that a line is; blanks around it do not matter. -/
def command? (line : String) : Option Command :=
  let line := Text.trim line
  if let some source := after? ":parse " line then some (.parse source)
  else if let some source := after? ":tokens " line then some (.tokens source)
  else if line = ":env" then some .env
  else if line = ":help" then some .help
  else none

/-- Carries a command out. -/
def Command.perform : Command → Eval Unit
  | parse source => showExpression source
  | tokens source => showTokens source
  | env => showGlobals
  | help => reply helpLines

/-- Carries out the command that a line is, and says whether it is one. -/
def command (line : String) : Eval Bool := do
  match command? line with
  | some c =>
    c.perform
    return true
  | none => return false

/-! ## Lines -/

/-- What the prompt does with a line, and whether it goes on after it. -/
def respond (b : Budget) (line : String) : Eval Bool := do
  let trimmed := Text.trim line
  if trimmed = "exit" then return false
  if trimmed.isEmpty then return true
  if ← command line then return true
  let _ ← Session.run b line
  return true

/-- The words that the prompt completes. -/
def completionWords : List String :=
  keywords.map Prod.fst ++ ["clock", ":parse", ":tokens", ":env", ":help", "exit"]

/-- The words that can complete a text. -/
def completions (text : String) : List String :=
  completionWords.filter fun word => (after? text word).isSome

end Lox.Prompt
