import Lox.Evaluation
import Lox.Proofs.Store.Tree

/-!
# Moments of a run

The rules of evaluation say how a run ends. What happens in the middle of it is said here: a run is
cut into small steps, and between two of them it is at a moment, which consists of the task that
comes next, of the work that waits for it, and of the state. What waits is a stack of frames; a
frame may hold values that were computed already.

Blocks and calls change the current scope, and a frame remembers the scope that was left.

## Main definitions

* `Task`, `Frame`, `Moment`
* `Moment.next? config σ`: the moment after the moment `σ`, if the run goes on
* `Moment.Leads config σ τ`: some steps lead from `σ` to `τ`
* `Frame.scopeBehind current f`: the current scope after the frame `f` is gone
* `Task.values`, `Frame.values`: the values that are held in the middle of a run
* `Task.scopes`, `Frame.scopes`: the scopes that are entered, or left, later on
-/

namespace Lox

open Eval

/-- What is to be done next, or what the result was of what has just been done. -/
inductive Task where
  -- expressions
  | evaluate (e : Node)
  /-- the arguments of a call, after those that have a value -/
  | arguments (paren : Token) (callee : Value) (before : List Value) (rest : List Node)
  | call (paren : Token) (callee : Value) (arguments : List Value)
  | callFunction (f : FunctionRef) (arguments : List Value)
  -- statements
  | execute (s : Node)
  /-- a statement, after its trace -/
  | traced (s : Node)
  /-- a function that is made of its declaration -/
  | declare (name : Token) (params : List Token) (body : List Node)
  | executeAll (ss : List Node)
  | loop (condition body : Node)
  /-- statements in a scope that was made for them -/
  | enter (scope : ScopeId) (ss : List Node)
  /-- the statements of a program -/
  | program (ss : List Node)
  -- results
  | value (v : Value)
  | completed (r : Completion)
  | failed (f : Failure)

/-- What waits for the result of a task. -/
inductive Frame where
  -- for a value
  | unary (operator : Token)
  | left (operator : Token) (right : Node)
  | right (left : Value) (operator : Token)
  | logical (operator : Token) (right : Node)
  | assign (name : Token)
  | callee (paren : Token) (arguments : List Node)
  | argument (paren : Token) (callee : Value) (before : List Value) (rest : List Node)
  | exprStmt
  | printStmt
  | define (name : Token)
  | branch (thenBranch : Node) (elseBranch : Option Node)
  | condition (condition body : Node)
  | returnStmt
  -- for the completion of statements
  | sequence (ss : List Node)
  | body (condition body : Node)
  | program (ss : List Node)
  /-- the scope that was current before -/
  | leave (outer : ScopeId)
  /-- the calls that could be nested in each other before -/
  | called (calls : Nat)

/-- A moment of a run: the next task, what waits for it, the calls that may be nested in each other
from now on, and the state. -/
structure Moment where
  task : Task
  frames : List Frame
  calls : Nat
  machine : Machine

namespace Moment

/-! ## Steps -/

/-- Another task takes the place of the one that was next. -/
def go (σ : Moment) (t : Task) : Moment :=
  { σ with task := t }

/-- Another task comes first, and something waits for it. -/
def push (σ : Moment) (f : Frame) (t : Task) : Moment :=
  { σ with task := t, frames := f :: σ.frames }

/-- Does something to the state. What comes next depends on the result. -/
def perform {α : Type} (σ : Moment) (config : Config) (x : Eval α) (next : α → Task) :
    Option Moment :=
  match x config σ.machine with
  | .done a m => some { σ with task := next a, machine := m }
  | .failed f m => some { σ with task := .failed f, machine := m }
  | .unfinished => none

/-- The first step of an expression. -/
def evaluating (σ : Moment) (config : Config) : Node → Option Moment
  | .lit v => some (σ.go (.value v))
  | .group e => some (σ.go (.evaluate e))
  | .unary operator right => some (σ.push (.unary operator) (.evaluate right))
  | .binary left operator right => some (σ.push (.left operator right) (.evaluate left))
  | .logical left operator right => some (σ.push (.logical operator right) (.evaluate left))
  | .ident name => σ.perform config (lookup name) .value
  | .assign name e => some (σ.push (.assign name) (.evaluate e))
  | .call callee paren arguments => some (σ.push (.callee paren arguments) (.evaluate callee))
  | node => some (σ.go (.failed (.fault (.unknownExpression node.form))))

/-- The first step of a statement, after its trace. -/
def executing (σ : Moment) (config : Config) : Node → Option Moment
  | .exprStmt e => some (σ.push .exprStmt (.evaluate e))
  | .printStmt e => some (σ.push .printStmt (.evaluate e))
  | .varDecl name none => some (σ.push (.define name) (.value .nil))
  | .varDecl name (some e) => some (σ.push (.define name) (.evaluate e))
  | .block ss => σ.perform config newBlockScope (.enter · ss)
  | .ifStmt c t e => some (σ.push (.branch t e) (.evaluate c))
  | .whileStmt c b => some (σ.go (.loop c b))
  | .funcDecl name params body => some (σ.push (.define name) (.declare name params body))
  | .returnStmt _ none => some (σ.go (.completed (.returned .nil)))
  | .returnStmt _ (some e) => some (σ.push .returnStmt (.evaluate e))
  | node => some (σ.go (.failed (.fault (.unknownStatement node.form))))

/-- The first step of a call, which tells the functions of programs from those of the host. -/
def calling (σ : Moment) (config : Config) (paren : Token) (v : Value) (arguments : List Value) :
    Option Moment :=
  match v.arity? with
  | none => some (σ.go (.failed (.runtime ⟨.notCallable, paren⟩)))
  | some arity =>
    if arguments.length ≠ arity then
      some (σ.go (.failed (.runtime ⟨.arityMismatch arity arguments.length, paren⟩)))
    else
      match v with
      | .function f => some (σ.go (.callFunction f arguments))
      | .native f => σ.perform config (callNative f) .value
      | _ => some (σ.go (.failed (.runtime ⟨.notCallable, paren⟩)))

/-- Makes the scope for a call of a function, in which its body comes next. -/
def callScope (f : FunctionRef) (arguments : List Value) : Eval Task := do
  let c ← closure f
  let scope ← newCallScope c arguments
  trace (.calling c.name.lexeme)
  return .enter scope c.body

/-- The first step of a call of a function. Within it, one call less may be nested. -/
def callingFunction (σ : Moment) (config : Config) (f : FunctionRef) (arguments : List Value) :
    Option Moment :=
  match σ.calls, callScope f arguments config σ.machine with
  | 0, _ => some (σ.go (.failed .tooDeep))
  | calls + 1, .done t m =>
    some ⟨t, .called (calls + 1) :: σ.frames, calls, m⟩
  | _ + 1, .failed e m => some { σ with task := .failed e, machine := m }
  | _ + 1, .unfinished => none

/-- Prints the text of a value. -/
def printing (v : Value) : Eval Completion := do
  let line ← ofExcept .fault v.display
  write (.printed line)
  return .normal

/-- Binds a name in the current scope. -/
def defining (name : Token) (v : Value) : Eval Completion := do
  Eval.define name.lexeme v
  return .normal

/-- Changes the value of a variable, which is the value of the assignment. -/
def assigning (name : Token) (v : Value) : Eval Value := do
  Eval.assign name v
  return v

/-- A value is given to the frame that waits for it. -/
def receiving (σ : Moment) (config : Config) (v : Value) : Frame → Option Moment
  | .unary operator => σ.perform config (ofOperator operator (v.unary operator)) .value
  | .left operator right => some (σ.push (.right v operator) (.evaluate right))
  | .right left operator => σ.perform config (ofOperator operator (left.binary operator v)) .value
  | .logical operator right =>
    some (σ.go (if decides operator v then .value v else .evaluate right))
  | .assign name => σ.perform config (assigning name v) .value
  | .callee paren arguments => some (σ.go (.arguments paren v [] arguments))
  | .argument paren callee before rest =>
    some (σ.go (.arguments paren callee (before ++ [v]) rest))
  | .exprStmt => some (σ.go (.completed .normal))
  | .printStmt => σ.perform config (printing v) .completed
  | .define name => σ.perform config (defining name v) .completed
  | .branch t e =>
    some (σ.go (if v.isTruthy then .execute t else e.elim (.completed .normal) .execute))
  | .condition c b =>
    some (if v.isTruthy then σ.push (.body c b) (.execute b) else σ.go (.completed .normal))
  | .returnStmt => some (σ.go (.completed (.returned v)))
  | _ => none

/-- The completion of statements is given to the frame that waits for it. -/
def completing (σ : Moment) (r : Completion) : Frame → Option Moment
  | .sequence ss =>
    some (σ.go (match r with | .normal => .executeAll ss | .returned v => .completed (.returned v)))
  | .body c b =>
    some (σ.go (match r with | .normal => .loop c b | .returned v => .completed (.returned v)))
  | .program ss => some (σ.go (.program ss))
  | .leave outer => some { σ with machine := { σ.machine with current := outer } }
  | .called calls =>
    some { σ with
      task := match r with | .normal => .value .nil | .returned v => .value v
      calls := calls }
  | _ => none

/-- A failure passes a frame. It leaves the scope, or the call, that the frame is about. -/
def unwinding (σ : Moment) : Frame → Moment
  | .leave outer => { σ with machine := { σ.machine with current := outer } }
  | .called calls => { σ with calls := calls }
  | _ => σ

/-- The next moment of a run, if it goes on. -/
def next? (config : Config) (σ : Moment) : Option Moment :=
  match σ.task, σ.frames with
  | .evaluate e, _ => σ.evaluating config e
  | .arguments paren callee before [], _ => some (σ.go (.call paren callee before))
  | .arguments paren callee before (e :: es), _ =>
    some (σ.push (.argument paren callee before es) (.evaluate e))
  | .call paren callee arguments, _ => σ.calling config paren callee arguments
  | .callFunction f arguments, _ => σ.callingFunction config f arguments
  | .execute s, _ => σ.perform config (trace (.executing s.form)) fun _ => .traced s
  | .traced s, _ => σ.executing config s
  | .declare name params body, _ =>
    σ.perform config (newFunction name params body) fun f => .value (.function f)
  | .executeAll [], _ => some (σ.go (.completed .normal))
  | .executeAll (s :: ss), _ => some (σ.push (.sequence ss) (.execute s))
  | .loop c b, _ => some (σ.push (.condition c b) (.evaluate c))
  | .enter i ss, _ =>
    some { σ.push (.leave σ.machine.current) (.executeAll ss) with
      machine := { σ.machine with current := i } }
  | .program [], _ => some (σ.go (.completed .normal))
  | .program (s :: ss), _ => some (σ.push (.program ss) (.execute s))
  | .value v, f :: fs => { σ with frames := fs }.receiving config v f
  | .completed r, f :: fs => { σ with frames := fs }.completing r f
  | .failed _, f :: fs => some ({ σ with frames := fs }.unwinding f)
  | .value _, [] | .completed _, [] | .failed _, [] => none

/-- Some steps lead from one moment to the other. -/
def Leads (config : Config) : Moment → Moment → Prop :=
  Relation.ReflTransGen fun σ τ => σ.next? config = some τ

end Moment

/-- The current scope after the frame is gone. -/
def Frame.scopeBehind (current : ScopeId) : Frame → ScopeId
  | .leave outer => outer
  | _ => current

/-! ## What is held -/

/-- The values that the next task is about. -/
def Task.values : Task → List Value
  | .arguments _ v before _ => v :: before
  | .call _ v vs => v :: vs
  | .callFunction f vs => .function f :: vs
  | value v | completed (.returned v) => [v]
  | _ => []

/-- The values that a frame holds. -/
def Frame.values : Frame → List Value
  | right v _ => [v]
  | argument _ v before _ => v :: before
  | _ => []

/-- The scope that the next task enters. -/
def Task.scopes : Task → List ScopeId
  | enter i _ => [i]
  | _ => []

/-- The scope that is current again behind the frame. -/
def Frame.scopes : Frame → List ScopeId
  | leave i => [i]
  | _ => []

/-- The values that are held in the middle of a run, and not bound to a name. -/
def Moment.pending (σ : Moment) : List Value :=
  σ.task.values ++ σ.frames.flatMap Frame.values

/-- The value is held, or bound to a name in some scope. -/
def Moment.Holds (σ : Moment) (v : Value) : Prop :=
  v ∈ σ.pending ∨ σ.machine.store.Binds v

end Lox
