import Lox.Proofs.Evaluation.Adequacy

/-!
# `return` as a signal

A `return` ends the call of the function around it, from inside of any number of blocks, branches
and loops. The rules of evaluation carry it outwards in the completion of statements, and every rule
for statements has to look at that. Here are the same rules in another form: a `return` raises a
signal, no statement takes notice of it, and the call of a function catches it.

Both forms agree, in whatever state and on whatever tree. Since a signal passes everything that
waits for a statement, so does a completion by a `return`: what comes after it in the same call has
no effect.

## Main definitions

* `Run α`: a run that a signal can end
* `Run.catchSignal x`: the value that is returned in a run
* `Signal.evaluate`, `Signal.execute`, ...: the rules of evaluation, with signals
* `Eval.raising x`: the run `x`, in which a completion by a `return` is turned into a signal

## Main results

* `agreement`: the rules of both forms agree
* `returns_unwind`: how statements and expressions end, in both forms, and what a `return` skips
-/

namespace Lox

/-! ## Runs that a signal can end -/

/-- Why a run stops before its end. -/
inductive Interruption where
  /-- the signal of a `return` with this value -/
  | signal (v : Value)
  | failure (f : Failure)

/-- How a run ends; without a state if its fuel did not suffice. -/
inductive Ending (α : Type) where
  | done (result : α) (machine : Machine)
  | interrupted (cause : Interruption) (machine : Machine)
  | unfinished

/-- A run of the machine that a signal can end. -/
def Run (α : Type) : Type :=
  Config → Machine → Ending α

namespace Run

variable {α β : Type}

/-- The run that does nothing. -/
protected def pure (a : α) : Run α :=
  fun _ m => .done a m

/-- One run after another. The second one does not take place if the first one is interrupted. -/
protected def bind (x : Run α) (next : α → Run β) : Run β :=
  fun config m =>
    match x config m with
    | .done a m => next a config m
    | .interrupted cause m => .interrupted cause m
    | .unfinished => .unfinished

instance : Monad Run where
  pure := Run.pure
  bind := Run.bind

/-- The run whose fuel did not suffice. -/
def unfinished : Run α :=
  fun _ _ => .unfinished

/-- The signal of a `return` with this value. -/
def signal (v : Value) : Run α :=
  fun _ m => .interrupted (.signal v) m

/-- A run in which no signal is raised. -/
def lift (x : Eval α) : Run α :=
  fun config m =>
    match x config m with
    | .done a m => .done a m
    | .failed f m => .interrupted (.failure f) m
    | .unfinished => .unfinished

/-- A run in another scope. However it ends, the current scope is then what it was. -/
def within (i : ScopeId) (x : Run α) : Run α :=
  fun config m =>
    let outer := m.current
    match x config { m with current := i } with
    | .done a m => .done a { m with current := outer }
    | .interrupted cause m => .interrupted cause { m with current := outer }
    | .unfinished => .unfinished

/-- The value that is returned in a run: the one of its signal, or nil if it raises none. -/
def catchSignal (x : Run Unit) : Run Value :=
  fun config m =>
    match x config m with
    | .done _ m => .done .nil m
    | .interrupted (.signal v) m => .done v m
    | .interrupted (.failure f) m => .interrupted (.failure f) m
    | .unfinished => .unfinished

end Run

/-! ## The rules of evaluation, with signals -/

namespace Signal

open Run

mutual

/-- The value of an expression. -/
def evaluate : (fuel calls : Nat) → Node → Run Value
  | 0, _, _ => Run.unfinished
  | fuel + 1, calls, node =>
    match node with
    | .lit v => return v
    | .group e => evaluate fuel calls e
    | .unary operator right => do
      let v ← evaluate fuel calls right
      lift (Eval.ofOperator operator (v.unary operator))
    | .binary left operator right => do
      let v ← evaluate fuel calls left
      let w ← evaluate fuel calls right
      lift (Eval.ofOperator operator (v.binary operator w))
    | .logical left operator right => do
      let v ← evaluate fuel calls left
      if decides operator v then return v else evaluate fuel calls right
    | .ident name => lift (Eval.lookup name)
    | .assign name e => do
      let v ← evaluate fuel calls e
      lift (Eval.assign name v)
      return v
    | .call callee paren arguments => do
      let v ← evaluate fuel calls callee
      let ws ← evaluateAll fuel calls arguments
      call fuel calls paren v ws
    | node => lift (Eval.fail (.fault (.unknownExpression node.form)))

/-- The values of expressions, from left to right. -/
def evaluateAll : (fuel calls : Nat) → List Node → Run (List Value)
  | 0, _, _ => Run.unfinished
  | _ + 1, _, [] => return []
  | fuel + 1, calls, e :: es => do
    let v ← evaluate fuel calls e
    let vs ← evaluateAll fuel calls es
    return v :: vs

/-- Calls a value. -/
def call : (fuel calls : Nat) → Token → Value → List Value → Run Value
  | 0, _, _, _, _ => Run.unfinished
  | fuel + 1, calls, paren, v, arguments =>
    match v.arity? with
    | none => lift (Eval.raise .notCallable paren)
    | some arity =>
      if arguments.length ≠ arity then
        lift (Eval.raise (.arityMismatch arity arguments.length) paren)
      else
        match v with
        | .function f => callFunction fuel calls f arguments
        | .native f => lift (callNative f)
        | _ => lift (Eval.raise .notCallable paren)

/-- Calls a function, which catches the signal of a `return` in its body. -/
def callFunction : (fuel calls : Nat) → FunctionRef → List Value → Run Value
  | 0, _, _, _ => Run.unfinished
  | _ + 1, 0, _, _ => lift (Eval.fail .tooDeep)
  | fuel + 1, calls + 1, f, arguments => do
    let c ← lift (Eval.closure f)
    let scope ← lift (Eval.newCallScope c arguments)
    lift (Eval.trace (.calling c.name.lexeme))
    catchSignal (within scope (executeAll fuel calls c.body))

/-- Does what a statement says. A `return` raises a signal. -/
def execute : (fuel calls : Nat) → Node → Run Unit
  | 0, _, _ => Run.unfinished
  | fuel + 1, calls, node => do
    lift (Eval.trace (.executing node.form))
    match node with
    | .exprStmt e =>
      let _ ← evaluate fuel calls e
      return ()
    | .printStmt e =>
      let v ← evaluate fuel calls e
      let line ← lift (Eval.ofExcept .fault v.display)
      lift (Eval.write (.printed line))
    | .varDecl name initializer =>
      let v ← match initializer with
        | some e => evaluate fuel calls e
        | none => pure .nil
      lift (Eval.define name.lexeme v)
    | .block statements =>
      let scope ← lift Eval.newBlockScope
      within scope (executeAll fuel calls statements)
    | .ifStmt condition thenBranch elseBranch =>
      let v ← evaluate fuel calls condition
      if v.isTruthy then execute fuel calls thenBranch
      else
        match elseBranch with
        | some s => execute fuel calls s
        | none => return ()
    | .whileStmt condition body => loop fuel calls condition body
    | .funcDecl name params body =>
      let f ← lift (Eval.newFunction name params body)
      lift (Eval.define name.lexeme (.function f))
    | .returnStmt _ value =>
      match value with
      | some e => signal (← evaluate fuel calls e)
      | none => signal .nil
    | node => lift (Eval.fail (.fault (.unknownStatement node.form)))

/-- Does what statements say, one after another. -/
def executeAll : (fuel calls : Nat) → List Node → Run Unit
  | 0, _, _ => Run.unfinished
  | _ + 1, _, [] => return ()
  | fuel + 1, calls, s :: ss => do
    execute fuel calls s
    executeAll fuel calls ss

/-- Does what the body of a loop says, as long as the condition is true. -/
def loop : (fuel calls : Nat) → (condition body : Node) → Run Unit
  | 0, _, _, _ => Run.unfinished
  | fuel + 1, calls, condition, body => do
    let v ← evaluate fuel calls condition
    if v.isTruthy then
      execute fuel calls body
      loop fuel calls condition body
    else return ()

end

end Signal

/-! ## Completions as signals -/

namespace Run

variable {α β : Type}

theorem bind_apply (x : Run α) (next : α → Run β) (config : Config) (m : Machine) :
    (x >>= next) config m =
      match x config m with
      | .done a m => next a config m
      | .interrupted cause m => .interrupted cause m
      | .unfinished => .unfinished := rfl

/-- A run that has no result to tell. -/
@[simp] theorem bind_pure_unit (x : Run Unit) : (x >>= fun _ => pure ()) = x := by
  funext config m
  rw [bind_apply]
  cases x config m <;> rfl

@[simp] theorem lift_pure (a : α) : lift (pure a : Eval α) = pure a := rfl

@[simp] theorem lift_unfinished : lift (Eval.unfinished : Eval α) = unfinished := rfl

@[simp] theorem lift_bind (x : Eval α) (next : α → Eval β) :
    lift (x >>= next) = lift x >>= fun a => lift (next a) := by
  funext config m
  simp only [lift, Eval.bind_apply, bind_apply]
  cases x config m <;> rfl

end Run

open Run

/-- The run, in which a completion by a `return` is turned into a signal. -/
def Eval.raising (x : Eval Completion) : Run Unit := do
  match ← lift x with
  | .normal => return ()
  | .returned v => signal v

namespace Eval

variable {α β : Type}

@[simp] theorem raising_normal : raising (pure .normal) = pure () := rfl

@[simp] theorem raising_returned (v : Value) : raising (pure (.returned v)) = signal v := rfl

@[simp] theorem raising_unfinished : raising unfinished = Run.unfinished := rfl

@[simp] theorem raising_bind (x : Eval α) (next : α → Eval Completion) :
    raising (x >>= next) = lift x >>= fun a => raising (next a) := by
  funext config m
  simp only [raising, lift, Eval.bind_apply, Run.bind_apply]
  cases x config m <;> rfl

/-- A rule that looks at the completion of a statement passes the signal on. -/
theorem raising_seq (x y : Eval Completion) :
    raising (do
      match ← x with
      | .returned v => return .returned v
      | .normal => y) = raising x >>= fun _ => raising y := by
  funext config m
  simp only [raising, lift, Eval.bind_apply, Run.bind_apply]
  cases x config m with
  | done r m' => cases r <;> rfl
  | failed f m' => rfl
  | unfinished => rfl

theorem raising_within (i : ScopeId) (x : Eval Completion) :
    raising (within i x) = Run.within i (raising x) := by
  funext config m
  simp only [raising, lift, within, Run.within, Run.bind_apply]
  cases x config { m with current := i } with
  | done r m' => cases r <;> rfl
  | failed f m' => rfl
  | unfinished => rfl

/-- A call looks at the completion of its body to the same effect as it catches the signal. -/
theorem catchSignal_raising (x : Eval Completion) :
    catchSignal (raising x) = lift (do
      match ← x with
      | .returned v => return v
      | .normal => return .nil) := by
  funext config m
  simp only [catchSignal, raising, lift, Eval.bind_apply, Run.bind_apply]
  cases x config m with
  | done r m' => cases r <;> rfl
  | failed f m' => rfl
  | unfinished => rfl

end Eval

/-! ## The rules agree -/

open Eval (raising_bind raising_normal raising_within raising_seq raising_unfinished
  catchSignal_raising)

/-- With this much fuel, the rules of both forms agree. -/
structure Agreement (fuel : Nat) : Prop where
  evaluate (calls : Nat) (e : Node) :
    Signal.evaluate fuel calls e = lift (evaluate fuel calls e)
  evaluateAll (calls : Nat) (es : List Node) :
    Signal.evaluateAll fuel calls es = lift (evaluateAll fuel calls es)
  call (calls : Nat) (paren : Token) (v : Value) (vs : List Value) :
    Signal.call fuel calls paren v vs = lift (call fuel calls paren v vs)
  callFunction (calls : Nat) (f : FunctionRef) (vs : List Value) :
    Signal.callFunction fuel calls f vs = lift (callFunction fuel calls f vs)
  execute (calls : Nat) (s : Node) :
    Signal.execute fuel calls s = (execute fuel calls s).raising
  executeAll (calls : Nat) (ss : List Node) :
    Signal.executeAll fuel calls ss = (executeAll fuel calls ss).raising
  loop (calls : Nat) (c b : Node) :
    Signal.loop fuel calls c b = (loop fuel calls c b).raising

namespace Agreement

variable {fuel : Nat}

theorem evaluate_succ (ih : Agreement fuel) (calls : Nat) (e : Node) :
    Signal.evaluate (fuel + 1) calls e = lift (Lox.evaluate (fuel + 1) calls e) := by
  unfold Signal.evaluate Lox.evaluate
  cases e with
  | group e => exact ih.evaluate calls e
  | logical left operator right =>
    simp only [ih.evaluate, lift_bind]
    congr 1
    funext v
    split <;> simp
  | _ => simp [ih.evaluate, ih.evaluateAll, ih.call]

theorem evaluateAll_succ (ih : Agreement fuel) (calls : Nat) (es : List Node) :
    Signal.evaluateAll (fuel + 1) calls es = lift (Lox.evaluateAll (fuel + 1) calls es) := by
  unfold Signal.evaluateAll Lox.evaluateAll
  cases es with
  | nil => rfl
  | cons e es => simp [ih.evaluate, ih.evaluateAll]

theorem call_succ (ih : Agreement fuel) (calls : Nat) (paren : Token) (v : Value)
    (vs : List Value) :
    Signal.call (fuel + 1) calls paren v vs = lift (Lox.call (fuel + 1) calls paren v vs) := by
  unfold Signal.call Lox.call
  cases v.arity? with
  | none => rfl
  | some arity =>
    by_cases hl : vs.length ≠ arity
    · simp only [if_pos hl]
    · simp only [if_neg hl]
      cases v with
      | function f => exact ih.callFunction calls f vs
      | _ => rfl

theorem callFunction_succ (ih : Agreement fuel) (calls : Nat) (f : FunctionRef)
    (vs : List Value) :
    Signal.callFunction (fuel + 1) calls f vs = lift (Lox.callFunction (fuel + 1) calls f vs) := by
  cases calls with
  | zero =>
    rw [Signal.callFunction, Lox.callFunction]
  | succ calls =>
    rw [Signal.callFunction, Lox.callFunction, lift_bind]
    congr 1
    funext c
    rw [lift_bind]
    congr 1
    funext scope
    rw [lift_bind]
    congr 1
    funext _
    rw [ih.executeAll, ← raising_within]
    exact catchSignal_raising _

theorem execute_succ (ih : Agreement fuel) (calls : Nat) (s : Node) :
    Signal.execute (fuel + 1) calls s = (Lox.execute (fuel + 1) calls s).raising := by
  unfold Signal.execute Lox.execute
  rw [raising_bind]
  congr 1
  funext _
  cases s with
  | exprStmt e => simp only [ih.evaluate, raising_bind, raising_normal]
  | printStmt e => simp only [ih.evaluate, raising_bind, raising_normal, bind_pure_unit]
  | varDecl name initializer =>
    cases initializer <;>
      simp only [ih.evaluate, raising_bind, raising_normal, bind_pure_unit, lift_pure]
  | block ss => simp only [ih.executeAll, raising_bind, raising_within]
  | ifStmt c t e =>
    simp only [ih.evaluate, raising_bind]
    congr 1
    funext v
    split
    · exact ih.execute calls t
    · cases e with
      | some e => exact ih.execute calls e
      | none => rfl
  | whileStmt c b => exact ih.loop calls c b
  | funcDecl name params body => simp only [raising_bind, raising_normal, bind_pure_unit]
  | returnStmt keyword value =>
    cases value with
    | some e => simp [ih.evaluate]
    | none => rfl
  | _ => rfl

/-- The statements behind a `return` are skipped in both forms. -/
theorem executeAll_succ (ih : Agreement fuel) (calls : Nat) (ss : List Node) :
    Signal.executeAll (fuel + 1) calls ss = (Lox.executeAll (fuel + 1) calls ss).raising := by
  unfold Signal.executeAll Lox.executeAll
  cases ss with
  | nil => rfl
  | cons s ss =>
    simp only [ih.execute, ih.executeAll]
    exact (raising_seq _ _).symm

theorem loop_succ (ih : Agreement fuel) (calls : Nat) (c b : Node) :
    Signal.loop (fuel + 1) calls c b = (Lox.loop (fuel + 1) calls c b).raising := by
  unfold Signal.loop Lox.loop
  simp only [ih.evaluate, raising_bind]
  congr 1
  funext v
  split
  · simp only [ih.execute, ih.loop]
    exact (raising_seq _ _).symm
  · rfl

end Agreement

/-- The rules of both forms agree. -/
theorem agreement (fuel : Nat) : Agreement fuel := by
  induction fuel with
  | zero =>
    constructor <;> intros <;>
      simp only [Signal.evaluate, Signal.evaluateAll, Signal.call, Signal.callFunction,
        Signal.execute, Signal.executeAll, Signal.loop, evaluate, evaluateAll, call, callFunction,
        execute, executeAll, loop, lift_unfinished, raising_unfinished]
  | succ fuel ih =>
    exact {
      evaluate := ih.evaluate_succ
      evaluateAll := ih.evaluateAll_succ
      call := ih.call_succ
      callFunction := ih.callFunction_succ
      execute := ih.execute_succ
      executeAll := ih.executeAll_succ
      loop := ih.loop_succ }

/-! ## How the two forms end -/

/-- Each way in which the run can end is one in which it ends with signals. -/
theorem raising_ends (x : Eval Completion) (config : Config) (m m' : Machine) :
    (∀ v, x config m = .done (.returned v) m' ↔
      x.raising config m = .interrupted (.signal v) m') ∧
    (x config m = .done .normal m' ↔ x.raising config m = .done () m') ∧
    (∀ f, x config m = .failed f m' ↔ x.raising config m = .interrupted (.failure f) m') := by
  simp only [Eval.raising, lift, Run.bind_apply]
  cases x config m with
  | done r n => cases r <;> simp [Run.signal, pure, Run.pure]
  | failed f n => simp
  | unfinished => simp

/-- A run in which no signal is raised ends as it does without signals. -/
theorem lift_ends {α : Type} (x : Eval α) (config : Config) (m m' : Machine) :
    (∀ a, x config m = .done a m' ↔ lift x config m = .done a m') ∧
    (∀ f, x config m = .failed f m' ↔ lift x config m = .interrupted (.failure f) m') ∧
    (∀ v, lift x config m ≠ .interrupted (.signal v) m') := by
  simp only [lift]
  cases x config m <;> simp

/-! ## What a `return` skips -/

open Moment

/-- The frame waits for a statement in the body of the same function: with the statements that come
next, with the next round of a loop, or to leave a scope. -/
def Frame.IsInner : Frame → Prop
  | .sequence _ | .body .. | .leave _ => True
  | _ => False

/-- A completion by a `return` passes everything that waits for a statement in the same call. -/
theorem leads_returned {config : Config} {v : Value} {inner frames : List Frame} {calls : Nat}
    {m : Machine} (hf : ∀ f ∈ inner, f.IsInner) :
    Leads config ⟨.completed (.returned v), inner ++ frames, calls, m⟩
      ⟨.completed (.returned v), frames, calls,
        { m with current := inner.foldl Frame.scopeBehind m.current }⟩ := by
  induction inner generalizing m with
  | nil => exact .refl _
  | cons f inner ih =>
    obtain ⟨hf, hinner⟩ := List.forall_mem_cons.mp hf
    cases f with
    | sequence ss => exact .head rfl (ih hinner)
    | body c b => exact .head rfl (ih hinner)
    | leave outer => exact .head rfl (ih hinner)
    | _ => exact hf.elim

/-- From a statement that completes by a `return`, the steps lead to the value of the call around
it. -/
theorem leads_of_returned {config : Config} {fuel calls outer : Nat} {s : Node} {v : Value}
    {m m' : Machine} {inner frames : List Frame}
    (h : execute fuel calls s config m = .done (.returned v) m') (hf : ∀ f ∈ inner, f.IsInner) :
    Leads config ⟨.execute s, inner ++ .called outer :: frames, calls, m⟩
      ⟨.value v, frames, outer,
        { m' with current := inner.foldl Frame.scopeBehind m'.current }⟩ := by
  have hs := (followed fuel).execute calls s config (inner ++ .called outer :: frames) m
  simp only [h] at hs
  exact (hs.trans (leads_returned hf)).trans (.of_next? rfl)

/-- Statements that stand behind those that complete by a `return` make no difference. -/
theorem executeAll_append_of_returned {config : Config} {fuel calls : Nat} {ss : List Node}
    (ts : List Node) {m m' : Machine} {v : Value}
    (h : executeAll fuel calls ss config m = .done (.returned v) m') :
    executeAll fuel calls (ss ++ ts) config m = .done (.returned v) m' := by
  induction fuel generalizing ss m with
  | zero => simp [executeAll, Eval.unfinished] at h
  | succ fuel ih =>
    cases ss with
    | nil => simp [executeAll] at h
    | cons s ss =>
      rw [executeAll, Eval.bind_eq_done_iff] at h
      obtain ⟨r, n, hs, hr⟩ := h
      rw [List.cons_append, executeAll, Eval.bind_eq_done_iff]
      cases r with
      | returned w => exact ⟨.returned w, n, hs, hr⟩
      | normal => exact ⟨.normal, n, hs, ih hr⟩

/-- **A `return` unwinds its call.** A statement completes by a `return` exactly if it raises the
signal with the same value when signals are used, and it completes normally, or fails, exactly if it
does so there; either way the state is the same. Expressions have the same values and failures, and
raise no signals. Statements behind a `return` make no difference, and when a statement completes by
a `return`, the steps from it lead to the value of the call around it: nothing of what waits in the
same call takes place, and the state does not change any more, but for the scopes that are left. -/
theorem returns_unwind :
    (∀ fuel calls s config m m',
      (∀ v, execute fuel calls s config m = .done (.returned v) m' ↔
        Signal.execute fuel calls s config m = .interrupted (.signal v) m') ∧
      (execute fuel calls s config m = .done .normal m' ↔
        Signal.execute fuel calls s config m = .done () m') ∧
      (∀ f, execute fuel calls s config m = .failed f m' ↔
        Signal.execute fuel calls s config m = .interrupted (.failure f) m')) ∧
    (∀ fuel calls e config m m',
      (∀ v, evaluate fuel calls e config m = .done v m' ↔
        Signal.evaluate fuel calls e config m = .done v m') ∧
      (∀ f, evaluate fuel calls e config m = .failed f m' ↔
        Signal.evaluate fuel calls e config m = .interrupted (.failure f) m') ∧
      (∀ v, Signal.evaluate fuel calls e config m ≠ .interrupted (.signal v) m')) ∧
    (∀ fuel calls ss ts config m v m',
      executeAll fuel calls ss config m = .done (.returned v) m' →
      executeAll fuel calls (ss ++ ts) config m = .done (.returned v) m') ∧
    (∀ fuel calls s config m v m' inner outer frames,
      execute fuel calls s config m = .done (.returned v) m' → (∀ f ∈ inner, f.IsInner) →
      Leads config ⟨.execute s, inner ++ .called outer :: frames, calls, m⟩
        ⟨.value v, frames, outer,
          { m' with current := inner.foldl Frame.scopeBehind m'.current }⟩) := by
  refine ⟨fun fuel calls s config m m' => ?_, fun fuel calls e config m m' => ?_,
    fun fuel calls ss ts config m v m' => executeAll_append_of_returned ts,
    fun fuel calls s config m v m' inner outer frames => leads_of_returned⟩
  · rw [(agreement fuel).execute]
    exact raising_ends _ config m m'
  · rw [(agreement fuel).evaluate]
    exact lift_ends _ config m m'

/-- The state in which `nil` is returned. -/
def Outcome.returnedNil? : Outcome Completion → Option Machine
  | .done (.returned .nil) m => some m
  | _ => none

theorem Outcome.returnedNil?_eq_some_iff {x : Outcome Completion} {m : Machine} :
    x.returnedNil? = some m ↔ x = .done (.returned .nil) m := by
  unfold returnedNil?
  split <;> simp_all

/-- Out of a loop without an end, past statements that would print something. -/
theorem returns_unwind_loop :
    let keyword : Token := ⟨.returnKw, "return", none, 1, 0⟩
    let print := Node.printStmt (.lit .nil)
    let s := Node.whileStmt (.lit (.bool true)) (.block [.returnStmt keyword none, print])
    let config : Config := ⟨false, fun _ => 0⟩
    ∃ m', m'.log = [] ∧
      Signal.execute 9 1 s config .initial = .interrupted (.signal .nil) m' ∧
      executeAll 10 1 ([s] ++ [print]) config .initial = .done (.returned .nil) m' ∧
      Leads config ⟨.execute s, [.sequence [print]] ++ .called 0 :: [], 1, .initial⟩
        ⟨.value .nil, [], 0, m'⟩ := by
  intro keyword print s config
  obtain ⟨hexec, -, hseq, hleads⟩ := returns_unwind
  have h : (execute 9 1 s config .initial).returnedNil?.map (·.log.isEmpty) = some true := by
    decide +kernel
  obtain ⟨m', hreturned, hlog⟩ := Option.map_eq_some_iff.mp h
  have hm := Outcome.returnedNil?_eq_some_iff.mp hreturned
  have hall : executeAll 10 1 [s] config .initial = .done (.returned .nil) m' := by
    rw [executeAll, Eval.bind_eq_done_iff]
    exact ⟨.returned .nil, m', hm, rfl⟩
  have hinner : ∀ f ∈ [Frame.sequence [print]], f.IsInner := by simp [Frame.IsInner]
  exact ⟨m', List.isEmpty_iff.mp hlog, ((hexec 9 1 s config .initial m').1 .nil).mp hm,
    hseq 10 1 [s] [print] config .initial .nil m' hall,
    hleads 9 1 s config .initial .nil m' _ 0 [] hm hinner⟩

end Lox
