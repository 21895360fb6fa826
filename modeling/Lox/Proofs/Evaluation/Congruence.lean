import Lox.Evaluation

/-!
# Relations that the rules of evaluation respect

A rule of evaluation is made of steps, one after another, of runs in other scopes, and of other
rules. So a relation between runs that respects these holds between each rule and itself, whatever
the relation is. What it has to be shown for by itself are the steps, and the two places at which a
rule looks at its budget: where the fuel is used up, and where there are too many calls.

The two rules that are related may have different budgets.

## Main definitions

* `Eval.Congruence R`: the relation `R` respects the steps, and how runs are put together
* `RelatedRules R C fuel fuel'`: it holds between the rules with these two amounts of fuel, if the
  limits on the calls are related by `C`

## Main results

* `RelatedRules.succ`: then it holds with more fuel
-/

namespace Lox

open Eval

/-- A relation between runs that is kept when runs are put together, and that holds between each
step and itself. -/
structure Eval.Congruence (R : ∀ {α : Type}, Eval α → Eval α → Prop) : Prop where
  bind {α β : Type} {x y : Eval α} {k l : α → Eval β} :
    R x y → (∀ a, R (k a) (l a)) → R (x >>= k) (y >>= l)
  within {α : Type} {i : ScopeId} {x y : Eval α} : R x y → R (within i x) (within i y)
  pure {α : Type} (a : α) : R (pure a) (pure a)
  fail {α : Type} (f : Failure) : R (fail f : Eval α) (fail f)
  print (line : String) : R (write (.printed line)) (write (.printed line))
  traceStatement (form : String) : R (trace (.executing form)) (trace (.executing form))
  traceCall (name : String) : R (trace (.calling name)) (trace (.calling name))
  readClock : R readClock readClock
  lookup (name : Token) : R (lookup name) (lookup name)
  assign (name : Token) (v : Value) : R (assign name v) (assign name v)
  define (name : String) (v : Value) : R (define name v) (define name v)
  newFunction (name : Token) (params : List Token) (body : List Node) :
    R (newFunction name params body) (newFunction name params body)
  closure (f : FunctionRef) : R (closure f) (closure f)
  newBlockScope : R newBlockScope newBlockScope
  newCallScope (c : Closure) (arguments : List Value) :
    R (newCallScope c arguments) (newCallScope c arguments)

namespace Eval.Congruence

variable {R : ∀ {α : Type}, Eval α → Eval α → Prop}

theorem ofExcept (hR : Congruence R) {α ε : Type} (failure : ε → Failure) (r : Except ε α) :
    R (ofExcept failure r) (ofExcept failure r) := by
  cases r with
  | ok a => exact hR.pure a
  | error e => exact hR.fail _

theorem callNative (hR : Congruence R) (f : Native) : R (callNative f) (callNative f) := by
  cases f with
  | clock => exact hR.bind hR.readClock fun _ => hR.pure _
  | silent => exact hR.pure _

end Eval.Congruence

/-- The relation holds between the rules with this much fuel each, if their limits on the calls are
related by `C`. -/
structure RelatedRules (R : ∀ {α : Type}, Eval α → Eval α → Prop) (C : Nat → Nat → Prop)
    (fuel fuel' : Nat) : Prop where
  evaluate {calls calls' : Nat} (h : C calls calls') (e : Node) :
    R (evaluate fuel calls e) (evaluate fuel' calls' e)
  evaluateAll {calls calls' : Nat} (h : C calls calls') (es : List Node) :
    R (evaluateAll fuel calls es) (evaluateAll fuel' calls' es)
  call {calls calls' : Nat} (h : C calls calls') (paren : Token) (v : Value) (vs : List Value) :
    R (call fuel calls paren v vs) (call fuel' calls' paren v vs)
  callFunction {calls calls' : Nat} (h : C calls calls') (f : FunctionRef) (vs : List Value) :
    R (callFunction fuel calls f vs) (callFunction fuel' calls' f vs)
  execute {calls calls' : Nat} (h : C calls calls') (s : Node) :
    R (execute fuel calls s) (execute fuel' calls' s)
  executeAll {calls calls' : Nat} (h : C calls calls') (ss : List Node) :
    R (executeAll fuel calls ss) (executeAll fuel' calls' ss)
  loop {calls calls' : Nat} (h : C calls calls') (c b : Node) :
    R (loop fuel calls c b) (loop fuel' calls' c b)

namespace RelatedRules

variable {R : ∀ {α : Type}, Eval α → Eval α → Prop} {C : Nat → Nat → Prop}
  {fuel fuel' calls calls' : Nat}

theorem evaluate_succ (ih : RelatedRules R C fuel fuel') (hR : Congruence R) (h : C calls calls')
    (e : Node) : R (Lox.evaluate (fuel + 1) calls e) (Lox.evaluate (fuel' + 1) calls' e) := by
  unfold Lox.evaluate
  cases e with
  | lit v => exact hR.pure v
  | group e => exact ih.evaluate h e
  | unary operator right =>
    exact hR.bind (ih.evaluate h right) fun v => hR.ofExcept _ _
  | binary left operator right =>
    refine hR.bind (ih.evaluate h left) fun v => hR.bind (ih.evaluate h right) fun w => ?_
    exact hR.ofExcept _ _
  | logical left operator right =>
    refine hR.bind (ih.evaluate h left) fun v => ?_
    split
    · exact hR.pure v
    · exact ih.evaluate h right
  | ident name => exact hR.lookup name
  | assign name e =>
    exact hR.bind (ih.evaluate h e) fun v => hR.bind (hR.assign name v) fun _ => hR.pure v
  | call callee paren arguments =>
    refine hR.bind (ih.evaluate h callee) fun v => ?_
    exact hR.bind (ih.evaluateAll h arguments) fun vs => ih.call h paren v vs
  | _ => exact hR.fail _

theorem evaluateAll_succ (ih : RelatedRules R C fuel fuel') (hR : Congruence R)
    (h : C calls calls') (es : List Node) :
    R (Lox.evaluateAll (fuel + 1) calls es) (Lox.evaluateAll (fuel' + 1) calls' es) := by
  unfold Lox.evaluateAll
  cases es with
  | nil => exact hR.pure []
  | cons e es =>
    refine hR.bind (ih.evaluate h e) fun v => ?_
    exact hR.bind (ih.evaluateAll h es) fun vs => hR.pure _

theorem call_succ (ih : RelatedRules R C fuel fuel') (hR : Congruence R) (h : C calls calls')
    (paren : Token) (v : Value) (vs : List Value) :
    R (Lox.call (fuel + 1) calls paren v vs) (Lox.call (fuel' + 1) calls' paren v vs) := by
  unfold Lox.call
  split
  · exact hR.fail _
  split
  · exact hR.fail _
  cases v with
  | function f => exact ih.callFunction h f vs
  | native f => exact hR.callNative f
  | _ => exact hR.fail _

/-- A call that is not stopped. -/
theorem callFunction_succ (ih : RelatedRules R C fuel fuel') (hR : Congruence R)
    (h : C calls calls') (f : FunctionRef) (vs : List Value) :
    R (Lox.callFunction (fuel + 1) (calls + 1) f vs)
      (Lox.callFunction (fuel' + 1) (calls' + 1) f vs) := by
  unfold Lox.callFunction
  refine hR.bind (hR.closure f) fun c => hR.bind (hR.newCallScope c vs) fun i => ?_
  refine hR.bind (hR.traceCall _) fun _ => ?_
  refine hR.bind (hR.within (ih.executeAll h c.body)) fun r => ?_
  cases r <;> exact hR.pure _

theorem execute_succ (ih : RelatedRules R C fuel fuel') (hR : Congruence R) (h : C calls calls')
    (s : Node) : R (Lox.execute (fuel + 1) calls s) (Lox.execute (fuel' + 1) calls' s) := by
  unfold Lox.execute
  refine hR.bind (hR.traceStatement _) fun _ => ?_
  cases s with
  | exprStmt e => exact hR.bind (ih.evaluate h e) fun _ => hR.pure _
  | printStmt e =>
    refine hR.bind (ih.evaluate h e) fun v => hR.bind (hR.ofExcept _ _) fun line => ?_
    exact hR.bind (hR.print line) fun _ => hR.pure _
  | varDecl name initializer =>
    cases initializer with
    | some e =>
      exact hR.bind (ih.evaluate h e) fun v => hR.bind (hR.define _ v) fun _ => hR.pure _
    | none => exact hR.bind (hR.pure _) fun v => hR.bind (hR.define _ v) fun _ => hR.pure _
  | block ss => exact hR.bind hR.newBlockScope fun i => hR.within (ih.executeAll h ss)
  | ifStmt c t e =>
    refine hR.bind (ih.evaluate h c) fun v => ?_
    split
    · exact ih.execute h t
    · cases e with
      | some e => exact ih.execute h e
      | none => exact hR.pure _
  | whileStmt c b => exact ih.loop h c b
  | funcDecl name params body =>
    refine hR.bind (hR.newFunction name params body) fun f => ?_
    exact hR.bind (hR.define _ _) fun _ => hR.pure _
  | returnStmt keyword value =>
    cases value with
    | some e => exact hR.bind (ih.evaluate h e) fun _ => hR.pure _
    | none => exact hR.pure _
  | _ => exact hR.fail _

theorem executeAll_succ (ih : RelatedRules R C fuel fuel') (hR : Congruence R)
    (h : C calls calls') (ss : List Node) :
    R (Lox.executeAll (fuel + 1) calls ss) (Lox.executeAll (fuel' + 1) calls' ss) := by
  unfold Lox.executeAll
  cases ss with
  | nil => exact hR.pure _
  | cons s ss =>
    refine hR.bind (ih.execute h s) fun r => ?_
    cases r with
    | returned v => exact hR.pure _
    | normal => exact ih.executeAll h ss

theorem loop_succ (ih : RelatedRules R C fuel fuel') (hR : Congruence R) (h : C calls calls')
    (c b : Node) : R (Lox.loop (fuel + 1) calls c b) (Lox.loop (fuel' + 1) calls' c b) := by
  unfold Lox.loop
  refine hR.bind (ih.evaluate h c) fun v => ?_
  split
  · refine hR.bind (ih.execute h b) fun r => ?_
    cases r with
    | returned v => exact hR.pure _
    | normal => exact ih.loop h c b
  · exact hR.pure _

/-- **The rules respect a congruence.** If it holds between the rules then it holds between those
with more fuel, provided that it holds between a call that is stopped and its counterpart, and that
a counterpart of a call that is not stopped is not stopped either. -/
theorem succ (ih : RelatedRules R C fuel fuel') (hR : Congruence R)
    (hstop : ∀ {calls'} f vs, C 0 calls' →
      R (Lox.callFunction (fuel + 1) 0 f vs) (Lox.callFunction (fuel' + 1) calls' f vs))
    (hcalls : ∀ {calls calls'}, C (calls + 1) calls' → ∃ k, calls' = k + 1 ∧ C calls k) :
    RelatedRules R C (fuel + 1) (fuel' + 1) where
  evaluate h e := ih.evaluate_succ hR h e
  evaluateAll h es := ih.evaluateAll_succ hR h es
  call h paren v vs := ih.call_succ hR h paren v vs
  callFunction {calls calls'} h f vs := by
    cases calls with
    | zero => exact hstop f vs h
    | succ calls =>
      obtain ⟨k, rfl, hk⟩ := hcalls h
      exact ih.callFunction_succ hR hk f vs
  execute h s := ih.execute_succ hR h s
  executeAll h ss := ih.executeAll_succ hR h ss
  loop h c b := ih.loop_succ hR h c b

end RelatedRules

/-- So it is with programs. -/
theorem Eval.Congruence.executeProgram {R : ∀ {α : Type}, Eval α → Eval α → Prop}
    (hR : Congruence R) {b b' : Budget}
    (h : ∀ s, R (execute b.fuel b.calls s) (execute b'.fuel b'.calls s)) (ss : List Node) :
    R (executeProgram b ss) (executeProgram b' ss) := by
  induction ss with
  | nil => exact hR.pure ()
  | cons s ss ih => exact hR.bind (h s) fun _ => ih

end Lox
