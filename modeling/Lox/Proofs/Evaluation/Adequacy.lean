import Lox.Proofs.Evaluation.Moment

/-!
# Runs are made of steps

The steps of a run lead to where the rules of evaluation say that the run ends: from the moment at
which an expression is to be evaluated to the one at which its value is known, and likewise for
statements and for failures. What waits for the result makes no difference, and is left as it was.

## Main definitions

* `Eval.Follows calls held t next x`: the steps from the task `t` lead to where the run `x` ends

## Main results

* `followed`: all rules of evaluation follow the steps
* `leads_executeProgram`: so do programs
-/

namespace Lox

namespace Moment

variable {config : Config} {σ τ υ : Moment}

theorem Leads.refl (σ : Moment) : Leads config σ σ :=
  Relation.ReflTransGen.refl

theorem Leads.trans (h : Leads config σ τ) (h' : Leads config τ υ) : Leads config σ υ :=
  Relation.ReflTransGen.trans h h'

theorem Leads.of_next? (h : σ.next? config = some τ) : Leads config σ τ :=
  Relation.ReflTransGen.single h

/-- A step, and the steps after it. -/
theorem Leads.head (h : σ.next? config = some τ) (h' : Leads config τ υ) : Leads config σ υ :=
  Relation.ReflTransGen.head h h'

end Moment

open Moment

namespace Eval

variable {α β : Type} {calls : Nat} {held : List Frame} {t u : Task} {f : Frame}

/-- However the run ends, the steps from the task lead to its end: to the task `next a` if it ends
well with the result `a`, and to a failure if it fails. The frames that are held for the task are
gone then. -/
def Follows (calls : Nat) (held : List Frame) (t : Task) (next : α → Task) (x : Eval α) : Prop :=
  ∀ config frames m,
    match x config m with
    | .done a m' => Leads config ⟨t, held ++ frames, calls, m⟩ ⟨next a, frames, calls, m'⟩
    | .failed e m' => Leads config ⟨t, held ++ frames, calls, m⟩ ⟨.failed e, frames, calls, m'⟩
    | .unfinished => True

/-- The state is left alone by the first step. -/
theorem Follows.step {n : α → Task} {x : Eval α} (held' : List Frame)
    (hs : ∀ config frames m, Moment.next? config ⟨t, held ++ frames, calls, m⟩ =
      some ⟨u, held' ++ frames, calls, m⟩)
    (h : x.Follows calls held' u n) : x.Follows calls held t n := by
  intro config frames m
  have hx := h config frames m
  cases hr : x config m <;> simp only [hr] at hx ⊢
  · exact .head (hs config frames m) hx
  · exact .head (hs config frames m) hx

/-- All that there is to be done is done by the first step. -/
theorem Follows.perform {next : α → Task} {x : Eval α}
    (hs : ∀ config frames m, Moment.next? config ⟨t, held ++ frames, calls, m⟩ =
      Moment.perform ⟨t, frames, calls, m⟩ config x next) : x.Follows calls held t next := by
  intro config frames m
  have h := hs config frames m
  unfold Moment.perform at h
  cases hr : x config m <;> simp only [hr] at h ⊢
  · exact .of_next? h
  · exact .of_next? h

/-- The result is known already. -/
theorem follows_pure {next : α → Task} {a : α} (hs : t = next a) :
    (pure a : Eval α).Follows calls [] t next := by
  intro config frames m
  subst hs
  exact .refl _

theorem follows_unfinished {next : α → Task} :
    (unfinished : Eval α).Follows calls held t next :=
  fun _ _ _ => trivial

theorem follows_fail {next : α → Task} {e : Failure} :
    (fail e : Eval α).Follows calls [] (.failed e) next :=
  fun _ _ _ => .refl _

/-- One run after another. -/
theorem Follows.andThen {n : α → Task} {n' : β → Task} {x : Eval α} {k : α → Eval β}
    (h : x.Follows calls held t n) (hk : ∀ a, (k a).Follows calls [] (n a) n') :
    (x >>= k).Follows calls held t n' := by
  intro config frames m
  have hx := h config frames m
  rw [bind_apply]
  cases hr : x config m with
  | done a m' =>
    simp only [hr] at hx ⊢
    have hy := hk a config frames m'
    cases hs : k a config m' <;> simp only [hs] at hy ⊢
    · exact hx.trans hy
    · exact hx.trans hy
  | failed e m' => simpa only [hr] using hx
  | unfinished => trivial

/-- A failure passes the frame, and leaves nothing that the frame is about. -/
def IsPlain (f : Frame) : Prop :=
  ∀ σ : Moment, σ.unwinding f = σ

/-- A run after which another one goes on with what a frame has held for it. -/
theorem Follows.bind {n : α → Task} {n' : β → Task} {x : Eval α} {k : α → Eval β}
    (h : x.Follows calls [] t n) (hf : IsPlain f)
    (hk : ∀ a, (k a).Follows calls [f] (n a) n') :
    (x >>= k).Follows calls [f] t n' := by
  intro config frames m
  have hx := h config (f :: frames) m
  rw [bind_apply]
  cases hr : x config m with
  | done a m' =>
    simp only [hr] at hx ⊢
    have hy := hk a config frames m'
    cases hs : k a config m' <;> simp only [hs] at hy ⊢
    · exact hx.trans hy
    · exact hx.trans hy
  | failed e m' =>
    simp only [hr] at hx ⊢
    exact hx.trans (.of_next? (congrArg some (hf ⟨.failed e, frames, calls, m'⟩)))
  | unfinished => trivial

/-- What is run in a scope that is entered leaves it again. -/
theorem Follows.within {i : ScopeId} {ss : List Node} {x : Eval Completion}
    (h : x.Follows calls [] (.executeAll ss) .completed) :
    (within i x).Follows calls [] (.enter i ss) .completed := by
  intro config frames m
  have hx := h config (.leave m.current :: frames) { m with current := i }
  have hfirst : Moment.next? config ⟨.enter i ss, frames, calls, m⟩ =
      some ⟨.executeAll ss, .leave m.current :: frames, calls, { m with current := i }⟩ := rfl
  unfold Eval.within
  cases hr : x config { m with current := i } <;> simp only [hr] at hx ⊢
  · exact (Leads.head hfirst hx).trans (.of_next? rfl)
  · exact (Leads.head hfirst hx).trans (.of_next? rfl)

end Eval

/-! ## The rules -/

open Eval

/-- The rules with this much fuel follow the steps. -/
structure Followed (fuel : Nat) : Prop where
  evaluate (calls : Nat) (e : Node) :
    (evaluate fuel calls e).Follows calls [] (.evaluate e) .value
  evaluateAll (calls : Nat) (paren : Token) (v : Value) (before : List Value) (es : List Node) :
    (evaluateAll fuel calls es).Follows calls [] (.arguments paren v before es)
      fun vs => .call paren v (before ++ vs)
  call (calls : Nat) (paren : Token) (v : Value) (vs : List Value) :
    (call fuel calls paren v vs).Follows calls [] (.call paren v vs) .value
  callFunction (calls : Nat) (f : FunctionRef) (vs : List Value) :
    (callFunction fuel calls f vs).Follows calls [] (.callFunction f vs) .value
  execute (calls : Nat) (s : Node) :
    (execute fuel calls s).Follows calls [] (.execute s) .completed
  executeAll (calls : Nat) (ss : List Node) :
    (executeAll fuel calls ss).Follows calls [] (.executeAll ss) .completed
  loop (calls : Nat) (c b : Node) :
    (loop fuel calls c b).Follows calls [] (.loop c b) .completed

namespace Followed

variable {fuel : Nat}

theorem evaluate_succ (ih : Followed fuel) (calls : Nat) (e : Node) :
    (Lox.evaluate (fuel + 1) calls e).Follows calls [] (.evaluate e) .value := by
  unfold Lox.evaluate
  cases e with
  | lit v => exact .step [] (fun _ _ _ => rfl) (follows_pure rfl)
  | group e => exact .step [] (fun _ _ _ => rfl) (ih.evaluate calls e)
  | unary operator right =>
    refine .step [.unary operator] (fun _ _ _ => rfl) ?_
    exact (ih.evaluate calls right).bind (fun _ => rfl) fun v => .perform fun _ _ _ => rfl
  | binary left operator right =>
    refine .step [.left operator right] (fun _ _ _ => rfl) ?_
    refine (ih.evaluate calls left).bind (fun _ => rfl) fun v => ?_
    refine .step [.right v operator] (fun _ _ _ => rfl) ?_
    exact (ih.evaluate calls right).bind (fun _ => rfl) fun w => .perform fun _ _ _ => rfl
  | logical left operator right =>
    refine .step [.logical operator right] (fun _ _ _ => rfl) ?_
    refine (ih.evaluate calls left).bind (fun _ => rfl) fun v => ?_
    refine .step [] (fun _ _ _ => rfl) ?_
    split
    · exact follows_pure rfl
    · exact ih.evaluate calls right
  | ident name => exact .perform fun _ _ _ => rfl
  | assign name e =>
    refine .step [.assign name] (fun _ _ _ => rfl) ?_
    exact (ih.evaluate calls e).bind (fun _ => rfl) fun v => .perform fun _ _ _ => rfl
  | call callee paren arguments =>
    refine .step [.callee paren arguments] (fun _ _ _ => rfl) ?_
    refine (ih.evaluate calls callee).bind (fun _ => rfl) fun v => ?_
    refine .step [] (fun _ _ _ => rfl) ?_
    exact (ih.evaluateAll calls paren v [] arguments).andThen fun vs => ih.call calls paren v vs
  | _ => exact .step [] (fun _ _ _ => rfl) follows_fail

/-- The arguments that have a value are held while the next one is evaluated. -/
theorem evaluateAll_succ (ih : Followed fuel) (calls : Nat) (paren : Token) (v : Value)
    (before : List Value) (es : List Node) :
    (Lox.evaluateAll (fuel + 1) calls es).Follows calls [] (.arguments paren v before es)
      fun vs => .call paren v (before ++ vs) := by
  unfold Lox.evaluateAll
  cases es with
  | nil => exact .step [] (fun _ _ _ => rfl) (follows_pure (by rw [List.append_nil]))
  | cons e es =>
    refine .step [.argument paren v before es] (fun _ _ _ => rfl) ?_
    refine (ih.evaluate calls e).bind (fun _ => rfl) fun w => ?_
    refine .step [] (fun _ _ _ => rfl) ?_
    refine (ih.evaluateAll calls paren v (before ++ [w]) es).andThen fun ws => follows_pure ?_
    rw [List.append_assoc, List.singleton_append]

theorem call_succ (ih : Followed fuel) (calls : Nat) (paren : Token) (v : Value)
    (vs : List Value) :
    (Lox.call (fuel + 1) calls paren v vs).Follows calls [] (.call paren v vs) .value := by
  have hnext : ∀ config frames m, Moment.next? config ⟨.call paren v vs, frames, calls, m⟩ =
      Moment.calling ⟨.call paren v vs, frames, calls, m⟩ config paren v vs := fun _ _ _ => rfl
  unfold Moment.calling at hnext
  unfold Lox.call
  cases ha : v.arity? with
  | none =>
    simp only [ha] at hnext ⊢
    exact .step [] hnext follows_fail
  | some arity =>
    simp only [ha] at hnext ⊢
    split
    · rename_i hne
      simp only [hne, if_true, ne_eq, not_false_eq_true] at hnext
      exact .step [] hnext follows_fail
    · rename_i heq
      simp only [heq, if_false] at hnext
      cases v with
      | function f => exact .step [] hnext (ih.callFunction calls f vs)
      | native f => exact .perform hnext
      | _ => exact .step [] hnext follows_fail

/-- The rule for calls makes the scope first, and then goes on in it. -/
theorem callFunction_eq (fuel calls : Nat) (f : FunctionRef) (vs : List Value) (config : Config)
    (m : Machine) :
    Lox.callFunction (fuel + 1) (calls + 1) f vs config m =
      match callScope f vs config m with
      | .done (.enter i body) n =>
        (do
          match ← within i (Lox.executeAll fuel calls body) with
          | .returned v => return v
          | .normal => return .nil : Eval Value) config n
      | .done _ _ => .unfinished
      | .failed e n => .failed e n
      | .unfinished => .unfinished := by
  unfold Lox.callFunction callScope
  simp only [bind_apply]
  cases closure f config m with
  | done c n =>
    simp only
    cases newCallScope c vs config n with
    | done i n =>
      simp only
      cases trace (.calling c.name.lexeme) config n <;> rfl
    | _ => rfl
  | _ => rfl

/-- What is done first in a call is to enter a scope. -/
theorem callScope_eq_done {f : FunctionRef} {vs : List Value} {config : Config} {m n : Machine}
    {t : Task} (h : callScope f vs config m = .done t n) : ∃ i body, t = .enter i body := by
  unfold callScope at h
  obtain ⟨c, _, -, h⟩ := bind_eq_done_iff.mp h
  obtain ⟨i, _, -, h⟩ := bind_eq_done_iff.mp h
  obtain ⟨_, _, -, h⟩ := bind_eq_done_iff.mp h
  cases h
  exact ⟨i, c.body, rfl⟩

theorem callFunction_succ (ih : Followed fuel) (calls : Nat) (f : FunctionRef) (vs : List Value) :
    (Lox.callFunction (fuel + 1) calls f vs).Follows calls [] (.callFunction f vs) .value := by
  cases calls with
  | zero =>
    unfold Lox.callFunction
    exact .step [] (fun _ _ _ => rfl) follows_fail
  | succ calls =>
    intro config frames m
    have hnext : Moment.next? config ⟨.callFunction f vs, frames, calls + 1, m⟩ =
        Moment.callingFunction ⟨.callFunction f vs, frames, calls + 1, m⟩ config f vs := rfl
    unfold Moment.callingFunction at hnext
    rw [callFunction_eq]
    cases hs : callScope f vs config m with
    | failed e n =>
      simp only [hs] at hnext ⊢
      exact .of_next? hnext
    | unfinished => trivial
    | done t n =>
      obtain ⟨i, body, rfl⟩ := callScope_eq_done hs
      simp only [hs] at hnext ⊢
      have hx := (ih.executeAll calls body).within (i := i) config (.called (calls + 1) :: frames) n
      rw [bind_apply]
      cases hr : within i (Lox.executeAll fuel calls body) config n with
      | done r n' =>
        simp only [hr] at hx ⊢
        cases r <;> exact (Leads.head hnext hx).trans (.of_next? rfl)
      | failed e n' =>
        simp only [hr] at hx ⊢
        exact (Leads.head hnext hx).trans (.of_next? rfl)
      | unfinished => trivial

theorem execute_succ (ih : Followed fuel) (calls : Nat) (s : Node) :
    (Lox.execute (fuel + 1) calls s).Follows calls [] (.execute s) .completed := by
  unfold Lox.execute
  refine Follows.andThen (n := fun _ => .traced s) (.perform fun _ _ _ => rfl) fun _ => ?_
  cases s with
  | exprStmt e =>
    refine .step [.exprStmt] (fun _ _ _ => rfl) ?_
    exact (ih.evaluate calls e).bind (fun _ => rfl) fun v =>
      .step [] (fun _ _ _ => rfl) (follows_pure rfl)
  | printStmt e =>
    refine .step [.printStmt] (fun _ _ _ => rfl) ?_
    exact (ih.evaluate calls e).bind (fun _ => rfl) fun v => .perform fun _ _ _ => rfl
  | varDecl name initializer =>
    cases initializer with
    | none =>
      refine .step [.define name] (fun _ _ _ => rfl) ?_
      exact .perform (x := defining name .nil) fun _ _ _ => rfl
    | some e =>
      refine .step [.define name] (fun _ _ _ => rfl) ?_
      exact (ih.evaluate calls e).bind (fun _ => rfl) fun v => .perform fun _ _ _ => rfl
  | block ss =>
    refine Follows.andThen (n := (.enter · ss)) (.perform fun _ _ _ => rfl) fun i => ?_
    exact (ih.executeAll calls ss).within
  | ifStmt c t e =>
    refine .step [.branch t e] (fun _ _ _ => rfl) ?_
    refine (ih.evaluate calls c).bind (fun _ => rfl) fun v => ?_
    refine .step [] (fun _ _ _ => rfl) ?_
    split
    · exact ih.execute calls t
    · cases e with
      | some s => exact ih.execute calls s
      | none => exact follows_pure rfl
  | whileStmt c b => exact .step [] (fun _ _ _ => rfl) (ih.loop calls c b)
  | funcDecl name params body =>
    refine .step [.define name] (fun _ _ _ => rfl) ?_
    refine Follows.bind (n := fun f => .value (.function f)) (.perform fun _ _ _ => rfl)
      (fun _ => rfl) fun f => ?_
    exact .perform fun _ _ _ => rfl
  | returnStmt keyword value =>
    cases value with
    | none => exact .step [] (fun _ _ _ => rfl) (follows_pure rfl)
    | some e =>
      refine .step [.returnStmt] (fun _ _ _ => rfl) ?_
      exact (ih.evaluate calls e).bind (fun _ => rfl) fun v =>
        .step [] (fun _ _ _ => rfl) (follows_pure rfl)
  | _ => exact .step [] (fun _ _ _ => rfl) follows_fail

theorem executeAll_succ (ih : Followed fuel) (calls : Nat) (ss : List Node) :
    (Lox.executeAll (fuel + 1) calls ss).Follows calls [] (.executeAll ss) .completed := by
  unfold Lox.executeAll
  cases ss with
  | nil => exact .step [] (fun _ _ _ => rfl) (follows_pure rfl)
  | cons s ss =>
    refine .step [.sequence ss] (fun _ _ _ => rfl) ?_
    refine (ih.execute calls s).bind (fun _ => rfl) fun r => ?_
    refine .step [] (fun _ _ _ => rfl) ?_
    cases r with
    | normal => exact ih.executeAll calls ss
    | returned v => exact follows_pure rfl

theorem loop_succ (ih : Followed fuel) (calls : Nat) (c b : Node) :
    (Lox.loop (fuel + 1) calls c b).Follows calls [] (.loop c b) .completed := by
  unfold Lox.loop
  refine .step [.condition c b] (fun _ _ _ => rfl) ?_
  refine (ih.evaluate calls c).bind (fun _ => rfl) fun v => ?_
  cases hv : v.isTruthy with
  | false =>
    refine .step [] (fun _ _ _ => ?_) (follows_pure rfl)
    simp [Moment.next?, Moment.receiving, Moment.go, hv]
  | true =>
    simp only [if_true]
    refine .step (u := .execute b) [.body c b] (fun _ _ _ => ?_) ?_
    · simp [Moment.next?, Moment.receiving, Moment.push, hv]
    refine (ih.execute calls b).bind (fun _ => rfl) fun r => ?_
    refine .step [] (fun _ _ _ => rfl) ?_
    cases r with
    | normal => exact ih.loop calls c b
    | returned v => exact follows_pure rfl

end Followed

/-- All rules follow the steps. -/
theorem followed (fuel : Nat) : Followed fuel := by
  induction fuel with
  | zero =>
    constructor <;> intros
    · unfold evaluate; exact follows_unfinished
    · unfold evaluateAll; exact follows_unfinished
    · unfold call; exact follows_unfinished
    · unfold callFunction; exact follows_unfinished
    · unfold execute; exact follows_unfinished
    · unfold executeAll; exact follows_unfinished
    · unfold loop; exact follows_unfinished
  | succ fuel ih =>
    exact ⟨ih.evaluate_succ, ih.evaluateAll_succ, ih.call_succ, ih.callFunction_succ,
      ih.execute_succ, ih.executeAll_succ, ih.loop_succ⟩

/-- The steps lead from the first statement of a program to its end. -/
theorem follows_executeProgram (b : Budget) (ss : List Node) :
    (executeProgram b ss).Follows b.calls [] (.program ss) fun _ => .completed .normal := by
  induction ss with
  | nil => exact .step [] (fun _ _ _ => rfl) (follows_pure rfl)
  | cons s ss ih =>
    refine .step [.program ss] (fun _ _ _ => rfl) ?_
    refine ((followed b.fuel).execute b.calls s).bind (fun _ => rfl) fun r => ?_
    exact .step [] (fun _ _ _ => rfl) ih

end Lox
