import Lox.Evaluation
import Lox.Proofs.Store.Growth

/-!
# Scopes do not leak

Whatever is run, in whatever state and on whatever tree, and however it ends: the scopes that
existed before bind the names that they bound before. The only exception are the declarations that
a statement makes in the scope in which it is executed, and they come after the names that are bound
there. What else the state keeps is proved along with it: the current scope, the chains of the
scopes, the functions, and what was written.

The induction is on the fuel. What carries it is `Machine.Extends`, which speaks of the first `n`
scopes only: in a block or in a call the current scope is a new one, so it is none of them.

## Main definitions

* `Node.declared s`: the names that the statement `s` can bind in the current scope
* `Machine.Extends n gained m m'`: what may have happened between two states
* `Eval.Keeps`: however a run ends, it has extended the state
* `Outcome.After p`: `p` holds of the state in which a run ends
* `Machine.Precedes m m'`: the text that was written by `m` comes first in `m'`

## Main results

* `framed`: all rules of evaluation extend the state
* `scopes_do_not_leak`: which names are bound after a run
-/

namespace Lox

/-- The names that a statement can bind in the scope in which it is executed: those of its
declarations outside of all blocks and function bodies. -/
def Node.declared : Node → List String
  | varDecl name _ | funcDecl name _ _ => [name.lexeme]
  | ifStmt _ t none => t.declared
  | ifStmt _ t (some e) => t.declared ++ e.declared
  | whileStmt _ b => b.declared
  | _ => []

namespace Machine

/-- Between the two states the first `n` scopes were left as they were, but for the names in
`gained` that were bound in the current one. -/
structure Extends (n : Nat) (gained : List String) (m m' : Machine) : Prop where
  current : m'.current = m.current
  log : m.log <:+ m'.log
  store : m.store.Grows n m.current gained m'.store

variable {n : Nat} {gained : List String} {m m' m'' : Machine}

theorem Extends.refl (m : Machine) : m.Extends n gained m :=
  ⟨rfl, List.suffix_refl _, .refl _⟩

theorem Extends.trans (h : m.Extends n gained m') (h' : m'.Extends n gained m'') :
    m.Extends n gained m'' := by
  have hs := h'.store
  rw [h.current] at hs
  exact ⟨h'.current.trans h.current, h.log.trans h'.log, h.store.trans hs⟩

end Machine

namespace Eval

variable {α β : Type} {n : Nat} {gained gained' : List String}

/-- From a state with at least `n` scopes, the run extends the state, however it ends. If it ends
well, `Q` holds of its result. -/
def KeepsAnd (n : Nat) (gained : List String) (Q : α → Prop) (x : Eval α) : Prop :=
  ∀ config m, n ≤ m.store.scopes.size →
    match x config m with
    | .done a m' => m.Extends n gained m' ∧ Q a
    | .failed _ m' => m.Extends n gained m'
    | .unfinished => True

/-- From a state with at least `n` scopes, the run extends the state, however it ends. -/
abbrev Keeps (n : Nat) (gained : List String) (x : Eval α) : Prop :=
  KeepsAnd n gained (fun _ => True) x

/-- One run after another. -/
theorem KeepsAnd.bind {Q : α → Prop} {Q' : β → Prop} {x : Eval α} {next : α → Eval β}
    (h : KeepsAnd n gained Q x) (hk : ∀ a, Q a → KeepsAnd n gained Q' (next a)) :
    KeepsAnd n gained Q' (x >>= next) := by
  intro config m hm
  have hx := h config m hm
  rw [bind_apply]
  cases hr : x config m with
  | done a m₁ =>
    simp only [hr] at hx ⊢
    obtain ⟨he, hQ⟩ := hx
    -- no scope was taken away, so the second run finds at least `n` scopes as well
    have hn := hk a hQ config m₁ (Nat.le_trans hm he.store.size)
    cases hs : next a config m₁ <;> simp only [hs] at hn ⊢
    · exact ⟨he.trans hn.1, hn.2⟩
    · exact he.trans hn
  | failed f m₁ => simpa only [hr] using hx
  | unfinished => trivial

/-- The result does not matter. -/
theorem KeepsAnd.keeps {Q : α → Prop} {x : Eval α} (h : KeepsAnd n gained Q x) :
    Keeps n gained x := by
  intro config m hm
  have hx := h config m hm
  cases hr : x config m <;> simp only [hr] at hx
  · exact ⟨hx.1, trivial⟩
  · exact hx
  · trivial

theorem Keeps.bind {x : Eval α} {next : α → Eval β} (h : Keeps n gained x)
    (hk : ∀ a, Keeps n gained (next a)) : Keeps n gained (x >>= next) :=
  KeepsAnd.bind h fun a _ => hk a

/-! ## Steps -/

theorem keeps_pure (a : α) : Keeps n gained (pure a) :=
  fun _ m _ => ⟨.refl m, trivial⟩

theorem keeps_unfinished : Keeps n gained (unfinished : Eval α) :=
  fun _ _ _ => trivial

theorem keeps_fail (f : Failure) : Keeps n gained (fail f : Eval α) :=
  fun _ m _ => .refl m

theorem keeps_raise (cause : RuntimeCause) (token : Token) :
    Keeps n gained (raise cause token : Eval α) :=
  keeps_fail _

theorem keeps_ofExcept {ε : Type} (failure : ε → Failure) (r : Except ε α) :
    Keeps n gained (ofExcept failure r) := by
  cases r with
  | ok a => exact keeps_pure a
  | error e => exact keeps_fail _

theorem keeps_ofOperator (token : Token) (r : Except OperatorError α) :
    Keeps n gained (ofOperator token r) :=
  keeps_ofExcept _ r

theorem keeps_write (w : Write) : Keeps n gained (write w) :=
  fun _ m _ => ⟨⟨rfl, List.suffix_cons w m.log, .refl _⟩, trivial⟩

theorem keeps_debug : Keeps n gained debug :=
  fun _ m _ => ⟨.refl m, trivial⟩

theorem keeps_trace (w : Write) : Keeps n gained (trace w) := by
  unfold trace
  refine Keeps.bind keeps_debug fun b => ?_
  split
  · exact keeps_write w
  · exact keeps_pure ()

theorem keeps_readClock : Keeps n gained readClock :=
  fun _ _ _ => ⟨⟨rfl, List.suffix_refl _, .refl _⟩, trivial⟩

theorem keeps_lookup (name : Token) : Keeps n gained (lookup name) := by
  intro config m _
  unfold lookup
  cases m.store.get? m.current name.lexeme with
  | some v => exact ⟨.refl m, trivial⟩
  | none => exact .refl m

/-- An assignment changes a value only. -/
theorem keeps_assign (name : Token) (v : Value) : Keeps n gained (assign name v) := by
  intro config m _
  unfold assign
  cases h : m.store.owner? m.current name.lexeme with
  | some j => exact ⟨⟨rfl, List.suffix_refl _, Store.grows_assign h⟩, trivial⟩
  | none => exact .refl m

theorem keeps_define (name : String) (v : Value) (hg : name ∈ gained) :
    Keeps n gained (define name v) :=
  fun _ _ _ => ⟨⟨rfl, List.suffix_refl _, Store.grows_define hg⟩, trivial⟩

theorem keeps_newFunction (name : Token) (params : List Token) (body : List Node) :
    Keeps n gained (newFunction name params body) :=
  fun _ _ _ => ⟨⟨rfl, List.suffix_refl _, Store.grows_newClosure⟩, trivial⟩

theorem keeps_closure (f : FunctionRef) : Keeps n gained (closure f) := by
  intro config m _
  unfold closure
  cases m.store.closures[f.id]? with
  | some c => exact ⟨.refl m, trivial⟩
  | none => exact .refl m

/-- A new scope is none of the first ones. -/
theorem keeps_newBlockScope : KeepsAnd n gained (n ≤ ·) newBlockScope := by
  intro config m hm
  have hs : m.store.Grows n m.current gained (m.store.newScope (some m.current)).1 :=
    Store.grows_newScope hm
  exact ⟨⟨rfl, List.suffix_refl _, hs⟩, hm⟩

/-- The parameters are bound in the new scope. -/
theorem keeps_newCallScope (c : Closure) (arguments : List Value) :
    KeepsAnd n gained (n ≤ ·) (newCallScope c arguments) := by
  intro config m hm
  have hs : m.store.Grows n m.current gained (m.store.newScope (some c.scope)).1 :=
    Store.grows_newScope hm
  exact ⟨⟨rfl, List.suffix_refl _, hs.trans (Store.grows_defineAll _ hm)⟩, hm⟩

/-- In a new scope, nothing is bound in the first ones. -/
theorem keeps_within {i : ScopeId} {x : Eval α} (hi : n ≤ i) (h : Keeps n gained' x) :
    Keeps n gained (within i x) := by
  intro config m hm
  have hx := h config { m with current := i } hm
  -- whatever the run gains, it gains in the scope `i`, and the old scope is current again
  unfold within
  cases hr : x config { m with current := i } <;> simp only [hr] at hx ⊢
  · exact ⟨⟨rfl, hx.1.log, hx.1.store.of_le hi⟩, trivial⟩
  · exact ⟨rfl, hx.log, hx.store.of_le hi⟩

theorem keeps_callNative (f : Native) : Keeps n gained (callNative f) := by
  cases f with
  | clock => exact Keeps.bind keeps_readClock fun _ => keeps_pure _
  | silent => exact keeps_pure _

end Eval

/-! ## The rules -/

open Eval

/-- The rules with this much fuel extend every state with at least `n` scopes. -/
structure Framed (n fuel : Nat) : Prop where
  evaluate (calls : Nat) (e : Node) {gained : List String} :
    Keeps n gained (evaluate fuel calls e)
  evaluateAll (calls : Nat) (es : List Node) {gained : List String} :
    Keeps n gained (evaluateAll fuel calls es)
  call (calls : Nat) (paren : Token) (v : Value) (vs : List Value) {gained : List String} :
    Keeps n gained (call fuel calls paren v vs)
  callFunction (calls : Nat) (f : FunctionRef) (vs : List Value) {gained : List String} :
    Keeps n gained (callFunction fuel calls f vs)
  execute (calls : Nat) (s : Node) {gained : List String} :
    s.declared ⊆ gained → Keeps n gained (execute fuel calls s)
  executeAll (calls : Nat) (ss : List Node) {gained : List String} :
    ss.flatMap Node.declared ⊆ gained → Keeps n gained (executeAll fuel calls ss)
  loop (calls : Nat) (c b : Node) {gained : List String} :
    b.declared ⊆ gained → Keeps n gained (loop fuel calls c b)

namespace Framed

variable {n fuel : Nat} {gained : List String}

theorem evaluate_succ (ih : Framed n fuel) (calls : Nat) (e : Node) :
    Keeps n gained (Lox.evaluate (fuel + 1) calls e) := by
  unfold Lox.evaluate
  cases e with
  | lit v => exact keeps_pure v
  | group e => exact ih.evaluate calls e
  | unary operator right =>
    exact Keeps.bind (ih.evaluate calls right) fun v => keeps_ofOperator _ _
  | binary left operator right =>
    refine Keeps.bind (ih.evaluate calls left) fun v => ?_
    exact Keeps.bind (ih.evaluate calls right) fun w => keeps_ofOperator _ _
  | logical left operator right =>
    refine Keeps.bind (ih.evaluate calls left) fun v => ?_
    split
    · exact keeps_pure v
    · exact ih.evaluate calls right
  | ident name => exact keeps_lookup name
  | assign name e =>
    refine Keeps.bind (ih.evaluate calls e) fun v => ?_
    exact Keeps.bind (keeps_assign name v) fun _ => keeps_pure v
  | call callee paren arguments =>
    refine Keeps.bind (ih.evaluate calls callee) fun v => ?_
    exact Keeps.bind (ih.evaluateAll calls arguments) fun vs => ih.call calls paren v vs
  | _ => exact keeps_fail _

theorem evaluateAll_succ (ih : Framed n fuel) (calls : Nat) (es : List Node) :
    Keeps n gained (Lox.evaluateAll (fuel + 1) calls es) := by
  unfold Lox.evaluateAll
  cases es with
  | nil => exact keeps_pure []
  | cons e es =>
    refine Keeps.bind (ih.evaluate calls e) fun v => ?_
    exact Keeps.bind (ih.evaluateAll calls es) fun vs => keeps_pure _

theorem call_succ (ih : Framed n fuel) (calls : Nat) (paren : Token) (v : Value)
    (vs : List Value) : Keeps n gained (Lox.call (fuel + 1) calls paren v vs) := by
  unfold Lox.call
  split
  · exact keeps_raise _ _
  split
  · exact keeps_raise _ _
  split
  · exact ih.callFunction calls _ vs
  · exact keeps_callNative _
  · exact keeps_raise _ _

/-- The body of a function runs in a new scope. -/
theorem callFunction_succ (ih : Framed n fuel) (calls : Nat) (f : FunctionRef)
    (vs : List Value) : Keeps n gained (Lox.callFunction (fuel + 1) calls f vs) := by
  unfold Lox.callFunction
  cases calls with
  | zero => exact keeps_fail _
  | succ calls =>
    refine Keeps.bind (keeps_closure f) fun c => ?_
    refine KeepsAnd.bind (keeps_newCallScope c vs) fun i hi => ?_
    refine Keeps.bind (keeps_trace _) fun _ => ?_
    refine Keeps.bind (keeps_within hi (ih.executeAll calls c.body (List.Subset.refl _)))
      fun r => ?_
    cases r <;> exact keeps_pure _

theorem execute_succ (ih : Framed n fuel) (calls : Nat) (s : Node) (hs : s.declared ⊆ gained) :
    Keeps n gained (Lox.execute (fuel + 1) calls s) := by
  unfold Lox.execute
  refine Keeps.bind (keeps_trace _) fun _ => ?_
  cases s with
  | exprStmt e => exact Keeps.bind (ih.evaluate calls e) fun _ => keeps_pure _
  | printStmt e =>
    refine Keeps.bind (ih.evaluate calls e) fun v => ?_
    refine Keeps.bind (keeps_ofExcept _ _) fun line => ?_
    exact Keeps.bind (keeps_write _) fun _ => keeps_pure _
  | varDecl name initializer =>
    have hname : name.lexeme ∈ gained := hs (by simp [Node.declared])
    have hdefine : ∀ v, Keeps n gained (do
        define name.lexeme v
        return Completion.normal) := fun v =>
      Keeps.bind (keeps_define _ v hname) fun _ => keeps_pure _
    cases initializer with
    | some e => exact Keeps.bind (ih.evaluate calls e) hdefine
    | none => exact hdefine .nil
  | block ss =>
    refine KeepsAnd.bind keeps_newBlockScope fun i hi => ?_
    exact keeps_within hi (ih.executeAll calls ss (List.Subset.refl _))
  | ifStmt c t e =>
    refine Keeps.bind (ih.evaluate calls c) fun v => ?_
    split
    · refine ih.execute calls t (List.Subset.trans ?_ hs)
      cases e <;> simp [Node.declared]
    · cases e with
      | some e =>
        refine ih.execute calls e (List.Subset.trans ?_ hs)
        simp [Node.declared]
      | none => exact keeps_pure _
  | whileStmt c b => exact ih.loop calls c b hs
  | funcDecl name params body =>
    refine Keeps.bind (keeps_newFunction name params body) fun f => ?_
    exact Keeps.bind (keeps_define _ _ (hs (by simp [Node.declared]))) fun _ => keeps_pure _
  | returnStmt keyword value =>
    cases value with
    | some e => exact Keeps.bind (ih.evaluate calls e) fun _ => keeps_pure _
    | none => exact keeps_pure _
  | _ => exact keeps_fail _

theorem executeAll_succ (ih : Framed n fuel) (calls : Nat) (ss : List Node)
    (hs : ss.flatMap Node.declared ⊆ gained) :
    Keeps n gained (Lox.executeAll (fuel + 1) calls ss) := by
  unfold Lox.executeAll
  cases ss with
  | nil => exact keeps_pure _
  | cons s ss =>
    rw [List.flatMap_cons, List.append_subset] at hs
    refine Keeps.bind (ih.execute calls s hs.1) fun r => ?_
    cases r with
    | returned v => exact keeps_pure _
    | normal => exact ih.executeAll calls ss hs.2

theorem loop_succ (ih : Framed n fuel) (calls : Nat) (c b : Node) (hb : b.declared ⊆ gained) :
    Keeps n gained (Lox.loop (fuel + 1) calls c b) := by
  unfold Lox.loop
  refine Keeps.bind (ih.evaluate calls c) fun v => ?_
  split
  · refine Keeps.bind (ih.execute calls b hb) fun r => ?_
    cases r with
    | returned v => exact keeps_pure _
    | normal => exact ih.loop calls c b hb
  · exact keeps_pure _

end Framed

/-- Whatever is run extends the state. -/
theorem framed (n fuel : Nat) : Framed n fuel := by
  induction fuel with
  | zero =>
    constructor <;> intros <;>
      simp only [evaluate, evaluateAll, call, callFunction, execute, executeAll, loop] <;>
      exact keeps_unfinished
  | succ fuel ih =>
    exact {
      evaluate := fun calls e _ => ih.evaluate_succ calls e
      evaluateAll := fun calls es _ => ih.evaluateAll_succ calls es
      call := fun calls paren v vs _ => ih.call_succ calls paren v vs
      callFunction := fun calls f vs _ => ih.callFunction_succ calls f vs
      execute := fun calls s _ hs => ih.execute_succ calls s hs
      executeAll := fun calls ss _ hs => ih.executeAll_succ calls ss hs
      loop := fun calls c b _ hb => ih.loop_succ calls c b hb }

/-- In whatever way a run ends, `p` holds of the state then. -/
def Outcome.After {α : Type} (p : Machine → Prop) : Outcome α → Prop
  | .done _ m | .failed _ m => p m
  | .unfinished => True

theorem Outcome.After.mono {α : Type} {p q : Machine → Prop} {x : Outcome α} (h : x.After p)
    (hpq : ∀ m, p m → q m) : x.After q := by
  cases x with
  | done a m => exact hpq m h
  | failed f m => exact hpq m h
  | unfinished => trivial

/-! ## Text -/

theorem written_append [Text.Locator] (wanted : Channel → Bool) (newer older : List Write) :
    written wanted (newer ++ older) = written wanted older ++ written wanted newer := by
  simp [written, String.join_append]

/-- Whatever channels are looked at, the text that was written in the first state comes first in the
text that was written in the second one. -/
def Machine.Precedes (m m' : Machine) : Prop :=
  ∀ (_ : Text.Locator) (wanted : Channel → Bool),
    ∃ more, written wanted m'.log = written wanted m.log ++ more

theorem Machine.precedes_of_suffix {m m' : Machine} (h : m.log <:+ m'.log) : m.Precedes m' := by
  intro _ wanted
  obtain ⟨newer, hn⟩ := h
  exact ⟨written wanted newer, by rw [← hn, written_append]⟩

/-! ## Names -/

namespace Machine

/-- The scopes of the first state bind the same names in the second one. -/
def SameNames (m m' : Machine) : Prop :=
  ∀ i < m.store.scopes.size, m'.store.names i = m.store.names i

/-- The scopes of the first state bind the same names in the second one, but that some of `gained`
may have been bound in the current scope as well. -/
def GainsNames (gained : List String) (m m' : Machine) : Prop :=
  ∀ i < m.store.scopes.size, ∃ added, m'.store.names i = m.store.names i ++ added ∧
    ∀ name ∈ added, i = m.current ∧ name ∈ gained

variable {gained : List String} {m m' : Machine}

theorem Extends.gainsNames (h : m.Extends m.store.scopes.size gained m') :
    m.GainsNames gained m' := by
  intro i hi
  by_cases hc : i = m.current
  · subst hc
    obtain ⟨added, ha, he⟩ := h.store.current hi
    exact ⟨added, he, fun name hn => ⟨rfl, ha hn⟩⟩
  · exact ⟨[], by simp [h.store.names i hi hc], by simp⟩

theorem GainsNames.sameNames (h : m.GainsNames [] m') : m.SameNames m' := by
  intro i hi
  obtain ⟨added, he, ha⟩ := h i hi
  have hnil : added = [] := List.eq_nil_iff_forall_not_mem.mpr fun name hn => by
    simpa using (ha name hn).2
  rw [he, hnil, List.append_nil]

end Machine

theorem Eval.Keeps.gainsNames {α : Type} {x : Eval α} {gained : List String} {config : Config}
    {m : Machine} (h : Keeps m.store.scopes.size gained x) :
    (x config m).After (m.GainsNames gained) := by
  have hx := h config m (Nat.le_refl _)
  cases hr : x config m <;> simp only [hr] at hx
  · exact hx.1.gainsNames
  · exact hx.gainsNames
  · trivial

theorem Eval.Keeps.sameNames {α : Type} {x : Eval α} {config : Config} {m : Machine}
    (h : Keeps m.store.scopes.size [] x) : (x config m).After m.SameNames := by
  have hx : (x config m).After (m.GainsNames []) := h.gainsNames
  cases hr : x config m <;> simp only [hr] at hx
  · exact Machine.GainsNames.sameNames hx
  · exact Machine.GainsNames.sameNames hx
  · trivial

/-- **Scopes do not leak.** However it ends, an expression binds no name in a scope that existed
before, and a statement binds only the names that it declares, in the current scope. So blocks,
calls and loops over blocks bind none. -/
theorem scopes_do_not_leak (fuel calls : Nat) (config : Config) (m : Machine) :
    (∀ e, (evaluate fuel calls e config m).After m.SameNames) ∧
    (∀ s, (execute fuel calls s config m).After (m.GainsNames s.declared)) ∧
    (∀ ss, (execute fuel calls (.block ss) config m).After m.SameNames) ∧
    (∀ paren v vs, (call fuel calls paren v vs config m).After m.SameNames) ∧
    (∀ f vs, (callFunction fuel calls f vs config m).After m.SameNames) ∧
    (∀ c ss, (execute fuel calls (.whileStmt c (.block ss)) config m).After m.SameNames) := by
  have h := framed m.store.scopes.size fuel
  refine ⟨fun e => ?_, fun s => ?_, fun ss => ?_, fun paren v vs => ?_, fun f vs => ?_,
    fun c ss => ?_⟩
  · exact (h.evaluate calls e).sameNames
  · exact (h.execute calls s (List.Subset.refl _)).gainsNames
  · exact (h.execute calls (.block ss) (List.Subset.refl _)).sameNames
  · exact (h.call calls paren v vs).sameNames
  · exact (h.callFunction calls f vs).sameNames
  · exact (h.execute calls (.whileStmt c (.block ss)) (List.Subset.refl _)).sameNames

end Lox
