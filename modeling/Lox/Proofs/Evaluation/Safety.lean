import Lox.Evaluation
import Lox.Proofs.Store.Soundness

/-!
# Well-formed programs run safely

In a sound store, the run of a well-formed tree has a value of the language as its result, and it
leaves a sound store, however it ends. If it fails then with a runtime error at a token of a tree,
or because too many calls are nested in each other; no fault is met.

A function is a value of the language as long as there is a declaration with its number. So what is
said of a result speaks of the number of functions, and holds on as functions are made.

## Main definitions

* `Failure.IsBenign P f`: a failure that is no fault, and whose token satisfies `P`
* `Eval.Safe P n Q x`: the run `x` is safe, and its result satisfies `Q`

## Main results

* `safeRules`: all rules of evaluation are safe in front of well-formed trees
* `safe_interpret`: so are programs
-/

namespace Lox

/-- The failure is no fault, and if it is a runtime error then its token satisfies `P`. -/
def Failure.IsBenign (P : Token → Prop) : Failure → Prop
  | .runtime error => P error.token
  | .fault _ => False
  | .tooDeep => True

/-- A statement that ends by a `return` does so with a value of the language. -/
def Completion.IsLox (n : Nat) : Completion → Prop
  | .normal => True
  | .returned v => v.IsLox n

namespace Eval

variable {α β : Type} {P : Token → Prop} {n : Nat}

/-- From a sound store with at least `n` functions, the run leads to such a store, however it ends.
If it ends well then its result satisfies `Q`, and if not then the failure is benign. -/
def Safe (P : Token → Prop) (n : Nat) (Q : Nat → α → Prop) (x : Eval α) : Prop :=
  ∀ config m, m.store.Sound P → n ≤ m.store.closures.size →
    match x config m with
    | .done a m' =>
      m'.store.Sound P ∧ n ≤ m'.store.closures.size ∧ Q m'.store.closures.size a
    | .failed f m' => m'.store.Sound P ∧ n ≤ m'.store.closures.size ∧ f.IsBenign P
    | .unfinished => True

/-- One run after another. The second one starts with the functions that the first one leaves. -/
theorem Safe.bind {Q : Nat → α → Prop} {Q' : Nat → β → Prop} {x : Eval α} {next : α → Eval β}
    (h : Safe P n Q x) (hk : ∀ k a, n ≤ k → Q k a → Safe P k Q' (next a)) :
    Safe P n Q' (x >>= next) := by
  intro config m hs hn
  have hx := h config m hs hn
  rw [bind_apply]
  cases hr : x config m with
  | done a m₁ =>
    simp only [hr] at hx ⊢
    obtain ⟨hs₁, hn₁, hQ⟩ := hx
    -- the second run may count on the functions that the first one has made
    have hy := hk _ a hn₁ hQ config m₁ hs₁ (Nat.le_refl _)
    cases ht : next a config m₁ with
    | done b m₂ =>
      simp only [ht] at hy ⊢
      exact ⟨hy.1, Nat.le_trans hn₁ hy.2.1, hy.2.2⟩
    | failed f m₂ =>
      simp only [ht] at hy ⊢
      exact ⟨hy.1, Nat.le_trans hn₁ hy.2.1, hy.2.2⟩
    | unfinished => trivial
  | failed f m₁ => simpa only [hr] using hx
  | unfinished => trivial

/-! ## Steps -/

theorem safe_pure {Q : Nat → α → Prop} {a : α} (h : ∀ k, n ≤ k → Q k a) :
    Safe P n Q (pure a) :=
  fun _ _ hs hn => ⟨hs, hn, h _ hn⟩

theorem safe_unfinished {Q : Nat → α → Prop} : Safe P n Q (unfinished : Eval α) :=
  fun _ _ _ _ => trivial

theorem safe_fail {Q : Nat → α → Prop} {f : Failure} (h : f.IsBenign P) :
    Safe P n Q (fail f : Eval α) :=
  fun _ _ hs hn => ⟨hs, hn, h⟩

theorem safe_raise {Q : Nat → α → Prop} {cause : RuntimeCause} {token : Token} (h : P token) :
    Safe P n Q (raise cause token : Eval α) :=
  safe_fail h

theorem safe_write (w : Write) : Safe P n (fun _ _ => True) (write w) :=
  fun _ _ hs hn => ⟨hs, hn, trivial⟩

theorem safe_debug : Safe P n (fun _ _ => True) debug :=
  fun _ _ hs hn => ⟨hs, hn, trivial⟩

theorem safe_trace (w : Write) : Safe P n (fun _ _ => True) (trace w) := by
  unfold trace
  refine safe_debug.bind fun k b _ _ => ?_
  split
  · exact safe_write w
  · exact safe_pure fun _ _ => trivial

theorem safe_lookup {name : Token} (h : P name) :
    Safe P n (fun k v => v.IsLox k) (lookup name) := by
  intro config m hs hn
  unfold lookup
  cases hv : m.store.get? m.current name.lexeme with
  | some v => exact ⟨hs, hn, hs.get? hv⟩
  | none => exact ⟨hs, hn, h⟩

theorem safe_assign {name : Token} {v : Value} (h : P name) (hv : v.IsLox n) :
    Safe P n (fun _ _ => True) (assign name v) := by
  intro config m hs hn
  unfold assign
  cases m.store.owner? m.current name.lexeme with
  | some i => exact ⟨hs.define (hv.mono hn), hn, trivial⟩
  | none => exact ⟨hs, hn, h⟩

theorem safe_define {name : String} {v : Value} (hv : v.IsLox n) :
    Safe P n (fun _ _ => True) (define name v) :=
  fun _ _ hs hn => ⟨hs.define (hv.mono hn), hn, trivial⟩

/-- A function that is made is one of the functions from then on. -/
theorem safe_newFunction {name : Token} {params : List Token} {body : List Node}
    (h : Node.AllStatements P body) :
    Safe P n (fun k f => (Value.function f).IsLox k) (newFunction name params body) := by
  intro config m hs hn
  have hs' : (m.store.newClosure ⟨name, params, body, m.current⟩).1.Sound P := hs.newClosure h
  have hlt : m.store.closures.size <
      (m.store.newClosure ⟨name, params, body, m.current⟩).1.closures.size := by
    simp [Store.newClosure]
  exact ⟨hs', Nat.le_trans hn (Nat.le_of_lt hlt), hlt⟩

theorem safe_closure {f : FunctionRef} (hf : (Value.function f).IsLox n) :
    Safe P n (fun _ c => Node.AllStatements P c.body) (closure f) := by
  intro config m hs hn
  have hlt : f.id < m.store.closures.size := Nat.lt_of_lt_of_le hf hn
  have hc : m.store.closures[f.id]? = some m.store.closures[f.id] := by simp [hlt]
  unfold closure
  simp only [hc]
  exact ⟨hs, hn, hs.bodies f.id _ hc⟩

theorem safe_newBlockScope : Safe P n (fun _ _ => True) newBlockScope := by
  intro config m hs hn
  have hs' : (m.store.newScope (some m.current)).1.Sound P := hs.newScope _
  exact ⟨hs', hn, trivial⟩

theorem safe_newCallScope {c : Closure} {vs : List Value} (hvs : ∀ v ∈ vs, v.IsLox n) :
    Safe P n (fun _ _ => True) (newCallScope c vs) := by
  intro config m hs hn
  have hs₁ : (m.store.newScope (some c.scope)).1.Sound P := hs.newScope _
  have hall : ∀ p ∈ c.params.zip vs, p.2.IsLox m.store.closures.size := fun p hp =>
    (hvs p.2 (List.of_mem_zip hp).2).mono hn
  obtain ⟨hs₂, hc⟩ := hs₁.defineAll m.store.scopes.size hall
  exact ⟨hs₂, Nat.le_trans hn (Nat.le_of_eq (congrArg Array.size hc).symm), trivial⟩

/-- The current scope does not matter. -/
theorem safe_within {Q : Nat → α → Prop} {i : ScopeId} {x : Eval α} (h : Safe P n Q x) :
    Safe P n Q (within i x) := by
  intro config m hs hn
  have hx := h config { m with current := i } hs hn
  unfold within
  cases hr : x config { m with current := i } <;> simp only [hr] at hx ⊢
  · exact hx
  · exact hx

theorem safe_callNative (f : Native) : Safe P n (fun k v => v.IsLox k) (callNative f) := by
  cases f with
  | clock =>
    have hread : Safe P n (fun _ _ => True) readClock := fun _ _ hs hn => ⟨hs, hn, trivial⟩
    exact hread.bind fun _ _ _ _ => safe_pure fun _ _ => trivial
  | silent => exact safe_pure fun _ _ => trivial

/-- The unary operators of well-formed trees are known. -/
theorem safe_unary {op : Token} {v : Value} (h : P op)
    (hop : op.kind = .bang ∨ op.kind = .minus) :
    Safe P n (fun k v => v.IsLox k) (ofOperator op (v.unary op)) := by
  unfold Value.unary
  rcases hop with hop | hop <;> simp only [hop]
  · exact safe_pure fun _ _ => trivial
  · cases v with
    | number x => exact safe_pure fun _ _ => trivial
    | _ => exact safe_fail h

/-- The binary operators of well-formed trees are known. -/
theorem safe_binary {op : Token} {v w : Value} (h : P op) (hop : op.kind ∈ binaryKinds) :
    Safe P n (fun k v => v.IsLox k) (ofOperator op (v.binary op w)) := by
  have happly : ∀ o : BinaryOperator,
      Safe P n (fun k v => v.IsLox k) (ofOperator op ((o.apply v w).mapError .operands)) := by
    intro o
    cases hr : o.apply v w with
    | ok u =>
      refine safe_pure fun _ _ => ?_
      unfold BinaryOperator.apply at hr
      split at hr <;> simp only [Except.ok.injEq, reduceCtorEq] at hr <;> subst hr
      · cases o <;> trivial
      · trivial
    | error cause => exact safe_fail h
  unfold Value.binary
  simp only [binaryKinds, List.mem_cons, List.not_mem_nil, or_false] at hop
  rcases hop with hop | hop | hop | hop | hop | hop | hop | hop | hop | hop <;>
    simp only [hop, BinaryOperator.ofKind?] <;>
    first
    | exact happly _
    | exact safe_pure fun _ _ => trivial

end Eval

/-! ## The rules -/

open Eval

/-- The rules with this much fuel are safe. -/
structure SafeRules (P : Token → Prop) (fuel : Nat) : Prop where
  evaluate {n calls : Nat} {e : Node} : e.IsExpression P →
    Safe P n (fun k v => v.IsLox k) (evaluate fuel calls e)
  evaluateAll {n calls : Nat} {es : List Node} : Node.AllExpressions P es →
    Safe P n (fun k vs => ∀ v ∈ vs, v.IsLox k) (evaluateAll fuel calls es)
  call {n calls : Nat} {paren : Token} {v : Value} {vs : List Value} : P paren → v.IsLox n →
    (∀ w ∈ vs, w.IsLox n) → Safe P n (fun k v => v.IsLox k) (call fuel calls paren v vs)
  callFunction {n calls : Nat} {f : FunctionRef} {vs : List Value} :
    (Value.function f).IsLox n → (∀ w ∈ vs, w.IsLox n) →
    Safe P n (fun k v => v.IsLox k) (callFunction fuel calls f vs)
  execute {n calls : Nat} {s : Node} : s.IsStatement P →
    Safe P n (fun k r => r.IsLox k) (execute fuel calls s)
  executeAll {n calls : Nat} {ss : List Node} : Node.AllStatements P ss →
    Safe P n (fun k r => r.IsLox k) (executeAll fuel calls ss)
  loop {n calls : Nat} {c b : Node} : c.IsExpression P → b.IsStatement P →
    Safe P n (fun k r => r.IsLox k) (loop fuel calls c b)

namespace SafeRules

variable {P : Token → Prop} {fuel n calls : Nat}

theorem evaluate_succ (ih : SafeRules P fuel) {e : Node} (h : e.IsExpression P) :
    Safe P n (fun k v => v.IsLox k) (Lox.evaluate (fuel + 1) calls e) := by
  unfold Lox.evaluate
  cases e with
  | lit v =>
    rw [Node.IsExpression] at h
    exact safe_pure fun _ _ => h.isLox
  | group e => exact ih.evaluate h
  | unary operator right =>
    obtain ⟨hP, hop, h⟩ := h
    exact (ih.evaluate h).bind fun k v _ _ => safe_unary hP hop
  | binary left operator right =>
    obtain ⟨hP, hop, hl, hr⟩ := h
    refine (ih.evaluate hl).bind fun k v _ _ => ?_
    exact (ih.evaluate hr).bind fun k' w _ _ => safe_binary hP hop
  | logical left operator right =>
    obtain ⟨-, -, hl, hr⟩ := h
    refine (ih.evaluate hl).bind fun k v _ hv => ?_
    split
    · exact safe_pure fun _ hk => hv.mono hk
    · exact ih.evaluate hr
  | ident name => exact safe_lookup h
  | assign name e =>
    obtain ⟨hP, h⟩ := h
    refine (ih.evaluate h).bind fun k v _ hv => ?_
    -- the value outlives the assignment, as functions are only ever added
    exact (safe_assign hP hv).bind fun k' _ hk _ => safe_pure fun _ hk' =>
      hv.mono (Nat.le_trans hk hk')
  | call callee paren arguments =>
    obtain ⟨hP, hc, has⟩ := h
    refine (ih.evaluate hc).bind fun k v _ hv => ?_
    exact (ih.evaluateAll has).bind fun k' vs hk hvs => ih.call hP (hv.mono hk) hvs
  | _ => exact h.elim

theorem evaluateAll_succ (ih : SafeRules P fuel) {es : List Node} (h : Node.AllExpressions P es) :
    Safe P n (fun k vs => ∀ v ∈ vs, v.IsLox k) (Lox.evaluateAll (fuel + 1) calls es) := by
  unfold Lox.evaluateAll
  cases es with
  | nil => exact safe_pure fun _ _ => by simp
  | cons e es =>
    refine (ih.evaluate h.1).bind fun k v _ hv => ?_
    refine (ih.evaluateAll h.2).bind fun k' vs hk hvs => safe_pure fun k'' hk' w hw => ?_
    rcases List.mem_cons.mp hw with rfl | hw
    · exact hv.mono (Nat.le_trans hk hk')
    · exact (hvs w hw).mono hk'

theorem call_succ (ih : SafeRules P fuel) {paren : Token} {v : Value} {vs : List Value}
    (hP : P paren) (hv : v.IsLox n) (hvs : ∀ w ∈ vs, w.IsLox n) :
    Safe P n (fun k v => v.IsLox k) (Lox.call (fuel + 1) calls paren v vs) := by
  unfold Lox.call
  split
  · exact safe_raise hP
  split
  · exact safe_raise hP
  cases v with
  | function f => exact ih.callFunction hv hvs
  | native f => exact safe_callNative f
  | _ => exact safe_raise hP

/-- The body of a function is as well-formed as the tree that it was declared in. -/
theorem callFunction_succ (ih : SafeRules P fuel) {f : FunctionRef} {vs : List Value}
    (hf : (Value.function f).IsLox n) (hvs : ∀ w ∈ vs, w.IsLox n) :
    Safe P n (fun k v => v.IsLox k) (Lox.callFunction (fuel + 1) calls f vs) := by
  unfold Lox.callFunction
  cases calls with
  | zero => exact safe_fail trivial
  | succ calls =>
    refine (safe_closure hf).bind fun k c hk hc => ?_
    refine (safe_newCallScope fun v hv => (hvs v hv).mono hk).bind fun _ i _ _ => ?_
    refine (safe_trace _).bind fun _ _ _ _ => ?_
    refine (safe_within (ih.executeAll hc)).bind fun k' r _ hr => ?_
    cases r with
    | returned v => exact safe_pure fun _ hk => Value.IsLox.mono hr hk
    | normal => exact safe_pure fun _ _ => trivial

theorem execute_succ (ih : SafeRules P fuel) {s : Node} (h : s.IsStatement P) :
    Safe P n (fun k r => r.IsLox k) (Lox.execute (fuel + 1) calls s) := by
  unfold Lox.execute
  refine (safe_trace _).bind fun n _ _ _ => ?_
  cases s with
  | exprStmt e => exact (ih.evaluate h).bind fun _ _ _ _ => safe_pure fun _ _ => trivial
  | printStmt e =>
    refine (ih.evaluate h).bind fun k v _ hv => ?_
    obtain ⟨line, hline⟩ := hv.display
    rw [hline]
    show Safe P k _ (do
      write (.printed line)
      return Completion.normal)
    exact (safe_write _).bind fun _ _ _ _ => safe_pure fun _ _ => trivial
  | varDecl name initializer =>
    have hdefine : ∀ k v, v.IsLox k → Safe P k (fun k r => r.IsLox k) (do
        define name.lexeme v
        return Completion.normal) := fun k v hv =>
      (safe_define hv).bind fun _ _ _ _ => safe_pure fun _ _ => trivial
    cases initializer with
    | some e => exact (ih.evaluate h.2).bind fun k v _ hv => hdefine k v hv
    | none => exact hdefine _ .nil trivial
  | block ss =>
    rw [Node.IsStatement] at h
    exact safe_newBlockScope.bind fun k i _ _ => safe_within (ih.executeAll h)
  | ifStmt c t e =>
    have hc : c.IsExpression P := by cases e <;> exact h.1
    refine (ih.evaluate hc).bind fun k v _ _ => ?_
    split
    · cases e with
      | some e => exact ih.execute h.2.1
      | none => exact ih.execute h.2
    · cases e with
      | some e => exact ih.execute h.2.2
      | none => exact safe_pure fun _ _ => trivial
  | whileStmt c b => exact ih.loop h.1 h.2
  | funcDecl name params body =>
    refine (safe_newFunction h.2.2).bind fun k f _ hf => ?_
    exact (safe_define hf).bind fun _ _ _ _ => safe_pure fun _ _ => trivial
  | returnStmt keyword value =>
    cases value with
    | some e => exact (ih.evaluate h.2).bind fun k v _ hv => safe_pure fun _ hk => hv.mono hk
    | none => exact safe_pure fun _ _ => trivial
  | _ => exact h.elim

theorem executeAll_succ (ih : SafeRules P fuel) {ss : List Node} (h : Node.AllStatements P ss) :
    Safe P n (fun k r => r.IsLox k) (Lox.executeAll (fuel + 1) calls ss) := by
  unfold Lox.executeAll
  cases ss with
  | nil => exact safe_pure fun _ _ => trivial
  | cons s ss =>
    refine (ih.execute h.1).bind fun k r _ hr => ?_
    cases r with
    | returned v => exact safe_pure fun _ hk => Value.IsLox.mono hr hk
    | normal => exact ih.executeAll h.2

theorem loop_succ (ih : SafeRules P fuel) {c b : Node} (hc : c.IsExpression P)
    (hb : b.IsStatement P) :
    Safe P n (fun k r => r.IsLox k) (Lox.loop (fuel + 1) calls c b) := by
  unfold Lox.loop
  refine (ih.evaluate hc).bind fun k v _ _ => ?_
  split
  · refine (ih.execute hb).bind fun k' r _ hr => ?_
    cases r with
    | returned v => exact safe_pure fun _ hk => Value.IsLox.mono hr hk
    | normal => exact ih.loop hc hb
  · exact safe_pure fun _ _ => trivial

end SafeRules

/-- All rules are safe in front of well-formed trees. -/
theorem safeRules (P : Token → Prop) (fuel : Nat) : SafeRules P fuel := by
  induction fuel with
  | zero =>
    constructor <;> intros <;>
      simp only [evaluate, evaluateAll, call, callFunction, execute, executeAll, loop] <;>
      exact safe_unfinished
  | succ fuel ih =>
    exact {
      evaluate := ih.evaluate_succ
      evaluateAll := ih.evaluateAll_succ
      call := ih.call_succ
      callFunction := ih.callFunction_succ
      execute := ih.execute_succ
      executeAll := ih.executeAll_succ
      loop := ih.loop_succ }

/-! ## Programs -/

variable {P : Token → Prop} {n : Nat}

theorem safe_executeProgram (b : Budget) {ss : List Node} (h : Node.AllStatements P ss) :
    Safe P n (fun _ _ => True) (executeProgram b ss) := by
  induction ss generalizing n with
  | nil => exact safe_pure fun _ _ => trivial
  | cons s ss ih =>
    rw [executeProgram]
    exact ((safeRules P b.fuel).execute h.1).bind fun _ _ _ _ => ih h.2

/-- The runtime error that ends a program is at one of its tokens. -/
theorem safe_interpret (b : Budget) {ss : List Node} (h : Node.AllStatements P ss) :
    Safe P n (fun _ o => ∀ error ∈ o, P error.token) (interpret b ss) := by
  intro config m hs hn
  have hx := safe_executeProgram b h config m hs hn
  unfold interpret reportRuntimeError
  cases hr : executeProgram b ss config m with
  | done _ m' =>
    simp only [hr] at hx ⊢
    exact ⟨hx.1, hx.2.1, by simp⟩
  | failed f m' =>
    simp only [hr] at hx ⊢
    cases f with
    | runtime error =>
      refine ⟨hx.1, hx.2.1, ?_⟩
      rintro _ ⟨⟩
      exact hx.2.2
    | fault fault => exact hx
    | tooDeep => exact hx
  | unfinished => trivial

end Lox
