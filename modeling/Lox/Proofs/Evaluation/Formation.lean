import Lox.Proofs.Evaluation.Moment
import Lox.Proofs.Store.Tree

/-!
# The tree of scopes in the middle of a run

A step keeps the tree of scopes: what is bound or held is declared in the store, and what is entered
or left again are scopes of the tree. The store after a step is a later one, and so is the store
after any number of steps.

## Main definitions

* `Machine.Formed m`: the store is well-formed, and the current scope exists
* `Moment.Formed σ`: so it is with all that is to be done, and with what waits
* `Eval.Forms Q x m`: from the state `m` the run `x` leads to a well-formed one with a later store

## Main results

* `Moment.Formed.next`: what a step keeps
* `Moment.Formed.leads`: what a run keeps
* `Moment.next?_declare`: a declaration makes a function that is not declared yet
-/

namespace Lox

/-- The store is well-formed, and the current scope exists. -/
structure Machine.Formed (m : Machine) : Prop where
  store : m.store.Formed
  current : m.current < m.store.scopes.size

/-- The first state binds the clock only. -/
theorem Machine.formed_initial : Machine.initial.Formed := by
  have htree : (Store.empty.newScope none).1.IsTree := by
    refine ⟨rfl, fun i hi hne => absurd (Nat.lt_one_iff.mp ?_) hne⟩
    simpa [Store.newScope, Store.empty] using hi
  have hform : (Store.empty.newScope none).1.Formed :=
    ⟨htree, fun i b hb => by simpa [Store.bindings, Store.empty] using
      Store.bindings_newScope_subset none i hb,
      fun i c hc => by simp [Store.newScope, Store.empty] at hc,
      fun i c hc => by simp [Store.newScope, Store.empty] at hc⟩
  exact ⟨hform.define trivial, by decide⟩

/-! ## Tasks and frames -/

/-- The code of a task is well-formed. -/
def Task.IsCode : Task → Prop
  | .evaluate e => e.IsExpression fun _ => True
  | .arguments _ _ _ rest => Node.AllExpressions (fun _ => True) rest
  | .execute s | .traced s => s.IsStatement fun _ => True
  | .declare _ _ body => Node.AllStatements (fun _ => True) body
  | .executeAll ss | .enter _ ss | .program ss => Node.AllStatements (fun _ => True) ss
  | .loop c b => c.IsExpression (fun _ => True) ∧ b.IsStatement fun _ => True
  | _ => True

/-- The code of a frame is well-formed. -/
def Frame.IsCode : Frame → Prop
  | .left _ e | .logical _ e => e.IsExpression fun _ => True
  | .callee _ es | .argument _ _ _ es => Node.AllExpressions (fun _ => True) es
  | .branch t none => t.IsStatement fun _ => True
  | .branch t (some e) => t.IsStatement (fun _ => True) ∧ e.IsStatement fun _ => True
  | .condition c b | .body c b => c.IsExpression (fun _ => True) ∧ b.IsStatement fun _ => True
  | .sequence ss | .program ss => Node.AllStatements (fun _ => True) ss
  | _ => True

/-- The code is well-formed, the values are declared, and the scopes exist. -/
structure Task.Formed (s : Store) (t : Task) : Prop where
  code : t.IsCode
  values : ∀ v ∈ t.values, v.IsDeclared s
  scopes : ∀ i ∈ t.scopes, i < s.scopes.size

/-- The code is well-formed, the values are declared, and the scopes exist. -/
structure Frame.Formed (s : Store) (f : Frame) : Prop where
  code : f.IsCode
  values : ∀ v ∈ f.values, v.IsDeclared s
  scopes : ∀ i ∈ f.scopes, i < s.scopes.size

section

variable {s s' : Store}

theorem Frame.Formed.mono {f : Frame} (hf : f.Formed s) (h : s.Continues s') : f.Formed s' where
  code := hf.code
  values v hv := (hf.values v hv).mono h
  scopes i hi := Nat.lt_of_lt_of_le (hf.scopes i hi) h.size

/-- A task that is only about code. -/
theorem Task.Formed.of_code {t : Task} (hc : t.IsCode) (hv : t.values = []) (hs : t.scopes = []) :
    t.Formed s :=
  ⟨hc, by simp [hv], by simp [hs]⟩

/-- A frame that is only about code. -/
theorem Frame.Formed.of_code {f : Frame} (hc : f.IsCode) (hv : f.values = []) (hs : f.scopes = []) :
    f.Formed s :=
  ⟨hc, by simp [hv], by simp [hs]⟩

theorem Task.formed_value {v : Value} (hv : v.IsDeclared s) : (Task.value v).Formed s :=
  ⟨trivial, by simpa [Task.values] using hv, by simp [Task.scopes]⟩

theorem Task.formed_returned {v : Value} (hv : v.IsDeclared s) :
    (Task.completed (.returned v)).Formed s :=
  ⟨trivial, by simpa [Task.values] using hv, by simp [Task.scopes]⟩

theorem Task.formed_normal : (Task.completed .normal).Formed s :=
  .of_code trivial rfl rfl

theorem Task.formed_failed {f : Failure} : (Task.failed f).Formed s :=
  .of_code trivial rfl rfl

end

/-! ## What is done to the state -/

namespace Eval

variable {α β : Type} {config : Config} {m : Machine}

/-- From the state `m`, the run leads to a well-formed state whose store is a later one. If it ends
well then its result is in accordance with the store that it leaves. -/
def Forms (config : Config) (m : Machine) (Q : Store → α → Prop) (x : Eval α) : Prop :=
  match x config m with
  | .done a m' => m'.Formed ∧ m.store.Continues m'.store ∧ Q m'.store a
  | .failed _ m' => m'.Formed ∧ m.store.Continues m'.store
  | .unfinished => True

variable {Q : Store → α → Prop} {R : Store → β → Prop}

theorem Forms.bind {x : Eval α} {k : α → Eval β} (h : x.Forms config m Q)
    (hk : ∀ a m', m'.Formed → m.store.Continues m'.store → Q m'.store a →
      (k a).Forms config m' R) : (x >>= k).Forms config m R := by
  unfold Forms at h ⊢
  rw [bind_apply]
  cases hx : x config m with
  | done a n =>
    simp only [hx] at h ⊢
    obtain ⟨hn, hc, ha⟩ := h
    have hy := hk a n hn hc ha
    unfold Forms at hy
    cases hs : k a config n <;> simp only [hs] at hy ⊢
    · exact ⟨hy.1, hc.trans hy.2.1, hy.2.2⟩
    · exact ⟨hy.1, hc.trans hy.2⟩
  | failed e n => simpa only [hx] using h
  | unfinished => trivial

theorem Forms.mono {Q' : Store → α → Prop} {x : Eval α} (h : x.Forms config m Q)
    (hQ : ∀ s a, Q s a → Q' s a) : x.Forms config m Q' := by
  unfold Forms at h ⊢
  cases hx : x config m <;> simp only [hx] at h ⊢
  · exact ⟨h.1, h.2.1, hQ _ _ h.2.2⟩
  · exact h

theorem forms_pure {a : α} (hm : m.Formed) (ha : Q m.store a) :
    (pure a : Eval α).Forms config m Q :=
  ⟨hm, .refl _, ha⟩

theorem forms_fail {e : Failure} (hm : m.Formed) : (fail e : Eval α).Forms config m Q :=
  ⟨hm, .refl _⟩

theorem forms_ofExcept {ε : Type} {failure : ε → Failure} {x : Except ε α} (hm : m.Formed)
    (h : ∀ a, x = .ok a → Q m.store a) : (ofExcept failure x).Forms config m Q := by
  cases x with
  | ok a => exact forms_pure hm (h a rfl)
  | error e => exact forms_fail hm

theorem forms_write (w : Write) (hm : m.Formed) :
    (write w).Forms config m fun _ _ => True :=
  ⟨⟨hm.store, hm.current⟩, .refl _, trivial⟩

theorem forms_trace (w : Write) (hm : m.Formed) :
    (trace w).Forms config m fun _ _ => True := by
  have hdebug : debug.Forms config m fun _ _ => True := ⟨hm, .refl _, trivial⟩
  refine hdebug.bind fun b m' hm' _ _ => ?_
  split
  · exact forms_write w hm'
  · exact forms_pure hm' trivial

theorem forms_lookup (name : Token) (hm : m.Formed) :
    (lookup name).Forms config m fun s v => v.IsDeclared s := by
  unfold Forms lookup
  split
  · rename_i h
    split at h <;> cases h
    rename_i hv
    exact ⟨hm, .refl _, hm.store.get? hv⟩
  · rename_i h
    split at h <;> cases h
    exact ⟨hm, .refl _⟩
  · trivial

theorem forms_define (name : String) {v : Value} (hm : m.Formed) (hv : v.IsDeclared m.store) :
    (define name v).Forms config m fun _ _ => True := by
  have hc := Store.continues_define (s := m.store) m.current name v
  exact ⟨⟨hm.store.define hv, Nat.lt_of_lt_of_le hm.current hc.size⟩, hc, trivial⟩

theorem forms_assign (name : Token) {v : Value} (hm : m.Formed) (hv : v.IsDeclared m.store) :
    (assign name v).Forms config m fun _ _ => True := by
  unfold Forms assign
  cases ho : m.store.owner? m.current name.lexeme with
  | none => exact ⟨hm, .refl _⟩
  | some i =>
    have hc := Store.continues_define (s := m.store) i name.lexeme v
    exact ⟨⟨hm.store.define hv, Nat.lt_of_lt_of_le hm.current hc.size⟩, hc, trivial⟩

/-- A function is declared in the current scope. -/
theorem forms_newFunction (name : Token) (params : List Token) {body : List Node} (hm : m.Formed)
    (hb : Node.AllStatements (fun _ => True) body) :
    (newFunction name params body).Forms config m
      fun s f => (Value.function f).IsDeclared s := by
  refine ⟨⟨hm.store.newClosure hm.current hb, hm.current⟩,
    Store.continues_newClosure _, ⟨name, params, body, m.current⟩, ?_, rfl⟩
  simp

theorem forms_closure {f : FunctionRef} (hm : m.Formed) :
    (closure f).Forms config m fun s c =>
      c.scope < s.scopes.size ∧ Node.AllStatements (fun _ => True) c.body := by
  unfold Forms closure
  cases hc : m.store.closures[f.id]? with
  | none => exact ⟨hm, .refl _⟩
  | some c => exact ⟨hm, .refl _, hm.store.scopes _ c hc, hm.store.bodies _ c hc⟩

/-- A scope that is made in one that exists, for names that are bound to declared values. -/
theorem formed_newScope {i : ScopeId} (hm : m.Formed) (hi : i < m.store.scopes.size)
    {ps : List (Token × Value)} (hps : ∀ p ∈ ps, p.2.IsDeclared m.store) :
    let s := ps.foldl (fun s (param, v) => s.define m.store.scopes.size param.lexeme v)
      (m.store.newScope (some i)).1
    s.Formed ∧ m.store.Continues s ∧ m.store.scopes.size < s.scopes.size := by
  have hc := Store.continues_newScope (s := m.store) (some i)
  have hnew := hm.store.newScope hi
  have hlt : m.store.scopes.size < (m.store.newScope (some i)).1.scopes.size := by
    simp [Store.newScope]
  revert hc hnew hlt
  generalize (m.store.newScope (some i)).1 = s
  -- by induction on the names: each one is bound in the new scope
  induction ps generalizing s with
  | nil => exact fun hc hnew hlt => ⟨hnew, hc, hlt⟩
  | cons p ps ih =>
    intro hc hnew hlt
    have hp : p.2.IsDeclared s := (hps p List.mem_cons_self).mono hc
    have hd := Store.continues_define (s := s) m.store.scopes.size p.1.lexeme p.2
    exact ih (fun q hq => hps q (List.mem_cons_of_mem _ hq)) _ (hc.trans hd) (hnew.define hp)
      (Nat.lt_of_lt_of_le hlt hd.size)

theorem forms_newBlockScope (hm : m.Formed) :
    newBlockScope.Forms config m fun s i => i < s.scopes.size := by
  obtain ⟨hs, hc, hlt⟩ := formed_newScope hm hm.current (fun _ hp => absurd hp (List.not_mem_nil))
  exact ⟨⟨hs, Nat.lt_of_lt_of_le hm.current hc.size⟩, hc, hlt⟩

theorem forms_newCallScope {c : Closure} {vs : List Value} (hm : m.Formed)
    (hc : c.scope < m.store.scopes.size) (hvs : ∀ v ∈ vs, v.IsDeclared m.store) :
    (newCallScope c vs).Forms config m fun s i => i < s.scopes.size := by
  obtain ⟨hs, hcont, hlt⟩ := formed_newScope hm hc fun p (hp : p ∈ c.params.zip vs) =>
    hvs p.2 (List.of_mem_zip hp).2
  exact ⟨⟨hs, Nat.lt_of_lt_of_le hm.current hcont.size⟩, hcont, hlt⟩

/-- The operators make no functions. -/
theorem forms_ofOperator {token : Token} {x : Except OperatorError Value} (hm : m.Formed)
    (h : ∀ v, x = .ok v → v.IsDeclared m.store) :
    (ofOperator token x).Forms config m fun s v => v.IsDeclared s :=
  forms_ofExcept hm h

theorem forms_callNative (f : Native) (hm : m.Formed) :
    (callNative f).Forms config m fun s v => v.IsDeclared s := by
  cases f with
  | clock => exact ⟨⟨hm.store, hm.current⟩, .refl _, trivial⟩
  | silent => exact forms_pure hm trivial

end Eval

/-- An operator does not have a function as its result. -/
theorem Value.isDeclared_unary {s : Store} {operator : Token} {v w : Value}
    (h : v.unary operator = .ok w) : w.IsDeclared s := by
  unfold Value.unary at h
  split at h
  · cases h
    trivial
  · cases v <;> cases h
    trivial
  · cases h

theorem BinaryOperator.isDeclared_apply {s : Store} {op : BinaryOperator} {v w u : Value}
    (h : op.apply v w = .ok u) : u.IsDeclared s := by
  unfold BinaryOperator.apply at h
  split at h <;> simp only [Except.ok.injEq, reduceCtorEq] at h <;> subst h
  · cases op <;> trivial
  · trivial

theorem Value.isDeclared_binary {s : Store} {operator : Token} {v w u : Value}
    (h : v.binary operator w = .ok u) : u.IsDeclared s := by
  unfold Value.binary at h
  split at h
  · cases h
    trivial
  · cases h
    trivial
  · split at h
    · rename_i op _
      cases happly : op.apply v w with
      | ok r =>
        rw [happly] at h
        cases h
        exact BinaryOperator.isDeclared_apply happly
      | error => rw [happly] at h; cases h
    · cases h

namespace Moment

open Eval

variable {config : Config} {σ τ υ : Moment}

/-- The state is well-formed, and so is all that is to be done and all that waits. -/
structure Formed (σ : Moment) : Prop where
  machine : σ.machine.Formed
  task : σ.task.Formed σ.machine.store
  frames : ∀ f ∈ σ.frames, f.Formed σ.machine.store

/-- The second moment is well-formed, and its store is a later one. -/
structure Advances (σ τ : Moment) : Prop where
  formed : τ.Formed
  continues : σ.machine.store.Continues τ.machine.store

/-! ## Steps -/

theorem Formed.go (hσ : σ.Formed) {t : Task} (ht : t.Formed σ.machine.store) :
    σ.Advances (σ.go t) :=
  ⟨⟨hσ.machine, ht, hσ.frames⟩, .refl _⟩

theorem Formed.push (hσ : σ.Formed) {f : Frame} {t : Task} (hf : f.Formed σ.machine.store)
    (ht : t.Formed σ.machine.store) : σ.Advances (σ.push f t) :=
  ⟨⟨hσ.machine, ht, List.forall_mem_cons.mpr ⟨hf, hσ.frames⟩⟩, .refl _⟩

theorem Formed.perform {α : Type} {x : Eval α} {n : α → Task} (hσ : σ.Formed) (config : Config)
    (hx : x.Forms config σ.machine fun s a => (n a).Formed s)
    (h : σ.perform config x n = some τ) : σ.Advances τ := by
  unfold Forms at hx
  unfold Moment.perform at h
  cases hr : x config σ.machine with
  | done a m =>
    simp only [hr, Option.some.injEq] at hx h
    obtain ⟨hm, hc, ha⟩ := hx
    subst h
    exact ⟨⟨hm, ha, fun f hf => (hσ.frames f hf).mono hc⟩, hc⟩
  | failed e m =>
    simp only [hr, Option.some.injEq] at hx h
    obtain ⟨hm, hc⟩ := hx
    subst h
    exact ⟨⟨hm, Task.formed_failed, fun f hf => (hσ.frames f hf).mono hc⟩, hc⟩
  | unfinished => simp only [hr, reduceCtorEq] at h

theorem Formed.evaluating (hσ : σ.Formed) {e : Node} (he : e.IsExpression fun _ => True)
    (h : σ.evaluating config e = some τ) : σ.Advances τ := by
  cases e with
  | lit v =>
    cases h
    exact hσ.go (Task.formed_value (Value.IsPlain.isDeclared he))
  | group e =>
    cases h
    exact hσ.go (.of_code he rfl rfl)
  | unary operator right =>
    cases h
    exact hσ.push (.of_code trivial rfl rfl) (.of_code he.2.2 rfl rfl)
  | binary left operator right | logical left operator right =>
    cases h
    exact hσ.push (.of_code he.2.2.2 rfl rfl) (.of_code he.2.2.1 rfl rfl)
  | ident name =>
    exact hσ.perform config ((forms_lookup name hσ.machine).mono fun _ _ => Task.formed_value) h
  | assign name e =>
    cases h
    exact hσ.push (.of_code trivial rfl rfl) (.of_code he.2 rfl rfl)
  | call callee paren arguments =>
    cases h
    exact hσ.push (.of_code he.2.2 rfl rfl) (.of_code he.2.1 rfl rfl)
  | _ => exact he.elim

theorem Formed.executing (hσ : σ.Formed) {s : Node} (hs : s.IsStatement fun _ => True)
    (h : σ.executing config s = some τ) : σ.Advances τ := by
  cases s with
  | exprStmt e | printStmt e =>
    cases h
    exact hσ.push (.of_code trivial rfl rfl) (.of_code hs rfl rfl)
  | varDecl name initializer =>
    cases initializer with
    | none =>
      cases h
      exact hσ.push (.of_code trivial rfl rfl) (Task.formed_value trivial)
    | some e =>
      cases h
      exact hσ.push (.of_code trivial rfl rfl) (.of_code hs.2 rfl rfl)
  | block ss =>
    refine hσ.perform config (n := (.enter · ss)) ((forms_newBlockScope hσ.machine).mono
      fun _ i hi => ?_) h
    exact ⟨hs, by simp [Task.values], by simpa [Task.scopes] using hi⟩
  | ifStmt c t e =>
    cases e with
    | none =>
      cases h
      exact hσ.push (.of_code hs.2 rfl rfl) (.of_code hs.1 rfl rfl)
    | some e =>
      cases h
      exact hσ.push (.of_code hs.2 rfl rfl) (.of_code hs.1 rfl rfl)
  | whileStmt c b =>
    cases h
    exact hσ.go (.of_code hs rfl rfl)
  | funcDecl name params body =>
    cases h
    exact hσ.push (.of_code trivial rfl rfl) (.of_code hs.2.2 rfl rfl)
  | returnStmt keyword value =>
    cases value with
    | none =>
      cases h
      exact hσ.go (Task.formed_returned trivial)
    | some e =>
      cases h
      exact hσ.push (.of_code trivial rfl rfl) (.of_code hs.2 rfl rfl)
  | _ => exact hs.elim

theorem Formed.calling (hσ : σ.Formed) {paren : Token} {v : Value} {vs : List Value}
    (hv : v.IsDeclared σ.machine.store) (hvs : ∀ w ∈ vs, w.IsDeclared σ.machine.store)
    (h : σ.calling config paren v vs = some τ) : σ.Advances τ := by
  unfold Moment.calling at h
  split at h
  · cases h
    exact hσ.go Task.formed_failed
  · split at h
    · cases h
      exact hσ.go Task.formed_failed
    · split at h
      · cases h
        refine hσ.go ⟨trivial, ?_, by simp [Task.scopes]⟩
        exact List.forall_mem_cons.mpr ⟨hv, hvs⟩
      · refine hσ.perform config ?_ h
        exact (forms_callNative _ hσ.machine).mono fun _ _ => Task.formed_value
      · cases h
        exact hσ.go Task.formed_failed

/-- The scope of a call is made in the scope of the function. -/
theorem forms_callScope {f : FunctionRef} {vs : List Value} {m : Machine} (hm : m.Formed)
    (hvs : ∀ v ∈ vs, v.IsDeclared m.store) :
    (callScope f vs).Forms config m fun s t => t.Formed s := by
  refine (forms_closure hm).bind fun c m₁ hm₁ hc₁ ⟨hscope, hbody⟩ => ?_
  refine (forms_newCallScope hm₁ hscope fun v hv => (hvs v hv).mono hc₁).bind
    fun i m₂ hm₂ hc₂ hi => ?_
  refine (forms_trace _ hm₂).bind fun _ m₃ hm₃ hc₃ _ => forms_pure hm₃ ?_
  exact ⟨hbody, by simp [Task.values],
    by simpa [Task.scopes] using Nat.lt_of_lt_of_le hi hc₃.size⟩

theorem Formed.callingFunction (hσ : σ.Formed) {f : FunctionRef} {vs : List Value}
    (hvs : ∀ v ∈ vs, v.IsDeclared σ.machine.store)
    (h : σ.callingFunction config f vs = some τ) : σ.Advances τ := by
  have hx : (callScope f vs).Forms config σ.machine fun s t => t.Formed s :=
    forms_callScope hσ.machine hvs
  unfold Forms at hx
  unfold Moment.callingFunction at h
  split at h
  · cases h
    exact hσ.go Task.formed_failed
  · rename_i hr
    simp only [hr, Option.some.injEq] at hx h
    obtain ⟨hm, hc, ht⟩ := hx
    subst h
    refine ⟨⟨hm, ht, List.forall_mem_cons.mpr ⟨.of_code trivial rfl rfl, ?_⟩⟩, hc⟩
    exact fun f hf => (hσ.frames f hf).mono hc
  · rename_i hr
    simp only [hr, Option.some.injEq] at hx h
    obtain ⟨hm, hc⟩ := hx
    subst h
    exact ⟨⟨hm, Task.formed_failed, fun f hf => (hσ.frames f hf).mono hc⟩, hc⟩
  · cases h

theorem forms_printing (v : Value) {m : Machine} (hm : m.Formed) :
    (printing v).Forms config m fun s r => (Task.completed r).Formed s := by
  have hline : (ofExcept .fault v.display).Forms config m fun _ _ => True :=
    forms_ofExcept hm fun _ _ => trivial
  refine hline.bind fun line m₁ hm₁ _ _ => (forms_write _ hm₁).bind fun _ m₂ hm₂ _ _ => ?_
  exact forms_pure hm₂ Task.formed_normal

theorem forms_defining (name : Token) {v : Value} {m : Machine} (hm : m.Formed)
    (hv : v.IsDeclared m.store) :
    (defining name v).Forms config m fun s r => (Task.completed r).Formed s :=
  (forms_define name.lexeme hm hv).bind fun _ _ hm₁ _ _ => forms_pure hm₁ Task.formed_normal

theorem forms_assigning (name : Token) {v : Value} {m : Machine} (hm : m.Formed)
    (hv : v.IsDeclared m.store) :
    (assigning name v).Forms config m fun s w => (Task.value w).Formed s :=
  (forms_assign name hm hv).bind fun _ _ hm₁ hc _ =>
    forms_pure hm₁ (Task.formed_value (hv.mono hc))

theorem Formed.receiving (hσ : σ.Formed) {v : Value} (hv : v.IsDeclared σ.machine.store)
    {f : Frame} (hf : f.Formed σ.machine.store) (h : σ.receiving config v f = some τ) :
    σ.Advances τ := by
  have hcode := hf.code
  cases f with
  | unary operator =>
    exact hσ.perform config ((forms_ofOperator hσ.machine fun _ => Value.isDeclared_unary).mono
      fun _ _ => Task.formed_value) h
  | left operator right =>
    cases h
    refine hσ.push ⟨trivial, ?_, by simp [Frame.scopes]⟩ (.of_code hcode rfl rfl)
    simpa [Frame.values] using hv
  | right left operator =>
    exact hσ.perform config ((forms_ofOperator hσ.machine fun _ => Value.isDeclared_binary).mono
      fun _ _ => Task.formed_value) h
  | logical operator right =>
    cases h
    refine hσ.go ?_
    split
    · exact Task.formed_value hv
    · exact .of_code hcode rfl rfl
  | assign name => exact hσ.perform config (forms_assigning name hσ.machine hv) h
  | callee paren es =>
    cases h
    exact hσ.go ⟨hcode, by simpa [Task.values] using hv, by simp [Task.scopes]⟩
  | argument paren callee before rest =>
    cases h
    obtain ⟨hcallee, hbefore⟩ := List.forall_mem_cons.mp hf.values
    refine hσ.go ⟨hcode, List.forall_mem_cons.mpr ⟨hcallee, ?_⟩, by simp [Task.scopes]⟩
    exact List.forall_mem_append.mpr ⟨hbefore, by simpa using hv⟩
  | exprStmt =>
    cases h
    exact hσ.go Task.formed_normal
  | printStmt => exact hσ.perform config (forms_printing v hσ.machine) h
  | define name =>
    exact hσ.perform config (x := defining name v) (forms_defining name hσ.machine hv) h
  | branch t e =>
    cases h
    refine hσ.go ?_
    cases e with
    | none =>
      split
      · exact .of_code hcode rfl rfl
      · exact Task.formed_normal
    | some e =>
      split
      · exact .of_code hcode.1 rfl rfl
      · exact .of_code hcode.2 rfl rfl
  | condition c b =>
    cases h
    split
    · exact hσ.push (.of_code hcode rfl rfl) (.of_code hcode.2 rfl rfl)
    · exact hσ.go Task.formed_normal
  | returnStmt =>
    cases h
    exact hσ.go (Task.formed_returned hv)
  | _ => cases h

/-- The scope that was left is current again. -/
theorem Formed.leave (hσ : σ.Formed) {i : ScopeId} (hi : i < σ.machine.store.scopes.size) :
    σ.Advances { σ with machine := { σ.machine with current := i } } :=
  ⟨⟨⟨hσ.machine.store, hi⟩, hσ.task, hσ.frames⟩, .refl _⟩

theorem Formed.completing (hσ : σ.Formed) {r : Completion}
    (hr : (Task.completed r).Formed σ.machine.store) {f : Frame} (hf : f.Formed σ.machine.store)
    (h : σ.completing r f = some τ) : σ.Advances τ := by
  have hcode := hf.code
  cases f with
  | sequence ss | body c b =>
    cases h
    refine hσ.go ?_
    cases r with
    | normal => exact .of_code hcode rfl rfl
    | returned v => exact hr
  | program ss =>
    cases h
    exact hσ.go (.of_code hcode rfl rfl)
  | leave outer =>
    cases h
    exact hσ.leave (hf.scopes outer (List.mem_singleton.mpr rfl))
  | called calls =>
    cases h
    refine ⟨⟨hσ.machine, ?_, hσ.frames⟩, .refl _⟩
    cases r with
    | normal => exact Task.formed_value trivial
    | returned v => exact Task.formed_value (hr.values v (List.mem_singleton.mpr rfl))
  | _ => cases h

theorem Formed.unwinding (hσ : σ.Formed) {f : Frame} (hf : f.Formed σ.machine.store) :
    σ.Advances (σ.unwinding f) := by
  cases f with
  | leave outer => exact hσ.leave (hf.scopes outer (List.mem_singleton.mpr rfl))
  | called calls => exact ⟨⟨hσ.machine, hσ.task, hσ.frames⟩, .refl _⟩
  | _ => exact ⟨hσ, .refl _⟩

/-- **Step.** What comes after a well-formed moment is well-formed, and its store is a later one. -/
theorem Formed.next (hσ : σ.Formed) (h : σ.next? config = some τ) : σ.Advances τ := by
  obtain ⟨t, frames, calls, m⟩ := σ
  have hcode := hσ.task.code
  have hvalues := hσ.task.values
  have hframes := hσ.frames
  cases t with
  | evaluate e => exact hσ.evaluating hcode h
  | arguments paren v before es =>
    cases es with
    | nil =>
      cases h
      exact hσ.go ⟨trivial, hvalues, by simp [Task.scopes]⟩
    | cons e es =>
      cases h
      exact hσ.push ⟨hcode.2, hvalues, by simp [Frame.scopes]⟩ (.of_code hcode.1 rfl rfl)
  | call paren v vs =>
    obtain ⟨hv, hvs⟩ := List.forall_mem_cons.mp hvalues
    exact hσ.calling hv hvs h
  | callFunction f vs => exact hσ.callingFunction (List.forall_mem_cons.mp hvalues).2 h
  | execute s =>
    exact hσ.perform config (n := fun _ => .traced s)
      ((forms_trace _ hσ.machine).mono fun _ _ _ => .of_code hcode rfl rfl) h
  | traced s => exact hσ.executing hcode h
  | declare name params body =>
    exact hσ.perform config ((forms_newFunction name params hσ.machine hcode).mono
      fun _ _ => Task.formed_value) h
  | executeAll ss =>
    cases ss with
    | nil =>
      cases h
      exact hσ.go Task.formed_normal
    | cons s ss =>
      cases h
      exact hσ.push (.of_code hcode.2 rfl rfl) (.of_code hcode.1 rfl rfl)
  | loop c b =>
    cases h
    exact hσ.push (.of_code hcode rfl rfl) (.of_code hcode.1 rfl rfl)
  | enter i ss =>
    cases h
    have hleave : (Frame.leave m.current).Formed m.store :=
      ⟨trivial, by simp [Frame.values], by simpa [Frame.scopes] using hσ.machine.current⟩
    have hi := hσ.task.scopes i (List.mem_singleton.mpr rfl)
    have hpush := hσ.push (t := .executeAll ss) hleave (.of_code hcode rfl rfl)
    exact ⟨(hpush.formed.leave hi).formed, .refl _⟩
  | program ss =>
    cases ss with
    | nil =>
      cases h
      exact hσ.go Task.formed_normal
    | cons s ss =>
      cases h
      exact hσ.push (.of_code hcode.2 rfl rfl) (.of_code hcode.1 rfl rfl)
  | value v =>
    cases frames with
    | nil => cases h
    | cons f fs =>
      obtain ⟨hf, hfs⟩ := List.forall_mem_cons.mp hframes
      have hdrop : Formed ⟨.value v, fs, calls, m⟩ := ⟨hσ.machine, hσ.task, hfs⟩
      have hnext := hdrop.receiving (hvalues v (List.mem_singleton.mpr rfl)) hf h
      exact ⟨hnext.formed, hnext.continues⟩
  | completed r =>
    cases frames with
    | nil => cases h
    | cons f fs =>
      obtain ⟨hf, hfs⟩ := List.forall_mem_cons.mp hframes
      have hdrop : Formed ⟨.completed r, fs, calls, m⟩ := ⟨hσ.machine, hσ.task, hfs⟩
      have hnext := hdrop.completing hσ.task hf h
      exact ⟨hnext.formed, hnext.continues⟩
  | failed e =>
    cases frames with
    | nil => cases h
    | cons f fs =>
      obtain ⟨hf, hfs⟩ := List.forall_mem_cons.mp hframes
      have hdrop : Formed ⟨.failed e, fs, calls, m⟩ := ⟨hσ.machine, hσ.task, hfs⟩
      cases h
      have hnext := hdrop.unwinding hf
      exact ⟨hnext.formed, hnext.continues⟩

/-- **Run.** So it is after any number of steps. -/
theorem Formed.leads (hσ : σ.Formed) (h : Leads config σ τ) : σ.Advances τ := by
  induction h with
  | refl => exact ⟨hσ, .refl _⟩
  | tail _ hstep ih =>
    have hnext := ih.formed.next hstep
    exact ⟨hnext.formed, ih.continues.trans hnext.continues⟩

/-- What is held is declared. -/
theorem Formed.isDeclared (hσ : σ.Formed) {v : Value} (h : σ.Holds v) :
    v.IsDeclared σ.machine.store := by
  rcases h with h | h
  · rcases List.mem_append.mp h with h | h
    · exact hσ.task.values v h
    · obtain ⟨f, hf, hv⟩ := List.mem_flatMap.mp h
      exact (hσ.frames f hf).values v hv
  · exact hσ.machine.store.isDeclared h

/-- A declaration makes a function with the number that comes next. -/
theorem next?_declare {name : Token} {params : List Token} {body : List Node}
    (ht : σ.task = .declare name params body) (h : σ.next? config = some τ) :
    ∃ f, τ.task = .value (.function f) ∧ f.id = σ.machine.store.closures.size ∧
      τ.machine.store.closures[f.id]? = some ⟨name, params, body, σ.machine.current⟩ := by
  unfold next? at h
  simp only [ht] at h
  cases h
  exact ⟨_, rfl, rfl, by simp⟩

end Moment

end Lox
