import Lox.Proofs.Evaluation.Adequacy
import Lox.Proofs.Evaluation.Frame
import Lox.Proofs.Store.Chain

/-!
# What a step does

There are many steps, but they do few things. Most of them look at the code that comes next, or at a
value, and leave the scopes alone. The others each do one thing to the scopes and the functions: a
name is bound or its value is changed, a function or a scope is made, a scope is entered, or what
was left for a scope is gone back to.

What is known of a step is said here once. What runs keep, from step to step, is derived from it and
not from the steps themselves.

## Main definitions

* `Node.binders n`: the names that are bound by the code of a tree
* `Moment.Transition σ τ`: the moment `τ` comes after `σ`, by one of the things that a step can do

## Main results

* `Moment.transition_of_next?`: there is nothing else that a step can do
-/

namespace Lox

open Eval

/-! ## The names that code binds -/

namespace Node

mutual

/-- The names that the declarations of the tree bind and those of parameters, wherever in the tree
they stand. -/
def binders : Node → List String
  | varDecl name _ => [name.lexeme]
  | block ss => allBinders ss
  | ifStmt _ t none => t.binders
  | ifStmt _ t (some e) => t.binders ++ e.binders
  | whileStmt _ b => b.binders
  | funcDecl name params body => name.lexeme :: (params.map Token.lexeme ++ allBinders body)
  | _ => []

/-- The names that are bound in the trees. -/
def allBinders : List Node → List String
  | [] => []
  | n :: ns => n.binders ++ allBinders ns

end

end Node

/-- The names of the parameters and those that the body binds. -/
def Closure.binders (c : Closure) : List String :=
  c.params.map Token.lexeme ++ Node.allBinders c.body

/-- The names that are bound by the code of the task. -/
def Task.binders : Task → List String
  | .execute s | .traced s => s.binders
  | .declare _ params body => params.map Token.lexeme ++ Node.allBinders body
  | .executeAll ss | .enter _ ss | .program ss => Node.allBinders ss
  | .loop _ b => b.binders
  | _ => []

/-- The names that are bound by the code of the frame. -/
def Frame.binders : Frame → List String
  | .define name => [name.lexeme]
  | .branch t e => t.binders ++ e.elim [] Node.binders
  | .condition _ b | .body _ b => b.binders
  | .sequence ss | .program ss => Node.allBinders ss
  | _ => []

/-! ## What is done in the current scope -/

/-- The scopes and the functions are the same, and what was written is kept. -/
structure Machine.SameScopes (m m' : Machine) : Prop where
  store : m'.store = m.store
  current : m'.current = m.current
  log : m.log <:+ m'.log

theorem Machine.SameScopes.refl (m : Machine) : m.SameScopes m :=
  ⟨rfl, rfl, List.suffix_refl _⟩

namespace Eval

variable {α β : Type}

/-- However it ends, the run leaves the scopes and the functions alone. -/
def Quiet (x : Eval α) : Prop :=
  ∀ config m, (x config m).After m.SameScopes

theorem Quiet.bind {x : Eval α} {k : α → Eval β} (h : Quiet x) (hk : ∀ a, Quiet (k a)) :
    Quiet (x >>= k) := by
  intro config m
  have hx := h config m
  rw [bind_apply]
  cases hr : x config m with
  | done a n =>
    simp only [hr] at hx ⊢
    obtain ⟨hstore, hcurrent, hlog⟩ := hx
    have hy := hk a config n
    cases hs : k a config n <;> simp only [hs] at hy ⊢
    · exact ⟨hy.store.trans hstore, hy.current.trans hcurrent, hlog.trans hy.log⟩
    · exact ⟨hy.store.trans hstore, hy.current.trans hcurrent, hlog.trans hy.log⟩
    · trivial
  | failed f n =>
    simp only [hr] at hx
    exact hx
  | unfinished => trivial

theorem quiet_pure (a : α) : Quiet (pure a) :=
  fun _ m => .refl m

theorem quiet_ofExcept {ε : Type} (failure : ε → Failure) (r : Except ε α) :
    Quiet (ofExcept failure r) := by
  cases r with
  | ok a => exact quiet_pure a
  | error e => exact fun _ m => .refl m

theorem quiet_write (w : Write) : Quiet (write w) :=
  fun _ m => ⟨rfl, rfl, List.suffix_cons w m.log⟩

theorem quiet_trace (w : Write) : Quiet (trace w) := by
  have hdebug : Quiet debug := fun _ m => .refl m
  refine hdebug.bind fun b => ?_
  split
  · exact quiet_write w
  · exact quiet_pure ()

theorem quiet_lookup (name : Token) : Quiet (lookup name) := by
  intro config m
  unfold lookup
  split
  · exact .refl m
  · exact .refl m

theorem quiet_callNative (f : Native) : Quiet (callNative f) := by
  cases f with
  | clock => exact fun _ _ => ⟨rfl, rfl, List.suffix_refl _⟩
  | silent => exact quiet_pure _

theorem quiet_printing (v : Value) : Quiet (Moment.printing v) :=
  (quiet_ofExcept _ _).bind fun _ => (quiet_write _).bind fun _ => quiet_pure _

end Eval

/-! ## Steps -/

theorem Eval.IsPlain.scopeBehind {f : Frame} (h : IsPlain f) (i : ScopeId) :
    f.scopeBehind i = i := by
  cases f with
  | leave outer =>
    exact congrArg (·.machine.current)
      (h ⟨.program [], [], 0, { Machine.initial with current := i }⟩)
  | _ => rfl

namespace Moment

/-- The second moment comes after the first one, by one of the things that a step can do. -/
inductive Transition : Moment → Moment → Prop
  /-- Something is done in the current scope, or it is found what is to be done there. The code that
  comes next is a part of what was to be done before. -/
  | work {t u : Task} {old new frames : List Frame} {calls : Nat} {m m' : Machine} :
      t.scopes = [] → u.scopes = [] → (∀ f ∈ old ++ new, IsPlain f) →
      u.binders ++ new.flatMap Frame.binders ⊆ t.binders ++ old.flatMap Frame.binders →
      m.SameScopes m' →
      Transition ⟨t, old ++ frames, calls, m⟩ ⟨u, new ++ frames, calls, m'⟩
  /-- The value of a name is changed, in the scope that the name belongs to. -/
  | assign {name : Token} {v : Value} {j : ScopeId} {frames : List Frame} {calls : Nat}
      {m : Machine} : m.store.owner? m.current name.lexeme = some j →
      Transition ⟨.value v, .assign name :: frames, calls, m⟩
        ⟨.value v, frames, calls, { m with store := m.store.define j name.lexeme v }⟩
  /-- A name is bound in the current scope. -/
  | define {name : Token} {v : Value} {frames : List Frame} {calls : Nat} {m : Machine} :
      Transition ⟨.value v, .define name :: frames, calls, m⟩
        ⟨.completed .normal, frames, calls,
          { m with store := m.store.define m.current name.lexeme v }⟩
  /-- A function is made in the current scope. -/
  | declare {name : Token} {params : List Token} {body : List Node} {f : FunctionRef}
      {frames : List Frame} {calls : Nat} {m : Machine} :
      Transition ⟨.declare name params body, frames, calls, m⟩
        ⟨.value (.function f), frames, calls,
          { m with store := (m.store.newClosure ⟨name, params, body, m.current⟩).1 }⟩
  /-- A scope is made for a block, in the current one. -/
  | block {ss : List Node} {frames : List Frame} {calls : Nat} {m : Machine} :
      Transition ⟨.traced (.block ss), frames, calls, m⟩
        ⟨.enter m.store.scopes.size ss, frames, calls,
          { m with store := (m.store.newScope (some m.current)).1 }⟩
  /-- A scope is made for a call, in the one of the function. -/
  | call {f : FunctionRef} {vs : List Value} {c : Closure} {frames : List Frame} {calls : Nat}
      {m : Machine} {ws : List Write} : m.store.closures[f.id]? = some c →
      Transition ⟨.callFunction f vs, frames, calls + 1, m⟩
        ⟨.enter m.store.scopes.size c.body, .called (calls + 1) :: frames, calls,
          { m with store := m.store.newCall c vs, log := ws ++ m.log }⟩
  | enter {i : ScopeId} {ss : List Node} {frames : List Frame} {calls : Nat} {m : Machine} :
      Transition ⟨.enter i ss, frames, calls, m⟩
        ⟨.executeAll ss, .leave m.current :: frames, calls, { m with current := i }⟩
  | leave {t : Task} {outer : ScopeId} {frames : List Frame} {calls : Nat} {m : Machine} :
      t.binders = [] → t.scopes = [] →
      Transition ⟨t, .leave outer :: frames, calls, m⟩
        ⟨t, frames, calls, { m with current := outer }⟩
  /-- A call is ended. -/
  | ret {t u : Task} {calls calls' : Nat} {frames : List Frame} {m : Machine} :
      t.scopes = [] → u.binders = [] → u.scopes = [] →
      Transition ⟨t, .called calls' :: frames, calls, m⟩ ⟨u, frames, calls', m⟩

variable {config : Config} {t u : Task} {frames : List Frame} {calls : Nat} {m : Machine}
  {σ τ : Moment}

/-! ### Work -/

/-- Another task takes the place of the one that was next. -/
theorem Transition.go (ht : t.scopes = []) (hu : u.scopes = []) (hb : u.binders ⊆ t.binders) :
    Transition ⟨t, frames, calls, m⟩ ⟨u, frames, calls, m⟩ := by
  show Transition ⟨t, [] ++ frames, calls, m⟩ ⟨u, [] ++ frames, calls, m⟩
  exact .work ht hu (List.forall_mem_nil _) (by simpa using hb) (.refl m)

/-- Another task comes first, and a frame waits for it. -/
theorem Transition.push {f : Frame} (hf : IsPlain f) (ht : t.scopes = []) (hu : u.scopes = [])
    (hb : u.binders ++ f.binders ⊆ t.binders) :
    Transition ⟨t, frames, calls, m⟩ ⟨u, f :: frames, calls, m⟩ := by
  show Transition ⟨t, [] ++ frames, calls, m⟩ ⟨u, [f] ++ frames, calls, m⟩
  exact .work ht hu (by simpa using hf) (by simpa using hb) (.refl m)

/-- A frame gets what it waits for, and another task comes next. -/
theorem Transition.pop {f : Frame} (hf : IsPlain f) (ht : t.scopes = []) (hu : u.scopes = [])
    (hb : u.binders ⊆ t.binders ++ f.binders) :
    Transition ⟨t, f :: frames, calls, m⟩ ⟨u, frames, calls, m⟩ := by
  show Transition ⟨t, [f] ++ frames, calls, m⟩ ⟨u, [] ++ frames, calls, m⟩
  exact .work ht hu (by simpa using hf) (by simpa using hb) (.refl m)

/-- A frame gets what it waits for, and another task comes first, for which another frame waits. -/
theorem Transition.swap {f g : Frame} (hf : IsPlain f) (hg : IsPlain g) (ht : t.scopes = [])
    (hu : u.scopes = []) (hb : u.binders ++ g.binders ⊆ t.binders ++ f.binders) :
    Transition ⟨t, f :: frames, calls, m⟩ ⟨u, g :: frames, calls, m⟩ := by
  show Transition ⟨t, [f] ++ frames, calls, m⟩ ⟨u, [g] ++ frames, calls, m⟩
  exact .work ht hu (by simpa using And.intro hf hg) (by simpa using hb) (.refl m)

/-- Something is done that leaves the scopes alone. -/
theorem Transition.perform {α : Type} {x : Eval α} {next : α → Task} (old : List Frame)
    (hold : ∀ f ∈ old, IsPlain f) (ht : t.scopes = []) (hx : Quiet x)
    (hn : ∀ a, (next a).scopes = [] ∧ (next a).binders ⊆ t.binders)
    (h : Moment.perform ⟨t, frames, calls, m⟩ config x next = some τ) :
    Transition ⟨t, old ++ frames, calls, m⟩ τ := by
  have hq := hx config m
  unfold Moment.perform at h
  cases hr : x config m with
  | done a n =>
    simp only [hr] at hq h
    cases h
    show Transition _ ⟨next a, [] ++ frames, calls, n⟩
    refine .work ht (hn a).1 (by simpa using hold) ?_ hq
    simpa using List.subset_append_of_subset_left _ (hn a).2
  | failed e n =>
    simp only [hr] at hq h
    cases h
    show Transition _ ⟨.failed e, [] ++ frames, calls, n⟩
    exact .work ht rfl (by simpa using hold) (List.nil_subset _) hq
  | unfinished =>
    simp only [hr] at h
    cases h

/-! ### Rules -/

/-- The code of expressions binds nothing, so it does not matter which parts of it come next. -/
theorem transition_evaluating {e : Node}
    (h : evaluating ⟨.evaluate e, frames, calls, m⟩ config e = some τ) :
    Transition ⟨.evaluate e, frames, calls, m⟩ τ := by
  cases e with
  | unary | binary | logical | assign | call =>
    cases h
    exact .push (fun _ => rfl) rfl rfl (List.Subset.refl _)
  | ident name =>
    exact .perform [] (List.forall_mem_nil _) rfl (quiet_lookup name)
      (fun _ => ⟨rfl, List.nil_subset _⟩) h
  | _ =>
    cases h
    exact .go rfl rfl (List.Subset.refl _)

theorem transition_executing {s : Node}
    (h : executing ⟨.traced s, frames, calls, m⟩ config s = some τ) :
    Transition ⟨.traced s, frames, calls, m⟩ τ := by
  cases s with
  | exprStmt | printStmt =>
    cases h
    exact .push (fun _ => rfl) rfl rfl (List.Subset.refl _)
  | varDecl name initializer =>
    cases initializer <;> cases h <;>
      exact .push (fun _ => rfl) rfl rfl (List.Subset.refl _)
  | block ss =>
    cases h
    exact .block
  | ifStmt c t e =>
    cases e <;> cases h <;>
      exact .push (fun _ => rfl) rfl rfl
        (by simp [Task.binders, Frame.binders, Node.binders])
  | whileStmt c b =>
    cases h
    exact .go rfl rfl (by simp [Task.binders, Node.binders])
  | funcDecl name params body =>
    cases h
    refine .push (fun _ => rfl) rfl rfl ?_
    simp [Task.binders, Frame.binders, Node.binders]
  | returnStmt keyword value =>
    cases value with
    | none =>
      cases h
      exact .go rfl rfl (List.Subset.refl _)
    | some e =>
      cases h
      exact .push (fun _ => rfl) rfl rfl (List.Subset.refl _)
  | _ =>
    cases h
    exact .go rfl rfl (List.Subset.refl _)

theorem transition_calling {paren : Token} {v : Value} {vs : List Value}
    (h : calling ⟨.call paren v vs, frames, calls, m⟩ config paren v vs = some τ) :
    Transition ⟨.call paren v vs, frames, calls, m⟩ τ := by
  have hgo : ∀ u : Task, u.scopes = [] → u.binders = [] →
      Transition ⟨.call paren v vs, frames, calls, m⟩ ⟨u, frames, calls, m⟩ := fun u hu hb =>
    .go rfl hu (by simp [hb])
  unfold calling at h
  split at h
  · cases h
    exact hgo _ rfl rfl
  · split at h
    · cases h
      exact hgo _ rfl rfl
    · split at h
      · cases h
        exact hgo _ rfl rfl
      · exact .perform [] (List.forall_mem_nil _) rfl (quiet_callNative _)
          (fun _ => ⟨rfl, List.nil_subset _⟩) h
      · cases h
        exact hgo _ rfl rfl

/-- What is done first in a call: a scope is made for it, in the one of the function. -/
theorem callScope_apply (f : FunctionRef) (vs : List Value) (config : Config) (m : Machine) :
    callScope f vs config m =
      match m.store.closures[f.id]? with
      | some c => .done (.enter m.store.scopes.size c.body)
          { m with
            store := m.store.newCall c vs
            log := (if config.debug then [.calling c.name.lexeme] else []) ++ m.log }
      | none => .failed (.fault (.undeclaredFunction f.id)) m := by
  unfold callScope
  rw [bind_apply]
  unfold Eval.closure
  cases m.store.closures[f.id]? with
  | some c =>
    obtain ⟨traced, clock⟩ := config
    cases traced <;> rfl
  | none => rfl

theorem transition_callingFunction {f : FunctionRef} {vs : List Value}
    (h : callingFunction ⟨.callFunction f vs, frames, calls, m⟩ config f vs = some τ) :
    Transition ⟨.callFunction f vs, frames, calls, m⟩ τ := by
  unfold callingFunction at h
  rw [callScope_apply] at h
  cases hc : m.store.closures[f.id]? <;> simp only [hc] at h <;> cases calls <;> cases h
  · exact .go rfl rfl (List.nil_subset _)
  · exact .go rfl rfl (List.nil_subset _)
  · exact .go rfl rfl (List.nil_subset _)
  · exact .call hc

theorem transition_receiving {v : Value} {f : Frame}
    (h : receiving ⟨.value v, frames, calls, m⟩ config v f = some τ) :
    Transition ⟨.value v, f :: frames, calls, m⟩ τ := by
  cases f with
  | unary operator | right left operator =>
    exact .perform [_] (by simp [IsPlain, unwinding]) rfl (quiet_ofExcept _ _)
      (fun _ => ⟨rfl, List.nil_subset _⟩) h
  | printStmt =>
    exact .perform [_] (by simp [IsPlain, unwinding]) rfl (quiet_printing v)
      (fun _ => ⟨rfl, List.nil_subset _⟩) h
  | assign name =>
    unfold receiving perform assigning at h
    simp only [bind_apply, Eval.assign] at h
    cases ho : m.store.owner? m.current name.lexeme with
    | some j =>
      simp only [ho] at h
      cases h
      exact .assign ho
    | none =>
      simp only [ho] at h
      cases h
      exact .pop (fun _ => rfl) rfl rfl (List.nil_subset _)
  | define name =>
    cases h
    exact .define
  | left operator right =>
    cases h
    exact .swap (fun _ => rfl) (fun _ => rfl) rfl rfl (List.nil_subset _)
  | logical operator right =>
    cases h
    split
    · exact .pop (fun _ => rfl) rfl rfl (List.nil_subset _)
    · exact .pop (fun _ => rfl) rfl rfl (List.nil_subset _)
  | callee | argument | exprStmt | returnStmt =>
    cases h
    exact .pop (fun _ => rfl) rfl rfl (List.nil_subset _)
  | branch t e =>
    cases h
    split
    · exact .pop (fun _ => rfl) rfl rfl (by simp [Task.binders, Frame.binders])
    · cases e with
      | some e => exact .pop (fun _ => rfl) rfl rfl (by simp [Task.binders, Frame.binders])
      | none => exact .pop (fun _ => rfl) rfl rfl (List.nil_subset _)
  | condition c b =>
    cases h
    split
    · exact .swap (fun _ => rfl) (fun _ => rfl) rfl rfl (by simp [Task.binders, Frame.binders])
    · exact .pop (fun _ => rfl) rfl rfl (List.nil_subset _)
  | _ => cases h

theorem transition_completing {r : Completion} {f : Frame}
    (h : completing ⟨.completed r, frames, calls, m⟩ r f = some τ) :
    Transition ⟨.completed r, f :: frames, calls, m⟩ τ := by
  cases f with
  | sequence | body =>
    cases h
    cases r with
    | normal => exact .pop (fun _ => rfl) rfl rfl (List.Subset.refl _)
    | returned v => exact .pop (fun _ => rfl) rfl rfl (List.nil_subset _)
  | program =>
    cases h
    exact .pop (fun _ => rfl) rfl rfl (List.Subset.refl _)
  | leave =>
    cases h
    exact .leave rfl rfl
  | called =>
    cases h
    cases r <;> exact .ret rfl rfl rfl
  | _ => cases h

/-- A failure passes each frame. -/
theorem transition_unwinding (e : Failure) (f : Frame) :
    Transition ⟨.failed e, f :: frames, calls, m⟩ (unwinding ⟨.failed e, frames, calls, m⟩ f) := by
  cases f with
  | leave => exact .leave rfl rfl
  | called => exact .ret rfl rfl rfl
  | _ => exact .pop (fun _ => rfl) rfl rfl (List.nil_subset _)

/-- **Step.** There is nothing else that a step can do. -/
theorem transition_of_next? (h : σ.next? config = some τ) : Transition σ τ := by
  obtain ⟨t, frames, calls, m⟩ := σ
  cases t with
  | evaluate e => exact transition_evaluating h
  | arguments paren v before es =>
    cases es with
    | nil =>
      cases h
      exact .go rfl rfl (List.nil_subset _)
    | cons e es =>
      cases h
      exact .push (fun _ => rfl) rfl rfl (List.nil_subset _)
  | call paren v vs => exact transition_calling h
  | callFunction f vs => exact transition_callingFunction h
  | execute s =>
    have hn : ∀ _ : Unit, (Task.traced s).scopes = [] ∧ (Task.traced s).binders ⊆ s.binders :=
      fun _ => ⟨rfl, List.Subset.refl _⟩
    exact .perform [] (List.forall_mem_nil _) rfl (quiet_trace _) hn h
  | traced s => exact transition_executing h
  | declare name params body =>
    cases h
    exact .declare
  | executeAll ss =>
    cases ss with
    | nil =>
      cases h
      exact .go rfl rfl (List.nil_subset _)
    | cons s ss =>
      cases h
      exact .push (fun _ => rfl) rfl rfl
        (by simp [Task.binders, Frame.binders, Node.allBinders])
  | loop c b =>
    cases h
    exact .push (fun _ => rfl) rfl rfl (by simp [Task.binders, Frame.binders])
  | enter i ss =>
    cases h
    exact .enter
  | program ss =>
    cases ss with
    | nil =>
      cases h
      exact .go rfl rfl (List.nil_subset _)
    | cons s ss =>
      cases h
      exact .push (fun _ => rfl) rfl rfl
        (by simp [Task.binders, Frame.binders, Node.allBinders])
  | value v =>
    cases frames with
    | nil => cases h
    | cons f fs => exact transition_receiving h
  | completed r =>
    cases frames with
    | nil => cases h
    | cons f fs => exact transition_completing h
  | failed e =>
    cases frames with
    | nil => cases h
    | cons f fs =>
      cases h
      exact transition_unwinding e f

/-! ## Declarations -/

/-- The name that a declaration binds next, in the current scope. -/
def declares? (σ : Moment) : Option String :=
  match σ.task, σ.frames with
  | .value _, .define name :: _ => some name.lexeme
  | _, _ => none

theorem next?_of_declares? {name : String} (config : Config) (h : σ.declares? = some name)
    (hσ : σ.machine.current < σ.machine.store.scopes.size) :
    ∃ τ, σ.next? config = some τ ∧ name ∈ τ.machine.store.names σ.machine.current := by
  obtain ⟨t, frames, calls, m⟩ := σ
  unfold declares? at h
  split at h
  · rename_i v token fs ht hfs
    cases ht
    cases hfs
    cases h
    refine ⟨_, rfl, ?_⟩
    show _ ∈ (m.store.define m.current token.lexeme v).names m.current
    rw [Store.names, Store.bindings_define, if_pos ⟨rfl, hσ⟩, Bindings.names_put]
    split
    · assumption
    · exact List.mem_append_right _ (List.mem_singleton.mpr rfl)
  · cases h

/-- No name is bound in a scope that exists but by a declaration. -/
theorem Transition.names (h : Transition σ τ) {j : ScopeId} (hj : j < σ.machine.store.scopes.size)
    {name : String} (hn : name ∈ τ.machine.store.names j) :
    name ∈ σ.machine.store.names j ∨ σ.declares? = some name ∧ j = σ.machine.current := by
  cases h with
  | work _ _ _ _ hm => exact .inl (by rwa [hm.store] at hn)
  | assign ho =>
    exact .inl (by rwa [Store.names_define_of_mem (Store.mem_names_of_owner? ho)] at hn)
  | define =>
    rcases Store.mem_names_define hn with hn | ⟨rfl, rfl⟩
    · exact .inl hn
    · exact .inr ⟨rfl, rfl⟩
  | block => exact .inl (by rwa [Store.names_newScope] at hn)
  | call =>
    rcases Store.mem_names_newCall hn with hn | ⟨rfl, -⟩
    · exact .inl hn
    · exact absurd hj (Nat.lt_irrefl _)
  | _ => exact .inl hn

end Moment

end Lox
