import Lox.Proofs.Evaluation.Formation
import Lox.Proofs.Evaluation.Transition

/-!
# What runs in a call

What waits makes no difference for the steps until its turn comes. So the body of a function is run
in the same way by itself as it is when something waits for the call. And as long as it calls no
other function, it is run in the scope of its call, or in that of a block inside it.

## Main definitions

* `Moment.hold σ held`: the moment `σ`, with more frames that wait
* `Frame.Inside s i k fs`: when no other call is going on, the scopes lie inside `i`

## Main results

* `Moment.Leads.hold`: what is held does not change the steps
* `Moment.Leads.stays`: a body is run in the scope of its call, or inside it
-/

namespace Lox

open Eval

namespace Moment

variable {config : Config} {σ τ : Moment}

/-! ## More frames -/

/-- The moment with more frames that wait behind those that wait. -/
def hold (σ : Moment) (held : List Frame) : Moment :=
  { σ with frames := σ.frames ++ held }

theorem perform_hold {α : Type} (config : Config) (x : Eval α) (next : α → Task)
    (held : List Frame) :
    (σ.hold held).perform config x next = (σ.perform config x next).map (·.hold held) := by
  unfold perform
  rw [show (σ.hold held).machine = σ.machine from rfl]
  cases x config σ.machine <;> rfl

theorem evaluating_hold (e : Node) (held : List Frame) :
    (σ.hold held).evaluating config e = (σ.evaluating config e).map (·.hold held) := by
  cases e with
  | ident name => exact perform_hold config _ _ held
  | _ => rfl

theorem executing_hold (s : Node) (held : List Frame) :
    (σ.hold held).executing config s = (σ.executing config s).map (·.hold held) := by
  cases s with
  | varDecl name initializer => cases initializer <;> rfl
  | returnStmt keyword value => cases value <;> rfl
  | block ss => exact perform_hold config newBlockScope (.enter · ss) held
  | _ => rfl

theorem calling_hold (paren : Token) (v : Value) (vs : List Value) (held : List Frame) :
    (σ.hold held).calling config paren v vs =
      (σ.calling config paren v vs).map (·.hold held) := by
  unfold calling
  split
  · rfl
  · split
    · rfl
    · split
      · rfl
      · exact perform_hold config _ _ held
      · rfl

theorem callingFunction_hold (f : FunctionRef) (vs : List Value) (held : List Frame) :
    (σ.hold held).callingFunction config f vs =
      (σ.callingFunction config f vs).map (·.hold held) := by
  unfold callingFunction
  rw [show (σ.hold held).machine = σ.machine from rfl, show (σ.hold held).calls = σ.calls from rfl]
  cases σ.calls <;> cases callScope f vs config σ.machine <;> rfl

theorem receiving_hold (σ : Moment) (config : Config) (v : Value) (f : Frame) (held : List Frame) :
    (σ.hold held).receiving config v f = (σ.receiving config v f).map (·.hold held) := by
  cases f with
  | unary | right => exact perform_hold config _ _ held
  | assign name => exact perform_hold config (assigning name v) _ held
  | define name => exact perform_hold config (defining name v) _ held
  | printStmt => exact perform_hold config (printing v) _ held
  | condition c b =>
    simp only [receiving, Option.map_some]
    split <;> rfl
  | _ => rfl

theorem completing_hold (σ : Moment) (r : Completion) (f : Frame) (held : List Frame) :
    (σ.hold held).completing r f = (σ.completing r f).map (·.hold held) := by
  cases f <;> rfl

/-- A step is not changed by what is held. -/
theorem next?_hold (held : List Frame) (h : σ.next? config = some τ) :
    (σ.hold held).next? config = some (τ.hold held) := by
  obtain ⟨t, frames, calls, m⟩ := σ
  have hsome : ∀ {x y : Option Moment}, x = some τ → y = x.map (·.hold held) →
      y = some (τ.hold held) := by
    rintro _ _ rfl rfl
    rfl
  refine hsome h ?_
  cases t with
  | evaluate e => exact evaluating_hold e held
  | arguments paren v before es => cases es <;> rfl
  | call paren v vs => exact calling_hold paren v vs held
  | callFunction f vs => exact callingFunction_hold f vs held
  | execute s => exact perform_hold config _ _ held
  | traced s => exact executing_hold s held
  | executeAll ss | program ss => cases ss <;> rfl
  | value v =>
    cases frames with
    | nil => cases h
    | cons f fs => exact receiving_hold ⟨.value v, fs, calls, m⟩ config v f held
  | completed r =>
    cases frames with
    | nil => cases h
    | cons f fs => exact completing_hold ⟨.completed r, fs, calls, m⟩ r f held
  | failed e =>
    cases frames with
    | nil => cases h
    | cons f fs => cases f <;> rfl
  | _ => rfl

theorem Leads.hold (held : List Frame) (h : Leads config σ τ) :
    Leads config (σ.hold held) (τ.hold held) := by
  induction h with
  | refl => exact .refl _
  | tail _ hstep ih => exact ih.trans (.of_next? (next?_hold held hstep))

end Moment

/-! ## Scopes of a call -/

/-- The frame waits for the end of a call. -/
def Frame.IsCall : Frame → Prop
  | .called _ => True
  | _ => False

/-- While no other call is going on, the scope `k` that is current in front of the frames lies
inside `i`, and so do those that are gone back to. -/
def Frame.Inside (s : Store) (i : ScopeId) : ScopeId → List Frame → Prop
  | k, [] => i ∈ s.chain k
  | k, f :: fs =>
    Inside s i (f.scopeBehind k) fs ∧ ((∀ g ∈ f :: fs, ¬ g.IsCall) → i ∈ s.chain k)

namespace Moment

variable {config : Config} {σ τ : Moment} {s s' : Store} {i k : ScopeId} {frames : List Frame}

theorem inside_chain (h : Frame.Inside s i k frames) (hcall : ∀ f ∈ frames, ¬ f.IsCall) :
    i ∈ s.chain k := by
  cases frames with
  | nil => exact h
  | cons f fs => exact h.2 hcall

/-- Plain frames make no difference. -/
theorem inside_append_iff {new : List Frame} (h : ∀ f ∈ new, IsPlain f) :
    Frame.Inside s i k (new ++ frames) ↔ Frame.Inside s i k frames := by
  induction new with
  | nil => exact Iff.rfl
  | cons f new ih =>
    obtain ⟨hf, hnew⟩ := List.forall_mem_cons.mp h
    rw [List.cons_append, Frame.Inside, hf.scopeBehind]
    refine ⟨fun hk => (ih hnew).mp hk.1, fun hk => ⟨(ih hnew).mpr hk, fun hcall => ?_⟩⟩
    exact inside_chain ((ih hnew).mpr hk) fun g hg => hcall g (List.mem_cons_of_mem f hg)

theorem inside_mono (h : Frame.Inside s i k frames) (hs : s.Continues s') :
    Frame.Inside s' i k frames := by
  induction frames generalizing k with
  | nil => exact hs.mem_chain h
  | cons f fs ih => exact ⟨ih h.1, fun hcall => hs.mem_chain (h.2 hcall)⟩

/-- While no other call is going on, what is run is run inside the scope `i`. -/
structure Stays (i : ScopeId) (σ : Moment) : Prop where
  frames : Frame.Inside σ.machine.store i σ.machine.current σ.frames
  task : ∀ k ∈ σ.task.scopes, (∀ f ∈ σ.frames, ¬ f.IsCall) → i ∈ σ.machine.store.chain k

/-- **Step.** A block is run in a scope inside the current one, and what is run in the scope of
another call does not count. -/
theorem Transition.stays (h : Transition σ τ) (hc : σ.machine.store.Continues τ.machine.store)
    (hσ : Stays i σ) : Stays i τ := by
  obtain ⟨hframes, htask⟩ := hσ
  cases h with
  | @work _ _ old new frames _ m m' _ hu hplain _ hm =>
    obtain ⟨hold, hnew⟩ := List.forall_mem_append.mp hplain
    refine ⟨?_, fun k hk => absurd hk (hu ▸ List.not_mem_nil)⟩
    show Frame.Inside m'.store i m'.current (new ++ frames)
    rw [hm.store, hm.current]
    exact (inside_append_iff hnew).mpr ((inside_append_iff hold).mp hframes)
  | assign | define =>
    exact ⟨inside_mono hframes.1 hc, fun _ hk => absurd hk List.not_mem_nil⟩
  | declare => exact ⟨inside_mono hframes hc, fun _ hk => absurd hk List.not_mem_nil⟩
  | @block _ _ _ m =>
    refine ⟨inside_mono hframes hc, fun k hk hcall => ?_⟩
    obtain rfl := List.mem_singleton.mp hk
    show i ∈ (m.store.newScope (some m.current)).1.chain m.store.scopes.size
    rw [Store.chain_newScope_self]
    exact List.mem_cons_of_mem _ (inside_chain hframes hcall)
  | call =>
    refine ⟨⟨inside_mono hframes hc, fun hcall => ?_⟩, fun k _ hcall => ?_⟩
    · exact absurd trivial (hcall _ List.mem_cons_self)
    · exact absurd trivial (hcall _ List.mem_cons_self)
  | enter =>
    refine ⟨⟨hframes, fun hcall => ?_⟩, fun _ hk => absurd hk List.not_mem_nil⟩
    exact htask _ (List.mem_singleton.mpr rfl) fun f hf => hcall f (List.mem_cons_of_mem _ hf)
  | leave _ hs => exact ⟨hframes.1, fun k hk => absurd hk (hs ▸ List.not_mem_nil)⟩
  | ret _ _ hs => exact ⟨hframes.1, fun k hk => absurd hk (hs ▸ List.not_mem_nil)⟩

/-- **Run.** So it is after any number of steps. -/
theorem Leads.stays (h : Leads config σ τ) (hformed : σ.Formed) (hσ : Stays i σ) : Stays i τ := by
  induction h with
  | refl => exact hσ
  | tail hleads hstep ih =>
    have hnext := (hformed.leads hleads).formed.next hstep
    exact (transition_of_next? hstep).stays hnext.continues ih

end Moment

end Lox
