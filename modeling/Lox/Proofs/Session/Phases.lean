import Lox.Proofs.Evaluation.Adequacy
import Lox.Proofs.Evaluation.Formation
import Lox.Proofs.Session.Steps

/-!
# The tree of scopes in a session

A session is between two of its steps, or in the middle of a program that one of them runs. In all
of its phases the scopes form a tree, in which no scope is moved, and to which all functions belong
that can be reached: those that are bound, and those that are arguments or results of something that
has not ended yet. Every walk from a scope to the root ends.

A run that is ended by an error leaves a session in such a phase too.

## Main definitions

* `Phase`, `Phase.Next`: where a session is, and what comes next
* `Phase.Graph p`: the tree of scopes in a phase, and what belongs to it
* `Phase.Keeps config p q`: what stays as it is from one phase to a later one

## Main results

* `Reaches.reachable`: the states that the steps of a session lead to are phases
* `scopes_form_tree`: the tree of scopes
-/

namespace Lox.Session

open Eval

variable {config : Config}

/-! ## Phases -/

namespace Step

/-- The program that a step runs, if it runs one. -/
def program? : Step → Option (List Node)
  | run source =>
    let p := Grammar.parseSource source
    if p.diagnostics.isEmpty then some p.parse.program else none
  | interpret source => some (Grammar.parseSource source).parse.program
  | command _ => none

/-- What a step writes before it runs a program. -/
def prelude (config : Config) : Step → List Write
  | run source => parseTrace config source
  | interpret _ | command _ => []

/-- What is run is well-formed. -/
theorem allStatements_program {s : Step} {ss : List Node} (h : s.program? = some ss) :
    Node.AllStatements (fun _ => True) ss := by
  cases s with
  | run source =>
    obtain ⟨-, hss⟩ := Option.ite_none_right_eq_some.mp h
    obtain rfl := Option.some.inj hss
    exact Grammar.allStatements_parse fun _ _ => trivial
  | interpret source =>
    obtain rfl := Option.some.inj h
    exact Grammar.allStatements_parse fun _ _ => trivial
  | command line => cases h

/-- A step that runs a program does nothing else but to write. -/
theorem perform_of_program {s : Step} {ss : List Node} (h : s.program? = some ss) (b : Budget)
    (m : Machine) :
    s.perform b config m = Lox.interpret b ss config (wrote m (s.prelude config)) := by
  cases s with
  | run source =>
    obtain ⟨hd, hss⟩ := Option.ite_none_right_eq_some.mp h
    obtain rfl := Option.some.inj hss
    rw [perform, bind_apply, run_apply (List.isEmpty_iff.mp hd), bind_apply, prelude]
    cases Lox.interpret b _ config (wrote m (parseTrace config source)) <;> rfl
  | interpret source =>
    obtain rfl := Option.some.inj h
    rw [perform, bind_apply, interpretAnyway, bind_apply]
    show _ = Lox.interpret b _ config m
    cases Lox.interpret b _ config m <;> rfl
  | command line => cases h

/-- A step that runs no program does nothing but to write. -/
theorem perform_of_no_program (config : Config) {s : Step} (h : s.program? = none) (b : Budget)
    {m : Machine} (hm : m.store.Formed) :
    ∃ r ws, s.perform b config m = .done r (wrote m ws) := by
  cases s with
  | run source =>
    have hd : (Grammar.parseSource source).diagnostics ≠ [] := by
      intro hnil
      simp [program?, hnil] at h
    obtain ⟨ws, hw⟩ := run_apply_of_ne_nil b config m hd
    exact ⟨none, ws, by rw [perform, bind_apply, hw]; rfl⟩
  | interpret source => cases h
  | command line =>
    obtain ⟨a, ws, hw⟩ := writesOnly_command hm.sound line config m rfl
    exact ⟨none, ws, by rw [perform, bind_apply, hw]; rfl⟩

end Step

/-- Where a session is: between two steps, or in the middle of the run of a program. -/
inductive Phase where
  | idle (m : Machine)
  | running (σ : Moment)

/-- The state that a run leaves, if it is at its end. A runtime error is reported. -/
def ending? (σ : Moment) : Option Machine :=
  match σ.task, σ.frames with
  | .completed _, [] => some σ.machine
  | .failed (.runtime error), [] =>
    some { σ.machine with log := .runtimeError error :: σ.machine.log }
  | .failed _, [] => some σ.machine
  | _, _ => none

namespace Phase

variable {p q : Phase}

/-- What comes next in a session. -/
inductive Next (config : Config) : Phase → Phase → Prop
  /-- a program is run, in which so many calls may be nested in each other -/
  | start {m : Machine} {s : Step} {ss : List Node} (calls : Nat) : s.program? = some ss →
      Next config (idle m) (running ⟨.program ss, [], calls, wrote m (s.prelude config)⟩)
  /-- a step is done that runs no program -/
  | skip {m m' : Machine} {s : Step} {b : Budget} {error : Option RuntimeError} :
      s.program? = none → s.perform b config m = .done error m' →
      Next config (idle m) (idle m')
  | advance {σ τ : Moment} : σ.next? config = some τ → Next config (running σ) (running τ)
  | finish {σ : Moment} {m : Machine} : ending? σ = some m → Next config (running σ) (idle m)

/-- The first phase leads to the second one. -/
def Leads (config : Config) : Phase → Phase → Prop :=
  Relation.ReflTransGen (Next config)

/-- The session can be in this phase. -/
def Reachable (config : Config) (p : Phase) : Prop :=
  Leads config (idle .initial) p

/-- The state. -/
def machine : Phase → Machine
  | idle m => m
  | running σ => σ.machine

/-- The store. -/
def store (p : Phase) : Store :=
  p.machine.store

/-- The value is bound to a name in some scope, or it is an argument or a result of something that
has not ended yet. -/
def Holds : Phase → Value → Prop
  | idle m, v => m.store.Binds v
  | running σ, v => σ.Holds v

/-! ## What the steps lead to -/

theorem Leads.of_moments {σ τ : Moment} (h : σ.Leads config τ) :
    (running σ).Leads config (running τ) := by
  induction h with
  | refl => exact .refl
  | tail _ hnext ih => exact .tail ih (.advance hnext)

/-- A program leads to where its run ends. -/
theorem leads_interpret (config : Config) (b : Budget) (ss : List Node) (m : Machine) :
    match interpret b ss config m with
    | .done _ m' | .failed _ m' =>
      (running ⟨.program ss, [], b.calls, m⟩).Leads config (idle m')
    | .unfinished => True := by
  have h := follows_executeProgram b ss config [] m
  unfold interpret reportRuntimeError
  cases hr : executeProgram b ss config m with
  | done a m' =>
    simp only [hr] at h ⊢
    exact .tail (Leads.of_moments h) (.finish rfl)
  | failed f m' =>
    simp only [hr] at h ⊢
    cases f with
    | runtime error => exact .tail (Leads.of_moments h) (.finish rfl)
    | fault | tooDeep => exact .tail (Leads.of_moments h) (.finish rfl)
  | unfinished => trivial

theorem leads_perform (config : Config) (s : Step) {m : Machine} (b : Budget)
    (hm : m.store.Formed) :
    match s.perform b config m with
    | .done _ m' | .failed _ m' => (idle m).Leads config (idle m')
    | .unfinished => True := by
  cases hs : s.program? with
  | some ss =>
    have h := leads_interpret config b ss (wrote m (s.prelude config))
    have hstart : Next config (idle m) _ := .start b.calls hs
    rw [Step.perform_of_program hs]
    cases hr : interpret b ss config (wrote m (s.prelude config)) <;> simp only [hr] at h ⊢
    · exact .head hstart h
    · exact .head hstart h
  | none =>
    obtain ⟨r, ws, hw⟩ := Step.perform_of_no_program config hs b hm
    rw [hw]
    exact .single (.skip hs hw)

/-! ## What is kept -/

/-- The state is well-formed and, in the middle of a run, so is all that is to be done. -/
def Formed : Phase → Prop
  | idle m => m.Formed
  | running σ => σ.Formed

theorem Formed.machine (hp : p.Formed) : p.machine.Formed := by
  cases p with
  | idle m => exact hp
  | running σ => exact Moment.Formed.machine hp

theorem Formed.isDeclared (hp : p.Formed) {v : Value} (h : p.Holds v) : v.IsDeclared p.store := by
  cases p with
  | idle m => exact (Machine.Formed.store hp).isDeclared h
  | running σ => exact Moment.Formed.isDeclared hp h

theorem Formed.next (hp : p.Formed) (h : p.Next config q) :
    q.Formed ∧ p.store.Continues q.store := by
  cases h with
  | @start m s ss calls hs =>
    have hm : (wrote m (s.prelude config)).Formed := ⟨hp.machine.store, hp.machine.current⟩
    exact ⟨⟨hm, .of_code (Step.allStatements_program hs) rfl rfl, by simp⟩, .refl _⟩
  | @skip m m' s b error hs hr =>
    obtain ⟨r, ws, hw⟩ := Step.perform_of_no_program config hs b hp.machine.store
    cases hw.symm.trans hr
    exact ⟨⟨hp.machine.store, hp.machine.current⟩, .refl _⟩
  | advance hnext =>
    have hadv := Moment.Formed.next hp hnext
    exact ⟨hadv.formed, hadv.continues⟩
  | @finish σ m hend =>
    have hm : σ.machine.Formed := hp.machine
    unfold ending? at hend
    split at hend
    · cases hend
      exact ⟨hm, .refl _⟩
    · cases hend
      exact ⟨⟨hm.store, hm.current⟩, .refl _⟩
    · cases hend
      exact ⟨hm, .refl _⟩
    · cases hend

theorem Formed.leads (hp : p.Formed) (h : p.Leads config q) :
    q.Formed ∧ p.store.Continues q.store := by
  induction h with
  | refl => exact ⟨hp, .refl _⟩
  | tail _ hnext ih =>
    obtain ⟨hq, hc⟩ := ih
    obtain ⟨hr, hc'⟩ := hq.next hnext
    exact ⟨hr, hc.trans hc'⟩

theorem Reachable.formed (hp : Reachable config p) : p.Formed :=
  (Formed.leads (p := idle .initial) Machine.formed_initial hp).1

end Phase

/-- The states that the steps of a session lead to are phases. -/
theorem Reaches.reachable {steps : List Step} {m : Machine} (h : Reaches config steps m) :
    Phase.Reachable config (.idle m) := by
  -- by induction on the steps: each one leads from phase to phase
  induction h with
  | start => exact .refl
  | @done _ _ _ b s _ _ hr ih =>
    have h := Phase.leads_perform config s b ih.formed.machine.store
    simp only [Phase.machine, hr] at h
    exact ih.trans h
  | @failed _ _ _ b s _ _ hr ih =>
    have h := Phase.leads_perform config s b ih.formed.machine.store
    simp only [Phase.machine, hr] at h
    exact ih.trans h

/-! ## The tree of scopes -/

namespace Phase

variable {p q : Phase}

/-- The scopes and the functions in a phase. -/
structure Graph (p : Phase) : Prop where
  /-- The global scope lies in no other one. -/
  root : globalScope < p.store.scopes.size ∧ p.store.enclosing? globalScope = none
  /-- Each other scope lies in one that was made before it. -/
  links : ∀ i < p.store.scopes.size, i ≠ globalScope → ∃ j < i, p.store.enclosing? i = some j
  /-- The current scope exists, and from it the links lead to the global one. -/
  current : p.machine.current < p.store.scopes.size ∧ p.store.Rooted p.machine.current
  /-- So it is with the scope of each function that is bound, an argument, or the result of
  something that has not ended yet. -/
  closures : ∀ f, p.Holds (.function f) →
    ∃ c, p.store.closures[f.id]? = some c ∧ c.ref f.id = f ∧
      c.scope < p.store.scopes.size ∧ p.store.Rooted c.scope
  /-- From each scope, a walk in search of a name ends, and what is read, changed or found is what
  the walk ends at. -/
  walks : ∀ i < p.store.scopes.size, ∀ name, ∃ r, p.store.Finds name i r ∧
    p.store.get? i name = r.bind (fun j => (p.store.bindings j).lookup name) ∧
    (∀ v, p.store.assign? i name v = r.map fun j => p.store.define j name v) ∧
    p.store.contains i name = r.isSome

/-- What does not change from one phase to a later one. -/
structure Keeps (config : Config) (p q : Phase) : Prop where
  /-- A scope lies where it lay when it was made. -/
  links : ∀ i < p.store.scopes.size, q.store.enclosing? i = p.store.enclosing? i
  /-- No name is unbound. -/
  names : ∀ i, p.store.names i <+: q.store.names i
  /-- Functions that are equal have one declaration and one scope. -/
  identity : ∀ f g, p.Holds (.function f) → q.Holds (.function g) →
    (Value.function f).isEqual (.function g) = true →
    f = g ∧ q.store.closures[g.id]? = p.store.closures[f.id]?
  /-- A function that a declaration makes is equal to nothing that there was before. -/
  fresh : ∀ σ τ name params body, q = running σ → σ.task = .declare name params body →
    σ.next? config = some τ →
    ∃ f, τ.task = .value (.function f) ∧
      τ.machine.store.closures[f.id]? = some ⟨name, params, body, σ.machine.current⟩ ∧
      ∀ v, p.Holds v → (Value.function f).isEqual v = false

theorem Formed.graph (hp : p.Formed) : p.Graph where
  root := ⟨hp.machine.store.tree.lt_size, hp.machine.store.tree.enclosing?_global⟩
  links i hi hne := by
    obtain ⟨j, hj, hl, -⟩ := hp.machine.store.tree.enclosing?_of_ne hi hne
    exact ⟨j, hj, hl⟩
  current := ⟨hp.machine.current, hp.machine.store.tree.rooted hp.machine.current⟩
  closures f hf := by
    obtain ⟨c, hc, href⟩ := hp.isDeclared hf
    have hscope := hp.machine.store.scopes f.id c hc
    exact ⟨c, hc, href, hscope, hp.machine.store.tree.rooted hscope⟩
  walks i _ name :=
    ⟨p.store.owner? i name, hp.machine.store.tree.isForest.finds name i, rfl, fun _ => rfl, rfl⟩

theorem Formed.keeps (hp : p.Formed) (hq : q.Formed) (hc : p.store.Continues q.store) :
    p.Keeps config q where
  links i hi := hc.enclosing? hi
  names := hc.names
  identity f g hf hg heq := by
    obtain ⟨c, hcf, hf⟩ := hp.isDeclared hf
    obtain ⟨d, hdg, hg⟩ := hq.isDeclared hg
    have hid : f.id = g.id := by simpa [Value.isEqual] using heq
    have hlater := hc.closure hcf
    obtain rfl : c = d := by
      rw [hid, hdg] at hlater
      exact (Option.some.inj hlater).symm
    rw [← hid] at hg
    exact ⟨hf.symm.trans hg, by rw [← hid, hlater, hcf]⟩
  fresh σ τ name params body hrun ht hnext := by
    subst hrun
    obtain ⟨f, hval, hid, hf⟩ := Moment.next?_declare ht hnext
    refine ⟨f, hval, hf, fun v hv => ?_⟩
    have hdeclared := hp.isDeclared hv
    cases v with
    | function g =>
      have hg : g.id < p.store.closures.size := hdeclared.isLox
      have hle : p.store.closures.size ≤ f.id := by
        rw [hid]
        exact hc.closures.length_le
      simp only [Value.isEqual, beq_eq_false_iff_ne]
      exact Nat.ne_of_gt (Nat.lt_of_lt_of_le hg hle)
    | _ => rfl

end Phase

/-- **The tree of scopes.** The states that the steps of a session lead to, however each of them
ended, are phases that can be reached, and so is each moment in the middle of a run. In each phase
that can be reached the scopes form a tree, and the current scope and the functions belong to it;
and whatever phase it leads to keeps the tree, the names and the functions. -/
theorem scopes_form_tree (config : Config) :
    (∀ steps m, Reaches config steps m → Phase.Reachable config (.idle m)) ∧
      ∀ p, Phase.Reachable config p → p.Graph ∧ ∀ q, p.Leads config q → p.Keeps config q := by
  refine ⟨fun steps m h => h.reachable, fun p hp => ⟨hp.formed.graph, fun q hq => ?_⟩⟩
  obtain ⟨hformed, hc⟩ := hp.formed.leads hq
  exact hp.formed.keeps hformed hc

/-- The moment after so many steps, if the run goes on so long. -/
def after (config : Config) : Nat → Moment → Option Moment
  | 0, σ => some σ
  | n + 1, σ => (σ.next? config).bind (after config n)

theorem moment_leads_of_after {n : Nat} {σ τ : Moment} (h : after config n σ = some τ) :
    σ.Leads config τ := by
  induction n generalizing σ with
  | zero =>
    cases h
    exact .refl _
  | succ n ih =>
    obtain ⟨υ, hnext, h⟩ := Option.bind_eq_some_iff.mp h
    exact .head hnext (ih h)

theorem leads_of_after {n : Nat} {σ τ : Moment} (h : after config n σ = some τ) :
    (Phase.running σ).Leads config (.running τ) :=
  .of_moments (moment_leads_of_after h)

/-- A function is declared in a call of another one, which was given itself as its argument. -/
theorem scopes_form_tree_nested_declaration :
    ∃ σ τ υ : Moment, Phase.Reachable ⟨false, fun _ => 0⟩ (.running σ) ∧
      (Phase.running σ).Graph ∧ σ.pending.length = 2 ∧
      (Phase.running σ).Leads ⟨false, fun _ => 0⟩ (.running τ) ∧
      τ.next? ⟨false, fun _ => 0⟩ = some υ ∧ τ.machine.current = 1 ∧
      ∃ f, υ.task = .value (.function f) ∧
        ∀ v, σ.Holds v → (Value.function f).isEqual v = false := by
  let s : Step := .run "func f(g) { func h() { return g; } return h; } f(f);"
  let σ₀ : Moment := ⟨.program (s.program?.getD []), [], 5,
    wrote .initial (s.prelude ⟨false, fun _ => 0⟩)⟩
  have hs : s.program?.isSome = true := by decide +kernel
  have hrun : ((after ⟨false, fun _ => 0⟩ 16 σ₀).bind fun σ =>
      (after ⟨false, fun _ => 0⟩ 6 σ).bind fun τ => (τ.next? ⟨false, fun _ => 0⟩).map fun _ =>
        (σ.pending.length, τ.machine.current, τ.task matches .declare ..)) =
      some (2, 1, true) := by
    decide +kernel
  obtain ⟨σ, hσ, hrun⟩ := Option.bind_eq_some_iff.mp hrun
  obtain ⟨τ, hτ, hrun⟩ := Option.bind_eq_some_iff.mp hrun
  obtain ⟨υ, hυ, hrun⟩ := Option.map_eq_some_iff.mp hrun
  obtain ⟨hpending, hcurrent, hdeclare⟩ : σ.pending.length = 2 ∧ τ.machine.current = 1 ∧
      (τ.task matches .declare ..) = true := by simpa using hrun
  have hstart : Phase.Next ⟨false, fun _ => 0⟩ (.idle .initial) (.running σ₀) :=
    .start 5 (Option.eq_some_iff_get_eq.mpr ⟨hs, Option.get_eq_getD _⟩)
  have hreach : Phase.Reachable ⟨false, fun _ => 0⟩ (.running σ) := .head hstart (leads_of_after hσ)
  obtain ⟨hgraph, hkeeps⟩ := (scopes_form_tree ⟨false, fun _ => 0⟩).2 _ hreach
  have hleads := leads_of_after hτ
  refine ⟨σ, τ, υ, hreach, hgraph, hpending, hleads, hυ, hcurrent, ?_⟩
  split at hdeclare
  · rename_i name params body ht
    obtain ⟨f, hf, -, hfresh⟩ := (hkeeps _ hleads).fresh τ υ name params body rfl ht hυ
    exact ⟨f, hf, hfresh⟩
  · cases hdeclare

end Lox.Session
