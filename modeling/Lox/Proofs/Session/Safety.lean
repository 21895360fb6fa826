import Lox.Proofs.Evaluation.Safety
import Lox.Proofs.Session.Steps

/-!
# Internal errors are unreachable

Whatever sources a session is given, and whatever commands: no step of it meets a fault. The trees
that are run come from a parser, be it one that has dropped what it could not read, so they are
well-formed; and the functions that one step declares are still as they were when a later step calls
them.

## Main definitions

* `Step.InSources steps t`: the token `t` was scanned from a source of the session
* `Machine.BindsValues m`: all names are bound to values of the language

## Main results

* `Reaches.sound`: the store of a session is sound
* `internal_errors_unreachable`: how the steps of a session end
-/

namespace Lox

/-- In every scope, all names are bound to values of the language: to nil, a boolean, a number, a
string, a function of the host, or a function that was declared. -/
def Machine.BindsValues (m : Machine) : Prop :=
  ∀ i, ∀ b ∈ m.store.bindings i, b.2.IsLox m.store.closures.size

namespace Session

open Eval

/-- The token was scanned from a source that one of the steps gave to the session. -/
def Step.InSources (steps : List Step) (t : Token) : Prop :=
  ∃ s ∈ steps, t ∈ s.tokens

theorem Step.InSources.append {steps : List Step} {s : Step} {t : Token}
    (h : InSources steps t) : InSources (steps ++ [s]) t := by
  obtain ⟨s', hs, ht⟩ := h
  exact ⟨s', List.mem_append_left _ hs, ht⟩

theorem Step.inSources_last {steps : List Step} {s : Step} {t : Token} (h : t ∈ s.tokens) :
    InSources (steps ++ [s]) t :=
  ⟨s, by simp, h⟩

variable {P : Token → Prop} {config : Config} {m m' : Machine}

/-- The first state binds the clock only. -/
theorem sound_initial : Machine.initial.store.Sound P := by
  have hempty : Store.empty.Sound P := ⟨fun i b hb => by simp [Store.bindings, Store.empty] at hb,
    fun i c hc => by simp [Store.empty] at hc⟩
  exact (hempty.newScope none).define trivial

/-- A program has no runtime error that it does not report. -/
theorem interpret_ne_runtime {b : Budget} {ss : List Node} {error : RuntimeError} :
    interpret b ss config m ≠ .failed (.runtime error) m' := by
  intro h
  unfold interpret reportRuntimeError at h
  split at h <;> simp_all

/-- How a program ends if its trees are well-formed. -/
theorem interpret_ends (b : Budget) (config : Config) {ss : List Node} (hs : m.store.Sound P)
    (hss : Node.AllStatements P ss) :
    match interpret b ss config m with
    | .done error m' => m'.store.Sound P ∧ ∀ e ∈ error, P e.token
    | .failed f m' => m'.store.Sound P ∧ f = .tooDeep
    | .unfinished => True := by
  have h := safe_interpret b hss config m hs (Nat.zero_le _)
  cases hr : interpret b ss config m with
  | done error m' =>
    simp only [hr] at h
    exact ⟨h.1, h.2.2⟩
  | failed f m' =>
    simp only [hr] at h
    refine ⟨h.1, ?_⟩
    cases f with
    | runtime error => exact absurd hr interpret_ne_runtime
    | fault fault => exact h.2.2.elim
    | tooDeep => rfl
  | unfinished => trivial

/-- How a step ends whose source has such tokens. -/
theorem perform_ends (b : Budget) (config : Config) {s : Step} (hs : m.store.Sound P)
    (hP : ∀ t ∈ s.tokens, P t) :
    match s.perform b config m with
    | .done error m' => m'.store.Sound P ∧ ∀ e ∈ error, P e.token
    | .failed f m' => m'.store.Sound P ∧ f = .tooDeep
    | .unfinished => True := by
  cases s with
  | run source =>
    have hss : Node.AllStatements P (Grammar.parseSource source).parse.program :=
      Grammar.allStatements_parse hP
    rw [Step.perform, bind_apply]
    by_cases hd : (Grammar.parseSource source).diagnostics = []
    · have hs' : (wrote m (parseTrace config source)).store.Sound P := hs
      have h := interpret_ends b config hs' hss
      rw [run_apply hd, bind_apply]
      cases hr : interpret b (Grammar.parseSource source).parse.program config
          (wrote m (parseTrace config source)) <;> simp only [hr] at h ⊢
      · exact h
      · exact h
    · obtain ⟨ws, hw⟩ := run_apply_of_ne_nil b config m hd
      rw [hw]
      exact ⟨hs, by simp⟩
  | interpret source =>
    have hss : Node.AllStatements P (Grammar.parseSource source).parse.program :=
      Grammar.allStatements_parse hP
    have h := interpret_ends b config hs hss
    rw [Step.perform, bind_apply, interpretAnyway, bind_apply]
    cases hr : Lox.interpret b (Grammar.parseSource source).parse.program config m <;>
      simp only [hr] at h ⊢
    · exact h
    · exact h
  | command line =>
    generalize hr : (Step.command line).perform b config m = r
    obtain ⟨a, ws, h⟩ := writesOnly_command hs line config m rfl
    rw [Step.perform, bind_apply, h] at hr
    subst hr
    exact ⟨hs, by simp⟩

/-- How a step ends after others. -/
theorem perform_ends_after {steps : List Step} (hs : m.store.Sound (Step.InSources steps))
    (b : Budget) (config : Config) (s : Step) :
    match s.perform b config m with
    | .done error m' => m'.store.Sound (Step.InSources (steps ++ [s])) ∧
        ∀ e ∈ error, Step.InSources (steps ++ [s]) e.token
    | .failed f m' => m'.store.Sound (Step.InSources (steps ++ [s])) ∧ f = .tooDeep
    | .unfinished => True :=
  perform_ends b config (hs.mono fun _ => Step.InSources.append) fun _ => Step.inSources_last

/-- The store of a session is sound, and the functions in it come from its sources. -/
theorem Reaches.sound {steps : List Step} (h : Reaches config steps m) :
    m.store.Sound (Step.InSources steps) := by
  -- by induction on the steps: one that fails leaves a sound store as well
  induction h with
  | start => exact sound_initial
  | @done _ _ _ b s _ _ hr ih =>
    have h := perform_ends_after ih b config s
    simp only [hr] at h
    exact h.1
  | @failed _ _ _ b s _ _ hr ih =>
    have h := perform_ends_after ih b config s
    simp only [hr] at h
    exact h.1

/-- **Internal errors are unreachable.** Whatever was done with a session before, a step ends well
or because too many calls are nested in each other. The runtime error that it has, if any, is at a
token of one of the sources so far. All names are bound to values of the language then. -/
theorem internal_errors_unreachable {steps : List Step} (h : Reaches config steps m) (b : Budget)
    (s : Step) :
    match s.perform b config m with
    | .done error m' => (∀ e ∈ error, Step.InSources (steps ++ [s]) e.token) ∧ m'.BindsValues
    | .failed f m' => f = .tooDeep ∧ m'.BindsValues
    | .unfinished => True := by
  have hp := perform_ends_after h.sound b config s
  cases hr : s.perform b config m <;> simp only [hr] at hp ⊢
  · exact ⟨hp.2, hp.1.values⟩
  · exact ⟨hp.2, hp.1.values⟩

/-- A function of an earlier source fails in a later one. -/
theorem internal_errors_unreachable_declaration_call :
    ∃ m e m', Reaches ⟨false, fun _ => 0⟩ [.run "func f() { return g; }"] m ∧
      (Step.run "f();").perform ⟨30, 5⟩ ⟨false, fun _ => 0⟩ m = .done (some e) m' ∧
      Step.InSources [.run "func f() { return g; }", .run "f();"] e.token ∧ m'.BindsValues := by
  have hrun : ((do
        let _ ← (Step.run "func f() { return g; }").perform ⟨30, 5⟩
        (Step.run "f();").perform ⟨30, 5⟩ : Eval (Option RuntimeError)) ⟨false, fun _ => 0⟩
          .initial).result?.map Option.isSome = some true := by
    decide +kernel
  obtain ⟨o, ho, hsome⟩ := Option.map_eq_some_iff.mp hrun
  obtain ⟨e, rfl⟩ := Option.isSome_iff_exists.mp hsome
  obtain ⟨m', hdone⟩ := Outcome.result?_eq_some_iff.mp ho
  obtain ⟨_, m, hfirst, hsecond⟩ := bind_eq_done_iff.mp hdone
  have hm : Reaches ⟨false, fun _ => 0⟩ [.run "func f() { return g; }"] m := .done .start hfirst
  have h := internal_errors_unreachable hm ⟨30, 5⟩ (.run "f();")
  rw [hsecond] at h
  exact ⟨m, e, m', hm, hsecond, h.1 e rfl, h.2⟩

end Session

end Lox
