import Lox.Proofs.Evaluation.Unwinding
import Lox.Proofs.Session.Phases

/-!
# Every exit restores the scope

However a run ends, the scope that was current when it began is current again, and what was done
before is kept: what was written, and the names that were bound. So a step of a session that fails
takes nothing back, and the next step finds the global scope.

The rules of evaluation say so of each run, whatever the state and the tree. What is kept of a
program in the middle of which a step has failed is said of the moments of its run. A run has one
end, to which each of its moments leads.

## Main definitions

* `Session.Step.Passes config b s m σ`: the moment `σ` belongs to the program that the step `s` runs

## Main results

* `Moment.Leads.of_end`: each moment of a run leads to its end
* `Session.Phase.Reachable.home`: in the middle of a program, too, the global scope is the one that
  a session comes back to
* `Session.Step.perform_keeps`: what a step keeps of each moment of its run
* `Session.exits_restore_scope`: every exit restores the scope and keeps what was done
-/

namespace Lox

open Eval

/-- Each moment of a run leads to its end. -/
theorem Moment.Leads.of_end {config : Config} {σ τ υ : Moment} (h : Leads config σ τ)
    (h' : Leads config σ υ) (hend : υ.next? config = none) : Leads config τ υ := by
  have hunique : Relator.RightUnique fun σ τ : Moment => σ.next? config = some τ :=
    fun _ _ _ h h' => Option.some.inj (h.symm.trans h')
  rcases Relation.ReflTransGen.total_of_right_unique hunique h h' with h | h
  · exact h
  · rcases Relation.ReflTransGen.cases_head h with rfl | ⟨_, hstep, _⟩
    · exact .refl _
    · rw [hend] at hstep
      cases hstep

/-- In the state in which the run ends, the scope is current in which it began, and what was written
before is kept. -/
theorem Eval.Keeps.restores {α : Type} {x : Eval α} {gained : List String} (h : Keeps 0 gained x)
    (config : Config) (m : Machine) :
    (x config m).After fun m' => m'.current = m.current ∧ m.Precedes m' := by
  have hx := h config m (Nat.zero_le _)
  cases hr : x config m <;> simp only [hr] at hx
  · exact ⟨hx.1.current, Machine.precedes_of_suffix hx.1.log⟩
  · exact ⟨hx.current, Machine.precedes_of_suffix hx.log⟩
  · trivial

namespace Session

variable {config : Config} {m m' : Machine} {s : Step} {b : Budget} {σ : Moment}

/-! ## Endings -/

/-- Nothing comes after the end of a run. The error that is reported there comes behind what was
written before. -/
theorem ending?_eq_some (config : Config) (h : ending? σ = some m) :
    σ.next? config = none ∧ m.store = σ.machine.store ∧ m.current = σ.home ∧
      σ.machine.log <:+ m.log := by
  obtain ⟨t, frames, calls, n⟩ := σ
  cases t with
  | completed r =>
    cases frames <;> cases h
    exact ⟨rfl, rfl, rfl, List.suffix_refl _⟩
  | failed f =>
    cases f with
    | runtime error =>
      cases frames <;> cases h
      exact ⟨rfl, rfl, rfl, List.suffix_cons _ _⟩
    | fault | tooDeep =>
      cases frames <;> cases h
      exact ⟨rfl, rfl, rfl, List.suffix_refl _⟩
  | _ => cases h

/-- The run of a program ends where its steps lead. -/
theorem interpret_ends_at (config : Config) (b : Budget) (ss : List Node) (m : Machine) :
    (interpret b ss config m).After fun m' =>
      ∃ υ, Moment.Leads config ⟨.program ss, [], b.calls, m⟩ υ ∧ ending? υ = some m' := by
  have h := follows_executeProgram b ss config [] m
  unfold interpret reportRuntimeError
  cases hr : executeProgram b ss config m with
  | done a m' =>
    simp only [hr] at h ⊢
    exact ⟨_, h, rfl⟩
  | failed f m' =>
    simp only [hr] at h ⊢
    cases f with
    | runtime error => exact ⟨_, h, rfl⟩
    | fault | tooDeep => exact ⟨_, h, rfl⟩
  | unfinished => trivial

/-! ## Phases -/

namespace Phase

variable {p q : Phase}

/-- The scope that is current when the step is done, if there is one. -/
def home : Phase → ScopeId
  | idle m => m.current
  | running σ => σ.home

theorem Next.home (hp : p.Formed) (h : p.Next config q) : q.home = p.home := by
  cases h with
  | start => rfl
  | skip hs hr =>
    obtain ⟨r, ws, hw⟩ := Step.perform_of_no_program config hs _ hp.machine.store
    cases hw.symm.trans hr
    rfl
  | advance hstep => exact (Moment.transition_of_next? hstep).home.1
  | finish hend => exact (ending?_eq_some config hend).2.2.1

/-- In each phase, the session comes back to the global scope. -/
theorem Reachable.home (hp : Reachable config p) : p.home = globalScope := by
  induction hp with
  | refl => rfl
  | tail hq hnext ih => exact (hnext.home (Reachable.formed hq)).trans ih

end Phase

/-- Between two steps the global scope is current. -/
theorem Reaches.current {steps : List Step} (h : Reaches config steps m) :
    m.current = globalScope :=
  h.reachable.home

/-! ## Steps of a session -/

namespace Step

/-- The moment belongs to the run of the program that the step runs. -/
def Passes (config : Config) (b : Budget) (s : Step) (m : Machine) (σ : Moment) : Prop :=
  ∃ ss, s.program? = some ss ∧
    Moment.Leads config ⟨.program ss, [], b.calls, wrote m (s.prelude config)⟩ σ

/-- The moment at which the step begins to run its program. -/
def entry (config : Config) (b : Budget) (s : Step) (m : Machine) : Moment :=
  ⟨.program (s.program?.getD []), [], b.calls, wrote m (s.prelude config)⟩

theorem program?_eq_getD (hs : s.program?.isSome) : s.program? = some (s.program?.getD []) :=
  Option.eq_some_iff_get_eq.mpr ⟨hs, Option.get_eq_getD _⟩

theorem passes_of_entry (hs : s.program?.isSome) (h : (s.entry config b m).Leads config σ) :
    s.Passes config b m σ :=
  ⟨_, program?_eq_getD hs, h⟩

theorem reachable_entry (config : Config) (b : Budget) (hs : s.program?.isSome) :
    Phase.Reachable config (.running (s.entry config b .initial)) :=
  .single (.start b.calls (program?_eq_getD hs))

/-- What was written at a moment of the run, the names that were bound then, and the name that was
bound next are kept, however the run ends. -/
theorem perform_keeps (hm : m.Formed) (h : s.Passes config b m σ) :
    (s.perform b config m).After fun m' => σ.machine.Precedes m' ∧
      (∀ i, σ.machine.store.names i <+: m'.store.names i) ∧
      ∀ name, σ.declares? = some name → name ∈ m'.store.names σ.machine.current := by
  obtain ⟨ss, hs, hσ⟩ := h
  have hstart : (Phase.running ⟨.program ss, [], b.calls, wrote m (s.prelude config)⟩).Formed :=
    (Phase.Formed.next (p := .idle m) hm (.start b.calls hs)).1
  have hformed : σ.Formed := (Moment.Formed.leads hstart hσ).formed
  rw [perform_of_program hs]
  refine (interpret_ends_at config b ss _).mono fun m' ⟨υ, hυ, hend⟩ => ?_
  obtain ⟨hnone, hstore, -, hlog⟩ := ending?_eq_some config hend
  have hends := hσ.of_end hυ hnone
  refine ⟨Machine.precedes_of_suffix (hends.home.2.trans hlog), fun i => ?_, fun name hname => ?_⟩
  · rw [hstore]
    exact (hformed.leads hends).continues.names i
  · obtain ⟨τ, hstep, hbound⟩ := Moment.next?_of_declares? config hname hformed.machine.current
    have hτ : Moment.Leads config τ υ := (hσ.trans (.of_next? hstep)).of_end hυ hnone
    rw [hstore]
    exact ((hformed.next hstep).formed.leads hτ).continues.names _ |>.subset hbound

end Step

/-- **Every exit restores the scope.** However an expression or a statement ends, the scope is then
current that was current when it began, and what was written before is kept. So it is if it is
stopped by a failure of whatever kind, at any moment of its run: the steps from there lead back to
the scope, and change nothing else. After each step of a session, failed or not, the global scope is
current; and of each moment in the run of a step, what was written is kept, and so are the names
that were bound, with the one that a declaration has bound at that moment. -/
theorem exits_restore_scope (config : Config) :
    (∀ fuel calls e m, (evaluate fuel calls e config m).After fun m' =>
      m'.current = m.current ∧ m.Precedes m') ∧
    (∀ fuel calls s m, (execute fuel calls s config m).After fun m' =>
      m'.current = m.current ∧ m.Precedes m') ∧
    (∀ t calls m σ f, Moment.Leads config ⟨t, [], calls, m⟩ σ →
      m.Precedes σ.machine ∧ ∃ calls', Moment.Leads config (σ.go (.failed f))
        ⟨.failed f, [], calls', { σ.machine with current := m.current }⟩) ∧
    ∀ steps m, Reaches config steps m → m.current = globalScope ∧
      ∀ b (s : Step) σ, s.Passes config b m σ → (s.perform b config m).After fun m' =>
        σ.machine.Precedes m' ∧ (∀ i, σ.machine.store.names i <+: m'.store.names i) ∧
        ∀ name, σ.declares? = some name → name ∈ m'.store.names σ.machine.current := by
  refine ⟨fun fuel calls e m => ?_, fun fuel calls s m => ?_, fun t calls m σ f h => ?_,
    fun steps m h => ⟨h.current, fun b s σ hσ => Step.perform_keeps h.reachable.formed hσ⟩⟩
  · have hkeeps : Keeps 0 [] (evaluate fuel calls e) := (framed 0 fuel).evaluate calls e
    exact hkeeps.restores config m
  · exact ((framed 0 fuel).execute calls s (List.Subset.refl _)).restores config m
  · obtain ⟨hhome, hlog⟩ := h.home
    obtain ⟨calls', hback⟩ := Moment.leads_home config f σ.frames σ.calls σ.machine
    refine ⟨Machine.precedes_of_suffix hlog, calls', ?_⟩
    have hcurrent : σ.frames.foldl Frame.scopeBehind σ.machine.current = m.current := hhome
    rwa [hcurrent] at hback

/-- A global is declared, and then there is an error in a block in a call of a function. -/
theorem exits_restore_scope_error_in_call :
    let config : Config := ⟨false, fun _ => 0⟩
    let s : Step := .run "var a; func f() { { print a; b; } } f();"
    ∃ error m', s.perform ⟨40, 5⟩ config .initial = .done (some error) m' ∧
      m'.current = globalScope ∧ "a" ∈ m'.store.names globalScope := by
  intro config s
  obtain ⟨-, -, -, hsession⟩ := exits_restore_scope config
  have hs : s.program?.isSome = true := by decide +kernel
  have hrun : (s.perform ⟨40, 5⟩ config .initial).result?.map Option.isSome = some true := by
    decide +kernel
  have hdeclares : ((after config 3 (s.entry config ⟨40, 5⟩ .initial)).map fun σ =>
      (σ.machine.current, σ.declares?)) = some (globalScope, some "a") := by decide +kernel
  obtain ⟨σ, hσ, hpair⟩ := Option.map_eq_some_iff.mp hdeclares
  obtain ⟨hcurrent, hname⟩ := Prod.mk.inj hpair
  obtain ⟨result, hresult, hsome⟩ := Option.map_eq_some_iff.mp hrun
  obtain ⟨error, rfl⟩ := Option.isSome_iff_exists.mp hsome
  obtain ⟨m', hdone⟩ := Outcome.result?_eq_some_iff.mp hresult
  have hpasses := Step.passes_of_entry hs (moment_leads_of_after hσ)
  have hkept := (hsession [] .initial .start).2 ⟨40, 5⟩ s σ hpasses
  rw [hdone] at hkept
  have hlast := (hsession _ m' (.done .start hdone)).1
  exact ⟨error, m', hdone, hlast, hcurrent ▸ hkept.2.2 "a" hname⟩

end Session

end Lox
