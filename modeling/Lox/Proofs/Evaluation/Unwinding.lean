import Lox.Proofs.Evaluation.Transition

/-!
# What is left of a run that fails

A failure passes all the frames that wait, and those of the scopes that were entered make the scopes
current again that were left for them. So at each moment it is known to which scope the run comes
back in the end: what the frames make of the current one. No step changes it, and none takes back
what was written.

This is not only about the failures that the rules have. A run can be stopped at any moment, as it
is when the host has no memory left for the frames, and it still comes back to the scope in which it
has begun.

## Main definitions

* `Moment.home σ`: the scope that is current when nothing waits any more

## Main results

* `Moment.Transition.home`, `Moment.Leads.home`: what steps and runs keep
* `Moment.leads_home`: where a failure leads to, at whatever moment it comes
-/

namespace Lox

open Eval

namespace Moment

variable {config : Config} {σ τ : Moment}

/-- The scope that is current when nothing waits any more. -/
def home (σ : Moment) : ScopeId :=
  σ.frames.foldl Frame.scopeBehind σ.machine.current

/-- The frames of a scope do not leave it. -/
theorem foldl_scopeBehind {fs : List Frame} (h : ∀ f ∈ fs, IsPlain f) (frames : List Frame)
    (i : ScopeId) :
    (fs ++ frames).foldl Frame.scopeBehind i = frames.foldl Frame.scopeBehind i := by
  induction fs with
  | nil => rfl
  | cons f fs ih =>
    rw [List.cons_append, List.foldl_cons, (h f List.mem_cons_self).scopeBehind]
    exact ih fun g hg => h g (List.mem_cons_of_mem f hg)

/-- **Step.** The scope to come back to stays the same, and so does what was written. -/
theorem Transition.home (h : Transition σ τ) :
    τ.home = σ.home ∧ σ.machine.log <:+ τ.machine.log := by
  cases h with
  | @work _ _ old new frames _ m m' _ _ hplain _ hm =>
    obtain ⟨hold, hnew⟩ := List.forall_mem_append.mp hplain
    refine ⟨?_, hm.log⟩
    calc (new ++ frames).foldl Frame.scopeBehind m'.current
        = frames.foldl Frame.scopeBehind m.current := by rw [foldl_scopeBehind hnew, hm.current]
      _ = (old ++ frames).foldl Frame.scopeBehind m.current := (foldl_scopeBehind hold _ _).symm
  | call => exact ⟨rfl, List.suffix_append _ _⟩
  | _ => exact ⟨rfl, List.suffix_refl _⟩

/-- **Run.** So it is after any number of steps. -/
theorem Leads.home (h : Leads config σ τ) :
    τ.home = σ.home ∧ σ.machine.log <:+ τ.machine.log := by
  induction h with
  | refl => exact ⟨rfl, List.suffix_refl _⟩
  | tail _ hstep ih =>
    obtain ⟨hhome, hlog⟩ := (transition_of_next? hstep).home
    exact ⟨hhome.trans ih.1, ih.2.trans hlog⟩

/-- A failure at any moment leads back to that scope, and leaves the rest of the state alone. -/
theorem leads_home (config : Config) (f : Failure) (frames : List Frame) (calls : Nat)
    (m : Machine) :
    ∃ calls', Leads config ⟨.failed f, frames, calls, m⟩
      ⟨.failed f, [], calls', { m with current := frames.foldl Frame.scopeBehind m.current }⟩ := by
  induction frames generalizing calls m with
  | nil => exact ⟨calls, .refl _⟩
  | cons frame frames ih =>
    cases frame with
    | leave outer =>
      obtain ⟨calls', h⟩ := ih calls { m with current := outer }
      exact ⟨calls', .head rfl h⟩
    | called n =>
      obtain ⟨calls', h⟩ := ih n m
      exact ⟨calls', .head rfl h⟩
    | _ =>
      obtain ⟨calls', h⟩ := ih calls m
      exact ⟨calls', .head rfl h⟩

end Moment

end Lox
