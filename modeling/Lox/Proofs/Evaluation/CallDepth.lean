import Lox.Proofs.Evaluation.Congruence
import Lox.Proofs.Evaluation.Frame

/-!
# The limit on nested calls only bounds

The calls that may be nested in each other are counted, and a run with too many of them is stopped.
Nothing else depends on the count: no rule looks at it, and no rule goes on when a call inside it
was stopped. So with a larger limit a run is the same, unless it was stopped; and if it was, then
everything that it had written is written with the larger limit too, before anything else.

Two runs that are related in this way do not stay at the same place: when the first one has been
stopped, the second one still goes on. What is said of it from there on is only that it takes
nothing out of the log, so the relation says this of the second run in any case.

## Main definitions

* `Eval.Bounded x y`: the run `x` is the run `y`, or is stopped on the way of `y`

## Main results

* `relatedRules_bounded`: the rules with a smaller limit are bounded by those with a larger one
* `bounded_interpret`: so are programs
-/

namespace Lox

namespace Eval

variable {α β : Type} {gained : List String}

/-- However it ends, the run takes nothing out of the log. -/
def Appends (x : Eval α) : Prop :=
  ∀ config m, (x config m).After fun n => m.log <:+ n.log

/-- In each state the first run ends as the second one does, or it is stopped because too many calls
are nested in each other. What it has written by then is what the second run writes first. -/
structure Bounded (x y : Eval α) : Prop where
  appends : y.Appends
  ends : ∀ config m, x config m = y config m ∨
    ∃ n, x config m = .failed .tooDeep n ∧ (y config m).After fun n' => n.log <:+ n'.log

theorem Keeps.appends {x : Eval α} (h : Keeps 0 gained x) : x.Appends := by
  intro config m
  have hx := h config m (Nat.zero_le _)
  cases hr : x config m <;> simp only [hr] at hx
  · exact hx.1.log
  · exact hx.log
  · trivial

theorem Appends.bind {x : Eval α} {k : α → Eval β} (h : x.Appends) (hk : ∀ a, (k a).Appends) :
    (x >>= k).Appends := by
  intro config m
  have hx := h config m
  rw [bind_apply]
  cases hr : x config m with
  | done a n =>
    rw [hr] at hx
    exact (hk a config n).mono fun _ => hx.trans
  | failed f n => rwa [hr] at hx
  | unfinished => trivial

/-! ## Runs that are bounded -/

/-- What calls nothing is the same with every limit. -/
theorem Appends.bounded {x : Eval α} (h : x.Appends) : Bounded x x :=
  ⟨h, fun _ _ => .inl rfl⟩

theorem Keeps.bounded {x : Eval α} (h : Keeps 0 [] x) : Bounded x x :=
  h.appends.bounded

theorem bounded_pure (a : α) : Bounded (pure a) (pure a) :=
  (keeps_pure a).bounded

/-- A run that is stopped at once. -/
theorem bounded_tooDeep {y : Eval α} (h : y.Appends) : Bounded (fail .tooDeep) y :=
  ⟨h, fun config m => .inr ⟨m, rfl, h config m⟩⟩

theorem Bounded.bind {x y : Eval α} {k l : α → Eval β} (h : Bounded x y)
    (hk : ∀ a, Bounded (k a) (l a)) : Bounded (x >>= k) (y >>= l) := by
  refine ⟨h.appends.bind fun a => (hk a).appends, fun config m => ?_⟩
  rw [bind_apply, bind_apply]
  rcases h.ends config m with hx | ⟨n, hx, hy⟩
  · rw [hx]
    cases y config m with
    | done a n => exact (hk a).ends config n
    | failed f n => exact .inl rfl
    | unfinished => exact .inl rfl
  · refine .inr ⟨n, by rw [hx], ?_⟩
    cases hr : y config m with
    | done a n' =>
      rw [hr] at hy
      exact ((hk a).appends config n').mono fun _ => hy.trans
    | failed f n' => rwa [hr] at hy
    | unfinished => trivial

theorem Bounded.within {i : ScopeId} {x y : Eval α} (h : Bounded x y) :
    Bounded (within i x) (within i y) := by
  constructor
  · intro config m
    have hy := h.appends config { m with current := i }
    unfold Eval.within
    cases hr : y config { m with current := i } <;> rw [hr] at hy
    · exact hy
    · exact hy
    · trivial
  · intro config m
    unfold Eval.within
    rcases h.ends config { m with current := i } with hx | ⟨n, hx, hy⟩
    · exact .inl (by rw [hx])
    · refine .inr ⟨{ n with current := m.current }, by rw [hx], ?_⟩
      cases hr : y config { m with current := i } <;> rw [hr] at hy
      · exact hy
      · exact hy
      · trivial

end Eval

/-! ## The rules -/

open Eval

theorem congruence_bounded : Congruence @Bounded where
  bind := .bind
  within := .within
  pure := bounded_pure
  fail f := (keeps_fail f).bounded
  print _ := (keeps_write _).bounded
  traceStatement _ := (keeps_trace _).bounded
  traceCall _ := (keeps_trace _).bounded
  readClock := keeps_readClock.bounded
  lookup name := (keeps_lookup name).bounded
  assign name v := (keeps_assign name v).bounded
  define name v := (keeps_define name v (List.mem_singleton.mpr rfl)).appends.bounded
  newFunction name params body := (keeps_newFunction name params body).bounded
  closure f := (keeps_closure f).bounded
  newBlockScope := keeps_newBlockScope.keeps.bounded
  newCallScope c arguments := (keeps_newCallScope c arguments).keeps.bounded

/-- The rules with a smaller limit are bounded by those with a larger one. -/
theorem relatedRules_bounded (fuel : Nat) : RelatedRules @Bounded (· ≤ ·) fuel fuel := by
  induction fuel with
  | zero =>
    constructor <;> intros <;>
      simp only [evaluate, evaluateAll, call, callFunction, execute, executeAll, loop] <;>
      exact keeps_unfinished.bounded
  | succ fuel ih =>
    refine ih.succ congruence_bounded (fun {calls'} f vs _ => ?_) fun {calls calls'} h =>
      ⟨calls' - 1, by omega, by omega⟩
    -- where the smaller limit is reached, the larger one may leave room for the call
    have hy : Keeps 0 [] (callFunction (fuel + 1) calls' f vs) :=
      (framed 0 (fuel + 1)).callFunction calls' f vs
    rw [callFunction]
    exact bounded_tooDeep hy.appends

/-! ## Programs -/

variable {fuel calls calls' : Nat}

theorem bounded_executeProgram (h : calls ≤ calls') (ss : List Node) :
    Bounded (executeProgram ⟨fuel, calls⟩ ss) (executeProgram ⟨fuel, calls'⟩ ss) :=
  congruence_bounded.executeProgram ((relatedRules_bounded fuel).execute h) ss

/-- The report of a runtime error comes after everything else, and there is none of the limit. -/
theorem Eval.Bounded.report {x y : Eval Unit} (h : Bounded x y) :
    Bounded (reportRuntimeError x) (reportRuntimeError y) := by
  have hlog : ∀ config m (p : List Write), (y config m).After (fun n => p <:+ n.log) →
      (reportRuntimeError y config m).After fun n => p <:+ n.log := by
    intro config m p hy
    unfold reportRuntimeError
    cases hr : y config m with
    | done u n => rwa [hr] at hy
    | failed f n =>
      rw [hr] at hy
      cases f with
      | runtime error => exact List.IsSuffix.trans hy (List.suffix_cons _ _)
      | fault | tooDeep => exact hy
    | unfinished => trivial
  refine ⟨fun config m => hlog config m _ (h.appends config m), fun config m => ?_⟩
  rcases h.ends config m with hx | ⟨n, hx, hy⟩
  · exact .inl (by unfold reportRuntimeError; rw [hx])
  · exact .inr ⟨n, by unfold reportRuntimeError; rw [hx], hlog config m _ hy⟩

theorem bounded_interpret (h : calls ≤ calls') (ss : List Node) :
    Bounded (interpret ⟨fuel, calls⟩ ss) (interpret ⟨fuel, calls'⟩ ss) :=
  (bounded_executeProgram h ss).report

end Lox
