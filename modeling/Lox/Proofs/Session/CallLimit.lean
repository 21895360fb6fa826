import Lox.Proofs.Evaluation.CallDepth
import Lox.Proofs.Evaluation.Fuel
import Lox.Proofs.Session.Steps
import Lox.Text.Place

/-!
# The recursion limit of a session

A session has a limit on the calls that may be nested in each other. A larger limit makes a
difference only for a source whose run is stopped by the smaller one, and then the run with the
larger limit writes what the other one has written, before anything else. So a limit can be raised
without changing what any program does that stays below it.

## Main results

* `bounded_run`: the run of a source with a smaller limit is bounded by the one with a larger limit
* `limit_only_bounds`: how the two runs end
-/

namespace Lox.Session

open Eval

variable {fuel fuel' calls calls' : Nat}

theorem bounded_parseTraced (source : String) :
    Bounded (parseTraced source) (parseTraced source) := by
  have hscan : Keeps 0 [] (scanTraced source) := (keeps_trace _).bind fun _ => keeps_pure _
  exact (hscan.bind fun s => (keeps_trace _).bind fun _ => keeps_pure _).bounded

theorem bounded_reportDiagnostics (ds : List Diagnostic) (source : String) :
    Bounded (reportDiagnostics ds source) (reportDiagnostics ds source) :=
  (keeps_debug.bind fun _ => keeps_write _).bounded

theorem bounded_run (h : calls ≤ calls') (source : String) :
    Bounded (run ⟨fuel, calls⟩ source) (run ⟨fuel, calls'⟩ source) := by
  unfold run
  refine (bounded_parseTraced source).bind fun p => ?_
  dsimp only
  split
  · exact (bounded_interpret h p.parse.program).bind fun _ => bounded_pure _
  · exact (bounded_reportDiagnostics p.diagnostics source).bind fun _ => bounded_pure _

/-- More fuel makes no difference for a run that ends. -/
theorem below_run (h : fuel ≤ fuel') (calls : Nat) (source : String) :
    Below (run ⟨fuel, calls⟩ source) (run ⟨fuel', calls⟩ source) := by
  unfold run
  refine .after _ fun p => ?_
  dsimp only
  split
  · exact (below_interpret h calls p.parse.program).bind fun _ => .refl _
  · exact .refl _

/-- **The recursion limit only bounds.** A source that runs without being stopped by a limit runs in
the same way with every larger one: it writes the same, ends in the same way, and leaves the same
scopes. If it is stopped, and the run with a larger limit ends in any way, then what was written by
the time it was stopped is the beginning of what is written with the larger limit. -/
theorem limit_only_bounds (h : calls ≤ calls') (config : Config) (m : Machine) (source : String) :
    (∀ fuel, (∀ n, run ⟨fuel, calls⟩ source config m ≠ .failed .tooDeep n) →
      run ⟨fuel, calls'⟩ source config m = run ⟨fuel, calls⟩ source config m) ∧
    ∀ fuel fuel' n, run ⟨fuel, calls⟩ source config m = .failed .tooDeep n →
      (run ⟨fuel', calls'⟩ source config m).After n.Precedes := by
  refine ⟨fun fuel hend => ?_, fun fuel fuel' n hstop => ?_⟩
  · rcases (bounded_run h source).ends config m with heq | ⟨n, hstop, -⟩
    · exact heq.symm
    · exact absurd hstop (hend n)
  · have hx : run ⟨max fuel fuel', calls⟩ source config m = .failed .tooDeep n := by
      rcases below_run (Nat.le_max_left fuel fuel') calls source config m with hu | heq
      · rw [hstop] at hu
        cases hu
      · rw [← heq, hstop]
    rcases below_run (Nat.le_max_right fuel fuel') calls' source config m with hu | heq
    · rw [hu]
      trivial
    rw [heq]
    rcases (bounded_run h source).ends config m with hsame | ⟨n', hstop', hafter⟩
    · rw [← hsame, hx]
      exact Machine.precedes_of_suffix (List.suffix_refl _)
    · rw [hx] at hstop'
      cases hstop'
      exact hafter.mono fun _ => Machine.precedes_of_suffix

/-- The state in which a run is stopped by a limit. -/
def stopped? {α : Type} : Outcome α → Option Machine
  | .failed .tooDeep n => some n
  | _ => none

theorem stopped?_eq_some_iff {α : Type} {x : Outcome α} {n : Machine} :
    stopped? x = some n ↔ x = .failed .tooDeep n := by
  unfold stopped?
  split <;> simp_all

/-- A recursion without an end is stopped earlier or later, and one with an end is not noticed. -/
theorem limit_only_bounds_recursion :
    (∃ n, run ⟨40, 2⟩ "func f() { print nil; f(); } f();" ⟨false, fun _ => 0⟩ .initial =
        .failed .tooDeep n ∧ n.log.length = 2 ∧
      (run ⟨60, 3⟩ "func f() { print nil; f(); } f();" ⟨false, fun _ => 0⟩ .initial).After
        n.Precedes) ∧
    run ⟨40, 3⟩ "func f(b) { if (b) f(false); } f(true);" ⟨false, fun _ => 0⟩ .initial =
      run ⟨40, 2⟩ "func f(b) { if (b) f(false); } f(true);" ⟨false, fun _ => 0⟩ .initial := by
  have hlimit := @limit_only_bounds 2 3 (by decide) ⟨false, fun _ => 0⟩ .initial
  constructor
  · have hrun : (stopped? (run ⟨40, 2⟩ "func f() { print nil; f(); } f();" ⟨false, fun _ => 0⟩
        .initial)).map (·.log.length) = some 2 := by
      decide +kernel
    obtain ⟨n, hn, hlength⟩ := Option.map_eq_some_iff.mp hrun
    have hstop := stopped?_eq_some_iff.mp hn
    exact ⟨n, hstop, hlength, (hlimit _).2 40 60 n hstop⟩
  · refine (hlimit _).1 40 fun n hstop => ?_
    have hrun : (run ⟨40, 2⟩ "func f(b) { if (b) f(false); } f(true);" ⟨false, fun _ => 0⟩
        .initial).result?.isSome := by
      decide +kernel
    rw [hstop] at hrun
    cases hrun

end Lox.Session
