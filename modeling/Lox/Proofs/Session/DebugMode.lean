import Lox.Proofs.Evaluation.Simulation
import Lox.Proofs.Evaluation.Untraced
import Lox.Proofs.Session.Steps
import Lox.Text.Place
import Mathlib.Data.List.Forall2

/-!
# The debug mode of a session

Two sessions that run the same sources, one of them in debug mode, do the same. What the debug mode
adds to the errors of the program are traces, each of which is a write of its own, and below each
diagnostic the line of the source that it is about.

Between two of its runs a session has no memory but its state, and the state of the plain session is
what is left of the state of the other one when the traces are taken out. So the sequence of the
runs needs no argument beyond the one for a single run.

## Main definitions

* `runAll b config sources m`: how the runs of the sources end, one after another
* `Machine.plainErrors m`: the texts of the error channel without traces and lines of the source
* `Outcome.SameButTraces`: what is the same in both modes

## Main results

* `transparent_run`: the debug mode makes no difference for the run of a source
* `debug_mode_changes_nothing`: nor does it for a session
-/

namespace Lox

/-! ## Errors -/

/-- The text of a write in which diagnostics stand by themselves, each on its line. The trace of a
statement or of a call has no text then. -/
def Write.plainText? [Text.Locator] : Write → Option String
  | .executing _ | .calling _ => none
  | .diagnostics ds source =>
    some ("\n".intercalate (ds.flatMap fun d => (Context.reportLines source d).take 1) ++ "\n")
  | w => some w.text

/-- The writes to the error channel, from the first to the last. -/
def Machine.errorWrites (m : Machine) : List Write :=
  m.log.reverse.filter (·.channel = .err)

/-- The texts of the error channel, without the traces and without the lines of the source below the
diagnostics. -/
def Machine.plainErrors [Text.Locator] (m : Machine) : List String :=
  m.errorWrites.filterMap Write.plainText?

/-- The names of the global scope, and how their values are displayed. -/
def Machine.globals (m : Machine) : List (String × Except Fault String) :=
  (m.store.bindings globalScope).map fun (name, v) => (name, v.display)

/-- What was printed is the same, the same global names are displayed in the same way, and the texts
of the error channel are the same when the first state is rid of what the debug mode adds. -/
structure Machine.SameButTraces [Text.Locator] (m m' : Machine) : Prop where
  printed : m'.printed = m.printed
  globals : m'.globals = m.globals
  errors : m'.errorWrites.map Write.text = m.plainErrors

/-- The runs end in the same way, with states that are the same but for traces. -/
def Outcome.SameButTraces [Text.Locator] :
    Outcome Session.Report → Outcome Session.Report → Prop
  | .done r m, .done r' m' => r' = r ∧ m.SameButTraces m'
  | .failed f m, .failed f' m' => f' = f ∧ m.SameButTraces m'
  | .unfinished, .unfinished => True
  | _, _ => False

namespace Write

/-- What is left of the text of an error is the text of what is left of the error. -/
theorem plainText?_eq [Text.Locator] {w : Write} (h : w.channel = .err) :
    w.plainText? = w.untraced?.map text := by
  cases w with
  | diagnostics ds source =>
    have hfirst : ∀ d, (Context.reportLines source d).take 1 = Context.reportLines none d := by
      intro d
      simp only [Context.reportLines]
      split
      · split <;> rfl
      · rfl
    simp only [plainText?, untraced?, Option.map_some, text, Context.report, hfirst]
  | executing form => rfl
  | calling name => rfl
  | runtimeError error => rfl
  | _ => cases h

theorem channel_of_untraced? {w w' : Write} (h : w.untraced? = some w') :
    w'.channel = w.channel := by
  cases w <;> cases h <;> rfl

end Write

namespace Machine

variable {m : Machine}

theorem printed_untraced : m.untraced.printed = m.printed := by
  unfold printed untraced
  rw [List.filter_filterMap, ← List.filterMap_eq_filter]
  congr 1
  funext w
  cases w <;> rfl

theorem errorWrites_untraced [Text.Locator] :
    m.untraced.errorWrites.map Write.text = m.plainErrors := by
  simp only [errorWrites, plainErrors, untraced, ← List.filterMap_reverse, List.filter_filterMap,
    List.map_filterMap, List.filterMap_filter]
  congr 1
  funext w
  cases hu : w.untraced? with
  | none => by_cases h : w.channel = .err <;> simp [h, hu, Write.plainText?_eq]
  | some w' =>
    have hw := Write.channel_of_untraced? hu
    by_cases h : w.channel = .err <;> simp [h, hw, hu, Write.plainText?_eq, Option.filter]

theorem sameButTraces_untraced [Text.Locator] : m.SameButTraces m.untraced where
  printed := printed_untraced
  globals := rfl
  errors := errorWrites_untraced

end Machine

namespace Session

open Eval

theorem transparent_scanTraced (source : String) : Transparent (scanTraced source) :=
  (transparent_trace rfl).bind fun _ => transparent_pure _

theorem transparent_parseTraced (source : String) : Transparent (parseTraced source) :=
  (transparent_scanTraced source).bind fun _ =>
    (transparent_trace rfl).bind fun _ => transparent_pure _

/-- The line of the source is not there in the plain mode. -/
theorem transparent_reportDiagnostics (ds : List Diagnostic) (source : String) :
    Transparent (reportDiagnostics ds source) :=
  fun _ _ => rfl

theorem transparent_run (b : Budget) (source : String) : Transparent (run b source) := by
  unfold run
  refine (transparent_parseTraced source).bind fun p => ?_
  dsimp only
  split
  · exact (transparent_interpret b p.parse.program).bind fun _ => transparent_pure _
  · exact (transparent_reportDiagnostics p.diagnostics source).bind fun _ => transparent_pure _

/-- The runs of sources one after another. A run that fails leaves a state, from which the next one
goes on. -/
def runAll (b : Budget) (config : Config) : List String → Machine → List (Outcome Report)
  | [], _ => []
  | source :: sources, m =>
    match run b source config m with
    | .done r n => .done r n :: runAll b config sources n
    | .failed f n => .failed f n :: runAll b config sources n
    | .unfinished => [.unfinished]

theorem runAll_untraced (b : Budget) (clock : Nat → Float) (sources : List String) (m : Machine) :
    runAll b ⟨false, clock⟩ sources m.untraced =
      (runAll b ⟨true, clock⟩ sources m).map Outcome.untraced := by
  induction sources generalizing m with
  | nil => rfl
  | cons source sources ih =>
    rw [runAll, runAll, transparent_run b source clock m]
    cases run b source ⟨true, clock⟩ m with
    | done r n => exact congrArg (_ :: ·) (ih n)
    | failed f n => exact congrArg (_ :: ·) (ih n)
    | unfinished => rfl

/-- **The debug mode changes nothing.** Two sessions, one of them in debug mode, run the same
sources, and the clock gives them the same answers. Each run ends in the same way in both of them,
with the same diagnostics and the same runtime error, the same was printed by then, and the same
global names are displayed in the same way. The errors are the same too, but for the traces and the
lines of the source below the diagnostics. -/
theorem debug_mode_changes_nothing [Text.Locator] (b : Budget) (clock : Nat → Float)
    (sources : List String) :
    List.Forall₂ Outcome.SameButTraces (runAll b ⟨true, clock⟩ sources .initial)
      (runAll b ⟨false, clock⟩ sources .initial) := by
  have hinitial : Machine.initial.untraced = .initial := rfl
  rw [← hinitial, runAll_untraced, hinitial, List.forall₂_map_right_iff, List.forall₂_same]
  rintro (⟨r, n⟩ | ⟨f, n⟩ | _) -
  · exact ⟨rfl, n.sameButTraces_untraced⟩
  · exact ⟨rfl, n.sameButTraces_untraced⟩
  · trivial

/-- The first source is traced. The second one is not run, and its diagnostic has the line of the
source and a caret below it. -/
example :
    ((runAll ⟨10, 1⟩ ⟨true, fun _ => 0⟩ ["print nil;", "nil"] .initial).map fun
      | .done _ m => (m.errorWrites.map Write.text, m.plainErrors)
      | _ => ([], [])) =
    [(["Executing Print\n"], []),
      (["Executing Print\n",
          "[line 1] Error at end: Expect ';' after expression.\n   1: nil\n        ^\n"],
        ["[line 1] Error at end: Expect ';' after expression.\n"])] := by
  decide +kernel

end Session

end Lox
