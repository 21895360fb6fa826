import Lox.Proofs.Evaluation.Congruence

/-!
# Traces make no difference

In debug mode a run is traced: each statement and each call of a function is announced in the log.
No rule of evaluation reads the log, so a run that is traced does what the same run does without the
traces, and the log that it leaves is the other one with the traces added to it.

This is an equation. Taking the traces out of a state is a function, and the run of the plain mode
from what it makes of a state is what it makes of the run of the debug mode from that state. So the
states of the two modes need not be compared anywhere in the middle.

## Main definitions

* `Write.untraced? w`: the write `w` as it is in the plain mode, if it is made there
* `Machine.untraced m`: the state `m` without what the debug mode has added to its log
* `Eval.Transparent x`: the debug mode makes no other difference for the run `x`

## Main results

* `relatedRules_untraces`: nor does it for the rules
* `transparent_interpret`: nor for programs
-/

namespace Lox

/-- A write as it is in the plain mode: there are no traces, and diagnostics come without the source
that they are about. -/
def Write.untraced? : Write → Option Write
  | .executing _ | .calling _ | .scanned .. | .parsed .. => none
  | .diagnostics ds _ => some (.diagnostics ds none)
  | w => some w

/-- The state without what the debug mode has added to its log. -/
def Machine.untraced (m : Machine) : Machine :=
  { m with log := m.log.filterMap Write.untraced? }

/-- The outcome without what the debug mode has added to the log. -/
def Outcome.untraced {α : Type} : Outcome α → Outcome α
  | .done a m => .done a m.untraced
  | .failed f m => .failed f m.untraced
  | .unfinished => .unfinished

namespace Eval

variable {α β : Type}

/-- In the plain mode the second run does what the first one does in the debug mode, and writes the
same but for what the debug mode adds. -/
def Untraces (x y : Eval α) : Prop :=
  ∀ clock m, y ⟨false, clock⟩ m.untraced = (x ⟨true, clock⟩ m).untraced

/-- The debug mode makes no difference for the run but for what it adds to the log. -/
abbrev Transparent (x : Eval α) : Prop :=
  Untraces x x

theorem Untraces.bind {x y : Eval α} {k l : α → Eval β} (h : Untraces x y)
    (hk : ∀ a, Untraces (k a) (l a)) : Untraces (x >>= k) (y >>= l) := by
  intro clock m
  rw [bind_apply, bind_apply, h clock m]
  cases x ⟨true, clock⟩ m with
  | done a n => exact hk a clock n
  | failed f n => rfl
  | unfinished => rfl

/-! ## Steps -/

theorem transparent_pure (a : α) : Transparent (pure a) :=
  fun _ _ => rfl

theorem transparent_unfinished : Transparent (unfinished : Eval α) :=
  fun _ _ => rfl

theorem transparent_fail (f : Failure) : Transparent (fail f : Eval α) :=
  fun _ _ => rfl

/-- Something is written that the debug mode does not change. -/
theorem transparent_write {w : Write} (h : w.untraced? = some w) : Transparent (write w) := by
  intro clock m
  have hlog : (w :: m.log).filterMap Write.untraced? = w :: m.log.filterMap Write.untraced? :=
    List.filterMap_cons_some h
  simp only [write, Outcome.untraced, Machine.untraced, hlog]

/-- A trace is only there in the debug mode. -/
theorem transparent_trace {w : Write} (h : w.untraced? = none) : Transparent (trace w) := by
  intro clock m
  have hlog : (w :: m.log).filterMap Write.untraced? = m.log.filterMap Write.untraced? :=
    List.filterMap_cons_none h
  show Outcome.done () m.untraced = .done () { m with log := (w :: m.log).filterMap _ }
  rw [hlog]
  rfl

theorem transparent_readClock : Transparent readClock :=
  fun _ _ => rfl

theorem transparent_lookup (name : Token) : Transparent (lookup name) := by
  intro clock m
  show lookup name ⟨false, clock⟩ { m with log := _ } = _
  unfold lookup
  dsimp only
  cases m.store.get? m.current name.lexeme <;> rfl

theorem transparent_assign (name : Token) (v : Value) : Transparent (assign name v) := by
  intro clock m
  show assign name v ⟨false, clock⟩ { m with log := _ } = _
  unfold assign
  dsimp only
  cases m.store.owner? m.current name.lexeme <;> rfl

theorem transparent_define (name : String) (v : Value) : Transparent (define name v) :=
  fun _ _ => rfl

theorem transparent_newFunction (name : Token) (params : List Token) (body : List Node) :
    Transparent (newFunction name params body) :=
  fun _ _ => rfl

theorem transparent_closure (f : FunctionRef) : Transparent (closure f) := by
  intro clock m
  show closure f ⟨false, clock⟩ { m with log := _ } = _
  unfold closure
  dsimp only
  cases m.store.closures[f.id]? <;> rfl

theorem transparent_newBlockScope : Transparent newBlockScope :=
  fun _ _ => rfl

theorem transparent_newCallScope (c : Closure) (arguments : List Value) :
    Transparent (newCallScope c arguments) :=
  fun _ _ => rfl

theorem Untraces.within {i : ScopeId} {x y : Eval α} (h : Untraces x y) :
    Untraces (within i x) (within i y) := by
  intro clock m
  have hx : y ⟨false, clock⟩ { m.untraced with current := i } = _ :=
    h clock { m with current := i }
  unfold Eval.within
  rw [hx]
  cases x ⟨true, clock⟩ { m with current := i } <;> rfl

end Eval

/-! ## The rules -/

open Eval

theorem congruence_untraces : Congruence @Untraces where
  bind := .bind
  within := .within
  pure := transparent_pure
  fail := transparent_fail
  print _ := transparent_write rfl
  traceStatement _ := transparent_trace rfl
  traceCall _ := transparent_trace rfl
  readClock := transparent_readClock
  lookup := transparent_lookup
  assign := transparent_assign
  define := transparent_define
  newFunction := transparent_newFunction
  closure := transparent_closure
  newBlockScope := transparent_newBlockScope
  newCallScope := transparent_newCallScope

/-- The debug mode makes no difference for any rule. -/
theorem relatedRules_untraces (fuel : Nat) : RelatedRules @Untraces Eq fuel fuel := by
  induction fuel with
  | zero =>
    constructor <;> rintro calls _ rfl <;> intros <;>
      simp only [evaluate, evaluateAll, call, callFunction, execute, executeAll, loop] <;>
      exact transparent_unfinished
  | succ fuel ih =>
    refine ih.succ congruence_untraces ?_ fun hcalls => ⟨_, hcalls.symm, rfl⟩
    rintro _ f vs rfl
    rw [callFunction]
    exact transparent_fail .tooDeep

/-! ## Programs -/

theorem transparent_executeProgram (b : Budget) (ss : List Node) :
    Transparent (executeProgram b ss) :=
  congruence_untraces.executeProgram ((relatedRules_untraces b.fuel).execute rfl) ss

/-- The report of a runtime error is no trace. -/
theorem transparent_interpret (b : Budget) (ss : List Node) : Transparent (interpret b ss) := by
  intro clock m
  unfold interpret reportRuntimeError
  rw [transparent_executeProgram b ss clock m]
  cases executeProgram b ss ⟨true, clock⟩ m with
  | done u n => rfl
  | failed f n =>
    cases f with
    | runtime error => simp [Outcome.untraced, Machine.untraced, Write.untraced?]
    | fault fault => rfl
    | tooDeep => rfl
  | unfinished => rfl

end Lox
