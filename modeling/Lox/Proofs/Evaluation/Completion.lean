import Lox.Evaluation
import Lox.Proofs.Grammar.Acceptance
import Lox.Proofs.Node.ReturnSites
import Lox.Proofs.Session.Steps

/-!
# Programs complete normally

A program is run statement by statement, and how a statement completes makes no difference. That
is right only if no statement of a program completes by a `return`, for then its value would be
lost, and the statements after it would run all the same.

A call ends every `return` in the body of its function, so a statement completes by a `return` only
if there is one in it that lies in no function body. The parser lets no such statement into a
program that has no errors.

## Main definitions

* `Eval.Normally x`: the run completes normally, if it ends well
* `executeUntilReturn b ss`: the statements of a program, up to a `return`

## Main results

* `normalRules`: statements whose `return`s lie in function bodies complete normally
* `no_return_is_discarded`: the statements of a program do, and a `return` would not end it
-/

namespace Lox

open Eval

/-! ## Runs -/

namespace Eval

variable {α : Type}

/-- The run completes normally, if it ends well. -/
def Normally (x : Eval Completion) : Prop :=
  ∀ config m c m', x config m = .done c m' → c = .normal

theorem normally_pure : Normally (pure .normal) :=
  fun _ _ _ _ h => (Outcome.done.inj h).1.symm

theorem normally_unfinished : Normally unfinished :=
  fun _ _ _ _ h => nomatch h

theorem normally_fail (f : Failure) : Normally (fail f) :=
  fun _ _ _ _ h => nomatch h

/-- How the second of two runs completes is how both do. -/
theorem Normally.after {x : Eval α} {next : α → Eval Completion}
    (h : ∀ a, Normally (next a)) : Normally (x >>= next) := by
  intro config m c m' hr
  obtain ⟨a, n, -, hn⟩ := bind_eq_done_iff.mp hr
  exact h a config n c m' hn

/-- After a run that completes normally, another one. -/
theorem Normally.bind {x : Eval Completion} {next : Completion → Eval Completion}
    (hx : Normally x) (h : Normally (next .normal)) : Normally (x >>= next) := by
  intro config m c m' hr
  obtain ⟨a, n, ha, hn⟩ := bind_eq_done_iff.mp hr
  obtain rfl := hx config m a n ha
  exact h config n c m' hn

theorem normally_within {i : ScopeId} {x : Eval Completion} (h : Normally x) :
    Normally (within i x) := by
  intro config m c m' hr
  unfold within at hr
  cases hx : x config { m with current := i } with
  | done a n =>
    simp only [hx] at hr
    rw [← (Outcome.done.inj hr).1]
    exact h config _ a n hx
  | failed f n => simp [hx] at hr
  | unfinished => simp [hx] at hr

end Eval

/-! ## The rules -/

/-- With this much fuel, what has its `return`s in function bodies completes normally. -/
structure NormalRules (fuel : Nat) : Prop where
  execute (calls : Nat) (s : Node) : s.ReturnsInBodies → Normally (execute fuel calls s)
  executeAll (calls : Nat) (ss : List Node) : (∀ s ∈ ss, s.ReturnsInBodies) →
    Normally (executeAll fuel calls ss)
  loop (calls : Nat) (c b : Node) : b.ReturnsInBodies → Normally (loop fuel calls c b)

namespace NormalRules

variable {fuel : Nat}

/-- Calls are part of expressions, so no completion goes through them. -/
theorem execute_succ (ih : NormalRules fuel) (calls : Nat) (s : Node) (hs : s.ReturnsInBodies) :
    Normally (Lox.execute (fuel + 1) calls s) := by
  unfold Lox.execute
  refine .after fun _ => ?_
  cases s with
  | exprStmt e => exact .after fun _ => normally_pure
  | printStmt e => exact .after fun _ => .after fun _ => .after fun _ => normally_pure
  | varDecl name initializer =>
    cases initializer with
    | some e => exact .after fun _ => .after fun _ => normally_pure
    | none => exact .after fun _ => .after fun _ => normally_pure
  | block ss =>
    exact .after fun _ =>
      normally_within (ih.executeAll calls ss (Node.returnsInBodies_block.mp hs))
  | ifStmt c t e =>
    refine .after fun v => ?_
    have ht : t.ReturnsInBodies := fun r hr => hs r (by cases e <;> simp [Node.returnSites, hr])
    split
    · exact ih.execute calls t ht
    · cases e with
      | some e => exact ih.execute calls e fun r hr => hs r (by simp [Node.returnSites, hr])
      | none => exact normally_pure
  | whileStmt c b => exact ih.loop calls c b fun r hr => hs r (by simp [Node.returnSites, hr])
  | funcDecl name params body => exact .after fun _ => .after fun _ => normally_pure
  | returnStmt keyword value =>
    have h := hs ⟨keyword, false⟩ (by cases value <;> simp [Node.returnSites])
    exact absurd h (by simp)
  | _ => exact normally_fail _

theorem executeAll_succ (ih : NormalRules fuel) (calls : Nat) (ss : List Node)
    (hs : ∀ s ∈ ss, s.ReturnsInBodies) : Normally (Lox.executeAll (fuel + 1) calls ss) := by
  unfold Lox.executeAll
  cases ss with
  | nil => exact normally_pure
  | cons s ss =>
    obtain ⟨hs, hss⟩ := List.forall_mem_cons.mp hs
    exact (ih.execute calls s hs).bind (ih.executeAll calls ss hss)

theorem loop_succ (ih : NormalRules fuel) (calls : Nat) (c b : Node) (hb : b.ReturnsInBodies) :
    Normally (Lox.loop (fuel + 1) calls c b) := by
  unfold Lox.loop
  refine .after fun v => ?_
  split
  · exact (ih.execute calls b hb).bind (ih.loop calls c b hb)
  · exact normally_pure

end NormalRules

/-- What has its `return`s in function bodies completes normally. -/
theorem normalRules (fuel : Nat) : NormalRules fuel := by
  induction fuel with
  | zero =>
    constructor <;> intros <;> simp only [execute, executeAll, loop] <;> exact normally_unfinished
  | succ fuel ih =>
    exact {
      execute := ih.execute_succ
      executeAll := ih.executeAll_succ
      loop := ih.loop_succ }

/-! ## Programs -/

/-- Does what the statements of a program say, up to a `return`. -/
def executeUntilReturn (b : Budget) : List Node → Eval Completion
  | [] => return .normal
  | s :: ss => do
    match ← execute b.fuel b.calls s with
    | .returned v => return .returned v
    | .normal => executeUntilReturn b ss

/-- A program that would end at a `return` is one that does not, if there is none to end it. -/
theorem executeUntilReturn_eq (b : Budget) {ss : List Node} (h : ∀ s ∈ ss, s.ReturnsInBodies) :
    executeUntilReturn b ss = do
      executeProgram b ss
      return .normal := by
  induction ss with
  | nil => rfl
  | cons s ss ih =>
    obtain ⟨hs, hss⟩ := List.forall_mem_cons.mp h
    funext config m
    rw [executeUntilReturn, executeProgram, ih hss]
    simp only [bind_apply]
    cases hx : execute b.fuel b.calls s config m with
    | done c m₁ =>
      obtain rfl := (normalRules b.fuel).execute b.calls s hs config m c m₁ hx
      rfl
    | failed f m₁ => rfl
    | unfinished => rfl

/-- The `return`s of a source without errors lie in function bodies. -/
theorem returnsInBodies_of_diagnostics {source : String}
    (h : (Grammar.parseSource source).diagnostics = []) :
    ∀ s ∈ (Grammar.parseSource source).parse.program, s.ReturnsInBodies := by
  have herrors : (Grammar.parse (scan source).stream).errors = [] :=
    List.map_eq_nil_iff.mp (List.append_eq_nil_iff.mp h).2
  have hparse : Grammar.parse (scan source).stream =
      ⟨(Grammar.parse (scan source).stream).program, []⟩ := by rw [← herrors]
  obtain ⟨-, hlegal⟩ := Grammar.derives_of_parse hparse
  exact fun s hs => (Node.allLegal_iff.mp hlegal s hs).returnsInBodies

/-- **No `return` is discarded.** A statement whose `return`s all lie in function bodies never
completes by one, whatever the state in which it is executed. The statements of a source without
errors are such ones, so in a program it makes no difference that completions are left out of
account: if it ended at the first `return`, it would do the same. -/
theorem no_return_is_discarded :
    (∀ s : Node, (∀ r ∈ s.returnSites, r.inBody = true) → ∀ fuel calls config m c m',
      execute fuel calls s config m = .done c m' → c = .normal) ∧
    ∀ source, (Grammar.parseSource source).diagnostics = [] →
      (∀ s ∈ (Grammar.parseSource source).parse.program, ∀ fuel calls config m c m',
        execute fuel calls s config m = .done c m' → c = .normal) ∧
      ∀ b, executeUntilReturn b (Grammar.parseSource source).parse.program = do
        executeProgram b (Grammar.parseSource source).parse.program
        return .normal := by
  have hany : ∀ s : Node, s.ReturnsInBodies → ∀ fuel calls config m c m',
      execute fuel calls s config m = .done c m' → c = .normal :=
    fun s hs fuel calls config m c m' => (normalRules fuel).execute calls s hs config m c m'
  refine ⟨hany, fun source h => ?_⟩
  have hs := returnsInBodies_of_diagnostics h
  exact ⟨fun s hm => hany s (hs s hm), fun b => executeUntilReturn_eq b hs⟩

/-- A call whose body returns a value completes normally. -/
theorem no_return_is_discarded_call :
    let program := (Grammar.parseSource "func f() \x7b return nil; \x7d f();").parse.program
    program.length = 2 ∧
      (executeUntilReturn ⟨30, 10⟩ program ⟨false, fun _ => 0⟩ .initial).result?.isSome ∧
      ∀ b, executeUntilReturn b program = do
        executeProgram b program
        return .normal := by
  refine ⟨by decide +kernel, by decide +kernel, ?_⟩
  exact (no_return_is_discarded.2 _ (by decide +kernel)).2

end Lox
