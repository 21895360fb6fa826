import Lox.Proofs.Evaluation.Congruence

/-!
# Fuel makes no difference

A run that ends is the same with more fuel. So there is at most one way in which a run can end, and
how much fuel it is given decides only whether that is seen.

## Main definitions

* `Eval.Below x y`: the run `x` runs out of fuel, or is the run `y`
* `MoreFuel fuel fuel'`: the rules with less fuel are below those with more

## Main results

* `moreFuel`: more fuel does not change a run that ends
-/

namespace Lox

namespace Eval

variable {α β : Type}

/-- In each state, the first run runs out of fuel or ends as the second one does. -/
def Below (x y : Eval α) : Prop :=
  ∀ config m, x config m = .unfinished ∨ x config m = y config m

theorem Below.refl (x : Eval α) : Below x x :=
  fun _ _ => .inr rfl

theorem below_unfinished (y : Eval α) : Below unfinished y :=
  fun _ _ => .inl rfl

theorem Below.bind {x y : Eval α} {k l : α → Eval β} (h : Below x y) (hk : ∀ a, Below (k a) (l a)) :
    Below (x >>= k) (y >>= l) := by
  intro config m
  rw [bind_apply, bind_apply]
  rcases h config m with hx | hx
  · exact .inl (by rw [hx])
  rw [← hx]
  cases x config m with
  | done a m' => exact hk a config m'
  | failed f m' => exact .inr rfl
  | unfinished => exact .inl rfl

/-- Something that needs no fuel comes first. -/
theorem Below.after (x : Eval α) {k l : α → Eval β} (hk : ∀ a, Below (k a) (l a)) :
    Below (x >>= k) (x >>= l) :=
  (Below.refl x).bind hk

theorem Below.within {i : ScopeId} {x y : Eval α} (h : Below x y) :
    Below (within i x) (within i y) := by
  intro config m
  unfold Eval.within
  rcases h config { m with current := i } with hx | hx
  · exact .inl (by rw [hx])
  · exact .inr (by rw [hx])

end Eval

open Eval

/-- The rules with less fuel are below those with more. -/
structure MoreFuel (fuel fuel' : Nat) : Prop where
  evaluate (calls : Nat) (e : Node) : Below (evaluate fuel calls e) (evaluate fuel' calls e)
  evaluateAll (calls : Nat) (es : List Node) :
    Below (evaluateAll fuel calls es) (evaluateAll fuel' calls es)
  call (calls : Nat) (paren : Token) (v : Value) (vs : List Value) :
    Below (call fuel calls paren v vs) (call fuel' calls paren v vs)
  callFunction (calls : Nat) (f : FunctionRef) (vs : List Value) :
    Below (callFunction fuel calls f vs) (callFunction fuel' calls f vs)
  execute (calls : Nat) (s : Node) : Below (execute fuel calls s) (execute fuel' calls s)
  executeAll (calls : Nat) (ss : List Node) :
    Below (executeAll fuel calls ss) (executeAll fuel' calls ss)
  loop (calls : Nat) (c b : Node) : Below (loop fuel calls c b) (loop fuel' calls c b)

theorem congruence_below : Congruence @Below where
  bind := .bind
  within := .within
  pure _ := .refl _
  fail _ := .refl _
  print _ := .refl _
  traceStatement _ := .refl _
  traceCall _ := .refl _
  readClock := .refl _
  lookup _ := .refl _
  assign _ _ := .refl _
  define _ _ := .refl _
  newFunction _ _ _ := .refl _
  closure _ := .refl _
  newBlockScope := .refl _
  newCallScope _ _ := .refl _

theorem relatedRules_below {fuel fuel' : Nat} (h : fuel ≤ fuel') :
    RelatedRules @Below Eq fuel fuel' := by
  induction fuel generalizing fuel' with
  | zero =>
    constructor <;> intros <;>
      simp only [evaluate, evaluateAll, call, callFunction, execute, executeAll, loop] <;>
      exact below_unfinished _
  | succ fuel ih =>
    obtain ⟨fuel', rfl⟩ : ∃ k, fuel' = k + 1 := ⟨fuel' - 1, by omega⟩
    refine (ih (Nat.le_of_succ_le_succ h)).succ congruence_below ?_ fun hcalls =>
      ⟨_, hcalls.symm, rfl⟩
    rintro _ f vs rfl
    rw [callFunction, callFunction]
    exact .refl _

/-- More fuel does not change a run that ends. -/
theorem moreFuel {fuel fuel' : Nat} (h : fuel ≤ fuel') : MoreFuel fuel fuel' where
  evaluate _ e := (relatedRules_below h).evaluate rfl e
  evaluateAll _ es := (relatedRules_below h).evaluateAll rfl es
  call _ paren v vs := (relatedRules_below h).call rfl paren v vs
  callFunction _ f vs := (relatedRules_below h).callFunction rfl f vs
  execute _ s := (relatedRules_below h).execute rfl s
  executeAll _ ss := (relatedRules_below h).executeAll rfl ss
  loop _ c b := (relatedRules_below h).loop rfl c b

/-! ## Programs -/

variable {fuel fuel' : Nat}

theorem below_executeProgram (h : fuel ≤ fuel') (calls : Nat) (ss : List Node) :
    Below (executeProgram ⟨fuel, calls⟩ ss) (executeProgram ⟨fuel', calls⟩ ss) :=
  congruence_below.executeProgram (fun s => (moreFuel h).execute calls s) ss

theorem below_interpret (h : fuel ≤ fuel') (calls : Nat) (ss : List Node) :
    Below (interpret ⟨fuel, calls⟩ ss) (interpret ⟨fuel', calls⟩ ss) := by
  intro config m
  unfold interpret reportRuntimeError
  rcases below_executeProgram h calls ss config m with hx | hx
  · exact .inl (by rw [hx])
  · exact .inr (by rw [hx])

end Lox
