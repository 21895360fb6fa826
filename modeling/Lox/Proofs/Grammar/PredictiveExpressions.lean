import Lox.Proofs.Grammar.Lookahead

/-!
# Expressions are read with one token of lookahead

An expression ends in front of a parenthesis, a comma or a semicolon, and a variable is the shortest
one. So what has been read of an expression without an error can always be completed.

## Main definitions

* `PredictiveExpressions n`: the rules for expressions are predictive in front of `n` tokens

## Main results

* `predictiveExpressions`: so they are in front of any number of tokens
-/

namespace Lox.Grammar

open Reader

/-- The kinds of tokens that may come after an expression wherever there is one. -/
def expressionEnds : List Kind :=
  [.rightParen, .comma, .semicolon]

/-- The rules for expressions, with any fuel, are predictive in front of up to `n` tokens. -/
structure PredictiveExpressions (n : Nat) : Prop where
  expression {κ : Type} (f : κ → Nat) :
    Predictive true (Upcoming expressionEnds) (Upcoming [.identifier]) n
      fun j => expression (f j)
  operation {κ : Type} (f : κ → Nat) (ls : List Level) :
    Predictive true (Upcoming expressionEnds) (Upcoming [.identifier]) n
      fun j => operation (f j) ls
  operands {κ : Type} (f : κ → Nat) (l : Level) (ls : List Level) (e : κ → Node) :
    Predictive true (Upcoming expressionEnds) (Upcoming expressionEnds) n
      fun j => operands (f j) l ls (e j)
  prefixed {κ : Type} (f : κ → Nat) :
    Predictive true (Upcoming expressionEnds) (Upcoming [.identifier]) n fun j => prefixed (f j)
  calls {κ : Type} (f : κ → Nat) (e : κ → Node) :
    Predictive true (Upcoming expressionEnds) (Upcoming expressionEnds) n
      fun j => calls (f j) (e j)
  arguments {κ : Type} (f : κ → Nat) (count : κ → Nat) :
    Predictive true (Upcoming [.rightParen]) (Upcoming [.identifier]) n
      fun j => arguments (f j) (count j)
  primary {κ : Type} (f : κ → Nat) :
    Predictive true (Upcoming expressionEnds) (Upcoming [.identifier]) n fun j => primary (f j)

/-! ## Literals -/

/-- The kinds of the tokens that are literals. -/
def isLiteral (k : Kind) : Bool :=
  k matches .falseKw | .trueKw | .nilKw | .number | .string

theorem acceptLiteral?_bind {α : Type} (next : Option Value → Reader α) :
    (acceptLiteral? >>= next) = acceptIf? isLiteral >>= fun o => next (o.bind literal?) := by
  funext eof c
  show (acceptIf? isLiteral >>= _ >>= next) eof c = _
  rw [bind_apply, bind_apply, bind_apply]
  cases acceptIf? isLiteral eof c with
  | done o c' => cases o <;> rfl
  | failed e c' => rfl
  | unfinished => rfl

theorem exists_literal?_eq {t : Token} (h : isLiteral t.kind = true) :
    ∃ v, literal? t = some v := by
  unfold literal?
  cases hk : t.kind <;> simp_all [isLiteral]

/-! ## The rules -/

namespace PredictiveExpressions

variable {n : Nat} {κ : Type}

section

variable (ih : ∀ m < n, PredictiveExpressions m)

include ih

/-- In parentheses, there is an expression; nothing else can be completed. -/
theorem decides_group (f : κ → Nat) {xs : List Token} (hxs : xs.length ≤ n) :
    Decides true (Upcoming expressionEnds) (fun _ => False) (fun j => do
      if ← accept .leftParen then
        let inner ← Grammar.expression (f j)
        let _ ← expect .rightParen .parenAfterExpression
        return Node.group inner
      fail .expression) xs := by
  have hfail : Decides true (Upcoming expressionEnds) (fun _ => False)
      (fun _ : κ => (fail .expression : Reader Node)) xs := decides_fail rfl
  refine .ifAccept (by simp) (fun _ h => h) (fun m hm => ?_) hfail
  refine ⟨_, .bind ((ih m (by omega)).expression _) ?_
    (upcoming_of_mem .rightParen (by decide))⟩
  exact .expect_pure (by decide) rfl

/-- What is neither a literal nor a variable nor in parentheses is blamed: with a variable in its
place, there is a primary expression. -/
theorem primary_of_lt (f : κ → Nat) :
    Predictive true (Upcoming expressionEnds) (Upcoming [.identifier]) n
      fun j => Grammar.primary (f j) := by
  refine .of_fuel (r := fun m _ => Grammar.primary m) f (fun _ => by rw [Grammar.primary])
    (fun _ _ => by rw [Grammar.primary]) ?_
  simp only [acceptLiteral?_bind]
  have hliteral : ∀ κ, isLiteral κ = true → ¬ Upcoming [.identifier] (some κ) :=
    not_upcoming_of_wanted (by decide)
  refine ⟨.acceptIf?_none hliteral (fun _ h => h) ?_, fun xs hxs =>
    .acceptIf? hliteral (fun _ h => h) (fun m _ => ?_) ?_⟩
  · exact .acceptIf?_some (t := ⟨.identifier, "", none, 0, 0⟩) rfl (by decide) (by simp)
      (completable_of_clears fun _ us => clears_pure _ us)
  · refine ⟨_, predictive_of_clears fun p us => ?_⟩
    obtain ⟨v, hv⟩ := exists_literal?_eq p.2.2
    simp only [Option.bind_some, hv]
    exact clears_pure _ us
  · refine .acceptIf? (fun _ _ => id) (fun _ => False.elim) (fun m _ => ?_)
      (decides_group ih (fun j => f j - 1) hxs)
    exact ⟨_, predictive_pure _⟩

/-- What follows a callee is an argument list or nothing. -/
theorem calls_of_lt (f : κ → Nat) (e : κ → Node) :
    Predictive true (Upcoming expressionEnds) (Upcoming expressionEnds) n
      fun j => Grammar.calls (f j) (e j) := by
  refine .of_fuel (r := fun m j => Grammar.calls m (e j)) f (fun _ => by rw [Grammar.calls])
    (fun _ _ => by rw [Grammar.calls]) ?_
  refine .ifAccept (by simp [expressionEnds]) (fun m hm => ?_) (predictive_pure _)
  refine ⟨_, .bind (.unlessNext ((ih m hm).arguments _ _)) ?_ fun _ h => h⟩
  exact .expect (by decide) rfl ⟨_, (ih m hm).calls _ _⟩

theorem prefixed_of_lt (f : κ → Nat) :
    Predictive true (Upcoming expressionEnds) (Upcoming [.identifier]) n
      fun j => Grammar.prefixed (f j) := by
  refine .of_fuel (r := fun m _ => Grammar.prefixed m) f (fun _ => by rw [Grammar.prefixed])
    (fun _ _ => by rw [Grammar.prefixed]) ?_
  refine .acceptIf? (not_upcoming_of_wanted (by decide)) (fun m hm => ?_) ?_
  · exact ⟨_, .bind_pure ((ih m hm).prefixed _)⟩
  · exact .bind (primary_of_lt ih _) (calls_of_lt ih _ _) fun _ h => h

theorem operands_of_lt (f : κ → Nat) (l : Level) (ls : List Level) (e : κ → Node) :
    Predictive true (Upcoming expressionEnds) (Upcoming expressionEnds) n
      fun j => Grammar.operands (f j) l ls (e j) := by
  refine .of_fuel (r := fun m j => Grammar.operands m l ls (e j)) f
    (fun _ => by rw [Grammar.operands]) (fun _ _ => by rw [Grammar.operands]) ?_
  refine .acceptIf? (not_upcoming_of_wanted (by cases l <;> decide)) (fun m hm => ?_)
    (predictive_pure _)
  exact ⟨_, .bind ((ih m hm).operation _ ls) ((ih m hm).operands _ l ls _) fun _ h => h⟩

theorem operation_of_lt (f : κ → Nat) (ls : List Level) :
    Predictive true (Upcoming expressionEnds) (Upcoming [.identifier]) n
      fun j => Grammar.operation (f j) ls := by
  induction ls generalizing f with
  | nil =>
    exact .of_fuel (r := fun m _ => Grammar.operation m []) f (fun _ => by rw [Grammar.operation])
      (fun _ _ => by rw [Grammar.operation]) (prefixed_of_lt ih _)
  | cons l ls ihls =>
    refine .of_fuel (r := fun m _ => Grammar.operation m (l :: ls)) f
      (fun _ => by rw [Grammar.operation]) (fun _ _ => by rw [Grammar.operation]) ?_
    exact .bind (ihls _) (operands_of_lt ih _ l ls _) fun _ h => h

theorem expression_of_lt (f : κ → Nat) :
    Predictive true (Upcoming expressionEnds) (Upcoming [.identifier]) n
      fun j => Grammar.expression (f j) := by
  refine .of_fuel (r := fun m _ => Grammar.expression m) f (fun _ => by rw [Grammar.expression])
    (fun _ _ => by rw [Grammar.expression]) ?_
  refine .bind (operation_of_lt ih _ levels) ?_ fun _ h => h
  refine .accept? (by simp [expressionEnds]) (fun m hm => ?_) (predictive_pure _)
  refine ⟨_, .bind ((ih m hm).expression _) ?_ fun _ h => h⟩
  -- what is assigned to makes no difference to the tokens
  refine predictive_of_clears fun p us => ?_
  split
  · exact clears_pure _ us
  · exact (remarks_recordAt rfl _).clears.bind fun _ => clears_pure _ us

theorem arguments_of_lt (f : κ → Nat) (count : κ → Nat) :
    Predictive true (Upcoming [.rightParen]) (Upcoming [.identifier]) n
      fun j => Grammar.arguments (f j) (count j) := by
  refine .of_fuel (r := fun m j => Grammar.arguments m (count j)) f
    (fun _ => by rw [Grammar.arguments]) (fun _ _ => by rw [Grammar.arguments]) ?_
  refine .noting (fun _ => remarks_record rfl) ?_
  refine .bind (expression_of_lt ih _) ?_ (upcoming_of_mem .rightParen (by decide))
  refine .ifAccept (by simp) (fun m hm => ?_) (predictive_pure _)
  exact ⟨_, .bind_pure ((ih m hm).arguments _ _)⟩

end

end PredictiveExpressions

/-- The rules for expressions decide by the next token. -/
theorem predictiveExpressions (n : Nat) : PredictiveExpressions n := by
  induction n using Nat.strongRecOn with
  | ind n ih =>
    exact {
      expression := PredictiveExpressions.expression_of_lt ih
      operation := PredictiveExpressions.operation_of_lt ih
      operands := PredictiveExpressions.operands_of_lt ih
      prefixed := PredictiveExpressions.prefixed_of_lt ih
      calls := PredictiveExpressions.calls_of_lt ih
      arguments := PredictiveExpressions.arguments_of_lt ih
      primary := PredictiveExpressions.primary_of_lt ih }

end Lox.Grammar
