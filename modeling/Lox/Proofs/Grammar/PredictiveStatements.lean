import Lox.Proofs.Grammar.PredictiveExpressions

/-!
# Statements are read with one token of lookahead

After a statement there may be anything but an `else`, and an expression with a semicolon is the
shortest one. So what has been read of a program without a fatal error can always be completed.

## Main definitions

* `PredictiveStatements n`: the rules for statements are predictive in front of `n` tokens

## Main results

* `predictiveStatements`: so they are in front of any number of tokens
* `predictive_declarations`: and so are programs
-/

namespace Lox.Grammar

open Reader

variable {n : Nat} {κ : Type} {stops : Bool} {follow : Option Kind → Prop}

theorem predictive_expression (f : κ → Nat) :
    Predictive true (Upcoming expressionEnds) (Upcoming [.identifier]) n
      fun j => expression (f j) :=
  (predictiveExpressions n).expression f

/-- An expression, if the next token is not the one that stands in its place. -/
theorem predictive_optional {kind : Kind} (hk : kind ∈ expressionEnds) (f : κ → Nat) :
    Predictive true (Upcoming [kind]) (Upcoming [kind]) n
      fun j => unlessNext kind (expression (f j)) :=
  .unlessNext ((predictive_expression f).of_follow (upcoming_of_mem kind hk))

/-! ## Parts of statements -/

theorem predictive_parameters (f count : κ → Nat) :
    Predictive true (Upcoming [.rightParen]) (Upcoming [.identifier]) n
      fun j => parameters (f j) (count j) := by
  induction n using Nat.strongRecOn generalizing κ with
  | ind n ih =>
    refine .of_fuel (r := fun m j => parameters m (count j)) f (fun _ => by rw [parameters])
      (fun _ _ => by rw [parameters]) ?_
    refine .noting (fun _ => remarks_record rfl)
      (.expect (by decide) rfl ⟨Upcoming [.rightParen], ?_⟩)
    refine .ifAccept (by simp) (fun m hm => ?_) (predictive_pure _)
    exact ⟨_, .bind_pure (ih m hm _ _)⟩

theorem predictive_variableDeclaration (f : κ → Nat) :
    Predictive stops follow (Upcoming [.identifier]) n fun j => variableDeclaration (f j) := by
  refine .expect (by decide) rfl ⟨Upcoming [.semicolon], ?_⟩
  refine .ifAccept (by simp) (fun m _ => ?_) ?_
  · exact ⟨_, .bind (.bind_pure (predictive_expression _)) (.expect_pure (by decide) rfl)
      (upcoming_of_mem .semicolon (by decide))⟩
  · exact .bind (predictive_pure _) (.expect_pure (by decide) rfl) fun _ h => h

theorem predictive_expressionStatement (f : κ → Nat) :
    Predictive stops follow (Upcoming [.identifier]) n fun j => expressionStatement (f j) :=
  .bind (predictive_expression _) (.expect_pure (by decide) rfl)
    (upcoming_of_mem .semicolon (by decide))

theorem predictive_printStatement (f : κ → Nat) :
    Predictive stops follow (Upcoming [.identifier]) n fun j => printStatement (f j) :=
  .bind (predictive_expression _) (.expect_pure (by decide) rfl)
    (upcoming_of_mem .semicolon (by decide))

/-- Where a `return` stands makes no difference to the tokens. -/
theorem predictive_returnStatement (f : κ → Nat) (keyword : κ → Token) :
    Predictive stops follow (Upcoming [.semicolon]) n
      fun j => returnStatement (f j) (keyword j) := by
  refine .functionDepth (.noting (fun _ => remarks_recordAt rfl _) ?_)
  exact .bind (predictive_optional (by decide) _) (.expect_pure (by decide) rfl) fun _ h => h

theorem predictive_forInitializer (f : κ → Nat) :
    Predictive stops follow (Upcoming [.identifier]) n fun j => forInitializer (f j) := by
  refine .ifAccept (by simp) (fun m _ => ⟨_, predictive_pure _⟩) ?_
  refine .ifAccept (by simp) (fun m _ => ⟨_, .bind_pure (predictive_variableDeclaration _)⟩) ?_
  exact .bind_pure (predictive_expressionStatement _)

/-! ## Sequences of declarations -/

/-- The next token is no `else`, which would belong to an `if` that has been read. -/
def NoElse (k : Option Kind) : Prop :=
  k ≠ some .elseKw

section Items

variable {items : Nat → Reader (List Node)} {next : Nat → Option Kind → Reader (List Node)}
  (ends : Option Kind → Prop) (h₀ : items 0 = unfinished)
  (hs : ∀ m, items (m + 1) = nextKind? >>= next m) (hend : ∀ m k, ends k → next m k = pure [])
  (hf : ∀ k, follow k → ends k)

include h₀ hs hend hf

/-- There may be no declarations at all. -/
theorem completable_items (f : κ → Nat) : Completable follow follow fun j => items (f j) :=
  .of_fuel (r := fun m _ => items m) f (fun _ => h₀) (fun m _ => hs m)
    (.nextKind? (fun j => hend (f j - 1)) hf)

/-- After a declaration, the next token decides whether there is another one. -/
theorem predictive_items
    (hgo : ∀ m k, ¬ ends k → next m k = do return (← declaration m).toList ++ (← items m))
    (hadd : ∀ m, Additive (items m)) (helse : ∀ k, follow k → NoElse k)
    (hitem : ∀ f : κ → Nat, Predictive false NoElse (Upcoming [.identifier]) n
      fun j => declaration (f j))
    (hlt : ∀ m < n, ∀ f : κ × Option Node → Nat, Predictive false follow follow m
      fun j => items (f j))
    (f : κ → Nat) : Predictive false follow follow n fun j => items (f j) := by
  refine .of_fuel (r := fun m _ => items m) f (fun _ => h₀) (fun m _ => hs m)
    ⟨.nextKind? (fun j => hend (f j - 1)) hf, fun xs hxs => ?_⟩
  have hmore : Decides false follow (Upcoming [.identifier])
      (fun j => do return (← declaration (f j - 1)).toList ++ (← items (f j - 1))) xs := by
    refine ((hitem _).decides xs hxs).bind
      (fun j _ _ _ h => h.bind_additive fun _ => (hadd _).bind fun _ => .pure _)
      (completable_items ends h₀ hs hend hf _).bind_pure (fun ts us he hnil => ?_) helse
    have hne : ts ≠ [] := fun h => not_upcoming_none (hnil h none (by simp [NoElse]))
    have hlen : us.length < n := by
      have := List.length_pos_iff.mpr hne
      simp only [he, List.length_append] at hxs
      omega
    exact (Predictive.bind_pure (hlt us.length hlen _)).decides us (Nat.le_refl _)
  exact .nextKind? (fun j => hend (f j - 1)) (fun j => hgo (f j - 1)) hf fun _ => hmore

end Items

/-! ## The rules -/

/-- The rules for statements, with any fuel, are predictive in front of up to `n` tokens. -/
structure PredictiveStatements (n : Nat) : Prop where
  declaration {κ : Type} (f : κ → Nat) :
    Predictive false NoElse (Upcoming [.identifier]) n fun j => declaration (f j)
  functionDeclaration {κ : Type} (f : κ → Nat) {follow : Option Kind → Prop} :
    Predictive false follow (Upcoming [.identifier]) n fun j => functionDeclaration (f j)
  statement {κ : Type} (f : κ → Nat) :
    Predictive false NoElse (Upcoming [.identifier]) n fun j => statement (f j)
  forStatement {κ : Type} (f : κ → Nat) :
    Predictive false NoElse (Upcoming [.leftParen]) n fun j => forStatement (f j)
  ifStatement {κ : Type} (f : κ → Nat) :
    Predictive false NoElse (Upcoming [.leftParen]) n fun j => ifStatement (f j)
  whileStatement {κ : Type} (f : κ → Nat) :
    Predictive false NoElse (Upcoming [.leftParen]) n fun j => whileStatement (f j)
  blockBody {κ : Type} (f : κ → Nat) {follow : Option Kind → Prop} :
    Predictive false follow (Upcoming [.rightBrace]) n fun j => blockBody (f j)
  blockItems {κ : Type} (f : κ → Nat) :
    Predictive false (Upcoming [.rightBrace]) (Upcoming [.rightBrace]) n
      fun j => blockItems (f j)

namespace PredictiveStatements

section

variable (ih : ∀ m < n, PredictiveStatements m)

include ih

/-- The first token of a statement tells what statement it is. -/
theorem statement_of_lt (f : κ → Nat) :
    Predictive false NoElse (Upcoming [.identifier]) n fun j => Grammar.statement (f j) := by
  refine .of_fuel (r := fun m _ => Grammar.statement m) f (fun _ => by rw [Grammar.statement])
    (fun _ _ => by rw [Grammar.statement]) ?_
  refine .ifAccept (by simp) (fun m hm => ⟨_, (ih m hm).forStatement _⟩) ?_
  refine .ifAccept (by simp) (fun m hm => ⟨_, (ih m hm).ifStatement _⟩) ?_
  refine .ifAccept (by simp) (fun m _ => ⟨_, predictive_printStatement _⟩) ?_
  refine .accept? (by simp) (fun m _ => ⟨_, predictive_returnStatement _ _⟩) ?_
  refine .ifAccept (by simp) (fun m hm => ⟨_, (ih m hm).whileStatement _⟩) ?_
  refine .ifAccept (by simp) (fun m hm => ⟨_, .bind_pure ((ih m hm).blockBody _)⟩) ?_
  exact predictive_expressionStatement _

theorem forStatement_of_lt (f : κ → Nat) :
    Predictive false NoElse (Upcoming [.leftParen]) n fun j => Grammar.forStatement (f j) := by
  refine .of_fuel (r := fun m _ => Grammar.forStatement m) f (fun _ => by rw [Grammar.forStatement])
    (fun _ _ => by rw [Grammar.forStatement]) ?_
  refine .expect (by decide) rfl ⟨Upcoming [.identifier], ?_⟩
  refine .bind (predictive_forInitializer _) ?_ fun k (h : Upcoming [.semicolon] k) => h
  refine .bind (predictive_optional (by decide) _) ?_ fun _ h => h
  refine .expect (by decide) rfl ⟨Upcoming [.rightParen], ?_⟩
  refine .bind (predictive_optional (by decide) _) ?_ fun _ h => h
  exact .expect (by decide) rfl ⟨_, .bind_pure (statement_of_lt ih _)⟩

/-- An `if` may go on with an `else`, and is complete without one. -/
theorem ifStatement_of_lt (f : κ → Nat) :
    Predictive false NoElse (Upcoming [.leftParen]) n fun j => Grammar.ifStatement (f j) := by
  refine .of_fuel (r := fun m _ => Grammar.ifStatement m) f (fun _ => by rw [Grammar.ifStatement])
    (fun _ _ => by rw [Grammar.ifStatement]) ?_
  refine .expect (by decide) rfl ⟨Upcoming [.identifier], ?_⟩
  refine .bind (predictive_expression _) ?_ (upcoming_of_mem .rightParen (by decide))
  refine .expect (by decide) rfl ⟨Upcoming [.identifier], ?_⟩
  refine .bind_additive (statement_of_lt ih _) (fun _ _ => ?_) ?_ fun _ h => h
  · refine (additive_accept _).bind fun _ => .ite ?_ ((Additive.pure none).bind fun _ => .pure _)
    exact (additiveStatementRules _).statement.map.bind fun _ => .pure _
  · refine .ifAccept (by simp [NoElse]) (fun m hm => ?_) (.bind_pure (predictive_pure _))
    exact ⟨_, .bind_pure (.bind_pure ((ih m hm).statement _))⟩

theorem whileStatement_of_lt (f : κ → Nat) :
    Predictive false NoElse (Upcoming [.leftParen]) n fun j => Grammar.whileStatement (f j) := by
  refine .of_fuel (r := fun m _ => Grammar.whileStatement m) f
    (fun _ => by rw [Grammar.whileStatement]) (fun _ _ => by rw [Grammar.whileStatement]) ?_
  refine .expect (by decide) rfl ⟨Upcoming [.identifier], ?_⟩
  refine .bind (predictive_expression _) ?_ (upcoming_of_mem .rightParen (by decide))
  exact .expect (by decide) rfl ⟨_, .bind_pure (statement_of_lt ih _)⟩

/-- A fatal error in a declaration is caught, and the declaration could have been completed. -/
theorem declaration_of_lt (f : κ → Nat) :
    Predictive false NoElse (Upcoming [.identifier]) n fun j => Grammar.declaration (f j) := by
  refine .of_fuel (r := fun m _ => Grammar.declaration m) f (fun _ => by rw [Grammar.declaration])
    (fun _ _ => by rw [Grammar.declaration]) ?_
  refine .recover (.ifAccept (by simp) (fun m hm => ⟨_, (ih m hm).functionDeclaration _⟩) ?_)
  refine .ifAccept (by simp) (fun m _ => ⟨_, predictive_variableDeclaration _⟩) ?_
  exact statement_of_lt ih _

/-- The end of a block is in front of a brace. -/
theorem blockItems_of_lt (f : κ → Nat) :
    Predictive false (Upcoming [.rightBrace]) (Upcoming [.rightBrace]) n
      fun j => Grammar.blockItems (f j) := by
  refine predictive_items (fun k => k = none ∨ k = some .rightBrace)
    (by rw [Grammar.blockItems]) (fun m => by rw [Grammar.blockItems]) ?_ ?_ ?_
    (fun m => (additiveStatementRules m).blockItems) ?_ (declaration_of_lt ih)
    (fun m hm f => (ih m hm).blockItems f) f
  · rintro m k (rfl | rfl) <;> rfl
  · rintro k ⟨k', hk', rfl⟩
    exact .inr (by simpa using hk')
  · intro m k hk
    split
    · simp at hk
    · simp at hk
    · rfl
  · rintro k ⟨k', hk', rfl⟩
    simp_all [NoElse]

theorem blockBody_of_lt (f : κ → Nat) {follow : Option Kind → Prop} :
    Predictive false follow (Upcoming [.rightBrace]) n fun j => Grammar.blockBody (f j) := by
  refine .of_fuel (r := fun m _ => Grammar.blockBody m) f (fun _ => by rw [Grammar.blockBody])
    (fun _ _ => by rw [Grammar.blockBody]) ?_
  exact .bind_additive (blockItems_of_lt ih _)
    (fun _ _ => (additive_expect _ _).bind fun _ => .pure _) (.expect_pure (by decide) rfl)
    fun _ h => h

theorem functionDeclaration_of_lt (f : κ → Nat) {follow : Option Kind → Prop} :
    Predictive false follow (Upcoming [.identifier]) n
      fun j => Grammar.functionDeclaration (f j) := by
  refine .of_fuel (r := fun m _ => Grammar.functionDeclaration m) f
    (fun _ => by rw [Grammar.functionDeclaration])
    (fun _ _ => by rw [Grammar.functionDeclaration]) ?_
  refine .expect (by decide) rfl ⟨Upcoming [.leftParen], ?_⟩
  refine .expect (by decide) rfl ⟨Upcoming [.rightParen], ?_⟩
  refine .bind (.unlessNext (predictive_parameters _ _)) ?_ fun _ h => h
  refine .expect (by decide) rfl ⟨Upcoming [.leftBrace], ?_⟩
  exact .expect (by decide) rfl ⟨_, .bind_pure (.inFunction (blockBody_of_lt ih _))⟩

end

end PredictiveStatements

/-- The rules for statements decide by the next token. -/
theorem predictiveStatements (n : Nat) : PredictiveStatements n := by
  induction n using Nat.strongRecOn with
  | ind n ih =>
    exact {
      declaration := PredictiveStatements.declaration_of_lt ih
      functionDeclaration := PredictiveStatements.functionDeclaration_of_lt ih
      statement := PredictiveStatements.statement_of_lt ih
      forStatement := PredictiveStatements.forStatement_of_lt ih
      ifStatement := PredictiveStatements.ifStatement_of_lt ih
      whileStatement := PredictiveStatements.whileStatement_of_lt ih
      blockBody := PredictiveStatements.blockBody_of_lt ih
      blockItems := PredictiveStatements.blockItems_of_lt ih }

/-- **Prediction.** The declarations of a program decide by the next token whether they have a fatal
error, and until they do they can be completed. -/
theorem predictive_declarations (f : κ → Nat) :
    Predictive false (· = none) (· = none) n fun j => declarations (f j) := by
  induction n using Nat.strongRecOn generalizing κ with
  | ind n ih =>
    refine predictive_items (· = none) (by rw [declarations])
      (fun m => by rw [declarations]) ?_ (fun _ h => h) ?_ additive_declarations ?_
      (fun f => (predictiveStatements n).declaration f) (fun m hm f => ih m hm f) f
    · rintro m k rfl
      rfl
    · intro m k hk
      cases k with
      | none => simp at hk
      | some k => rfl
    · rintro k rfl
      simp [NoElse]

end Lox.Grammar
