import Lox.Proofs.Evaluation.Frame
import Lox.Proofs.Grammar.ExpressionStatement

/-!
# Where declarations stand

The branches of an `if` and the bodies of loops are statements, and no declarations, so a
declaration stands in a block, in the body of a function, or at the top level of a program. What a
program declares at its top level is therefore seen from its statements one by one: a statement that
is no declaration declares nothing in the scope in which it is executed. That holds whatever errors
there are in the source, for the trees that survive recovery.

## Main definitions

* `Node.declaration? s`: the name that `s` declares, if it is a declaration
* `PlainRules fuel`: the rules for statements, none of which declares anything in its scope

## Main results

* `plain_statement`: statements declare nothing in their own scope
* `declared_of_mem_parse`: nor do the statements of a program that are no declarations
-/

namespace Lox

/-- The name that a declaration declares. Other statements are no declarations. -/
def Node.declaration? : Node → Option String
  | varDecl name _ | funcDecl name _ _ => some name.lexeme
  | _ => none

/-- What the clauses of a `for` loop declare is declared in a block. -/
theorem Node.declared_forLoop (i c e : Option Node) {b : Node} (hb : b.declared = []) :
    (Node.forLoop i c e b).declared = [] := by
  cases i <;> cases e <;> simp [Node.forLoop, Node.declared, hb]

namespace Grammar

open Reader

variable {α β : Type} {P P' : α → Prop} {Q : β → Prop} {r : Reader α} {next : α → Reader β}

/-! ## Results of readers -/

namespace Reader.Yields

theorem mono (h : r.Yields P) (hP : ∀ a, P a → P' a) : r.Yields P' :=
  fun eof c a c' hr => hP a (h eof c a c' hr)

/-- Unlike `bind`, with what is known of the result of the first reader. -/
theorem andThen (h : r.Yields P) (hn : ∀ a, P a → (next a).Yields Q) : (r >>= next).Yields Q := by
  intro eof c b c' hb
  obtain ⟨a, d, ha, hb⟩ := bind_eq_done_iff.mp hb
  exact hn a (h eof c a d ha) eof d b c' hb

theorem recover (h : r.Yields P) : (Grammar.recover r).Yields fun o => ∀ a ∈ o, P a := by
  intro eof c o c' ho
  rw [recover_apply] at ho
  cases hr : r eof c with
  | done a d =>
    simp only [hr] at ho
    cases ho
    rintro _ ⟨⟩
    exact h eof c a c' hr
  | failed e d =>
    simp only [hr] at ho
    cases ho
    simp
  | unfinished =>
    simp only [hr] at ho
    cases ho

end Reader.Yields

theorem yields_unfinished : (unfinished : Reader α).Yields P :=
  fun _ _ _ _ h => nomatch h

/-! ## Statements -/

theorem plain_returnStatement (fuel : Nat) (keyword : Token) :
    (returnStatement fuel keyword).Yields fun s => s.declared = [] := by
  have hend : Reader.Yields (fun s : Node => s.declared = []) (do
      let value ← unlessNext .semicolon (expression fuel)
      let _ ← expect .semicolon .semicolonAfterReturnValue
      return .returnStmt keyword value) :=
    .bind fun _ => .bind fun _ => .pure rfl
  exact .bind fun _ => .ite (.bind fun _ => hend) hend

/-- The rules for statements, with this fuel, return none that declares anything in its scope. -/
structure PlainRules (fuel : Nat) : Prop where
  statement : (statement fuel).Yields fun s => s.declared = []
  forStatement : (forStatement fuel).Yields fun s => s.declared = []
  ifStatement : (ifStatement fuel).Yields fun s => s.declared = []
  whileStatement : (whileStatement fuel).Yields fun s => s.declared = []

namespace PlainRules

variable {fuel : Nat}

theorem statement_succ (ih : PlainRules fuel) :
    (Grammar.statement (fuel + 1)).Yields fun s => s.declared = [] := by
  rw [Grammar.statement]
  refine .bind fun _ => .ite ih.forStatement (.bind fun _ => .ite ih.ifStatement ?_)
  refine .bind fun _ => .ite (.bind fun _ => .bind fun _ => .pure rfl) (.bind fun keyword => ?_)
  split
  · exact plain_returnStatement fuel _
  · refine .bind fun _ => .ite ih.whileStatement (.bind fun _ => .ite ?_ ?_)
    · exact .bind fun _ => .pure rfl
    · exact .bind fun _ => .bind fun _ => .pure rfl

theorem forStatement_succ (ih : PlainRules fuel) :
    (Grammar.forStatement (fuel + 1)).Yields fun s => s.declared = [] := by
  rw [Grammar.forStatement]
  refine .bind fun _ => .bind fun i => .bind fun c =>
    .bind fun _ => .bind fun e => .bind fun _ => ?_
  exact ih.statement.andThen fun b hb => .pure (Node.declared_forLoop i c e hb)

theorem ifStatement_succ (ih : PlainRules fuel) :
    (Grammar.ifStatement (fuel + 1)).Yields fun s => s.declared = [] := by
  rw [Grammar.ifStatement]
  refine .bind fun _ => .bind fun c => .bind fun _ =>
    ih.statement.andThen fun t ht => .bind fun b => ?_
  split
  · rw [Reader.map_bind]
    refine ih.statement.andThen fun e he => .pure ?_
    simp [Node.declared, ht, he]
  · refine Yields.andThen (P := (· = none)) (.pure rfl) fun o ho => .pure ?_
    simp [Node.declared, ht, ho]

theorem whileStatement_succ (ih : PlainRules fuel) :
    (Grammar.whileStatement (fuel + 1)).Yields fun s => s.declared = [] := by
  rw [Grammar.whileStatement]
  refine .bind fun _ => .bind fun c => .bind fun _ =>
    ih.statement.andThen fun b hb => .pure ?_
  simpa [Node.declared] using hb

end PlainRules

theorem plainRules (fuel : Nat) : PlainRules fuel := by
  induction fuel with
  | zero => constructor <;> exact yields_unfinished
  | succ fuel ih =>
    exact {
      statement := ih.statement_succ
      forStatement := ih.forStatement_succ
      ifStatement := ih.ifStatement_succ
      whileStatement := ih.whileStatement_succ }

/-- A statement declares nothing in the scope in which it is executed. -/
theorem plain_statement (fuel : Nat) : (statement fuel).Yields fun s => s.declared = [] :=
  (plainRules fuel).statement

/-! ## Declarations -/

theorem named_functionDeclaration (fuel : Nat) :
    (functionDeclaration fuel).Yields fun s => s.declaration?.isSome := by
  cases fuel with
  | zero => exact yields_unfinished
  | succ fuel =>
    rw [functionDeclaration]
    exact .bind fun _ => .bind fun _ => .bind fun _ =>
      .bind fun _ => .bind fun _ => .bind fun _ => .pure rfl

theorem named_variableDeclaration (fuel : Nat) :
    (variableDeclaration fuel).Yields fun s => s.declaration?.isSome := by
  have hend (name : Token) (o : Option Node) : Reader.Yields
      (fun s : Node => s.declaration?.isSome = true) (do
      let _ ← expect .semicolon .semicolonAfterVariable
      return .varDecl name o) :=
    .bind fun _ => .pure rfl
  exact .bind fun name => .bind fun _ => .ite (.bind fun _ => hend name _) (hend name none)

/-- What is read as a declaration or a statement is one, or declares nothing in its scope. -/
theorem plain_declaration (fuel : Nat) :
    (declaration fuel).Yields fun o => ∀ s ∈ o, s.declaration? = none → s.declared = [] := by
  have hmono {s : Node} (hs : s.declaration?.isSome) (hn : s.declaration? = none) :
      s.declared = [] := by simp [hn] at hs
  cases fuel with
  | zero => exact yields_unfinished
  | succ fuel =>
    rw [declaration]
    refine Yields.recover (.bind fun _ => .ite ?_ (.bind fun _ => .ite ?_ ?_))
    · exact (named_functionDeclaration fuel).mono fun _ => hmono
    · exact (named_variableDeclaration fuel).mono fun _ => hmono
    · exact (plain_statement fuel).mono fun _ hs _ => hs

theorem plain_declarations (fuel : Nat) :
    (declarations fuel).Yields fun ss => ∀ s ∈ ss, s.declaration? = none → s.declared = [] := by
  induction fuel with
  | zero => exact yields_unfinished
  | succ fuel ih =>
    rw [declarations]
    refine .bind fun k => ?_
    split
    · exact .pure (by simp)
    · refine (plain_declaration fuel).andThen fun o ho => ih.andThen fun ss hss => .pure ?_
      intro s hs
      rcases List.mem_append.mp hs with hs | hs
      · exact ho s (Option.mem_toList.mp hs)
      · exact hss s hs

/-- **Where declarations stand.** A statement of a program that is no declaration declares nothing
in the scope in which it is executed. -/
theorem declared_of_mem_parse {s : TokenStream} {n : Node} (hn : n ∈ (parse s).program)
    (hd : n.declaration? = none) : n.declared = [] := by
  unfold parse at hn
  split at hn
  · rename_i program c hr
    exact plain_declarations _ _ _ _ _ hr n hn hd
  · exact absurd hn List.not_mem_nil
  · exact absurd hn List.not_mem_nil

end Grammar

end Lox
