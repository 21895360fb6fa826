import Lox.Proofs.Grammar.Declares
import Lox.Proofs.Grammar.Policing
import Lox.Proofs.Token.Munch

/-!
# `return`s outside of functions

The rules of the grammar, with what each of them records of the `return`s that it reads. The depth
of function bodies is not the same for all rules: the body of a function is read one level deeper
than the function itself, so the rules for statements are taken together for all depths.

## Main definitions

* `PolicingExpressionRules d fuel`, `PolicingStatementRules d fuel`: the rules with this much fuel,
  inside of `d` functions

## Main results

* `policingExpressionRules`, `policingStatementRules`: the rules leave the right errors
* `returns_are_policed`: the errors of a source and the `return`s in its trees
-/

namespace Lox.Grammar

open Reader

variable {d : Nat}

/-! ## Expressions -/

/-- What the rules for expressions read. -/
structure PolicingExpressionRules (d fuel : Nat) : Prop where
  expression : (expression fuel).Polices d [] Node.returnSites
  operation (ls : List Level) : (operation fuel ls).Polices d [] Node.returnSites
  operands (l : Level) (ls : List Level) (left : Node) :
    (operands fuel l ls left).Polices d left.returnSites Node.returnSites
  prefixed : (prefixed fuel).Polices d [] Node.returnSites
  calls (callee : Node) : (calls fuel callee).Polices d callee.returnSites Node.returnSites
  arguments (count : Nat) : (arguments fuel count).Polices d [] Node.allReturnSites
  primary : (primary fuel).Polices d [] Node.returnSites

theorem returnSites_levelNode (level : Level) (left : Node) (op : Token) (right : Node) :
    (level.node left op right).returnSites = left.returnSites ++ right.returnSites := by
  cases level <;> simp [Level.node, Node.returnSites]

namespace PolicingExpressionRules

variable {fuel : Nat}

theorem succ (ih : PolicingExpressionRules d fuel) : PolicingExpressionRules d (fuel + 1) where
  expression := by
    rw [Grammar.expression]
    refine (ih.operation _).bind fun left => (polices_accept? _).andThen fun o => ?_
    cases o with
    | none => exact .pure (by simp)
    | some equals =>
      refine ih.expression.bind fun value => ?_
      split
      · exact .pure (by simp [Node.returnSites])
      · exact (polices_recordAt (by simp) _).andThen fun _ => .pure (by simp)
  operation ls := by
    cases ls with
    | nil => exact ih.prefixed
    | cons l ls => exact (ih.operation ls).bind fun left => ih.operands l ls left
  operands l ls left := by
    rw [Grammar.operands]
    refine (polices_acceptIf? _).andThen fun o => ?_
    cases o with
    | none => exact .pure (List.Subset.refl _)
    | some operator =>
      refine (ih.operation ls).bind fun right => (ih.operands l ls _).mono ?_
      rw [returnSites_levelNode]
      exact List.Subset.refl _
  prefixed := by
    rw [Grammar.prefixed]
    refine (polices_acceptIf? _).andThen fun o => ?_
    cases o with
    | some operator => exact ih.prefixed.bind fun _ => .pure (by simp [Node.returnSites])
    | none => exact ih.primary.bind fun callee => ih.calls callee
  calls callee := by
    rw [Grammar.calls]
    refine (polices_accept _).andThen fun b => .ite ?_ (.pure (List.Subset.refl _))
    refine (ih.arguments 0).unlessNext.bind fun o => ?_
    refine (polices_expect _ (by simp)).andThen fun _ => (ih.calls _).mono ?_
    cases o <;> simp [Node.returnSites, Node.allReturnSites]
  arguments count := by
    rw [Grammar.arguments]
    refine .noting (polices_record (by simp)) (ih.expression.bind fun _ => ?_)
    refine (polices_accept _).andThen fun _ => .ite ?_ (.pure (by simp [Node.allReturnSites]))
    exact (ih.arguments _).bind fun _ => .pure (by simp [Node.allReturnSites])
  primary := by
    rw [Grammar.primary]
    refine polices_acceptLiteral?.andThen fun o => ?_
    cases o with
    | some v => exact .pure (by simp [Node.returnSites])
    | none =>
      refine (polices_accept? _).andThen fun o => ?_
      cases o with
      | some name => exact .pure (by simp [Node.returnSites])
      | none =>
        refine (polices_accept _).andThen fun _ => .ite ?_ (polices_fail (by simp))
        exact ih.expression.bind fun _ => (polices_expect _ (by simp)).andThen fun _ =>
          .pure (by simp [Node.returnSites])

end PolicingExpressionRules

theorem policingExpressionRules (d fuel : Nat) : PolicingExpressionRules d fuel := by
  induction fuel with
  | zero =>
    constructor <;> intros <;>
      simp only [expression, operation, operands, prefixed, calls, arguments, primary] <;>
      exact polices_unfinished
  | succ fuel ih => exact ih.succ

/-! ## Statements -/

section

variable (d fuel : Nat)

theorem polices_expression : (expression fuel).Polices d [] Node.returnSites :=
  (policingExpressionRules d fuel).expression

theorem polices_parameters (count : Nat) : (parameters fuel count).Polices d [] fun _ => [] := by
  induction fuel generalizing count with
  | zero => exact polices_unfinished
  | succ fuel ih =>
    rw [parameters]
    refine .noting (polices_record (by simp)) ((polices_expect _ (by simp)).andThen fun _ => ?_)
    refine (polices_accept _).andThen fun _ => .ite ?_ (.pure (List.Subset.refl _))
    exact (ih _).andThen fun _ => .pure (List.Subset.refl _)

theorem polices_variableDeclaration :
    (variableDeclaration fuel).Polices d [] Node.returnSites := by
  refine (polices_expect _ (by simp)).andThen fun _ => ?_
  refine (polices_accept _).andThen fun _ => .ite ?_ ?_
  · rw [Reader.map_bind]
    refine (polices_expression d fuel).bind fun _ => ?_
    exact (polices_expect _ (by simp)).andThen fun _ => .pure (by simp [Node.returnSites])
  · exact .pure_bind ((polices_expect _ (by simp)).andThen fun _ =>
      .pure (by simp [Node.returnSites]))

theorem polices_expressionStatement :
    (expressionStatement fuel).Polices d [] Node.returnSites :=
  (polices_expression d fuel).bind fun _ => (polices_expect _ (by simp)).andThen fun _ =>
    .pure (by simp [Node.returnSites])

theorem polices_printStatement : (printStatement fuel).Polices d [] Node.returnSites :=
  (polices_expression d fuel).bind fun _ => (polices_expect _ (by simp)).andThen fun _ =>
    .pure (by simp [Node.returnSites])

theorem polices_forInitializer :
    (forInitializer fuel).Polices d [] fun o => o.elim [] Node.returnSites := by
  refine (polices_accept _).andThen fun _ => .ite (.pure (List.Subset.refl _)) ?_
  refine (polices_accept _).andThen fun _ => .ite ?_ ?_
  · exact (polices_variableDeclaration d fuel).bind fun _ => .pure (List.Subset.refl _)
  · exact (polices_expressionStatement d fuel).bind fun _ => .pure (List.Subset.refl _)

end

/-- What the rules for statements read. -/
structure PolicingStatementRules (d fuel : Nat) : Prop where
  declaration : (declaration fuel).Polices d [] fun o => o.elim [] Node.returnSites
  functionDeclaration : (functionDeclaration fuel).Polices d [] Node.returnSites
  statement : (statement fuel).Polices d [] Node.returnSites
  forStatement : (forStatement fuel).Polices d [] Node.returnSites
  ifStatement : (ifStatement fuel).Polices d [] Node.returnSites
  whileStatement : (whileStatement fuel).Polices d [] Node.returnSites
  blockBody : (blockBody fuel).Polices d [] Node.allReturnSites
  blockItems : (blockItems fuel).Polices d [] Node.allReturnSites

/-- A declaration, if it can be read, and those after it. -/
theorem polices_items {item : Reader (Option Node)} {items : Reader (List Node)}
    (h : item.Polices d [] fun o => o.elim [] Node.returnSites)
    (h' : items.Polices d [] Node.allReturnSites) :
    (do
      let o ← item
      return o.toList ++ (← items)).Polices d [] Node.allReturnSites := by
  refine h.bind fun o => h'.bind fun ss => .pure ?_
  cases o <;> simp [Node.allReturnSites]

namespace PolicingStatementRules

variable {fuel : Nat}

/-- The depth is part of what is said of the rules, and a function body is read one level deeper. -/
theorem succ (ih : ∀ d, PolicingStatementRules d fuel) (d : Nat) :
    PolicingStatementRules d (fuel + 1) where
  declaration := by
    rw [Grammar.declaration]
    refine Polices.recover ((polices_accept _).andThen fun _ => .ite (ih d).functionDeclaration ?_)
    exact (polices_accept _).andThen fun _ =>
      .ite (polices_variableDeclaration d fuel) (ih d).statement
  functionDeclaration := by
    rw [Grammar.functionDeclaration]
    refine (polices_expect _ (by simp)).andThen fun name => ?_
    refine (polices_expect _ (by simp)).andThen fun _ => ?_
    refine (polices_parameters d fuel 0).unlessNext.bind fun params => ?_
    refine (polices_expect _ (by simp)).andThen fun _ => ?_
    refine (polices_expect _ (by simp)).andThen fun _ => ?_
    exact (polices_inFunction (ih (d + 1)).blockBody).bind fun _ =>
      .pure (by simp [Node.returnSites])
  statement := by
    rw [Grammar.statement]
    refine (polices_accept _).andThen fun _ => .ite (ih d).forStatement ?_
    refine (polices_accept _).andThen fun _ => .ite (ih d).ifStatement ?_
    refine (polices_accept _).andThen fun _ => .ite (polices_printStatement d fuel) ?_
    refine polices_return (polices_expression d fuel) ?_
    refine (polices_accept _).andThen fun _ => .ite (ih d).whileStatement ?_
    refine (polices_accept _).andThen fun _ => .ite ?_ (polices_expressionStatement d fuel)
    exact (ih d).blockBody.bind fun _ => .pure (by simp [Node.returnSites])
  forStatement := by
    rw [Grammar.forStatement]
    refine (polices_expect _ (by simp)).andThen fun _ => ?_
    refine (polices_forInitializer d fuel).bind fun i => ?_
    refine (polices_expression d fuel).unlessNext.bind fun c => ?_
    refine (polices_expect _ (by simp)).andThen fun _ => ?_
    refine (polices_expression d fuel).unlessNext.bind fun e => ?_
    refine (polices_expect _ (by simp)).andThen fun _ => ?_
    refine (ih d).statement.bind fun b => .pure fun r hr => ?_
    simpa [or_assoc] using Node.mem_returnSites_forLoop.mp hr
  ifStatement := by
    rw [Grammar.ifStatement]
    refine (polices_expect _ (by simp)).andThen fun _ => ?_
    refine (polices_expression d fuel).bind fun _ => ?_
    refine (polices_expect _ (by simp)).andThen fun _ => (ih d).statement.bind fun _ => ?_
    refine (polices_accept _).andThen fun _ => .ite ?_ ?_
    · rw [Reader.map_bind]
      exact (ih d).statement.bind fun _ => .pure (by simp [Node.returnSites])
    · exact .pure_bind (.pure (by simp [Node.returnSites]))
  whileStatement := by
    rw [Grammar.whileStatement]
    refine (polices_expect _ (by simp)).andThen fun _ => ?_
    refine (polices_expression d fuel).bind fun _ => ?_
    refine (polices_expect _ (by simp)).andThen fun _ => (ih d).statement.bind fun _ => ?_
    exact .pure (by simp [Node.returnSites])
  blockBody := by
    rw [Grammar.blockBody]
    refine (ih d).blockItems.bind fun _ => (polices_expect _ (by simp)).andThen fun _ => ?_
    exact .pure (by simp)
  blockItems := by
    rw [Grammar.blockItems]
    refine polices_nextKind?.andThen fun k => ?_
    split
    · exact .pure (by simp [Node.allReturnSites])
    · exact .pure (by simp [Node.allReturnSites])
    · exact polices_items (ih d).declaration (ih d).blockItems

end PolicingStatementRules

theorem policingStatementRules (d fuel : Nat) : PolicingStatementRules d fuel := by
  induction fuel generalizing d with
  | zero =>
    constructor <;>
      simp only [declaration, functionDeclaration, statement, forStatement, ifStatement,
        whileStatement, blockBody, blockItems] <;>
      exact polices_unfinished
  | succ fuel ih => exact .succ ih d

theorem polices_declarations (d fuel : Nat) :
    (declarations fuel).Polices d [] Node.allReturnSites := by
  induction fuel with
  | zero => exact polices_unfinished
  | succ fuel ih =>
    rw [declarations]
    refine polices_nextKind?.andThen fun k => ?_
    cases k with
    | none => exact .pure (by simp [Node.allReturnSites])
    | some k => exact polices_items (policingStatementRules d fuel).declaration ih

/-! ## Sources -/

theorem SyntaxFault.message_eq_topLevelReturn_iff {fault : SyntaxFault} :
    fault.message = SyntaxFault.topLevelReturn.message ↔ fault = .topLevelReturn := by
  cases fault <;> decide

/-- Nothing is recorded at the start of a source, and its tokens are in order. -/
theorem fresh_start (source : String) : (start (scan source).stream.tokens).Fresh where
  ordered := (cut_scanChars source.toList).tokens_pairwise
  unflagged _ _ := by simp [Cursor.Flags, start]

/-- **The errors about `return`s.** Reading a source ends outside of all functions. Whatever errors
there are, a `return` in the trees that are read lies in a function body exactly if no diagnostic
says of its keyword that it does not. -/
theorem returns_are_policed (source : String) :
    ∃ c, declarations (fuelFor (scan source).stream.tokens) (scan source).stream.eof
        (start (scan source).stream.tokens) = .done (parseSource source).parse.program c ∧
      c.functionDepth = 0 ∧
      ∀ n ∈ (parseSource source).parse.program, ∀ r ∈ n.returnSites,
        (r.inBody = true ↔ ∀ d ∈ (parseSource source).parseDiagnostics,
          ¬(d.message = "Can't return from top-level code." ∧
            d.offset = some (r.keyword.offset : Int))) := by
  obtain ⟨program, c, hr⟩ :=
    exists_declarations_fuelFor (scan source).stream.tokens (scan source).stream.eof
  have hparse : (parseSource source).parse = ⟨program, c.errors.reverse⟩ := by
    simp only [parseSource, parse, hr]
  have h := polices_declarations 0 (fuelFor (scan source).stream.tokens) (scan source).stream.eof
    _ (fresh_start source) rfl (Cursor.polices_nil _)
  rw [hr] at h
  obtain ⟨hl, hp⟩ := h
  have hdepth : c.functionDepth = 0 := hl.depth
  have hflags (offset : Nat) : c.Flags offset ↔ ∃ d ∈ (parseSource source).parseDiagnostics,
      d.message = "Can't return from top-level code." ∧ d.offset = some (offset : Int) := by
    simp only [SourceParse.parseDiagnostics, hparse, List.mem_map, List.mem_reverse]
    constructor
    · rintro ⟨e, he, hf, ho⟩
      exact ⟨_, ⟨e, he, rfl⟩, congrArg SyntaxFault.message hf,
        congrArg (fun n : Nat => some (n : Int)) ho⟩
    · rintro ⟨_, ⟨e, he, rfl⟩, hm, ho⟩
      exact ⟨e, he, SyntaxFault.message_eq_topLevelReturn_iff.mp hm,
        Int.ofNat.inj (Option.some.inj ho)⟩
  rw [hparse]
  refine ⟨c, hr, hdepth, fun n hn r hr => ?_⟩
  have hf := (hp r (Node.mem_allReturnSites.mpr ⟨n, hn, hr⟩)).2
  rw [hflags] at hf
  simp only [hdepth, and_true] at hf
  rw [← Bool.not_eq_false, ← hf]
  simp only [not_exists, not_and]

/-- The head of the second function is broken, so what was its body is not in a function. -/
theorem returns_are_policed_broken_head :
    let p := parseSource "func f() \x7b return; \x7d func g( \x7b return; \x7d"
    (Node.allReturnSites p.parse.program).map (fun r => (r.keyword.offset, r.inBody)) =
        [(11, true), (31, false)] ∧
      ∃ d ∈ p.parseDiagnostics,
        d.message = "Can't return from top-level code." ∧ d.offset = some 31 := by
  intro p
  have hsites : (Node.allReturnSites p.parse.program).map
      (fun r => (r.keyword.offset, r.inBody)) = [(11, true), (31, false)] := by decide +kernel
  refine ⟨hsites, ?_⟩
  obtain ⟨c, -, -, h⟩ :=
    returns_are_policed "func f() \x7b return; \x7d func g( \x7b return; \x7d"
  have hr : (31, false) ∈ (Node.allReturnSites p.parse.program).map
      (fun r => (r.keyword.offset, r.inBody)) := by simp [hsites]
  obtain ⟨r, hr, heq⟩ := List.mem_map.mp hr
  obtain ⟨ho, hb⟩ := Prod.mk.inj heq
  obtain ⟨n, hn, hr⟩ := Node.mem_allReturnSites.mp hr
  by_contra hnone
  have hin := (h n hn r hr).mpr fun d hd hm => hnone ⟨d, hd, hm.1, by rw [hm.2, ho]; rfl⟩
  exact absurd hin (by simp [hb])

end Lox.Grammar
