import Lox.Grammar.Program
import Lox.Proofs.Node.Written
import Mathlib.Tactic.Common

/-!
# Readers make written trees

Whatever errors there are, the trees of a program are made of its tokens: a name is an identifier,
an operator is one of its level, and a literal is the value of a token. A reader takes its tokens
from those in front of it, and recovery only drops some of them.

## Main definitions

* `Reader.Makes P Q r`: in front of tokens that satisfy `P` the results of `r` satisfy `Q`
* `MakesExpressions P fuel`, `MakesStatements P fuel`: the rules with this much fuel

## Main results

* `makesExpressions`, `makesStatements`, `makes_declarations`: the rules make written trees
* `written_of_mem_program`: the trees of a program are written
* `written_of_expressionOfScan`: so is the tree of a source that is an expression
-/

namespace Lox.Grammar

variable {α β : Type} {P : Token → Prop}

/-! ## Readers -/

namespace Reader

variable {Q Q' : α → Prop} {r r' : Reader α}

/-- In front of tokens that satisfy `P`, a result satisfies `Q`, and the tokens that are left still
satisfy `P`. -/
def Makes (P : Token → Prop) (Q : α → Prop) (r : Reader α) : Prop :=
  ∀ eof c, (∀ t ∈ c.rest, P t) →
    match r eof c with
    | .done a c' => Q a ∧ ∀ t ∈ c'.rest, P t
    | .failed _ c' => ∀ t ∈ c'.rest, P t
    | .unfinished => True

theorem Makes.mono (h : r.Makes P Q) (hQ : ∀ a, Q a → Q' a) : r.Makes P Q' := by
  intro eof c hc
  have hr := h eof c hc
  cases hx : r eof c with
  | done a d =>
    simp only [hx] at hr ⊢
    exact ⟨hQ a hr.1, hr.2⟩
  | failed e d => simpa only [hx] using hr
  | unfinished => trivial

theorem Makes.pure {a : α} (h : Q a) : (Pure.pure a : Reader α).Makes P Q :=
  fun _ _ hc => ⟨h, hc⟩

theorem Makes.bind {k : α → Reader β} {Q' : β → Prop} (h : r.Makes P Q)
    (hk : ∀ a, Q a → (k a).Makes P Q') : (r >>= k).Makes P Q' := by
  intro eof c hc
  have hr := h eof c hc
  rw [bind_apply]
  cases hx : r eof c with
  | done a d =>
    simp only [hx] at hr
    exact hk a hr.1 eof d hr.2
  | failed e d => simpa only [hx] using hr
  | unfinished => trivial

theorem Makes.ite {b : Prop} [Decidable b] (h : r.Makes P Q) (h' : r'.Makes P Q) :
    (if b then r else r').Makes P Q := by
  split
  · exact h
  · exact h'

/-- What may be missing, and is there. -/
theorem Makes.map_some (h : r.Makes P Q) :
    Makes P (fun o => ∀ a ∈ o, Q a) (do return some (← r)) := by
  refine h.bind fun a ha => .pure ?_
  rintro _ ⟨⟩
  exact ha

/-- What may be missing, and is missing. -/
theorem makes_none : (Pure.pure none : Reader (Option α)).Makes P fun o => ∀ a ∈ o, Q a :=
  .pure (by simp)

end Reader

/-! ## Steps -/

open Reader

variable {Q : α → Prop} {r : Reader α}

theorem makes_unfinished : (unfinished : Reader α).Makes P Q :=
  fun _ _ _ => trivial

theorem makes_nextKind? : nextKind?.Makes P fun _ => True :=
  fun _ _ hc => ⟨trivial, hc⟩

theorem makes_functionDepth : functionDepth.Makes P fun _ => True :=
  fun _ _ hc => ⟨trivial, hc⟩

theorem makes_recordAt (fault : SyntaxFault) (token : Token) :
    (recordAt fault token).Makes P fun _ => True :=
  fun _ _ hc => ⟨trivial, hc⟩

theorem makes_record (fault : SyntaxFault) : (record fault).Makes P fun _ => True :=
  fun _ _ hc => ⟨trivial, hc⟩

theorem makes_fail (fault : SyntaxFault) : (fail fault : Reader α).Makes P Q :=
  fun _ _ hc => hc

/-- A token that is taken is one of those in front of the reader. -/
theorem makes_acceptIf? (wanted : Kind → Bool) :
    (acceptIf? wanted).Makes P fun o => ∀ t ∈ o, P t ∧ wanted t.kind = true := by
  intro eof ⟨rest, d, errors⟩ hc
  cases rest with
  | nil => exact ⟨by simp, hc⟩
  | cons t rest =>
    by_cases hw : wanted t.kind = true
    · simp only [acceptIf?_apply, if_pos hw]
      refine ⟨?_, fun u hu => hc u (List.mem_cons_of_mem t hu)⟩
      rintro u ⟨⟩
      exact ⟨hc t List.mem_cons_self, hw⟩
    · simp only [acceptIf?_apply, if_neg hw]
      exact ⟨by simp, hc⟩

theorem makes_accept? (kind : Kind) :
    (accept? kind).Makes P fun o => ∀ t ∈ o, t.Fits P [kind] := by
  refine (makes_acceptIf? _).mono fun o ho t ht => ?_
  obtain ⟨hP, hk⟩ := ho t ht
  exact ⟨hP, by simpa using hk⟩

theorem makes_accept (kind : Kind) : (accept kind).Makes P fun _ => True :=
  (makes_accept? kind).bind fun _ _ => .pure trivial

theorem makes_expect (kind : Kind) (fault : SyntaxFault) :
    (expect kind fault).Makes P fun t => t.Fits P [kind] := by
  refine (makes_accept? kind).bind fun o ho => ?_
  cases o with
  | none => exact makes_fail fault
  | some t => exact .pure (ho t rfl)

theorem Reader.Makes.unlessNext {kind : Kind} (h : r.Makes P Q) :
    (unlessNext kind r).Makes P fun o => ∀ a ∈ o, Q a := by
  refine (makes_nextKind?.bind fun _ _ => .pure trivial).bind (Q := fun _ => True) fun b _ => ?_
  exact .ite makes_none h.map_some

theorem Reader.Makes.inFunction (h : r.Makes P Q) : (inFunction r).Makes P Q := by
  intro eof c hc
  have hr := h eof { c with functionDepth := c.functionDepth + 1 } hc
  rw [inFunction_apply]
  cases hx : r eof { c with functionDepth := c.functionDepth + 1 } with
  | done a d | failed e d => simpa only [hx] using hr
  | unfinished => trivial

/-- Recovery drops tokens, and takes none. -/
theorem Reader.Makes.recover (h : r.Makes P Q) :
    (recover r).Makes P fun o => ∀ a ∈ o, Q a := by
  intro eof c hc
  have hr := h eof c hc
  rw [recover_apply]
  cases hx : r eof c with
  | done a d =>
    simp only [hx] at hr ⊢
    refine ⟨?_, hr.2⟩
    rintro _ ⟨⟩
    exact hr.1
  | failed e d =>
    simp only [hx] at hr ⊢
    exact ⟨by simp, fun t ht => hr t ((synchronize_suffix d.rest).subset ht)⟩
  | unfinished => trivial

/-- An error may be recorded first. -/
theorem Reader.Makes.noting {b : Prop} [Decidable b] {note : Reader Unit}
    (hn : note.Makes P fun _ => True) (h : r.Makes P Q) :
    (if b then note >>= fun _ => r else r).Makes P Q :=
  .ite (hn.bind fun _ _ => h) h

/-! ## Expressions -/

theorem makes_acceptLiteral? :
    acceptLiteral?.Makes P fun o => ∀ v ∈ o, (Node.lit v).Written P := by
  have hwritten {v : Value} (h : (Node.lit v).Fits P) : (Node.lit v).Written P :=
    Node.written_iff.mpr ⟨h, by simp [Node.parts]⟩
  refine (makes_acceptIf? _).bind fun o ho => ?_
  cases o with
  | none => exact .pure (by simp)
  | some t =>
    refine .pure fun v hv => hwritten ?_
    obtain ⟨hP, hk⟩ := ho t rfl
    unfold literal? at hv
    cases hkind : t.kind <;>
      simp only [hkind, Option.mem_def, Option.some.injEq, reduceCtorEq] at hv
    case falseKw => exact .inr (.inl ⟨false, hv.symm⟩)
    case trueKw => exact .inr (.inl ⟨true, hv.symm⟩)
    case nilKw => exact .inl hv.symm
    case number | string => exact .inr (.inr ⟨t, ⟨hP, by simp [hkind]⟩, hv.symm⟩)

/-- An operation is written if its operator belongs to the level. -/
theorem written_levelNode {level : Level} {left right : Node} {op : Token} (hP : P op)
    (hk : level.holds op.kind = true) (hl : left.Written P) (hr : right.Written P) :
    (level.node left op right).Written P := by
  refine Node.written_iff.mpr ⟨?_, ?_⟩
  · cases level <;> refine ⟨hP, ?_⟩ <;> revert hk <;> cases op.kind <;>
      simp [Level.holds, binaryKinds]
  · cases level <;> simp [Level.node, Node.parts, hl, hr]

/-- The rules for expressions make written trees. -/
structure MakesExpressions (P : Token → Prop) (fuel : Nat) : Prop where
  expression : (expression fuel).Makes P (Node.Written P)
  operation (ls : List Level) : (operation fuel ls).Makes P (Node.Written P)
  operands {left : Node} (h : left.Written P) (l : Level) (ls : List Level) :
    (operands fuel l ls left).Makes P (Node.Written P)
  prefixed : (prefixed fuel).Makes P (Node.Written P)
  calls {callee : Node} (h : callee.Written P) : (calls fuel callee).Makes P (Node.Written P)
  arguments (count : Nat) : (arguments fuel count).Makes P fun es => ∀ e ∈ es, e.Written P
  primary : (primary fuel).Makes P (Node.Written P)

namespace MakesExpressions

variable {fuel : Nat}

theorem succ (ih : MakesExpressions P fuel) : MakesExpressions P (fuel + 1) where
  expression := by
    rw [Grammar.expression]
    refine (ih.operation _).bind fun left hleft => (makes_accept? _).bind fun o _ => ?_
    cases o with
    | none => exact .pure hleft
    | some equals =>
      refine ih.expression.bind fun value hvalue => ?_
      split
      · exact .pure (Node.written_iff.mpr ⟨(Node.written_iff.mp hleft).1, by simpa [Node.parts]⟩)
      · exact (makes_recordAt _ _).bind fun _ _ => .pure hvalue
  operation ls := by
    cases ls with
    | nil => exact ih.prefixed
    | cons l ls => exact (ih.operation ls).bind fun left hleft => ih.operands hleft l ls
  operands hleft l ls := by
    rw [Grammar.operands]
    refine (makes_acceptIf? _).bind fun o ho => ?_
    cases o with
    | none => exact .pure hleft
    | some op =>
      obtain ⟨hP, hk⟩ := ho op rfl
      exact (ih.operation ls).bind fun right hright =>
        ih.operands (written_levelNode hP hk hleft hright) l ls
  prefixed := by
    rw [Grammar.prefixed]
    refine (makes_acceptIf? _).bind fun o ho => ?_
    cases o with
    | some op =>
      obtain ⟨hP, hk⟩ := ho op rfl
      have hop : op.Fits P [.bang, .minus] := by
        refine ⟨hP, ?_⟩
        revert hk
        cases op.kind <;> simp [isUnaryOperator]
      exact ih.prefixed.bind fun e he =>
        .pure (Node.written_iff.mpr ⟨hop, by simpa [Node.parts]⟩)
    | none => exact ih.primary.bind fun callee hcallee => ih.calls hcallee
  calls hcallee := by
    rw [Grammar.calls]
    refine (makes_accept _).bind fun b _ => .ite ?_ (.pure hcallee)
    refine (ih.arguments 0).unlessNext.bind fun o ho => ?_
    refine (makes_expect _ _).bind fun paren hparen => ih.calls ?_
    refine Node.written_iff.mpr ⟨hparen, List.forall_mem_cons.mpr ⟨hcallee, ?_⟩⟩
    cases o with
    | none => simp
    | some es => exact ho es rfl
  arguments count := by
    rw [Grammar.arguments]
    refine .noting (makes_record _) (ih.expression.bind fun e he => ?_)
    refine (makes_accept _).bind fun _ _ => .ite ((ih.arguments _).bind fun es hes => .pure ?_)
      (.pure (by simpa using he))
    exact List.forall_mem_cons.mpr ⟨he, hes⟩
  primary := by
    rw [Grammar.primary]
    refine makes_acceptLiteral?.bind fun o ho => ?_
    cases o with
    | some v => exact .pure (ho v rfl)
    | none =>
      refine (makes_accept? _).bind fun o ho => ?_
      cases o with
      | some name => exact .pure (Node.written_iff.mpr ⟨ho name rfl, by simp [Node.parts]⟩)
      | none =>
        refine (makes_accept _).bind fun _ _ => .ite ?_ (makes_fail _)
        refine ih.expression.bind fun e he => (makes_expect _ _).bind fun _ _ => .pure ?_
        exact Node.written_iff.mpr ⟨trivial, by simpa [Node.parts]⟩

end MakesExpressions

theorem makesExpressions (P : Token → Prop) (fuel : Nat) : MakesExpressions P fuel := by
  induction fuel with
  | zero =>
    constructor <;> intros <;>
      simp only [expression, operation, operands, prefixed, calls, arguments, primary] <;>
      exact makes_unfinished
  | succ fuel ih => exact ih.succ

/-! ## Statements -/

section

variable (fuel : Nat)

theorem makes_parameters (count : Nat) :
    (parameters fuel count).Makes P fun names => ∀ t ∈ names, t.Fits P [.identifier] := by
  induction fuel generalizing count with
  | zero => exact makes_unfinished
  | succ fuel ih =>
    rw [parameters]
    refine .noting (makes_record _) ((makes_expect _ _).bind fun name hname => ?_)
    refine (makes_accept _).bind fun _ _ => .ite ((ih _).bind fun names hnames => .pure ?_)
      (.pure (by simpa using hname))
    exact List.forall_mem_cons.mpr ⟨hname, hnames⟩

theorem makes_expression : (expression fuel).Makes P (Node.Written P) :=
  (makesExpressions P fuel).expression

theorem makes_variableDeclaration : (variableDeclaration fuel).Makes P (Node.Written P) := by
  have hend {name : Token} {o : Option Node} (hname : name.Fits P [.identifier])
      (ho : ∀ e ∈ o, e.Written P) : (Node.varDecl name o).Written P :=
    Node.written_iff.mpr ⟨hname, by simpa [Node.parts] using ho⟩
  refine (makes_expect _ _).bind fun name hname => (makes_accept _).bind fun _ _ => .ite ?_ ?_
  · exact (makes_expression fuel).map_some.bind fun o ho => (makes_expect _ _).bind fun _ _ =>
      .pure (hend hname ho)
  · exact makes_none.bind fun o ho => (makes_expect _ _).bind fun _ _ => .pure (hend hname ho)

theorem makes_expressionStatement : (expressionStatement fuel).Makes P (Node.Written P) :=
  (makes_expression fuel).bind fun _ he => (makes_expect _ _).bind fun _ _ =>
    .pure (Node.written_exprStmt.mpr he)

theorem makes_printStatement : (printStatement fuel).Makes P (Node.Written P) :=
  (makes_expression fuel).bind fun _ he => (makes_expect _ _).bind fun _ _ =>
    .pure (Node.written_iff.mpr ⟨trivial, by simpa [Node.parts] using he⟩)

theorem makes_returnStatement {keyword : Token} (h : keyword.Fits P [.returnKw]) :
    (returnStatement fuel keyword).Makes P (Node.Written P) := by
  refine makes_functionDepth.bind fun _ _ => .noting (makes_recordAt _ _) ?_
  refine (makes_expression fuel).unlessNext.bind fun o ho => (makes_expect _ _).bind fun _ _ => ?_
  exact .pure (Node.written_iff.mpr ⟨h, by simpa [Node.parts] using ho⟩)

theorem makes_forInitializer :
    (forInitializer fuel).Makes P fun o => ∀ s ∈ o, s.Written P := by
  refine (makes_accept _).bind fun _ _ => .ite (.pure (by simp)) ?_
  refine (makes_accept _).bind fun _ _ => .ite ?_ ?_
  · exact (makes_variableDeclaration fuel).bind fun _ hs => .pure (by simpa using hs)
  · exact (makes_expressionStatement fuel).bind fun _ hs => .pure (by simpa using hs)

end

/-- The rules for statements make written trees. -/
structure MakesStatements (P : Token → Prop) (fuel : Nat) : Prop where
  declaration : (declaration fuel).Makes P fun o => ∀ s ∈ o, s.Written P
  functionDeclaration : (functionDeclaration fuel).Makes P (Node.Written P)
  statement : (statement fuel).Makes P (Node.Written P)
  forStatement : (forStatement fuel).Makes P (Node.Written P)
  ifStatement : (ifStatement fuel).Makes P (Node.Written P)
  whileStatement : (whileStatement fuel).Makes P (Node.Written P)
  blockBody : (blockBody fuel).Makes P fun ss => ∀ s ∈ ss, s.Written P
  blockItems : (blockItems fuel).Makes P fun ss => ∀ s ∈ ss, s.Written P

namespace MakesStatements

variable {fuel : Nat}

theorem succ (ih : MakesStatements P fuel) : MakesStatements P (fuel + 1) where
  declaration := by
    rw [Grammar.declaration]
    refine Makes.recover ((makes_accept _).bind fun _ _ => .ite ih.functionDeclaration ?_)
    exact (makes_accept _).bind fun _ _ => .ite (makes_variableDeclaration fuel) ih.statement
  functionDeclaration := by
    rw [Grammar.functionDeclaration]
    refine (makes_expect _ _).bind fun name hname => (makes_expect _ _).bind fun _ _ => ?_
    refine (makes_parameters fuel 0).unlessNext.bind fun o ho => ?_
    refine (makes_expect _ _).bind fun _ _ => (makes_expect _ _).bind fun _ _ => ?_
    refine ih.blockBody.inFunction.bind fun body hbody => .pure ?_
    refine Node.written_iff.mpr ⟨List.forall_mem_cons.mpr ⟨hname, ?_⟩, hbody⟩
    cases o with
    | none => simp
    | some names => exact ho names rfl
  statement := by
    rw [Grammar.statement]
    refine (makes_accept _).bind fun _ _ => .ite ih.forStatement ?_
    refine (makes_accept _).bind fun _ _ => .ite ih.ifStatement ?_
    refine (makes_accept _).bind fun _ _ => .ite (makes_printStatement fuel) ?_
    refine (makes_accept? _).bind fun o ho => ?_
    cases o with
    | some keyword => exact makes_returnStatement fuel (ho keyword rfl)
    | none =>
      refine (makes_accept _).bind fun _ _ => .ite ih.whileStatement ?_
      refine (makes_accept _).bind fun _ _ => .ite ?_ (makes_expressionStatement fuel)
      exact ih.blockBody.bind fun _ hss => .pure (Node.written_block.mpr hss)
  forStatement := by
    rw [Grammar.forStatement]
    have clause (kind : Kind) :
        (unlessNext kind (expression fuel)).Makes P fun o => ∀ e ∈ o, e.Written P :=
      (makes_expression fuel).unlessNext
    refine (makes_expect _ _).bind fun _ _ => (makes_forInitializer fuel).bind fun i hi => ?_
    refine (clause _).bind fun c hc => (makes_expect _ _).bind fun _ _ => ?_
    refine (clause _).bind fun e he => (makes_expect _ _).bind fun _ _ => ?_
    exact ih.statement.bind fun b hb => .pure (Node.written_forLoop hi hc he hb)
  ifStatement := by
    rw [Grammar.ifStatement]
    refine (makes_expect _ _).bind fun _ _ => (makes_expression fuel).bind fun c hc => ?_
    refine (makes_expect _ _).bind fun _ _ => ih.statement.bind fun t ht => ?_
    have hend {o : Option Node} (ho : ∀ e ∈ o, e.Written P) : (Node.ifStmt c t o).Written P :=
      Node.written_iff.mpr ⟨trivial, by simpa [Node.parts] using ⟨hc, ht, ho⟩⟩
    refine (makes_accept _).bind fun _ _ => .ite ?_ ?_
    · exact ih.statement.map_some.bind fun o ho => .pure (hend ho)
    · exact makes_none.bind fun o ho => .pure (hend ho)
  whileStatement := by
    rw [Grammar.whileStatement]
    refine (makes_expect _ _).bind fun _ _ => (makes_expression fuel).bind fun c hc => ?_
    exact (makes_expect _ _).bind fun _ _ => ih.statement.bind fun b hb =>
      .pure (Node.written_whileStmt.mpr ⟨hc, hb⟩)
  blockBody := by
    rw [Grammar.blockBody]
    exact ih.blockItems.bind fun _ hss => (makes_expect _ _).bind fun _ _ => .pure hss
  blockItems := by
    rw [Grammar.blockItems]
    refine makes_nextKind?.bind fun k _ => ?_
    split
    · exact .pure (by simp)
    · exact .pure (by simp)
    · refine ih.declaration.bind fun o ho => ih.blockItems.bind fun ss hss => .pure ?_
      exact List.forall_mem_append.mpr ⟨by simpa using ho, hss⟩

end MakesStatements

theorem makesStatements (P : Token → Prop) (fuel : Nat) : MakesStatements P fuel := by
  induction fuel with
  | zero =>
    constructor <;>
      simp only [declaration, functionDeclaration, statement, forStatement, ifStatement,
        whileStatement, blockBody, blockItems] <;>
      exact makes_unfinished
  | succ fuel ih => exact ih.succ

theorem makes_declarations (fuel : Nat) :
    (declarations fuel).Makes P fun ss => ∀ s ∈ ss, s.Written P := by
  induction fuel with
  | zero => exact makes_unfinished
  | succ fuel ih =>
    rw [declarations]
    refine makes_nextKind?.bind fun k _ => ?_
    cases k with
    | none => exact .pure (by simp)
    | some k =>
      refine (makesStatements P fuel).declaration.bind fun o ho => ih.bind fun ss hss => .pure ?_
      exact List.forall_mem_append.mpr ⟨by simpa using ho, hss⟩

/-! ## Sources -/

variable {s : TokenStream}

/-- **Written programs.** Whatever errors there are, the trees of a program are written. -/
theorem written_of_mem_program {n : Node} (hP : ∀ t ∈ s.tokens, P t)
    (hn : n ∈ (parse s).program) : n.Written P := by
  have h := makes_declarations (fuelFor s.tokens) s.eof (start s.tokens) hP
  unfold parse at hn
  cases hr : declarations (fuelFor s.tokens) s.eof (start s.tokens) with
  | done ns c =>
    simp only [hr] at h hn
    exact h.1 n hn
  | failed e c | unfinished => simp [hr] at hn

theorem makes_wholeExpression (fuel : Nat) : (wholeExpression fuel).Makes P (Node.Written P) := by
  refine (makes_expression fuel).bind fun e he => makes_nextKind?.bind fun k _ => ?_
  cases k with
  | none => exact .pure he
  | some k => exact makes_fail _

/-- The tree of a source that is an expression is written. -/
theorem written_of_expressionOfScan {scan : Scan} {n : Node} (hP : ∀ t ∈ scan.stream.tokens, P t)
    (hn : expressionOfScan scan = .ok n) : n.Written P := by
  have h := makes_wholeExpression (fuelFor scan.stream.tokens) scan.stream.eof
    (start scan.stream.tokens) hP
  unfold expressionOfScan parseExpression at hn
  split at hn
  · simp at hn
  cases hr : wholeExpression (fuelFor scan.stream.tokens) scan.stream.eof
      (start scan.stream.tokens) with
  | done e c =>
    simp only [hr] at h
    obtain rfl : e = n := by simpa [hr, Except.mapError] using hn
    exact h.1
  | failed e c | unfinished => simp [hr, Except.mapError] at hn

end Lox.Grammar
