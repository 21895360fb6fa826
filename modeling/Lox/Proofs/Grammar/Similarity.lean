import Lox.Grammar.Program
import Lox.Proofs.Node.Relabel

/-!
# Rules that are made of similar steps

Two sorts of steps may do the same thing in different ways: to tokens that stand somewhere else, to
a list of tokens or to a position in it. If the steps correspond to each other, in a sense that is
kept when they are put together, then so do the rules that are made of them.

The correspondence is a relation between what is done on either side, together with a function that
takes the results of one side to those of the other. A token is taken to one that reads the same. In
an expression no semicolon is read and only two sorts of errors are recorded, so its rules ask less
of the correspondence than those of statements; and a declaration is only begun in front of a token,
so recovery needs to correspond there only.

## Main definitions

* `SimilarExpressionSteps f k k' R`: the steps `k` and `k'` that expressions are made of correspond
* `SimilarSteps f k k' R A`: so do all of them, with the relation `A` in front of a token

## Main results

* `similarExpressionRules`: the rules for expressions that are made of similar steps correspond
* `similarStatementRules`, `SimilarSteps.declarations`: so do those for statements, and programs
-/

namespace Lox.Grammar

/-- What is done on either side may depend on the same condition. -/
theorem related_ite {m m' : Type → Type} {R : ∀ {α β : Type}, (α → β) → m α → m' β → Prop}
    {α β : Type} {g : α → β} {b : Prop} [Decidable b] {x x' : m α} {y y' : m' β} (h : R g x y)
    (h' : R g x' y') : R g (if b then x else x') (if b then y else y') := by
  split
  · exact h
  · exact h'

variable {m m' : Type → Type} [Monad m] [Monad m']

/-- The steps that expressions are made of correspond to each other, and so does what is put
together from steps that correspond. -/
structure SimilarExpressionSteps (f : Token → Token) (k : Steps m) (k' : Steps m')
    (R : ∀ {α β : Type}, (α → β) → m α → m' β → Prop) : Prop where
  pure {α β : Type} (g : α → β) (a : α) : R g (pure a) (pure (g a))
  bind {α β γ δ : Type} {g : α → β} {g' : γ → δ} {x : m α} {y : m' β} {h : α → m γ}
    {h' : β → m' δ} : R g x y → (∀ a, R g' (h a) (h' (g a))) → R g' (x >>= h) (y >>= h')
  unfinished {α β : Type} (g : α → β) : R g k.unfinished k'.unfinished
  acceptIf? {wanted : Kind → Bool} (h : wanted .semicolon = false) :
    R (Option.map f) (k.acceptIf? wanted) (k'.acceptIf? wanted)
  check {kind : Kind} (h : kind ≠ .semicolon) : R id (@check m _ k kind) (@check m' _ k' kind)
  recordTarget (t : Token) :
    R id (k.recordAt .invalidTarget t) (k'.recordAt .invalidTarget (f t))
  recordArguments : R id (k.record .tooManyArguments) (k'.record .tooManyArguments)
  fail {α β : Type} (g : α → β) {fault : SyntaxFault} (h : fault.isFatal = true) :
    R g (k.fail fault) (k'.fail fault)

namespace SimilarExpressionSteps

variable {f : Token → Token} {k : Steps m} {k' : Steps m'}
  {R : ∀ {α β : Type}, (α → β) → m α → m' β → Prop} {α β : Type} {g : α → β}

variable (hR : SimilarExpressionSteps f k k' R)

include hR

theorem accept? {kind : Kind} (hk : kind ≠ .semicolon) :
    R (Option.map f) (@Grammar.accept? m k kind) (@Grammar.accept? m' k' kind) :=
  hR.acceptIf? (by simpa using hk.symm)

/-- What is done next may depend on whether a token is accepted. -/
theorem ifAccepted {kind : Kind}
    (ha : R (Option.map f) (@Grammar.accept? m k kind) (@Grammar.accept? m' k' kind))
    {x x' : m α} {y y' : m' β} (h : R g x y) (h' : R g x' y') :
    R g (do if ← @accept m _ k kind then x else x')
      (do if ← @accept m' _ k' kind then y else y') := by
  refine hR.bind (g := id) (hR.bind ha fun o => ?_) fun b => related_ite h h'
  cases o with
  | none => exact hR.pure id false
  | some t => exact hR.pure id true

theorem expected {kind : Kind}
    (ha : R (Option.map f) (@Grammar.accept? m k kind) (@Grammar.accept? m' k' kind))
    {fault : SyntaxFault} (hf : fault.isFatal = true) :
    R f (@Grammar.expect m _ k kind fault) (@Grammar.expect m' _ k' kind fault) := by
  refine hR.bind ha fun o => ?_
  cases o with
  | none => exact hR.fail f hf
  | some t => exact hR.pure f t

theorem unlessFound {kind : Kind}
    (hc : R id (@Grammar.check m _ k kind) (@Grammar.check m' _ k' kind)) {x : m α} {y : m' β}
    (h : R g x y) :
    R (Option.map g) (@Grammar.unlessNext m _ k _ kind x) (@Grammar.unlessNext m' _ k' _ kind y) :=
  hR.bind hc fun _ =>
    related_ite (hR.pure _ none) (hR.bind h fun a => hR.pure (Option.map g) (some a))

/-- An error may be recorded first. -/
theorem noting {b : Prop} [Decidable b] {x : m α} {y : m' β} {note : m PUnit} {note' : m' PUnit}
    (hn : R id note note') (h : R g x y) :
    R g (if b then note >>= fun _ => x else x) (if b then note' >>= fun _ => y else y) :=
  related_ite (hR.bind hn fun _ => h) h

theorem acceptLiteral? (hf : Relabels f) :
    R id (@Grammar.acceptLiteral? m _ k) (@Grammar.acceptLiteral? m' _ k') := by
  refine hR.bind (hR.acceptIf? rfl) fun o => ?_
  cases o with
  | none => exact hR.pure id none
  | some t =>
    have ht : literal? (f t) = literal? t := by simp only [literal?, hf.kind, hf.literal]
    show R id (Pure.pure (literal? t)) (Pure.pure (literal? (f t)))
    rw [ht]
    exact hR.pure id (literal? t)

end SimilarExpressionSteps

theorem Level.relabel_node (f : Token → Token) (level : Level) (l r : Node) (op : Token) :
    (level.node l op r).relabel f = level.node (l.relabel f) (f op) (r.relabel f) := by
  cases level <;> simp [Level.node, Node.relabel]

/-! ## Expressions -/

/-- The rules for expressions that are made of the steps correspond to each other. -/
structure SimilarExpressionRules (f : Token → Token) (k : Steps m) (k' : Steps m')
    (R : ∀ {α β : Type}, (α → β) → m α → m' β → Prop) (fuel : Nat) : Prop where
  expression : R (Node.relabel f) (@expression m _ k fuel) (@expression m' _ k' fuel)
  operation (ls : List Level) :
    R (Node.relabel f) (@operation m _ k fuel ls) (@operation m' _ k' fuel ls)
  operands (l : Level) (ls : List Level) (e : Node) :
    R (Node.relabel f) (@operands m _ k fuel l ls e) (@operands m' _ k' fuel l ls (e.relabel f))
  prefixed : R (Node.relabel f) (@prefixed m _ k fuel) (@prefixed m' _ k' fuel)
  calls (e : Node) : R (Node.relabel f) (@calls m _ k fuel e) (@calls m' _ k' fuel (e.relabel f))
  arguments (count : Nat) :
    R (List.map (Node.relabel f)) (@arguments m _ k fuel count) (@arguments m' _ k' fuel count)
  primary : R (Node.relabel f) (@primary m _ k fuel) (@primary m' _ k' fuel)

variable {f : Token → Token} {k : Steps m} {k' : Steps m'}
  {R A : ∀ {α β : Type}, (α → β) → m α → m' β → Prop}

namespace SimilarExpressionRules

variable {fuel : Nat}

theorem succ (ih : SimilarExpressionRules f k k' R fuel) (hR : SimilarExpressionSteps f k k' R)
    (hf : Relabels f) : SimilarExpressionRules f k k' R (fuel + 1) where
  expression := by
    refine hR.bind (ih.operation _) fun left => hR.bind (hR.accept? (by decide)) fun o => ?_
    cases o with
    | none => exact hR.pure _ left
    | some equals =>
      refine hR.bind ih.expression fun value => ?_
      have hother : R (Node.relabel f) (k.recordAt .invalidTarget equals >>= fun _ => pure value)
          (k'.recordAt .invalidTarget (f equals) >>= fun _ => pure (value.relabel f)) :=
        hR.bind (hR.recordTarget equals) fun _ => hR.pure _ value
      cases left with
      | ident name => exact hR.pure (Node.relabel f) (.assign name value)
      | varDecl _ o | returnStmt _ o | ifStmt _ _ o => cases o <;> exact hother
      | _ => exact hother
  operation ls := by
    cases ls with
    | nil => exact ih.prefixed
    | cons l ls => exact hR.bind (ih.operation ls) fun left => ih.operands l ls left
  operands l ls e := by
    refine hR.bind (hR.acceptIf? (by cases l <;> rfl)) fun o => ?_
    cases o with
    | none => exact hR.pure _ e
    | some operator =>
      refine hR.bind (ih.operation ls) fun right => ?_
      exact Level.relabel_node f l e right operator ▸ ih.operands l ls (l.node e operator right)
  prefixed := by
    refine hR.bind (hR.acceptIf? rfl) fun o => ?_
    cases o with
    | some operator =>
      exact hR.bind ih.prefixed fun e => hR.pure (Node.relabel f) (.unary operator e)
    | none => exact hR.bind ih.primary fun callee => ih.calls callee
  calls e := by
    refine hR.ifAccepted (hR.accept? (by decide)) ?_ (hR.pure _ e)
    refine hR.bind (hR.unlessFound (hR.check (by decide)) (ih.arguments 0)) fun o => ?_
    refine hR.bind (hR.expected (hR.accept? (by decide)) rfl) fun paren => ?_
    have hargs : (o.map (List.map (Node.relabel f))).getD [] =
        (o.getD []).map (Node.relabel f) := by cases o <;> rfl
    rw [hargs]
    simpa only [Node.relabel, Node.relabelAll_eq_map] using ih.calls (.call e paren (o.getD []))
  arguments count := by
    refine hR.noting hR.recordArguments (hR.bind ih.expression fun e => ?_)
    refine hR.ifAccepted (hR.accept? (by decide)) ?_ (hR.pure _ [e])
    exact hR.bind (ih.arguments _) fun es => hR.pure (List.map (Node.relabel f)) (e :: es)
  primary := by
    refine hR.bind (hR.acceptLiteral? hf) fun o => ?_
    cases o with
    | some v => exact hR.pure (Node.relabel f) (.lit v)
    | none =>
      refine hR.bind (hR.accept? (by decide)) fun o => ?_
      cases o with
      | some name => exact hR.pure (Node.relabel f) (.ident name)
      | none =>
        refine hR.ifAccepted (hR.accept? (by decide)) ?_ (hR.fail _ rfl)
        refine hR.bind ih.expression fun e => ?_
        refine hR.bind (hR.expected (hR.accept? (by decide)) rfl) fun _ => ?_
        exact hR.pure (Node.relabel f) (.group e)

end SimilarExpressionRules

/-- **The rules for expressions** that are made of similar steps correspond to each other. -/
theorem similarExpressionRules (hR : SimilarExpressionSteps f k k' R) (hf : Relabels f)
    (fuel : Nat) : SimilarExpressionRules f k k' R fuel := by
  induction fuel with
  | zero =>
    constructor <;> intros <;> exact hR.unfinished _
  | succ fuel ih => exact ih.succ hR hf

/-! ## Statements -/

/-- All steps correspond to each other, and so does what is put together from steps that
correspond. Where a token is left, the relation `A` is enough. -/
structure SimilarSteps (f : Token → Token) (k : Steps m) (k' : Steps m')
    (R A : ∀ {α β : Type}, (α → β) → m α → m' β → Prop) : Prop
    extends SimilarExpressionSteps f k k' R where
  acceptAny (wanted : Kind → Bool) : R (Option.map f) (k.acceptIf? wanted) (k'.acceptIf? wanted)
  recordReturn (t : Token) :
    R id (k.recordAt .topLevelReturn t) (k'.recordAt .topLevelReturn (f t))
  recordParameters : R id (k.record .tooManyParameters) (k'.record .tooManyParameters)
  functionDepth : R id k.functionDepth k'.functionDepth
  inFunction {α β : Type} {g : α → β} {x : m α} {y : m' β} :
    R g x y → R g (k.inFunction x) (k'.inFunction y)
  recover {α β : Type} {g : α → β} {x : m α} {y : m' β} :
    R g x y → A (Option.map g) (k.recover x) (k'.recover y)
  ahead {α β : Type} {g : α → β} {x : m α} {y : m' β} : R g x y → A g x y
  bindAhead {α β γ δ : Type} {g : α → β} {g' : γ → δ} {x : m α} {y : m' β} {h : α → m γ}
    {h' : β → m' δ} : A g x y → (∀ a, R g' (h a) (h' (g a))) → A g' (x >>= h) (y >>= h')
  branch {α β : Type} {g : α → β} {h : Option Kind → m α} {h' : Option Kind → m' β} :
    R g (h none) (h' none) → (∀ kind, A g (h (some kind)) (h' (some kind))) →
      R g (k.nextKind? >>= h) (k'.nextKind? >>= h')

namespace SimilarSteps

variable {α β : Type} {g : α → β}

section

variable (hR : SimilarSteps f k k' R A)

include hR

theorem accept? (kind : Kind) :
    R (Option.map f) (@Grammar.accept? m k kind) (@Grammar.accept? m' k' kind) :=
  hR.acceptAny _

theorem ifAccept {kind : Kind} {x x' : m α} {y y' : m' β} (h : R g x y) (h' : R g x' y') :
    R g (do if ← @accept m _ k kind then x else x') (do if ← @accept m' _ k' kind then y else y') :=
  hR.ifAccepted (hR.accept? kind) h h'

theorem expect (kind : Kind) {fault : SyntaxFault} (hf : fault.isFatal = true) :
    R f (@Grammar.expect m _ k kind fault) (@Grammar.expect m' _ k' kind fault) :=
  hR.expected (hR.accept? kind) hf

theorem unlessNext {kind : Kind} {x : m α} {y : m' β} (h : R g x y) :
    R (Option.map g) (@Grammar.unlessNext m _ k _ kind x) (@Grammar.unlessNext m' _ k' _ kind y) :=
  hR.unlessFound (hR.branch (hR.pure id _) fun _ => hR.ahead (hR.pure id _)) h

/-- Something comes after a token of the kind, or it is not there. -/
theorem ifPresent {γ δ : Type} {g' : γ → δ} {kind : Kind} {x : m α} {y : m' β}
    {h : Option α → m γ} {h' : Option β → m' δ} (hx : R g x y)
    (hh : ∀ o, R g' (h o) (h' (o.map g))) :
    R g' (do if ← @accept m _ k kind then (do return some (← x)) >>= h else pure none >>= h)
      (do if ← @accept m' _ k' kind then (do return some (← y)) >>= h' else pure none >>= h') :=
  hR.ifAccept (hR.bind (hR.bind hx fun a => hR.pure (Option.map g) (some a)) hh)
    (hR.bind (hR.pure (Option.map g) none) hh)

end

end SimilarSteps

section

variable (hR : SimilarSteps f k k' R A) (hf : Relabels f) (fuel : Nat)

include hR

theorem similar_parameters (count : Nat) :
    R (List.map f) (@parameters m _ k fuel count) (@parameters m' _ k' fuel count) := by
  induction fuel generalizing count with
  | zero => exact hR.unfinished _
  | succ fuel ih =>
    refine hR.noting hR.recordParameters (hR.bind (hR.expect _ rfl) fun name => ?_)
    refine hR.ifAccept ?_ (hR.pure (List.map f) [name])
    exact hR.bind (ih _) fun names => hR.pure (List.map f) (name :: names)

include hf

theorem similar_expression :
    R (Node.relabel f) (@expression m _ k fuel) (@expression m' _ k' fuel) :=
  (similarExpressionRules hR.toSimilarExpressionSteps hf fuel).expression

theorem similar_variableDeclaration :
    R (Node.relabel f) (@variableDeclaration m _ k fuel) (@variableDeclaration m' _ k' fuel) := by
  refine hR.bind (hR.expect _ rfl) fun name => ?_
  refine hR.ifPresent (similar_expression hR hf fuel) fun o => ?_
  refine hR.bind (hR.expect _ rfl) fun _ => ?_
  rw [← Node.relabel_varDecl]
  exact hR.pure _ _

theorem similar_expressionStatement :
    R (Node.relabel f) (@expressionStatement m _ k fuel) (@expressionStatement m' _ k' fuel) :=
  hR.bind (similar_expression hR hf fuel) fun e =>
    hR.bind (hR.expect _ rfl) fun _ => hR.pure (Node.relabel f) (.exprStmt e)

theorem similar_printStatement :
    R (Node.relabel f) (@printStatement m _ k fuel) (@printStatement m' _ k' fuel) :=
  hR.bind (similar_expression hR hf fuel) fun e =>
    hR.bind (hR.expect _ rfl) fun _ => hR.pure (Node.relabel f) (.printStmt e)

theorem similar_returnStatement (keyword : Token) :
    R (Node.relabel f) (@returnStatement m _ k fuel keyword)
      (@returnStatement m' _ k' fuel (f keyword)) := by
  refine hR.bind hR.functionDepth fun _ => hR.noting (hR.recordReturn keyword) ?_
  refine hR.bind (hR.unlessNext (similar_expression hR hf fuel)) fun o =>
    hR.bind (hR.expect _ rfl) fun _ => ?_
  rw [← Node.relabel_returnStmt]
  exact hR.pure _ _

theorem similar_forInitializer :
    R (Option.map (Node.relabel f)) (@forInitializer m _ k fuel)
      (@forInitializer m' _ k' fuel) := by
  refine hR.ifAccept (hR.pure _ none) (hR.ifAccept ?_ ?_)
  · exact hR.bind (similar_variableDeclaration hR hf fuel) fun s =>
      hR.pure (Option.map (Node.relabel f)) (some s)
  · exact hR.bind (similar_expressionStatement hR hf fuel) fun s =>
      hR.pure (Option.map (Node.relabel f)) (some s)

end

/-- The rules for statements that are made of the steps correspond to each other. -/
structure SimilarStatementRules (f : Token → Token) (k : Steps m) (k' : Steps m')
    (R A : ∀ {α β : Type}, (α → β) → m α → m' β → Prop) (fuel : Nat) : Prop where
  declaration :
    A (Option.map (Node.relabel f)) (@declaration m _ k fuel) (@declaration m' _ k' fuel)
  functionDeclaration :
    R (Node.relabel f) (@functionDeclaration m _ k fuel) (@functionDeclaration m' _ k' fuel)
  statement : R (Node.relabel f) (@statement m _ k fuel) (@statement m' _ k' fuel)
  forStatement : R (Node.relabel f) (@forStatement m _ k fuel) (@forStatement m' _ k' fuel)
  ifStatement : R (Node.relabel f) (@ifStatement m _ k fuel) (@ifStatement m' _ k' fuel)
  whileStatement : R (Node.relabel f) (@whileStatement m _ k fuel) (@whileStatement m' _ k' fuel)
  blockBody : R (List.map (Node.relabel f)) (@blockBody m _ k fuel) (@blockBody m' _ k' fuel)
  blockItems : R (List.map (Node.relabel f)) (@blockItems m _ k fuel) (@blockItems m' _ k' fuel)

/-- One declaration, in front of a token, and then others. -/
theorem SimilarSteps.items (hR : SimilarSteps f k k' R A) {x : m (Option Node)}
    {y : m' (Option Node)} {xs : m (List Node)} {ys : m' (List Node)}
    (h : A (Option.map (Node.relabel f)) x y) (hs : R (List.map (Node.relabel f)) xs ys) :
    A (List.map (Node.relabel f)) (do let item ← x; return item.toList ++ (← xs))
      (do let item ← y; return item.toList ++ (← ys)) := by
  refine hR.bindAhead h fun o => hR.bind hs fun ns => ?_
  have happend : (o.map (Node.relabel f)).toList ++ ns.map (Node.relabel f) =
      (o.toList ++ ns).map (Node.relabel f) := by cases o <;> simp
  rw [happend]
  exact hR.pure _ _

namespace SimilarStatementRules

variable {fuel : Nat}

theorem succ (ih : SimilarStatementRules f k k' R A fuel) (hR : SimilarSteps f k k' R A)
    (hf : Relabels f) : SimilarStatementRules f k k' R A (fuel + 1) where
  declaration := by
    refine hR.recover (hR.ifAccept ih.functionDeclaration (hR.ifAccept ?_ ih.statement))
    exact similar_variableDeclaration hR hf fuel
  functionDeclaration := by
    refine hR.bind (hR.expect _ rfl) fun name => hR.bind (hR.expect _ rfl) fun _ => ?_
    refine hR.bind (hR.unlessNext (similar_parameters hR fuel 0)) fun o => ?_
    refine hR.bind (hR.expect _ rfl) fun _ => hR.bind (hR.expect _ rfl) fun _ => ?_
    refine hR.bind (hR.inFunction ih.blockBody) fun body => ?_
    have hnames : (o.map (List.map f)).getD [] = (o.getD []).map f := by cases o <;> rfl
    have hdecl : (Node.funcDecl name (o.getD []) body).relabel f =
        .funcDecl (f name) ((o.getD []).map f) (body.map (Node.relabel f)) := by
      simp [Node.relabel]
    rw [hnames, ← hdecl]
    exact hR.pure _ _
  statement := by
    refine hR.ifAccept ih.forStatement (hR.ifAccept ih.ifStatement (hR.ifAccept ?_ ?_))
    · exact similar_printStatement hR hf fuel
    refine hR.bind (hR.accept? _) fun o => ?_
    cases o with
    | some keyword => exact similar_returnStatement hR hf fuel keyword
    | none =>
      refine hR.ifAccept ih.whileStatement (hR.ifAccept ?_ ?_)
      · refine hR.bind ih.blockBody fun ss => ?_
        have hblock : (Node.block ss).relabel f = .block (ss.map (Node.relabel f)) := by
          simp [Node.relabel]
        rw [← hblock]
        exact hR.pure _ _
      · exact similar_expressionStatement hR hf fuel
  forStatement := by
    have clause (kind : Kind) : R (Option.map (Node.relabel f))
        (@Grammar.unlessNext m _ k _ kind (@expression m _ k fuel))
        (@Grammar.unlessNext m' _ k' _ kind (@expression m' _ k' fuel)) :=
      hR.unlessNext (similar_expression hR hf fuel)
    refine hR.bind (hR.expect _ rfl) fun _ => ?_
    refine hR.bind (similar_forInitializer hR hf fuel) fun initializer => ?_
    refine hR.bind (clause _) fun condition => hR.bind (hR.expect _ rfl) fun _ => ?_
    refine hR.bind (clause _) fun increment => hR.bind (hR.expect _ rfl) fun _ => ?_
    refine hR.bind ih.statement fun body => ?_
    rw [← Node.relabel_forLoop]
    exact hR.pure _ _
  ifStatement := by
    refine hR.bind (hR.expect _ rfl) fun _ => ?_
    refine hR.bind (similar_expression hR hf fuel) fun condition => ?_
    refine hR.bind (hR.expect _ rfl) fun _ => hR.bind ih.statement fun thenBranch => ?_
    refine hR.ifPresent ih.statement fun elseBranch => ?_
    show R (Node.relabel f) (pure (.ifStmt condition thenBranch elseBranch))
      (pure (.ifStmt (condition.relabel f) (thenBranch.relabel f)
        (elseBranch.map (Node.relabel f))))
    rw [← Node.relabel_ifStmt]
    exact hR.pure _ _
  whileStatement := by
    refine hR.bind (hR.expect _ rfl) fun _ => ?_
    refine hR.bind (similar_expression hR hf fuel) fun condition => ?_
    refine hR.bind (hR.expect _ rfl) fun _ => hR.bind ih.statement fun body => ?_
    exact hR.pure (Node.relabel f) (.whileStmt condition body)
  blockBody := by
    exact hR.bind ih.blockItems fun ss => hR.bind (hR.expect _ rfl) fun _ => hR.pure _ ss
  blockItems := by
    have hitems := hR.items ih.declaration ih.blockItems
    refine hR.branch (hR.pure _ []) fun kind => ?_
    by_cases hk : kind = .rightBrace
    · subst hk
      exact hR.ahead (hR.pure _ [])
    · split
      · rename_i h
        simp at h
      · rename_i h
        exact absurd (Option.some.inj h) hk
      · exact hitems

end SimilarStatementRules

/-- **The rules for statements** that are made of similar steps correspond to each other. -/
theorem similarStatementRules (hR : SimilarSteps f k k' R A) (hf : Relabels f) (fuel : Nat) :
    SimilarStatementRules f k k' R A fuel := by
  induction fuel with
  | zero =>
    refine ⟨hR.ahead ?_, ?_, ?_, ?_, ?_, ?_, ?_, ?_⟩ <;> exact hR.unfinished _
  | succ fuel ih => exact ih.succ hR hf

/-- **Programs** that are read in similar steps correspond to each other. -/
theorem SimilarSteps.declarations (hR : SimilarSteps f k k' R A) (hf : Relabels f) (fuel : Nat) :
    R (List.map (Node.relabel f)) (@declarations m _ k fuel) (@declarations m' _ k' fuel) := by
  induction fuel with
  | zero => exact hR.unfinished _
  | succ fuel ih =>
    refine hR.branch (hR.pure _ []) fun kind => ?_
    exact hR.items (similarStatementRules hR hf fuel).declaration ih

/-- So do sources that are one expression. -/
theorem SimilarSteps.wholeExpression (hR : SimilarSteps f k k' R A) (hf : Relabels f)
    (fuel : Nat) :
    R (Node.relabel f) (@wholeExpression m _ k fuel) (@wholeExpression m' _ k' fuel) := by
  refine hR.bind (similar_expression hR hf fuel) fun e => ?_
  exact hR.branch (hR.pure _ e) fun _ => hR.ahead (hR.fail _ rfl)

end Lox.Grammar
