import Lox.Grammar.Basic
import Lox.Node.Printer
import Lox.Proofs.Node.Induction

/-!
# Well-formed trees

A tree may hold a node of any form in any place. In a well-formed one there are expressions where
expressions belong and statements where statements belong, every operator is one that the form of
its node has, and every literal is a value that can be written.

Apart from that, some well-formed trees are not legal: a call may have too many arguments, and a
`return` may stand outside of all functions.

## Main definitions

* `Node.IsExpression P`, `Node.IsStatement P`: well-formed trees all of whose tokens satisfy `P`
* `Node.Legal inFunction`: the limits of a tree

## Main results

* `Node.isStatement_forLoop`, `Node.legal_forLoop`: the tree of a `for` loop
-/

namespace Lox

/-- A value that a literal can have. -/
def Value.IsPlain : Value → Prop
  | .nil | .bool _ | .number _ | .string _ => True
  | _ => False

/-- The kinds of the operators of binary nodes. -/
def binaryKinds : List Kind :=
  [.bangEqual, .equalEqual, .greater, .greaterEqual, .less, .lessEqual, .minus, .plus, .slash,
    .star]

namespace Node

/-! ## Expressions and statements -/

section

variable (P : Token → Prop)

mutual

/-- The node is a well-formed expression, and its tokens satisfy `P`. -/
def IsExpression : Node → Prop
  | lit v => v.IsPlain
  | group e => e.IsExpression
  | unary op e => P op ∧ (op.kind = .bang ∨ op.kind = .minus) ∧ e.IsExpression
  | binary l op r => P op ∧ op.kind ∈ binaryKinds ∧ l.IsExpression ∧ r.IsExpression
  | logical l op r =>
    P op ∧ (op.kind = .orKw ∨ op.kind = .andKw) ∧ l.IsExpression ∧ r.IsExpression
  | ident name => P name
  | assign name e => P name ∧ e.IsExpression
  | call callee paren arguments =>
    P paren ∧ callee.IsExpression ∧ AllExpressions arguments
  | _ => False

/-- The nodes are well-formed expressions. -/
def AllExpressions : List Node → Prop
  | [] => True
  | e :: es => e.IsExpression ∧ AllExpressions es

end

mutual

/-- The node is a well-formed statement or declaration, and its tokens satisfy `P`. -/
def IsStatement : Node → Prop
  | exprStmt e | printStmt e => e.IsExpression P
  | varDecl name none => P name
  | varDecl name (some e) => P name ∧ e.IsExpression P
  | block ss => AllStatements ss
  | ifStmt c t none => c.IsExpression P ∧ t.IsStatement
  | ifStmt c t (some e) => c.IsExpression P ∧ t.IsStatement ∧ e.IsStatement
  | whileStmt c b => c.IsExpression P ∧ b.IsStatement
  | funcDecl name params body => P name ∧ (∀ p ∈ params, P p) ∧ AllStatements body
  | returnStmt keyword none => P keyword
  | returnStmt keyword (some e) => P keyword ∧ e.IsExpression P
  | _ => False

/-- The nodes are well-formed statements or declarations. -/
def AllStatements : List Node → Prop
  | [] => True
  | s :: ss => s.IsStatement ∧ AllStatements ss

end

end

variable {P : Token → Prop}

theorem allExpressions_iff {es : List Node} :
    AllExpressions P es ↔ ∀ e ∈ es, e.IsExpression P := by
  induction es with
  | nil => simp [AllExpressions]
  | cons e es ih => simp [AllExpressions, ih]

theorem allStatements_iff {ss : List Node} :
    AllStatements P ss ↔ ∀ s ∈ ss, s.IsStatement P := by
  induction ss with
  | nil => simp [AllStatements]
  | cons s ss ih => simp [AllStatements, ih]

theorem allStatements_append {ss ts : List Node} :
    AllStatements P (ss ++ ts) ↔ AllStatements P ss ∧ AllStatements P ts := by
  simp only [allStatements_iff, List.mem_append, or_imp, forall_and]

/-- Less may be asked of the tokens of a well-formed expression. -/
theorem IsExpression.mono {Q : Token → Prop} (hPQ : ∀ t, P t → Q t) {e : Node}
    (h : e.IsExpression P) : e.IsExpression Q := by
  induction e using Node.induct with
  | lit v => simpa only [IsExpression] using h
  | group e ih =>
    rw [IsExpression] at h ⊢
    exact ih h
  | unary op e ih =>
    rw [IsExpression] at h ⊢
    exact ⟨hPQ op h.1, h.2.1, ih h.2.2⟩
  | binary l op r ihl ihr | logical l op r ihl ihr =>
    rw [IsExpression] at h ⊢
    exact ⟨hPQ op h.1, h.2.1, ihl h.2.2.1, ihr h.2.2.2⟩
  | ident name =>
    rw [IsExpression] at h ⊢
    exact hPQ name h
  | assign name e ih =>
    rw [IsExpression] at h ⊢
    exact ⟨hPQ name h.1, ih h.2⟩
  | call callee paren es ihc ihs =>
    rw [IsExpression, allExpressions_iff] at h ⊢
    exact ⟨hPQ paren h.1, ihc h.2.1, fun e he => ihs e he (h.2.2 e he)⟩
  | _ => simp only [IsExpression] at h

/-- Less may be asked of the tokens of a well-formed statement. -/
theorem IsStatement.mono {Q : Token → Prop} (hPQ : ∀ t, P t → Q t) {s : Node}
    (h : s.IsStatement P) : s.IsStatement Q := by
  induction s using Node.induct with
  | exprStmt e | printStmt e =>
    rw [IsStatement] at h ⊢
    exact h.mono hPQ
  | varDecl name o =>
    cases o with
    | none =>
      rw [IsStatement] at h ⊢
      exact hPQ name h
    | some e =>
      rw [IsStatement] at h ⊢
      exact ⟨hPQ name h.1, h.2.mono hPQ⟩
  | block ss ih =>
    rw [IsStatement, allStatements_iff] at h ⊢
    exact fun s hs => ih s hs (h s hs)
  | ifStmt c t o _ iht ihe =>
    cases o with
    | none =>
      rw [IsStatement] at h ⊢
      exact ⟨h.1.mono hPQ, iht h.2⟩
    | some e =>
      rw [IsStatement] at h ⊢
      exact ⟨h.1.mono hPQ, iht h.2.1, ihe e rfl h.2.2⟩
  | whileStmt c b _ ih =>
    rw [IsStatement] at h ⊢
    exact ⟨h.1.mono hPQ, ih h.2⟩
  | funcDecl name params body ih =>
    rw [IsStatement, allStatements_iff] at h ⊢
    exact ⟨hPQ name h.1, fun p hp => hPQ p (h.2.1 p hp), fun s hs => ih s hs (h.2.2 s hs)⟩
  | returnStmt keyword o =>
    cases o with
    | none =>
      rw [IsStatement] at h ⊢
      exact hPQ keyword h
    | some e =>
      rw [IsStatement] at h ⊢
      exact ⟨hPQ keyword h.1, h.2.mono hPQ⟩
  | _ => simp only [IsStatement] at h

/-- The tree of a `for` loop is a statement if its parts are what they should be. -/
theorem isStatement_forLoop {i c e : Option Node} {b : Node} (hi : ∀ n ∈ i, n.IsStatement P)
    (hc : ∀ n ∈ c, n.IsExpression P) (he : ∀ n ∈ e, n.IsExpression P) (hb : b.IsStatement P) :
    (forLoop i c e b).IsStatement P := by
  have h : (c.getD (lit (.bool true))).IsExpression P := by
    cases c with
    | none => trivial
    | some c => exact hc c rfl
  cases i <;> cases e <;> simp_all [forLoop, IsStatement, AllStatements]

theorem printAll_of_forall {es : List Node} (h : ∀ e ∈ es, ∃ s, e.print = .ok s) :
    ∃ ss, printAll es = .ok ss := by
  induction es with
  | nil => exact ⟨[], by rw [printAll]; rfl⟩
  | cons e es ih =>
    obtain ⟨s, hs⟩ := h e List.mem_cons_self
    obtain ⟨ss, hss⟩ := ih fun e he => h e (List.mem_cons_of_mem _ he)
    exact ⟨s :: ss, by rw [printAll, hs, hss]; rfl⟩

/-- A well-formed expression can be printed. -/
theorem IsExpression.print {e : Node} (h : e.IsExpression P) : ∃ s, e.print = .ok s := by
  induction e using Node.induct with
  | lit v =>
    rw [IsExpression] at h
    rw [Node.print]
    cases v with
    | bool b => cases b <;> exact ⟨_, rfl⟩
    | nil | number _ | string _ => exact ⟨_, rfl⟩
    | _ => exact h.elim
  | group e ih =>
    rw [IsExpression] at h
    obtain ⟨s, hs⟩ := ih h
    exact ⟨_, by rw [Node.print, hs]; rfl⟩
  | unary op e ih =>
    rw [IsExpression] at h
    obtain ⟨s, hs⟩ := ih h.2.2
    exact ⟨_, by rw [Node.print, hs]; rfl⟩
  | binary l op r ihl ihr | logical l op r ihl ihr =>
    rw [IsExpression] at h
    obtain ⟨s, hs⟩ := ihl h.2.2.1
    obtain ⟨t, ht⟩ := ihr h.2.2.2
    exact ⟨_, by rw [Node.print, hs, ht]; rfl⟩
  | ident name => exact ⟨_, by rw [Node.print]; rfl⟩
  | assign name e ih =>
    rw [IsExpression] at h
    obtain ⟨s, hs⟩ := ih h.2
    exact ⟨_, by rw [Node.print, hs]; rfl⟩
  | call callee paren es ihc ihs =>
    rw [IsExpression, allExpressions_iff] at h
    obtain ⟨s, hs⟩ := ihc h.2.1
    obtain ⟨ss, hss⟩ := printAll_of_forall fun e he => ihs e he (h.2.2 e he)
    exact ⟨_, by rw [Node.print, hs, hss]; rfl⟩
  | _ => simp only [IsExpression] at h

/-! ## Limits -/

mutual

/-- No call has too many arguments, no function has too many parameters, and every `return` lies
inside a function body. The flag says whether the node does. -/
def Legal (inFunction : Bool) : Node → Prop
  | lit _ | ident _ | stray _ | varDecl _ none => True
  | group e | unary _ e | assign _ e | exprStmt e | printStmt e | varDecl _ (some e) =>
    e.Legal inFunction
  | binary l _ r | logical l _ r => l.Legal inFunction ∧ r.Legal inFunction
  | call callee _ arguments =>
    arguments.length ≤ Grammar.maxArguments ∧ callee.Legal inFunction ∧
      AllLegal inFunction arguments
  | block ss => AllLegal inFunction ss
  | ifStmt c t none => c.Legal inFunction ∧ t.Legal inFunction
  | ifStmt c t (some e) => c.Legal inFunction ∧ t.Legal inFunction ∧ e.Legal inFunction
  | whileStmt c b => c.Legal inFunction ∧ b.Legal inFunction
  | funcDecl _ params body => params.length ≤ Grammar.maxArguments ∧ AllLegal true body
  | returnStmt _ none => inFunction
  | returnStmt _ (some e) => inFunction ∧ e.Legal inFunction

/-- All of the nodes are legal. -/
def AllLegal (inFunction : Bool) : List Node → Prop
  | [] => True
  | n :: ns => n.Legal inFunction ∧ AllLegal inFunction ns

end

variable {inFunction : Bool}

theorem allLegal_iff {ns : List Node} :
    AllLegal inFunction ns ↔ ∀ n ∈ ns, n.Legal inFunction := by
  induction ns with
  | nil => simp [AllLegal]
  | cons n ns ih => simp [AllLegal, ih]

theorem allLegal_append {ns ms : List Node} :
    AllLegal inFunction (ns ++ ms) ↔ AllLegal inFunction ns ∧ AllLegal inFunction ms := by
  simp only [allLegal_iff, List.mem_append, or_imp, forall_and]

/-- The tree of a `for` loop is legal exactly if its parts are. -/
theorem legal_forLoop {i c e : Option Node} {b : Node} :
    (forLoop i c e b).Legal inFunction ↔ (∀ n ∈ i, n.Legal inFunction) ∧
      (∀ n ∈ c, n.Legal inFunction) ∧ (∀ n ∈ e, n.Legal inFunction) ∧ b.Legal inFunction := by
  cases i <;> cases c <;> cases e <;> simp [forLoop, Legal, AllLegal, and_comm]

end Node

end Lox
