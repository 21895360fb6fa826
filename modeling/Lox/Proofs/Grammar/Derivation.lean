import Lox.Grammar.Statement
import Mathlib.Tactic.Common

/-!
# Derivations

The grammar of the language, as relations between symbols, the tokens that are derived from them,
and the trees of the derivations. The relations know nothing of the readers, which look at one
token at a time and never go back.

A symbol derives a list of trees: those of a sequence, at most one for a part that may be missing,
and exactly one for all other symbols.

An `else` belongs to the nearest `if` that it can belong to. So what stands between an `if` and its
`else` must not end in an `if` without one, and the symbol of a statement tells the statements that
end so from the others.

## Main definitions

* `ExpressionSymbol`, `DerivesExpression`: the part of the grammar that is about expressions
* `StatementSymbol`, `Derives`: the part about statements and declarations

## Main results

* `DerivesExpression.head`, `Derives.head`: the tokens that can come first
-/

namespace Lox.Grammar

/-! ## Expressions -/

/-- The symbols of the grammar of expressions. -/
inductive ExpressionSymbol where
  | expression
  | disjunction | conjunction | equality | comparison | term | factor
  | unary | call | primary
  /-- one or more expressions, with commas between them -/
  | arguments
  deriving DecidableEq, Repr

namespace ExpressionSymbol

/-- The symbol of the operands, for the symbols of binary operations. -/
def operand? : ExpressionSymbol → Option ExpressionSymbol
  | disjunction => some conjunction
  | conjunction => some equality
  | equality => some comparison
  | comparison => some term
  | term => some factor
  | factor => some unary
  | _ => none

/-- The binary operators of a symbol. -/
def operators : ExpressionSymbol → List Kind
  | disjunction => [.orKw]
  | conjunction => [.andKw]
  | equality => [.bangEqual, .equalEqual]
  | comparison => [.greater, .greaterEqual, .less, .lessEqual]
  | term => [.minus, .plus]
  | factor => [.slash, .star]
  | _ => []

/-- The tree of a binary operation. -/
def node (s : ExpressionSymbol) (left : Node) (operator : Token) (right : Node) : Node :=
  if s = disjunction ∨ s = conjunction then .logical left operator right
  else .binary left operator right

end ExpressionSymbol

/-- The tokens are derived from the symbol, and the nodes are the trees of the derivation. -/
inductive DerivesExpression : ExpressionSymbol → List Token → List Node → Prop
  | assign {name equals : Token} {ts : List Token} {e : Node} :
      name.kind = .identifier → equals.kind = .equal → DerivesExpression .expression ts [e] →
      DerivesExpression .expression (name :: equals :: ts) [.assign name e]
  | disjunction {ts : List Token} {e : Node} :
      DerivesExpression .disjunction ts [e] → DerivesExpression .expression ts [e]
  | operand {s s' : ExpressionSymbol} {ts : List Token} {e : Node} :
      s.operand? = some s' → DerivesExpression s' ts [e] → DerivesExpression s ts [e]
  /-- the operators of one symbol associate to the left -/
  | operator {s s' : ExpressionSymbol} {ts us : List Token} {op : Token} {l r : Node} :
      s.operand? = some s' → DerivesExpression s ts [l] → op.kind ∈ s.operators →
      DerivesExpression s' us [r] → DerivesExpression s (ts ++ op :: us) [s.node l op r]
  | unary {op : Token} {ts : List Token} {e : Node} :
      op.kind = .bang ∨ op.kind = .minus → DerivesExpression .unary ts [e] →
      DerivesExpression .unary (op :: ts) [.unary op e]
  | call {ts : List Token} {e : Node} :
      DerivesExpression .call ts [e] → DerivesExpression .unary ts [e]
  | callWithout {ts : List Token} {lp rp : Token} {e : Node} :
      DerivesExpression .call ts [e] → lp.kind = .leftParen → rp.kind = .rightParen →
      DerivesExpression .call (ts ++ [lp, rp]) [.call e rp []]
  | callWith {ts us : List Token} {lp rp : Token} {e : Node} {es : List Node} :
      DerivesExpression .call ts [e] → lp.kind = .leftParen → DerivesExpression .arguments us es →
      rp.kind = .rightParen → DerivesExpression .call (ts ++ lp :: (us ++ [rp])) [.call e rp es]
  | primary {ts : List Token} {e : Node} :
      DerivesExpression .primary ts [e] → DerivesExpression .call ts [e]
  | falseLit {t : Token} : t.kind = .falseKw → DerivesExpression .primary [t] [.lit (.bool .false)]
  | trueLit {t : Token} : t.kind = .trueKw → DerivesExpression .primary [t] [.lit (.bool .true)]
  | nilLit {t : Token} : t.kind = .nilKw → DerivesExpression .primary [t] [.lit .nil]
  | numberLit {t : Token} :
      t.kind = .number → DerivesExpression .primary [t] [.lit (literalValue t.literal)]
  | stringLit {t : Token} :
      t.kind = .string → DerivesExpression .primary [t] [.lit (literalValue t.literal)]
  | ident {name : Token} :
      name.kind = .identifier → DerivesExpression .primary [name] [.ident name]
  | group {lp rp : Token} {ts : List Token} {e : Node} :
      lp.kind = .leftParen → DerivesExpression .expression ts [e] → rp.kind = .rightParen →
      DerivesExpression .primary (lp :: (ts ++ [rp])) [.group e]
  | argument {ts : List Token} {e : Node} :
      DerivesExpression .expression ts [e] → DerivesExpression .arguments ts [e]
  | arguments {ts us : List Token} {comma : Token} {e : Node} {es : List Node} :
      DerivesExpression .expression ts [e] → comma.kind = .comma →
      DerivesExpression .arguments us es →
      DerivesExpression .arguments (ts ++ comma :: us) (e :: es)

/-! ## Statements -/

/-- The names of one or more parameters, with commas between them. -/
inductive DerivesParameters : List Token → List Token → Prop
  | one {name : Token} : name.kind = .identifier → DerivesParameters [name] [name]
  | more {name comma : Token} {ts names : List Token} :
      name.kind = .identifier → comma.kind = .comma → DerivesParameters ts names →
      DerivesParameters (name :: comma :: ts) (name :: names)

/-- The symbols of the grammar of statements. -/
inductive StatementSymbol where
  /-- any number of declarations -/
  | program
  | declaration
  /-- a function, after `func` -/
  | function
  /-- the declaration of a variable, after `var` -/
  | varDecl
  /-- a statement, and whether it ends in an `if` without `else` -/
  | statement (dangling : Bool)
  /-- a block, with its braces -/
  | block
  | exprStmt
  /-- the first clause of a `for` loop, with its semicolon -/
  | initializer
  /-- an expression, or nothing -/
  | optional
  deriving DecidableEq, Repr

/-- The tokens are derived from the symbol, and the nodes are the trees of the derivation. -/
inductive Derives : StatementSymbol → List Token → List Node → Prop
  | noMore : Derives .program [] []
  | more {ts us : List Token} {n : Node} {ns : List Node} :
      Derives .declaration ts [n] → Derives .program us ns → Derives .program (ts ++ us) (n :: ns)
  -- declarations
  | funcDecl {kw : Token} {ts : List Token} {n : Node} :
      kw.kind = .funcKw → Derives .function ts [n] → Derives .declaration (kw :: ts) [n]
  | varDecl {kw : Token} {ts : List Token} {n : Node} :
      kw.kind = .varKw → Derives .varDecl ts [n] → Derives .declaration (kw :: ts) [n]
  | statement {dangling : Bool} {ts : List Token} {n : Node} :
      Derives (.statement dangling) ts [n] → Derives .declaration ts [n]
  | function {name lp rp : Token} {ts us params : List Token} {body : List Node} :
      name.kind = .identifier → lp.kind = .leftParen →
      ts = [] ∧ params = [] ∨ DerivesParameters ts params → rp.kind = .rightParen →
      Derives .block us body →
      Derives .function (name :: lp :: (ts ++ rp :: us)) [.funcDecl name params body]
  | uninitialized {name semi : Token} :
      name.kind = .identifier → semi.kind = .semicolon →
      Derives .varDecl [name, semi] [.varDecl name none]
  | initialized {name equals semi : Token} {ts : List Token} {e : Node} :
      name.kind = .identifier → equals.kind = .equal → DerivesExpression .expression ts [e] →
      semi.kind = .semicolon →
      Derives .varDecl (name :: equals :: (ts ++ [semi])) [.varDecl name (some e)]
  -- statements
  | forLoop {kw lp semi rp : Token} {ts us vs ws : List Token} {i c e : List Node} {n : Node}
      {dangling : Bool} :
      kw.kind = .forKw → lp.kind = .leftParen → Derives .initializer ts i →
      Derives .optional us c → semi.kind = .semicolon → Derives .optional vs e →
      rp.kind = .rightParen → Derives (.statement dangling) ws [n] →
      Derives (.statement dangling) (kw :: lp :: (ts ++ (us ++ semi :: (vs ++ rp :: ws))))
        [.forLoop i.head? c.head? e.head? n]
  | ifThen {kw lp rp : Token} {ts us : List Token} {c n : Node} {dangling : Bool} :
      kw.kind = .ifKw → lp.kind = .leftParen → DerivesExpression .expression ts [c] →
      rp.kind = .rightParen → Derives (.statement dangling) us [n] →
      Derives (.statement true) (kw :: lp :: (ts ++ rp :: us)) [.ifStmt c n none]
  | ifElse {kw lp rp el : Token} {ts us vs : List Token} {c n m : Node} {dangling : Bool} :
      kw.kind = .ifKw → lp.kind = .leftParen → DerivesExpression .expression ts [c] →
      rp.kind = .rightParen → Derives (.statement false) us [n] → el.kind = .elseKw →
      Derives (.statement dangling) vs [m] →
      Derives (.statement dangling) (kw :: lp :: (ts ++ rp :: (us ++ el :: vs)))
        [.ifStmt c n (some m)]
  | printStmt {kw semi : Token} {ts : List Token} {e : Node} :
      kw.kind = .printKw → DerivesExpression .expression ts [e] → semi.kind = .semicolon →
      Derives (.statement false) (kw :: (ts ++ [semi])) [.printStmt e]
  | returnStmt {kw semi : Token} {ts : List Token} {v : List Node} :
      kw.kind = .returnKw → Derives .optional ts v → semi.kind = .semicolon →
      Derives (.statement false) (kw :: (ts ++ [semi])) [.returnStmt kw v.head?]
  | whileStmt {kw lp rp : Token} {ts us : List Token} {c n : Node} {dangling : Bool} :
      kw.kind = .whileKw → lp.kind = .leftParen → DerivesExpression .expression ts [c] →
      rp.kind = .rightParen → Derives (.statement dangling) us [n] →
      Derives (.statement dangling) (kw :: lp :: (ts ++ rp :: us)) [.whileStmt c n]
  | blockStmt {ts : List Token} {ns : List Node} :
      Derives .block ts ns → Derives (.statement false) ts [.block ns]
  | exprStmt {ts : List Token} {n : Node} :
      Derives .exprStmt ts [n] → Derives (.statement false) ts [n]
  -- parts of statements
  | block {lb rb : Token} {ts : List Token} {ns : List Node} :
      lb.kind = .leftBrace → Derives .program ts ns → rb.kind = .rightBrace →
      Derives .block (lb :: (ts ++ [rb])) ns
  | expression {semi : Token} {ts : List Token} {e : Node} :
      DerivesExpression .expression ts [e] → semi.kind = .semicolon →
      Derives .exprStmt (ts ++ [semi]) [.exprStmt e]
  | noInitializer {semi : Token} : semi.kind = .semicolon → Derives .initializer [semi] []
  | initializerVar {kw : Token} {ts : List Token} {n : Node} :
      kw.kind = .varKw → Derives .varDecl ts [n] → Derives .initializer (kw :: ts) [n]
  | initializerExpr {ts : List Token} {n : Node} :
      Derives .exprStmt ts [n] → Derives .initializer ts [n]
  | absent : Derives .optional [] []
  | present {ts : List Token} {e : Node} :
      DerivesExpression .expression ts [e] → Derives .optional ts [e]

/-! ## First tokens -/

/-- The kinds of the tokens that begin an operand without unary operators. -/
def primaryStarts : List Kind :=
  [.falseKw, .trueKw, .nilKw, .number, .string, .identifier, .leftParen]

/-- The kinds of the tokens that can come first in what is derived from a symbol. -/
def ExpressionSymbol.starts : ExpressionSymbol → List Kind
  | primary | call => primaryStarts
  | _ => .bang :: .minus :: primaryStarts

/-- An operation starts as its first operand does. -/
theorem ExpressionSymbol.starts_of_operand {s s' : ExpressionSymbol} (h : s.operand? = some s') :
    s'.starts = s.starts := by
  cases s <;> simp only [operand?, reduceCtorEq, Option.some.injEq] at h <;> subst h <;> rfl

/-- What is derived from a symbol of expressions is not empty. -/
theorem DerivesExpression.head {s : ExpressionSymbol} {ts : List Token} {es : List Node}
    (h : DerivesExpression s ts es) : ∃ t us, ts = t :: us ∧ t.kind ∈ s.starts := by
  induction h with
  | assign hn => exact ⟨_, _, rfl, by simp [hn, ExpressionSymbol.starts, primaryStarts]⟩
  | unary hop => exact ⟨_, _, rfl, by
      rcases hop with h | h <;> simp [h, ExpressionSymbol.starts]⟩
  | falseLit h | trueLit h | nilLit h | numberLit h | stringLit h | ident h | group h =>
    exact ⟨_, _, rfl, by simp [h, ExpressionSymbol.starts, primaryStarts]⟩
  | disjunction _ ih | primary _ ih | argument _ ih => exact ih
  | call _ ih =>
    obtain ⟨t, us, rfl, ht⟩ := ih
    exact ⟨t, us, rfl, List.mem_cons_of_mem _ (List.mem_cons_of_mem _ ht)⟩
  | operand hs _ ih => exact ExpressionSymbol.starts_of_operand hs ▸ ih
  | operator _ _ _ _ ih | callWithout _ _ _ ih | callWith _ _ _ _ ih | arguments _ _ _ ih =>
    obtain ⟨t, us, rfl, ht⟩ := ih
    exact ⟨t, _, rfl, ht⟩

/-- The kinds of the tokens that begin a statement. -/
def statementStarts : List Kind :=
  .forKw :: .ifKw :: .printKw :: .returnKw :: .whileKw :: .leftBrace ::
    ExpressionSymbol.expression.starts

/-- Only an identifier by itself is derived as a variable. -/
theorem DerivesExpression.of_ident {s : ExpressionSymbol} {ts : List Token} {name : Token}
    (h : DerivesExpression s ts [.ident name]) (hs : s ≠ .arguments) :
    ts = [name] ∧ name.kind = .identifier := by
  generalize he : [Node.ident name] = es at h
  -- all rules but those that hand a derivation on have a tree of another form
  induction h with
  | disjunction _ ih | call _ ih | primary _ ih => exact ih (by simp) he
  | operand ho _ ih =>
    refine ih (fun h => ?_) he
    subst h
    revert ho
    cases ‹ExpressionSymbol› <;> simp [ExpressionSymbol.operand?]
  | operator =>
    unfold ExpressionSymbol.node at he
    split at he <;> simp at he
  | ident hn =>
    obtain rfl : name = _ := by simpa using he
    exact ⟨rfl, hn⟩
  | argument | arguments => exact absurd rfl hs
  | _ => simp at he

/-- The kinds of the tokens that can come first in what is derived from a symbol. -/
def StatementSymbol.starts : StatementSymbol → List Kind
  | program | declaration => .funcKw :: .varKw :: statementStarts
  | statement _ => statementStarts
  | initializer => .semicolon :: .varKw :: ExpressionSymbol.expression.starts
  | block => [.leftBrace]
  | function | varDecl => [.identifier]
  | exprStmt | optional => ExpressionSymbol.expression.starts

/-- What is derived from a symbol of statements starts with a token of the symbol, if it is not
empty. -/
theorem Derives.head {s : StatementSymbol} {ts : List Token} {ns : List Node}
    (h : Derives s ts ns) :
    ts = [] ∧ (s = .program ∨ s = .optional) ∨ ∃ t us, ts = t :: us ∧ t.kind ∈ s.starts := by
  -- a rule that begins with a token is settled by it, and the others by their first part
  induction h with
  | noMore | absent => exact .inl ⟨rfl, by simp⟩
  | more _ _ ih =>
    rcases ih with ⟨-, h⟩ | ⟨t, us, rfl, ht⟩
    · simp at h
    · exact .inr ⟨t, _, rfl, ht⟩
  | funcDecl h | varDecl h | function h | uninitialized h | initialized h | forLoop h | ifThen h
    | ifElse h | printStmt h | returnStmt h | whileStmt h | block h | noInitializer h
    | initializerVar h =>
    exact .inr ⟨_, _, rfl, by simp [h, StatementSymbol.starts, statementStarts]⟩
  | statement _ ih | initializerExpr _ ih =>
    rcases ih with ⟨-, h⟩ | ⟨t, us, rfl, ht⟩
    · simp at h
    · exact .inr ⟨t, us, rfl, List.mem_cons_of_mem _ (List.mem_cons_of_mem _ ht)⟩
  | blockStmt _ ih =>
    rcases ih with ⟨-, h⟩ | ⟨t, us, rfl, ht⟩
    · simp at h
    · have hk : t.kind = .leftBrace := List.mem_singleton.mp ht
      exact .inr ⟨t, us, rfl, by simp [hk, StatementSymbol.starts, statementStarts]⟩
  | exprStmt _ ih =>
    rcases ih with ⟨-, h⟩ | ⟨t, us, rfl, ht⟩
    · simp at h
    · have hs : t.kind ∈ [.forKw, .ifKw, .printKw, .returnKw, .whileKw, .leftBrace] ++
          ExpressionSymbol.expression.starts := List.mem_append_right _ ht
      exact .inr ⟨t, us, rfl, hs⟩
  | expression h =>
    obtain ⟨t, us, rfl, ht⟩ := h.head
    exact .inr ⟨t, _, rfl, ht⟩
  | present h =>
    obtain ⟨t, us, rfl, ht⟩ := h.head
    exact .inr ⟨t, us, rfl, ht⟩

end Lox.Grammar
