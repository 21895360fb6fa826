import Lox.Grammar.Expression
import Lox.Proofs.Node.Induction
import Lox.Proofs.Node.WellFormed
import Mathlib.Logic.Relation

/-!
# Written trees

What a reader makes of tokens is written: each of its nodes has the tokens that its form asks for,
and each literal is the value of a token. Whether a node is written depends on its own tokens only,
so a tree is written if all nodes in it are, and no difference is made between expressions and
statements.

## Main definitions

* `Node.parts n`: the nodes that `n` is directly made of
* `Node.Contains n m`: the node `m` is somewhere in the tree `n`
* `Node.Fits P n`: the tokens of the node itself are of the right kinds, and satisfy `P`
* `Node.Written P n`: so it is for all nodes in the tree

## Main results

* `Node.parts_induct`: induction on the parts of a tree
* `Node.written_iff`: a written node and its parts
* `Node.written_forLoop`: the tree of a `for` loop
-/

namespace Lox

/-- The token is of one of these kinds, and satisfies `P`. -/
def Token.Fits (P : Token → Prop) (kinds : List Kind) (t : Token) : Prop :=
  P t ∧ t.kind ∈ kinds

namespace Node

/-! ## Parts -/

/-- The nodes that a node is directly made of, in order. -/
def parts : Node → List Node
  | lit _ | ident _ | stray _ => []
  | group e | unary _ e | assign _ e | exprStmt e | printStmt e => [e]
  | binary l _ r | logical l _ r => [l, r]
  | call callee _ es => callee :: es
  | varDecl _ o | returnStmt _ o => o.toList
  | block ss | funcDecl _ _ ss => ss
  | ifStmt c t o => c :: t :: o.toList
  | whileStmt c b => [c, b]

/-- Induction on a tree: what is proved of a node may be assumed of its parts. -/
@[elab_as_elim]
theorem parts_induct {motive : Node → Prop} (h : ∀ n, (∀ p ∈ n.parts, motive p) → motive n)
    (n : Node) : motive n := by
  induction n using Node.induct <;> apply h <;> simp_all [parts]

/-- The second node is the first one, or a part of it, or a part of a part. -/
def Contains : Node → Node → Prop :=
  Relation.ReflTransGen fun n m => m ∈ n.parts

variable {n m : Node}

theorem Contains.refl (n : Node) : n.Contains n :=
  Relation.ReflTransGen.refl

theorem Contains.trans {k : Node} (h : n.Contains m) (h' : m.Contains k) : n.Contains k :=
  Relation.ReflTransGen.trans h h'

/-- All nodes in a tree are as they should be if the node itself is, and those in its parts. -/
theorem forall_contains_iff {Q : Node → Prop} :
    (∀ m, n.Contains m → Q m) ↔ Q n ∧ ∀ p ∈ n.parts, ∀ m, p.Contains m → Q m := by
  constructor
  · intro h
    exact ⟨h n (.refl n), fun p hp m hm => h m (.head hp hm)⟩
  · rintro ⟨hn, hparts⟩ m hm
    rcases Relation.ReflTransGen.cases_head hm with rfl | ⟨p, hp, hpm⟩
    · exact hn
    · exact hparts p hp m hpm

/-! ## Tokens -/

/-- The tokens of the node itself satisfy `P` and are of the kinds that its form asks for; if it is
a literal, then it is the value of such a token. -/
def Fits (P : Token → Prop) : Node → Prop
  | lit v =>
    v = .nil ∨ (∃ b, v = .bool b) ∨
      ∃ t : Token, t.Fits P [.number, .string] ∧ v = Grammar.literalValue t.literal
  | unary op _ => op.Fits P [.bang, .minus]
  | binary _ op _ => op.Fits P binaryKinds
  | logical _ op _ => op.Fits P [.andKw, .orKw]
  | ident name | assign name _ | varDecl name _ => name.Fits P [.identifier]
  | call _ paren _ => paren.Fits P [.rightParen]
  | funcDecl name params _ => ∀ t ∈ name :: params, t.Fits P [.identifier]
  | returnStmt keyword _ => keyword.Fits P [.returnKw]
  | stray _ => False
  | _ => True

/-- The tokens of all nodes in the tree satisfy `P` and are of the kinds that they should be. -/
def Written (P : Token → Prop) (n : Node) : Prop :=
  ∀ m, n.Contains m → m.Fits P

variable {P : Token → Prop}

theorem written_iff : n.Written P ↔ n.Fits P ∧ ∀ p ∈ n.parts, p.Written P :=
  forall_contains_iff

theorem Written.part {p : Node} (h : n.Written P) (hp : p ∈ n.parts) : p.Written P :=
  (written_iff.mp h).2 p hp

theorem written_block {ss : List Node} : (block ss).Written P ↔ ∀ s ∈ ss, s.Written P := by
  rw [written_iff]
  simp [Fits, parts]

theorem written_exprStmt {e : Node} : (exprStmt e).Written P ↔ e.Written P := by
  rw [written_iff]
  simp [Fits, parts]

theorem written_whileStmt {c b : Node} :
    (whileStmt c b).Written P ↔ c.Written P ∧ b.Written P := by
  rw [written_iff]
  simp [Fits, parts]

theorem written_bool (b : Bool) : (lit (.bool b)).Written P :=
  written_iff.mpr ⟨by simp [Fits], by simp [parts]⟩

/-- The tree of a `for` loop is written if its parts are. -/
theorem written_forLoop {i c e : Option Node} {b : Node} (hi : ∀ n ∈ i, n.Written P)
    (hc : ∀ n ∈ c, n.Written P) (he : ∀ n ∈ e, n.Written P) (hb : b.Written P) :
    (forLoop i c e b).Written P := by
  have hcondition : (c.getD (lit (.bool true))).Written P := by
    cases c with
    | none => exact written_bool true
    | some c => exact hc c rfl
  cases i <;> cases e <;>
    simp_all [forLoop, written_block, written_whileStmt, written_exprStmt]

end Node

end Lox
