import Lox.Node.Basic

/-!
# Induction on trees

A tree has lists of trees and missing trees among its parts. What is proved by induction on a tree
may be assumed of all members of such a part.

## Main results

* `Node.induct`: induction on a tree
-/

namespace Lox

/-- Induction on a tree. -/
@[elab_as_elim]
theorem Node.induct {motive : Node → Prop}
    (lit : ∀ v, motive (.lit v))
    (group : ∀ e, motive e → motive (.group e))
    (unary : ∀ op e, motive e → motive (.unary op e))
    (binary : ∀ l op r, motive l → motive r → motive (.binary l op r))
    (logical : ∀ l op r, motive l → motive r → motive (.logical l op r))
    (ident : ∀ name, motive (.ident name))
    (assign : ∀ name e, motive e → motive (.assign name e))
    (call : ∀ callee paren es, motive callee → (∀ e ∈ es, motive e) →
      motive (.call callee paren es))
    (exprStmt : ∀ e, motive e → motive (.exprStmt e))
    (printStmt : ∀ e, motive e → motive (.printStmt e))
    (varDecl : ∀ name o, (∀ e ∈ o, motive e) → motive (.varDecl name o))
    (block : ∀ ss, (∀ s ∈ ss, motive s) → motive (.block ss))
    (ifStmt : ∀ c t o, motive c → motive t → (∀ e ∈ o, motive e) → motive (.ifStmt c t o))
    (whileStmt : ∀ c b, motive c → motive b → motive (.whileStmt c b))
    (funcDecl : ∀ name params body, (∀ s ∈ body, motive s) → motive (.funcDecl name params body))
    (returnStmt : ∀ keyword o, (∀ e ∈ o, motive e) → motive (.returnStmt keyword o))
    (stray : ∀ form, motive (.stray form)) (n : Node) : motive n :=
  @Node.rec motive (fun ns => ∀ n ∈ ns, motive n) (fun o => ∀ n ∈ o, motive n)
    lit group unary binary logical ident assign call exprStmt printStmt varDecl block ifStmt
    whileStmt funcDecl returnStmt stray (by simp) (fun _ _ h hs => by simpa using ⟨h, hs⟩)
    (by simp) (fun _ h => by simpa using h) n

end Lox
