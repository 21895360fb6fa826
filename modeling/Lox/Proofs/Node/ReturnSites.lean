import Lox.Proofs.Node.WellFormed

/-!
# The `return`s of a tree

All `return`s of a tree, wherever in it they stand. A `return` belongs to the innermost function
around it, and what matters of those is only whether there is one.

## Main definitions

* `ReturnSite`: a `return` in a tree
* `Node.returnSites n`, `Node.allReturnSites ns`: the `return`s of a tree, and of several
* `Node.ReturnsInBodies n`: all of them lie in function bodies

## Main results

* `Node.Legal.returnsInBodies`: so it is in a legal tree
-/

namespace Lox

/-- A `return` in a tree: its keyword, and whether a function body of the tree is around it. -/
structure ReturnSite where
  keyword : Token
  inBody : Bool

namespace Node

mutual

/-- The `return`s of a tree, from left to right. -/
def returnSites : Node → List ReturnSite
  | lit _ | ident _ | stray _ | varDecl _ none => []
  | group e | unary _ e | assign _ e | exprStmt e | printStmt e | varDecl _ (some e) =>
    e.returnSites
  | binary l _ r | logical l _ r => l.returnSites ++ r.returnSites
  | call callee _ arguments => callee.returnSites ++ allReturnSites arguments
  | block ss => allReturnSites ss
  | ifStmt c t none => c.returnSites ++ t.returnSites
  | ifStmt c t (some e) => c.returnSites ++ t.returnSites ++ e.returnSites
  | whileStmt c b => c.returnSites ++ b.returnSites
  | funcDecl _ _ body => (allReturnSites body).map fun r => ⟨r.keyword, true⟩
  | returnStmt keyword none => [⟨keyword, false⟩]
  | returnStmt keyword (some e) => ⟨keyword, false⟩ :: e.returnSites

/-- The `return`s of the trees. -/
def allReturnSites : List Node → List ReturnSite
  | [] => []
  | n :: ns => n.returnSites ++ allReturnSites ns

end

theorem mem_allReturnSites {ns : List Node} {r : ReturnSite} :
    r ∈ allReturnSites ns ↔ ∃ n ∈ ns, r ∈ n.returnSites := by
  induction ns with
  | nil => simp [allReturnSites]
  | cons n ns ih => simp [allReturnSites, ih]

/-- The tree of a `for` loop has the `return`s of its parts. -/
theorem mem_returnSites_forLoop {i c e : Option Node} {b : Node} {r : ReturnSite} :
    r ∈ (forLoop i c e b).returnSites ↔ r ∈ i.elim [] returnSites ∨ r ∈ c.elim [] returnSites ∨
      r ∈ e.elim [] returnSites ∨ r ∈ b.returnSites := by
  cases i <;> cases c <;> cases e <;> simp [forLoop, returnSites, allReturnSites, or_comm]

/-! ## Trees in which no `return` is left over -/

/-- All `return`s of the tree lie in function bodies. -/
def ReturnsInBodies (n : Node) : Prop :=
  ∀ r ∈ n.returnSites, r.inBody = true

theorem returnsInBodies_block {ss : List Node} :
    (block ss).ReturnsInBodies ↔ ∀ s ∈ ss, s.ReturnsInBodies := by
  simp only [ReturnsInBodies, returnSites, mem_allReturnSites]
  exact ⟨fun h s hs r hr => h r ⟨s, hs, hr⟩, fun h r ⟨s, hs, hr⟩ => h s hs r hr⟩

/-- In a tree that is legal outside of all functions, every `return` lies in a function body. -/
theorem Legal.returnsInBodies {n : Node} (h : n.Legal false) : n.ReturnsInBodies := by
  unfold ReturnsInBodies
  induction n using Node.induct with
  | lit | ident | stray => simp [returnSites]
  | group e ih | unary _ e ih | assign _ e ih | exprStmt e ih | printStmt e ih =>
    rw [Legal] at h
    simpa only [returnSites] using ih h
  | binary l _ r ihl ihr | logical l _ r ihl ihr =>
    rw [Legal] at h
    simp only [returnSites, List.mem_append, or_imp, forall_and]
    exact ⟨ihl h.1, ihr h.2⟩
  | call callee _ es ihc ihs =>
    rw [Legal, allLegal_iff] at h
    simp only [returnSites, List.mem_append, or_imp, forall_and, mem_allReturnSites]
    refine ⟨ihc h.2.1, ?_⟩
    rintro r ⟨e, he, hr⟩
    exact ihs e he (h.2.2 e he) r hr
  | varDecl _ o ih =>
    cases o with
    | none => simp [returnSites]
    | some e =>
      rw [Legal] at h
      simpa only [returnSites] using ih e rfl h
  | block ss ih =>
    rw [Legal, allLegal_iff] at h
    simp only [returnSites, mem_allReturnSites]
    rintro r ⟨s, hs, hr⟩
    exact ih s hs (h s hs) r hr
  | ifStmt c t o ihc iht ihe =>
    cases o with
    | none =>
      rw [Legal] at h
      simp only [returnSites, List.mem_append, or_imp, forall_and]
      exact ⟨ihc h.1, iht h.2⟩
    | some e =>
      rw [Legal] at h
      simp only [returnSites, List.mem_append, or_imp, forall_and]
      exact ⟨⟨ihc h.1, iht h.2.1⟩, ihe e rfl h.2.2⟩
  | whileStmt c b ihc ihb =>
    rw [Legal] at h
    simp only [returnSites, List.mem_append, or_imp, forall_and]
    exact ⟨ihc h.1, ihb h.2⟩
  | funcDecl => simp [returnSites]
  | returnStmt _ o => cases o <;> simp [Legal] at h

end Node

end Lox
