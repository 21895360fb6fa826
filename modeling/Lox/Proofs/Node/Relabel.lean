import Lox.Proofs.Node.Induction
import Lox.Proofs.Node.WellFormed

/-!
# Trees with other tokens

A tree stays what it is when each of its tokens is replaced by one that reads the same and stands
somewhere else.

## Main definitions

* `Relabels f`: the function `f` replaces tokens by tokens that read the same
* `Node.relabel f n`: the tree `n` with its tokens replaced

## Main results

* `Node.relabel_id`, `Node.relabel_relabel`: replacing tokens by themselves, and twice
* `Node.relabel_forLoop`, `Node.IsStatement.relabel`, `Node.legal_relabel`: what is kept
-/

namespace Lox

/-- The function replaces tokens by tokens of the same kind, with the same characters and the same
literal. -/
structure Relabels (f : Token → Token) : Prop where
  kind (t : Token) : (f t).kind = t.kind
  lexeme (t : Token) : (f t).lexeme = t.lexeme
  literal (t : Token) : (f t).literal = t.literal

theorem relabels_id : Relabels id :=
  ⟨fun _ => rfl, fun _ => rfl, fun _ => rfl⟩

namespace Node

mutual

/-- The tree with its tokens replaced. -/
@[simp]
def relabel (f : Token → Token) : Node → Node
  | lit v => lit v
  | group e => group (e.relabel f)
  | unary op e => unary (f op) (e.relabel f)
  | binary l op r => binary (l.relabel f) (f op) (r.relabel f)
  | logical l op r => logical (l.relabel f) (f op) (r.relabel f)
  | ident name => ident (f name)
  | assign name e => assign (f name) (e.relabel f)
  | call callee paren es => call (callee.relabel f) (f paren) (relabelAll f es)
  | exprStmt e => exprStmt (e.relabel f)
  | printStmt e => printStmt (e.relabel f)
  | varDecl name none => varDecl (f name) none
  | varDecl name (some e) => varDecl (f name) (some (e.relabel f))
  | block ss => block (relabelAll f ss)
  | ifStmt c t none => ifStmt (c.relabel f) (t.relabel f) none
  | ifStmt c t (some e) => ifStmt (c.relabel f) (t.relabel f) (some (e.relabel f))
  | whileStmt c b => whileStmt (c.relabel f) (b.relabel f)
  | funcDecl name params body => funcDecl (f name) (params.map f) (relabelAll f body)
  | returnStmt keyword none => returnStmt (f keyword) none
  | returnStmt keyword (some e) => returnStmt (f keyword) (some (e.relabel f))
  | stray form => stray form

/-- The trees with their tokens replaced. -/
def relabelAll (f : Token → Token) : List Node → List Node
  | [] => []
  | n :: ns => n.relabel f :: relabelAll f ns

end

variable {f : Token → Token}

@[simp] theorem relabelAll_eq_map (ns : List Node) : relabelAll f ns = ns.map (relabel f) := by
  induction ns with
  | nil => rw [relabelAll, List.map_nil]
  | cons n ns ih => rw [relabelAll, ih, List.map_cons]

/-- Nothing changes if each token is replaced by itself. -/
theorem relabel_id (n : Node) : n.relabel id = n := by
  -- lists of trees, by the induction hypotheses for their members
  have hall : ∀ ns : List Node, (∀ n ∈ ns, n.relabel id = n) → ns.map (relabel id) = ns :=
    fun ns h => (List.map_congr_left h).trans (List.map_id ns)
  induction n using Node.induct with
  | call callee paren es ihc ihs => simp only [relabel, relabelAll_eq_map, ihc, hall es ihs, id_eq]
  | block ss ih => simp only [relabel, relabelAll_eq_map, hall ss ih]
  | funcDecl name params body ih =>
    simp only [relabel, relabelAll_eq_map, hall body ih, id_eq, List.map_id]
  | varDecl name o ih | returnStmt name o ih =>
    cases o with
    | none => simp only [relabel, id_eq]
    | some e => simp only [relabel, id_eq, ih e rfl]
  | ifStmt c t o ihc iht ihe =>
    cases o with
    | none => simp only [relabel, ihc, iht]
    | some e => simp only [relabel, ihc, iht, ihe e rfl]
  | _ => simp only [relabel, id_eq, *]

theorem map_relabel_id (ns : List Node) : ns.map (relabel id) = ns := by
  rw [List.map_congr_left fun n _ => relabel_id n, List.map_id']

/-- Tokens that are replaced twice may be replaced once. -/
theorem relabel_relabel (g : Token → Token) (n : Node) :
    (n.relabel f).relabel g = n.relabel (g ∘ f) := by
  have hall : ∀ ns : List Node, (∀ n ∈ ns, (n.relabel f).relabel g = n.relabel (g ∘ f)) →
      ns.map (relabel g ∘ relabel f) = ns.map (relabel (g ∘ f)) := fun ns h =>
    List.map_congr_left h
  induction n using Node.induct with
  | call callee paren es ihc ihs =>
    simp only [relabel, relabelAll_eq_map, List.map_map, ihc, hall es ihs, Function.comp_apply]
  | block ss ih => simp only [relabel, relabelAll_eq_map, List.map_map, hall ss ih]
  | funcDecl name params body ih =>
    simp only [relabel, relabelAll_eq_map, List.map_map, hall body ih, Function.comp_apply]
  | varDecl name o ih | returnStmt name o ih =>
    cases o with
    | none => simp only [relabel, Function.comp_apply]
    | some e => simp only [relabel, Function.comp_apply, ih e rfl]
  | ifStmt c t o ihc iht ihe =>
    cases o with
    | none => simp only [relabel, ihc, iht]
    | some e => simp only [relabel, ihc, iht, ihe e rfl]
  | _ => simp only [relabel, Function.comp_apply, *]

theorem relabel_varDecl (name : Token) (o : Option Node) :
    (varDecl name o).relabel f = varDecl (f name) (o.map (relabel f)) := by
  cases o <;> simp [relabel]

theorem relabel_ifStmt (c t : Node) (o : Option Node) :
    (ifStmt c t o).relabel f = ifStmt (c.relabel f) (t.relabel f) (o.map (relabel f)) := by
  cases o <;> simp [relabel]

theorem relabel_returnStmt (keyword : Token) (o : Option Node) :
    (returnStmt keyword o).relabel f = returnStmt (f keyword) (o.map (relabel f)) := by
  cases o <;> simp [relabel]

theorem relabel_forLoop (i c e : Option Node) (b : Node) :
    (forLoop i c e b).relabel f =
      forLoop (i.map (relabel f)) (c.map (relabel f)) (e.map (relabel f)) (b.relabel f) := by
  cases i <;> cases c <;> cases e <;> simp [forLoop, relabel]

/-- An expression is well-formed whatever tokens that read the same it has. -/
theorem IsExpression.relabel {P : Token → Prop} (hf : Relabels f) {e : Node}
    (h : e.IsExpression fun t => P (f t)) : (e.relabel f).IsExpression P := by
  induction e using Node.induct with
  | lit v => simpa only [Node.relabel, IsExpression] using h
  | group e ih =>
    rw [IsExpression] at h
    rw [Node.relabel, IsExpression]
    exact ih h
  | unary op e ih =>
    rw [IsExpression] at h
    rw [Node.relabel, IsExpression, hf.kind]
    exact ⟨h.1, h.2.1, ih h.2.2⟩
  | binary l op r ihl ihr | logical l op r ihl ihr =>
    rw [IsExpression] at h
    rw [Node.relabel, IsExpression, hf.kind]
    exact ⟨h.1, h.2.1, ihl h.2.2.1, ihr h.2.2.2⟩
  | ident name =>
    rw [IsExpression] at h
    rwa [Node.relabel, IsExpression]
  | assign name e ih =>
    rw [IsExpression] at h
    rw [Node.relabel, IsExpression]
    exact ⟨h.1, ih h.2⟩
  | call callee paren es ihc ihs =>
    rw [IsExpression, allExpressions_iff] at h
    rw [Node.relabel, IsExpression, allExpressions_iff, relabelAll_eq_map, List.forall_mem_map]
    exact ⟨h.1, ihc h.2.1, fun e he => ihs e he (h.2.2 e he)⟩
  | _ => simp only [IsExpression] at h

/-- A statement is well-formed whatever tokens that read the same it has. -/
theorem IsStatement.relabel {P : Token → Prop} (hf : Relabels f) {s : Node}
    (h : s.IsStatement fun t => P (f t)) : (s.relabel f).IsStatement P := by
  induction s using Node.induct with
  | exprStmt e | printStmt e =>
    rw [IsStatement] at h
    rw [Node.relabel, IsStatement]
    exact h.relabel hf
  | varDecl name o | returnStmt name o =>
    cases o with
    | none =>
      rw [IsStatement] at h
      rwa [Node.relabel, IsStatement]
    | some e =>
      rw [IsStatement] at h
      rw [Node.relabel, IsStatement]
      exact ⟨h.1, h.2.relabel hf⟩
  | block ss ih =>
    rw [IsStatement, allStatements_iff] at h
    rw [Node.relabel, IsStatement, allStatements_iff, relabelAll_eq_map, List.forall_mem_map]
    exact fun s hs => ih s hs (h s hs)
  | ifStmt c t o _ iht ihe =>
    cases o with
    | none =>
      rw [IsStatement] at h
      rw [Node.relabel, IsStatement]
      exact ⟨h.1.relabel hf, iht h.2⟩
    | some e =>
      rw [IsStatement] at h
      rw [Node.relabel, IsStatement]
      exact ⟨h.1.relabel hf, iht h.2.1, ihe e rfl h.2.2⟩
  | whileStmt c b _ ih =>
    rw [IsStatement] at h
    rw [Node.relabel, IsStatement]
    exact ⟨h.1.relabel hf, ih h.2⟩
  | funcDecl name params body ih =>
    rw [IsStatement, allStatements_iff] at h
    rw [Node.relabel, IsStatement, allStatements_iff, relabelAll_eq_map, List.forall_mem_map,
      List.forall_mem_map]
    exact ⟨h.1, h.2.1, fun s hs => ih s hs (h.2.2 s hs)⟩
  | _ => simp only [IsStatement] at h

theorem allLegal_relabel {ns : List Node} {inFunction : Bool}
    (h : ∀ n ∈ ns, (n.relabel f).Legal inFunction ↔ n.Legal inFunction) :
    AllLegal inFunction (ns.map (relabel f)) ↔ AllLegal inFunction ns := by
  rw [allLegal_iff, allLegal_iff, List.forall_mem_map]
  exact forall₂_congr h

/-- The limits of a tree do not depend on its tokens. -/
theorem legal_relabel {n : Node} {inFunction : Bool} :
    (n.relabel f).Legal inFunction ↔ n.Legal inFunction := by
  induction n using Node.induct generalizing inFunction with
  | call callee paren es ihc ihs =>
    simp only [relabel, Legal, relabelAll_eq_map, List.length_map, ihc,
      allLegal_relabel fun e he => ihs e he]
  | block ss ih =>
    simp only [relabel, Legal, relabelAll_eq_map, allLegal_relabel fun s hs => ih s hs]
  | funcDecl name params body ih =>
    simp only [relabel, Legal, relabelAll_eq_map, List.length_map,
      allLegal_relabel fun s hs => ih s hs]
  | varDecl name o ih | returnStmt name o ih =>
    cases o with
    | none => simp only [relabel, Legal]
    | some e => simp only [relabel, Legal, ih e rfl]
  | ifStmt c t o ihc iht ihe =>
    cases o with
    | none => simp only [relabel, Legal, ihc, iht]
    | some e => simp only [relabel, Legal, ihc, iht, ihe e rfl]
  | _ => simp only [relabel, Legal, *]

end Node

end Lox
