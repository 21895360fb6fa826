import Lox.Proofs.Grammar.Acceptance
import Lox.Proofs.Node.Relabel

/-!
# Programs after programs

Derivations do not depend on where tokens stand, and a program after a program is a program. So the
trees of the two are those that each of them has by itself, up to the places of the tokens: no
reader looks behind the end of the first one.

## Main results

* `Derives.relabel`: derivations of tokens that read the same
* `parse_append`: the trees of one program after another
-/

namespace Lox.Grammar

variable {f : Token → Token}

theorem ExpressionSymbol.relabel_node (s : ExpressionSymbol) (l r : Node) (op : Token) :
    (s.node l op r).relabel f = s.node (l.relabel f) (f op) (r.relabel f) := by
  unfold node
  split <;> rw [Node.relabel]

/-- Tokens that read the same are derived from the same symbols. -/
theorem DerivesExpression.relabel {s : ExpressionSymbol} {ts : List Token} {es : List Node}
    (hf : Relabels f) (h : DerivesExpression s ts es) :
    DerivesExpression s (ts.map f) (es.map (Node.relabel f)) := by
  -- every rule asks for the kinds of its tokens only, and these are kept
  induction h with
  | assign hn he _ ih => exact .assign ((hf.kind _).trans hn) ((hf.kind _).trans he) ih
  | disjunction _ ih => exact .disjunction ih
  | operand hs _ ih => exact .operand hs ih
  | operator hs _ hop _ ihl ihr =>
    rw [List.map_append, List.map_cons, List.map_singleton, ExpressionSymbol.relabel_node]
    exact .operator hs ihl (by rwa [hf.kind]) ihr
  | unary hop _ ih => exact .unary (by rwa [hf.kind]) ih
  | call _ ih => exact .call ih
  | callWithout _ hl hr ih =>
    rw [List.map_append]
    exact .callWithout ih ((hf.kind _).trans hl) ((hf.kind _).trans hr)
  | callWith _ hl _ hr ih ihs =>
    simp only [List.map_append, List.map_cons, List.map_nil, Node.relabel, Node.relabelAll_eq_map]
    exact .callWith ih ((hf.kind _).trans hl) ihs ((hf.kind _).trans hr)
  | primary _ ih => exact .primary ih
  | falseLit h => exact .falseLit ((hf.kind _).trans h)
  | trueLit h => exact .trueLit ((hf.kind _).trans h)
  | nilLit h => exact .nilLit ((hf.kind _).trans h)
  | numberLit h =>
    rw [← hf.literal]
    exact .numberLit ((hf.kind _).trans h)
  | stringLit h =>
    rw [← hf.literal]
    exact .stringLit ((hf.kind _).trans h)
  | ident h => exact .ident ((hf.kind _).trans h)
  | group hl _ hr ih =>
    simp only [List.map_append, List.map_cons, List.map_nil, Node.relabel]
    exact .group ((hf.kind _).trans hl) ih ((hf.kind _).trans hr)
  | argument _ ih => exact .argument ih
  | arguments _ hc _ ih ihs =>
    rw [List.map_append, List.map_cons, List.map_cons]
    exact .arguments ih ((hf.kind _).trans hc) ihs

theorem DerivesParameters.relabel {ts names : List Token} (hf : Relabels f)
    (h : DerivesParameters ts names) : DerivesParameters (ts.map f) (names.map f) := by
  induction h with
  | one hn => exact .one ((hf.kind _).trans hn)
  | more hn hc _ ih => exact .more ((hf.kind _).trans hn) ((hf.kind _).trans hc) ih

/-- Tokens that read the same are derived from the same symbols. -/
theorem Derives.relabel {s : StatementSymbol} {ts : List Token} {ns : List Node}
    (hf : Relabels f) (h : Derives s ts ns) :
    Derives s (ts.map f) (ns.map (Node.relabel f)) := by
  induction h with
  | noMore => exact .noMore
  | more _ _ ih ihs =>
    rw [List.map_append]
    exact .more ih ihs
  | funcDecl h _ ih => exact .funcDecl ((hf.kind _).trans h) ih
  | varDecl h _ ih => exact .varDecl ((hf.kind _).trans h) ih
  | statement _ ih => exact .statement ih
  | function hn hl hp hr _ ih =>
    simp only [List.map_append, List.map_cons, List.map_nil, Node.relabel, Node.relabelAll_eq_map]
    refine .function ((hf.kind _).trans hn) ((hf.kind _).trans hl) ?_ ((hf.kind _).trans hr) ih
    rcases hp with ⟨rfl, rfl⟩ | hp
    · exact .inl ⟨rfl, rfl⟩
    · exact .inr (hp.relabel hf)
  | uninitialized hn hs => exact .uninitialized ((hf.kind _).trans hn) ((hf.kind _).trans hs)
  | initialized hn he hd hs =>
    simp only [List.map_append, List.map_cons, List.map_nil, Node.relabel]
    exact .initialized ((hf.kind _).trans hn) ((hf.kind _).trans he) (hd.relabel hf)
      ((hf.kind _).trans hs)
  | forLoop hk hl _ _ hs _ hr _ ihi ihc ihe ihb =>
    simp only [List.map_append, List.map_cons, List.map_nil, Node.relabel_forLoop, ← List.head?_map]
    exact .forLoop ((hf.kind _).trans hk) ((hf.kind _).trans hl) ihi ihc ((hf.kind _).trans hs) ihe
      ((hf.kind _).trans hr) ihb
  | ifThen hk hl hd hr _ ih =>
    simp only [List.map_append, List.map_cons, List.map_nil, Node.relabel]
    exact .ifThen ((hf.kind _).trans hk) ((hf.kind _).trans hl) (hd.relabel hf)
      ((hf.kind _).trans hr) ih
  | ifElse hk hl hd hr _ he _ iht ihe =>
    simp only [List.map_append, List.map_cons, List.map_nil, Node.relabel]
    exact .ifElse ((hf.kind _).trans hk) ((hf.kind _).trans hl) (hd.relabel hf)
      ((hf.kind _).trans hr) iht ((hf.kind _).trans he) ihe
  | printStmt hk hd hs =>
    simp only [List.map_append, List.map_cons, List.map_nil, Node.relabel]
    exact .printStmt ((hf.kind _).trans hk) (hd.relabel hf) ((hf.kind _).trans hs)
  | @returnStmt kw semi _ v hk _ hs ih =>
    have hv : (Node.returnStmt kw v.head?).relabel f =
        .returnStmt (f kw) (v.map (Node.relabel f)).head? := by
      cases v <;> rw [List.head?_map] <;> simp [Node.relabel]
    simp only [List.map_append, List.map_cons, List.map_nil, hv]
    exact .returnStmt ((hf.kind _).trans hk) ih ((hf.kind _).trans hs)
  | whileStmt hk hl hd hr _ ih =>
    simp only [List.map_append, List.map_cons, List.map_nil, Node.relabel]
    exact .whileStmt ((hf.kind _).trans hk) ((hf.kind _).trans hl) (hd.relabel hf)
      ((hf.kind _).trans hr) ih
  | blockStmt _ ih =>
    simp only [List.map_cons, List.map_nil, Node.relabel, Node.relabelAll_eq_map]
    exact .blockStmt ih
  | exprStmt _ ih => exact .exprStmt ih
  | block hl _ hr ih =>
    simp only [List.map_append, List.map_cons, List.map_nil]
    exact .block ((hf.kind _).trans hl) ih ((hf.kind _).trans hr)
  | expression hd hs =>
    simp only [List.map_append, List.map_cons, List.map_nil, Node.relabel]
    exact .expression (hd.relabel hf) ((hf.kind _).trans hs)
  | noInitializer hs => exact .noInitializer ((hf.kind _).trans hs)
  | initializerVar hk _ ih => exact .initializerVar ((hf.kind _).trans hk) ih
  | initializerExpr _ ih => exact .initializerExpr ih
  | absent => exact .absent
  | present hd => exact .present (hd.relabel hf)

/-- A program after a program is a program. -/
theorem Derives.append {ts us : List Token} {ns ms : List Node} (h : Derives .program ts ns)
    (h' : Derives .program us ms) : Derives .program (ts ++ us) (ns ++ ms) := by
  -- by induction on the first program, whose end is where the second one begins
  generalize hs : StatementSymbol.program = s at h
  induction h with
  | noMore => exact h'
  | more hd _ _ ih =>
    rw [List.append_assoc]
    exact .more hd (ih hs)
  | _ => cases hs

/-- **One program after another.** The trees of two programs without errors, the second of which is
further on in the source, are the trees of one after the trees of the other. -/
theorem parse_append {s s' : TokenStream} {eof : Token} {ns ms : List Node} (hf : Relabels f)
    (h : parse s = ⟨ns, []⟩) (h' : parse s' = ⟨ms, []⟩) :
    parse ⟨s.tokens ++ s'.tokens.map f, eof⟩ = ⟨ns ++ ms.map (Node.relabel f), []⟩ := by
  obtain ⟨hd, hg⟩ := derives_of_parse h
  obtain ⟨hd', hg'⟩ := derives_of_parse h'
  refine Derives.parse (hd.append (hd'.relabel hf)) ?_
  rw [Node.allLegal_append]
  exact ⟨hg, (Node.allLegal_relabel fun _ _ => Node.legal_relabel).mpr hg'⟩

end Lox.Grammar
