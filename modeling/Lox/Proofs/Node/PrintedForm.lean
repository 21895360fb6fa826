import Lox.Proofs.Node.Relabel
import Lox.Proofs.Node.Written
import Lox.Proofs.Text.SExpr

/-!
# The printed form of a tree

What a tree is printed as is the text of a list, with its head in front of the printed forms of its
parts.

## Main definitions

* `Node.shape n`: the word or the list that the tree `n` is printed as

## Main results

* `Node.shape_relabel`: the places of tokens make no difference
* `Node.print_eq`: a written tree is printed as the text of its shape
-/

namespace Lox

namespace Node

mutual

/-- The word or the list that a tree is printed as. -/
def shape : Node → SExpr
  | lit v => .word (v.display.toOption.getD "")
  | ident name => .word name.lexeme
  | group e => .list [.word "group", e.shape]
  | unary op e => .list [.word op.lexeme, e.shape]
  | binary l op r | logical l op r => .list [.word op.lexeme, l.shape, r.shape]
  | assign name e => .list [.word "=", .word name.lexeme, e.shape]
  | call callee _ es => .list (.word "call" :: callee.shape :: shapes es)
  | exprStmt e => .list [.word ";", e.shape]
  | printStmt e => .list [.word "print", e.shape]
  | varDecl name none => .list [.word "var", .word name.lexeme]
  | varDecl name (some e) => .list [.word "var", .word name.lexeme, .word "=", e.shape]
  | block ss => .list (.word "block" :: shapes ss)
  | ifStmt c t none => .list [.word "if", c.shape, t.shape]
  | ifStmt c t (some e) => .list [.word "if-else", c.shape, t.shape, e.shape]
  | whileStmt c b => .list [.word "while", c.shape, b.shape]
  | funcDecl name params body =>
    .list (.word "func" :: .word name.lexeme :: .list (params.map (.word ·.lexeme)) :: shapes body)
  | returnStmt _ none => .list [.word "return"]
  | returnStmt _ (some e) => .list [.word "return", e.shape]
  | stray _ => .list []

/-- The words and lists that trees are printed as. -/
def shapes : List Node → List SExpr
  | [] => []
  | n :: ns => n.shape :: shapes ns

end

theorem shapes_eq_map (ns : List Node) : shapes ns = ns.map shape := by
  induction ns with
  | nil => rfl
  | cons n ns ih => rw [shapes, ih, List.map_cons]

/-- The place of a token is not printed. -/
theorem shape_relabel {f : Token → Token} (hf : Relabels f) (n : Node) :
    (n.relabel f).shape = n.shape := by
  induction n using Node.parts_induct with
  | _ n ih =>
  cases n with
  | varDecl name o | ifStmt c t o | returnStmt keyword o =>
    cases o <;> simp_all [parts, shape, hf.lexeme]
  | call callee paren es =>
    have hes : es.map (shape ∘ relabel f) = es.map shape :=
      List.map_congr_left fun e he => ih e (List.mem_cons_of_mem callee he)
    simp [shape, shapes_eq_map, hes, ih callee (by simp [parts])]
  | block ss =>
    have hss : ss.map (shape ∘ relabel f) = ss.map shape := List.map_congr_left ih
    simp [shape, shapes_eq_map, hss]
  | funcDecl name params body =>
    have hbody : body.map (shape ∘ relabel f) = body.map shape := List.map_congr_left ih
    simp [shape, shapes_eq_map, hbody, hf.lexeme]
  | _ => simp_all [parts, shape, hf.lexeme]

/-! ## Texts -/

/-- A head and the texts of some parts are printed as the text of a list. -/
theorem parenthesize_eq (head : String) (xs : List SExpr) :
    parenthesize head (xs.map SExpr.string) = (SExpr.list (.word head :: xs)).string := by
  rw [SExpr.string_list, List.map_cons, SExpr.string_word, parenthesize]

theorem string_parameters (params : List Token) :
    (SExpr.list (params.map fun t => .word t.lexeme)).string =
      "(" ++ " ".intercalate (params.map Token.lexeme) ++ ")" := by
  rw [SExpr.string_list, List.map_map]
  simp only [Function.comp_def, SExpr.string_word]

variable {P : Token → Prop} {n : Node}

theorem printAll_eq {ns : List Node} (h : ∀ n ∈ ns, n.print = .ok n.shape.string) :
    printAll ns = .ok ((shapes ns).map SExpr.string) := by
  induction ns with
  | nil => rw [printAll, shapes]; rfl
  | cons n ns ih =>
    rw [printAll, h n List.mem_cons_self, ih fun n hn => h n (List.mem_cons_of_mem _ hn), shapes]
    rfl

/-- A literal that is written can be displayed. -/
theorem display_eq {v : Value} (h : (lit v).Written P) :
    v.display = .ok (v.display.toOption.getD "") := by
  rcases (written_iff.mp h).1 with rfl | ⟨b, rfl⟩ | ⟨t, -, rfl⟩
  · rfl
  · cases b <;> rfl
  · rcases t.literal with _ | (x | s) <;> rfl

/-- **Printed trees.** A written tree is printed as the text of its shape. -/
theorem print_eq (h : n.Written P) : n.print = .ok n.shape.string := by
  induction n using Node.parts_induct with
  | _ n ih =>
  have ih : ∀ p ∈ n.parts, p.print = .ok p.shape.string := fun p hp => ih p hp (h.part hp)
  cases n with
  | lit v => rw [print, display_eq h, shape, SExpr.string_word]
  | ident name =>
    rw [print, shape, SExpr.string_word]
    rfl
  | group e | unary op e | assign name e | exprStmt e | printStmt e =>
    rw [print, ih e (by simp [parts]), shape, ← parenthesize_eq]
    simp only [List.map_cons, SExpr.string_word]
    rfl
  | binary l op r | logical l op r | whileStmt l r =>
    rw [print, ih l (by simp [parts]), ih r (by simp [parts]), shape, ← parenthesize_eq]
    rfl
  | call callee paren es =>
    have hes := printAll_eq fun e he => ih e (List.mem_cons_of_mem callee he)
    rw [print, ih callee List.mem_cons_self, hes, shape, ← parenthesize_eq]
    rfl
  | block ss =>
    have hss : printAll ss = _ := printAll_eq ih
    rw [print, hss, shape, ← parenthesize_eq]
    rfl
  | ifStmt c t o =>
    have hc := ih c (by simp [parts])
    have ht := ih t (by simp [parts])
    cases o with
    | none =>
      rw [print, hc, ht, shape, ← parenthesize_eq]
      rfl
    | some e =>
      rw [print, hc, ht, ih e (by simp [parts]), shape, ← parenthesize_eq]
      rfl
  | varDecl name o =>
    cases o with
    | none =>
      rw [print, shape, ← parenthesize_eq, List.map_cons, SExpr.string_word]
      rfl
    | some e =>
      rw [print, ih e (by simp [parts]), shape, ← parenthesize_eq]
      simp only [List.map_cons, SExpr.string_word]
      rfl
  | funcDecl name params body =>
    have hbody : printAll body = _ := printAll_eq ih
    rw [print, hbody, shape, ← parenthesize_eq]
    simp only [List.map_cons, SExpr.string_word, string_parameters]
    rfl
  | returnStmt keyword o =>
    cases o with
    | none =>
      rw [print, shape]
      rfl
    | some e =>
      rw [print, ih e (by simp [parts]), shape, ← parenthesize_eq]
      rfl
  | stray form => exact (written_iff.mp h).1.elim

end Node

end Lox
