import Lox.Proofs.Grammar.WrittenTrees
import Lox.Proofs.Node.Readback
import Lox.Proofs.Token.LineNumber

/-!
# Printed trees are known by their texts

Every tree that a source is read as can be printed, whatever errors the source has. The text says
which tree it is, up to the places of its tokens, as long as no literal in the tree is a string or
an infinite number: a string is printed without its quotes, so it may look like anything, and an
infinite number looks like a variable.

## Main definitions

* `IsParsed n`: the node is in a tree of some source

## Main results

* `written_of_isParsed`: a tree that is read has the tokens that its nodes ask for
* `print_determines_tree`: trees that are read and have the same text are the same
-/

namespace Lox.Grammar

/-- The node is in a tree that some source is read as, either as a declaration or a statement of a
program, or as an expression by itself. -/
def IsParsed (n : Node) : Prop :=
  ∃ source root, (root ∈ (parseSource source).parse.program ∨
    parseSourceExpression source = .ok root) ∧ root.Contains n

variable {m n : Node}

/-- The tokens of a source are spelled as their kinds say. -/
theorem isLexeme_of_mem_tokens {source : String} {t : Token}
    (h : t ∈ (scan source).stream.tokens) : t.IsLexeme := by
  obtain ⟨_, _, -, hlex, -⟩ := exists_of_mem_tokens h
  exact hlex

/-- A tree that is read has the tokens that its nodes ask for. -/
theorem written_of_isParsed (h : IsParsed n) : n.Written Token.IsLexeme := by
  obtain ⟨source, root, hroot, hn⟩ := h
  have hwritten : root.Written Token.IsLexeme := by
    rcases hroot with hroot | hroot
    · exact written_of_mem_program (fun t ht => isLexeme_of_mem_tokens ht) hroot
    · exact written_of_expressionOfScan (fun t ht => isLexeme_of_mem_tokens ht) hroot
  exact fun k hk => hwritten k (hn.trans hk)

/-- **Printed trees are unambiguous.** Any two trees that are read, as statements or as expressions,
can be printed; and if no literal in them is a string or an infinite number, then their texts are
the same exactly if the trees are, up to the lines and offsets of their tokens. -/
theorem print_determines_tree (hm : IsParsed m) (hn : IsParsed n) (hrm : m.Readable)
    (hrn : n.Readable) :
    ∃ s t, m.print = .ok s ∧ n.print = .ok t ∧
      (s = t ↔ m.relabel Token.unplaced = n.relabel Token.unplaced) := by
  have hwm := written_of_isParsed hm
  have hwn := written_of_isParsed hn
  refine ⟨_, _, Node.print_eq hwm, Node.print_eq hwn, fun h => ?_, fun h => ?_⟩
  · have htext : m.shape.text = n.shape.text := by
      simpa [SExpr.string] using congrArg String.toList h
    have hshape := SExpr.text_injective (Node.plain_shape hwm hrm) (Node.plain_shape hwn hrn) htext
    rw [← Node.read_shape hwm hrm, ← Node.read_shape hwn hrn, hshape]
  · rw [← Node.shape_relabel relabels_unplaced m, h, Node.shape_relabel relabels_unplaced]

/-- A call that is written in one line and in two has one text. -/
theorem print_determines_tree_call :
    ∃ m n, parseSourceExpression "f(nil)" = .ok m ∧ parseSourceExpression "f(\nnil)" = .ok n ∧
      m.Readable ∧ n.Readable ∧ ∃ s t, m.print = .ok s ∧ n.print = .ok t ∧
        (s = t ↔ m.relabel Token.unplaced = n.relabel Token.unplaced) := by
  have hreadable (f paren : Token) : (Node.call (.ident f) paren [.lit .nil]).Readable := by
    have hf : (Node.ident f).Readable := Node.readable_iff.mpr (by simp [Node.parts])
    have hnil : (Node.lit .nil).Readable :=
      Node.readable_iff.mpr (by simp [Node.parts, Value.IsReadable])
    exact Node.readable_iff.mpr (by simp [Node.parts, hf, hnil])
  have hm : parseSourceExpression "f(nil)" = .ok (.call (.ident ⟨.identifier, "f", none, 1, 0⟩)
      ⟨.rightParen, ")", none, 1, 5⟩ [.lit .nil]) := by cbv
  have hn : parseSourceExpression "f(\nnil)" = .ok (.call (.ident ⟨.identifier, "f", none, 1, 0⟩)
      ⟨.rightParen, ")", none, 2, 6⟩ [.lit .nil]) := by cbv
  exact ⟨_, _, hm, hn, hreadable _ _, hreadable _ _,
    print_determines_tree ⟨_, _, .inr hm, .refl _⟩ ⟨_, _, .inr hn, .refl _⟩ (hreadable _ _)
      (hreadable _ _)⟩

end Lox.Grammar
