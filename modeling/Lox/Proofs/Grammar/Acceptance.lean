import Lox.Grammar.Program
import Lox.Proofs.Grammar.StatementCompleteness
import Lox.Proofs.Grammar.StatementRules

/-!
# The programs that are accepted

The grammar says which sequences of tokens are programs, and what their trees are. The readers find
no error in these programs, if their trees are legal, and in no others.

## Main results

* `allStatements_parse`: the trees that survive recovery are well-formed
* `isExpression_of_parseExpression`: so is the tree of a source that is one expression
* `parse_eq_iff_derives`: the programs without errors and their trees are those of the grammar
* `Derives.program_unique`: a program has one tree only
-/

namespace Lox.Grammar

open Reader

variable {s : TokenStream} {ns : List Node}

theorem le_fuelFor (ts : List Token) : 20 * ts.length + 13 ≤ fuelFor ts := by
  unfold fuelFor
  omega

/-- Whatever errors there are, the trees that survive recovery are well-formed. -/
theorem allStatements_parse {P : Token → Prop} (hP : ∀ t ∈ s.tokens, P t) :
    Node.AllStatements P (parse s).program := by
  have h := meets_declarations (le_fuelFor s.tokens) s.eof (start s.tokens)
    ⟨Nat.le_refl _, hP⟩ rfl
  unfold parse
  cases hr : declarations (fuelFor s.tokens) s.eof (start s.tokens) with
  | done ns c =>
    simp only [hr] at h
    obtain ⟨_, _, hns, _⟩ := h
    exact hns
  | failed e c => trivial
  | unfinished => trivial

/-- The tree of a source that is an expression is well-formed. -/
theorem isExpression_of_parseExpression {e : Node} (h : parseExpression s = .ok e) :
    e.IsExpression fun _ => True := by
  have hw : Within (fun _ => True) s.tokens.length (start s.tokens).rest :=
    ⟨Nat.le_refl _, fun _ _ => trivial⟩
  have hf : 20 * s.tokens.length + 10 ≤ fuelFor s.tokens :=
    Nat.le_trans (by omega) (le_fuelFor s.tokens)
  have hm := (expressionRules (fun _ => True) _).expression hf s.eof (start s.tokens) hw rfl
  unfold parseExpression wholeExpression at h
  split at h
  · rename_i e' c hr
    obtain rfl := Except.ok.inj h
    obtain ⟨e₁, c₁, he, hrest⟩ := bind_eq_done_iff.mp hr
    simp only [he] at hm
    obtain ⟨_, _, ⟨_, hexp⟩, _⟩ := hm
    obtain ⟨o, c₂, -, hend⟩ := bind_eq_done_iff.mp hrest
    split at hend
    · obtain ⟨rfl, -⟩ : e₁ = e' ∧ c₂ = c := by simpa using hend
      exact hexp
    · simp at hend
  · simp at h
  · simp at h

theorem isExpression_of_expressionOfScan {scan : Scan} {e : Node}
    (h : expressionOfScan scan = .ok e) : e.IsExpression fun _ => True := by
  unfold expressionOfScan at h
  split at h
  · simp at h
  · cases hp : parseExpression scan.stream with
    | ok e' =>
      obtain rfl : e' = e := by simpa [hp, Except.mapError] using h
      exact isExpression_of_parseExpression hp
    | error _ => simp [hp, Except.mapError] at h

/-- A program without errors is derived, and its tree is the one of the derivation. -/
theorem derives_of_parse (h : parse s = ⟨ns, []⟩) :
    Derives .program s.tokens ns ∧ Node.AllLegal false ns := by
  have hw : Within (fun _ => True) s.tokens.length (start s.tokens).rest :=
    ⟨Nat.le_refl _, fun _ _ => trivial⟩
  have hm := meets_declarations (le_fuelFor s.tokens) s.eof (start s.tokens) hw rfl
  unfold parse at h
  cases hr : declarations (fuelFor s.tokens) s.eof (start s.tokens) with
  | done ms c =>
    simp only [hr, Parse.mk.injEq, List.reverse_eq_nil_iff] at h hm
    obtain ⟨rfl, hc⟩ := h
    obtain ⟨ts, adv, -, hclean⟩ := hm
    have hts : s.tokens = ts := by
      have := adv.rest
      rw [rest_of_declarations hr, List.append_nil] at this
      exact this
    rw [hts]
    exact hclean hc
  | failed e c =>
    simp only [hr, Parse.mk.injEq, List.reverse_eq_nil_iff] at h hm
    obtain ⟨_, _, hne⟩ := hm
    exact absurd h.2 hne
  | unfinished => simp only [hr] at hm

/-- A program that is derived has no errors, if its tree is legal. -/
theorem Derives.parse (h : Derives .program s.tokens ns) (hg : Node.AllLegal false ns) :
    Grammar.parse s = ⟨ns, []⟩ := by
  have hg' : Node.AllLegal (0 < 0) ns := hg
  have hr := h.reads_declarations hg' (le_fuelFor s.tokens) s.eof [] [] rfl
  rw [List.append_nil] at hr
  unfold Grammar.parse start
  rw [hr]
  rfl

/-- **Acceptance.** A sequence of tokens is read without an error, as these trees, exactly if it is
derived from the grammar, these are the trees of the derivation, and they are legal. -/
theorem parse_eq_iff_derives :
    parse s = ⟨ns, []⟩ ↔ Derives .program s.tokens ns ∧ Node.AllLegal false ns :=
  ⟨derives_of_parse, fun h => h.1.parse h.2⟩

/-- A legal program has one tree only. -/
theorem Derives.program_unique {ts : List Token} {ms : List Node} (h : Derives .program ts ns)
    (h' : Derives .program ts ms) (hg : Node.AllLegal false ns) (hg' : Node.AllLegal false ms) :
    ns = ms := by
  have eof : Token := ⟨.eof, "", none, 1, 0⟩
  have hp : Grammar.parse ⟨ts, eof⟩ = ⟨ns, []⟩ := h.parse hg
  rw [h'.parse hg', Parse.mk.injEq] at hp
  exact hp.1.symm

end Lox.Grammar
