import Lox.Proofs.Grammar.Layout
import Lox.Proofs.Node.PrintedForm
import Lox.Proofs.Number.Display
import Lox.Proofs.Number.Literal
import Lox.Proofs.Token.Spelling

/-!
# Reading a printed tree back

A printed tree can be read back, up to the places of its tokens, if it has no literal that is a
string or an infinite number. The head of a list says of which form the node is, and the number of
its parts tells the forms apart that have a head in common. The first word of a list is always a
head, so a variable may have the name of one; and the list of the parameters of a function is known
by its position.

A word by itself is a literal or a variable. Numbers begin with a digit or a sign, and no variable
is named as a reserved word.

## Why the text is read, and texts are not compared

Two trees of one text could be compared form by form, but most pairs of forms say only that two
heads differ. A function that makes the tree from what is printed has one case for each form, and
that it undoes the printing says at once that no two trees are printed alike. It need not be
computable: a number is found by the text it is displayed as, and `Number.displayText_injective` is
why only one can be found.

## Main definitions

* `Node.Readable n`: no literal in `n` is a string or an infinite number
* `SExpr.read x`: the tree that is printed as `x`

## Main results

* `Node.read_shape`: what a tree is printed as is read back as that tree
* `Node.plain_shape`: it is made of plain words
-/

namespace Lox

/-- The value is neither a string nor an infinite number. -/
def Value.IsReadable : Value → Prop
  | .string _ => False
  | .number x => x.isInf = false
  | _ => True

/-- No literal in the tree is a string or an infinite number. -/
def Node.Readable (n : Node) : Prop :=
  ∀ v, n.Contains (.lit v) → v.IsReadable

theorem Node.readable_iff {n : Node} :
    n.Readable ↔ (∀ v, n = .lit v → v.IsReadable) ∧ ∀ p ∈ n.parts, p.Readable := by
  have hiff (n : Node) :
      n.Readable ↔ ∀ m, n.Contains m → ∀ v, m = .lit v → v.IsReadable :=
    ⟨fun h m hm v hv => h v (hv ▸ hm), fun h v hv => h _ hv v rfl⟩
  rw [hiff, forall_contains_iff]
  simp only [hiff]

theorem Node.Readable.part {n p : Node} (h : n.Readable) (hp : p ∈ n.parts) : p.Readable :=
  (readable_iff.mp h).2 p hp

namespace Node

/-- A token of this kind and with this text, without a place. -/
def mark (kind : Kind) (text : String) : Token :=
  ⟨kind, text, none, 0, 0⟩

variable {t : Token} {kinds : List Kind} {kind : Kind}

theorem unplaced_eq_mark {text : String} (hk : t.kind = kind) (ht : t.lexeme = text)
    (hl : t.literal = none) : t.unplaced = mark kind text := by
  subst hk ht
  rw [Token.unplaced, mark, hl]

/-- A symbol is known by its kind. -/
theorem unplaced_symbol (h : t.IsLexeme) (hk : t.kind.symbolText ≠ []) :
    t.lexeme = String.ofList t.kind.symbolText ∧ t.unplaced = mark t.kind t.lexeme := by
  obtain ⟨hcs, hl⟩ := h.of_symbol hk
  exact ⟨by rw [← hcs, String.ofList_toList], unplaced_eq_mark rfl rfl hl⟩

/-- A reserved word is known by its kind. -/
theorem unplaced_keyword {word : String} (h : t.IsLexeme) (hk : (word, t.kind) ∈ keywords) :
    t.lexeme = word ∧ t.unplaced = mark t.kind t.lexeme := by
  obtain ⟨hcs, hl⟩ := h.of_keyword hk
  exact ⟨String.toList_inj.mp hcs, unplaced_eq_mark rfl rfl hl⟩

theorem unplaced_rightParen (h : t.Fits Token.IsLexeme [.rightParen]) :
    t.unplaced = mark .rightParen ")" := by
  obtain ⟨hlex, hk⟩ := h
  have hk : t.kind = .rightParen := List.mem_singleton.mp hk
  obtain ⟨ht, hu⟩ := unplaced_symbol hlex (by rw [hk]; decide)
  rw [hu, ht, hk]
  rfl

theorem unplaced_return (h : t.Fits Token.IsLexeme [.returnKw]) :
    t.unplaced = mark .returnKw "return" := by
  obtain ⟨hlex, hk⟩ := h
  have hk : t.kind = .returnKw := List.mem_singleton.mp hk
  have hmem : ("return", t.kind) ∈ keywords := by simp [hk, keywords]
  obtain ⟨ht, hu⟩ := unplaced_keyword hlex hmem
  rw [hu, ht, hk]

theorem unplaced_identifier (h : t.Fits Token.IsLexeme [.identifier]) :
    t.unplaced = mark .identifier t.lexeme := by
  obtain ⟨hlex, hk⟩ := h
  have hk : t.kind = .identifier := List.mem_singleton.mp hk
  rw [Token.IsLexeme, hk] at hlex
  exact unplaced_eq_mark hk rfl hlex.of_identifier.2.2

/-! ## Reading back -/

/-- The number that is displayed as the text. -/
noncomputable def numberOf (s : String) : Float :=
  Classical.epsilon fun x => Number.IsFinite x ∧ Number.displayText x = s

/-- The kind of the operator with this text. -/
def operatorKind (s : String) : Kind :=
  ((.bang :: binaryKinds).find? fun k => String.ofList k.symbolText = s).getD .eof

/-- The literal or the variable that is printed as the word. -/
noncomputable def ofWord (s : String) : Node :=
  if s = "nil" then .lit .nil
  else if s = "true" then .lit (.bool true)
  else if s = "false" then .lit (.bool false)
  else if s.toList.head?.any fun c => c.isDigit || c == '-' then .lit (.number (numberOf s))
  else .ident (mark .identifier s)

/-- The parameter that is printed as a word. -/
def parameter : SExpr → Token
  | .word s => mark .identifier s
  | .list _ => mark .eof ""

/-- The tree that is printed as a list with this head, from the parts of the list and from what they
are read as. -/
def ofHead (head : String) (parts : List SExpr) (nodes : List Node) : Node :=
  match head, parts, nodes with
  | "group", _, [e] => .group e
  | "=", _, [.ident name, e] => .assign name e
  | "call", _, callee :: es => .call callee (mark .rightParen ")") es
  | ";", _, [e] => .exprStmt e
  | "print", _, [e] => .printStmt e
  | "var", _, [.ident name] => .varDecl name none
  | "var", _, [.ident name, _, e] => .varDecl name (some e)
  | "block", _, ss => .block ss
  | "if", _, [c, t] => .ifStmt c t none
  | "if-else", _, [c, t, e] => .ifStmt c t (some e)
  | "while", _, [c, b] => .whileStmt c b
  | "func", _ :: .list params :: _, .ident name :: _ :: body =>
    .funcDecl name (params.map parameter) body
  | "return", _, [] => .returnStmt (mark .returnKw "return") none
  | "return", _, [e] => .returnStmt (mark .returnKw "return") (some e)
  | "and", _, [l, r] => .logical l (mark .andKw "and") r
  | "or", _, [l, r] => .logical l (mark .orKw "or") r
  | op, _, [e] => .unary (mark (operatorKind op) op) e
  | op, _, [l, r] => .binary l (mark (operatorKind op) op) r
  | _, _, _ => .stray ""

end Node

mutual

/-- The tree that is printed as a word or a list. -/
noncomputable def SExpr.read : SExpr → Node
  | .word s => Node.ofWord s
  | .list (.word head :: parts) => Node.ofHead head parts (readAll parts)
  | .list _ => .stray ""

/-- The trees that are printed as words or lists. -/
noncomputable def SExpr.readAll : List SExpr → List Node
  | [] => []
  | x :: xs => x.read :: readAll xs

end

namespace Node

/-! ## Words -/

variable {t : Token}

/-- A variable is read back. -/
theorem ofWord_identifier (h : t.Fits Token.IsLexeme [.identifier]) :
    ofWord t.lexeme = .ident t.unplaced := by
  rw [unplaced_identifier h]
  obtain ⟨hlex, hk⟩ := h
  rw [Token.IsLexeme, List.mem_singleton.mp hk] at hlex
  obtain ⟨⟨c, cs, heq, hc, -⟩, hkw, -⟩ := hlex.of_identifier
  rw [String.ofList_toList] at hkw
  have hne {word : String} (kind : Kind) (hmem : (word, kind) ∈ keywords) : t.lexeme ≠ word :=
    fun h => hkw kind (h ▸ hmem)
  rw [ofWord, if_neg (hne .nilKw (by simp [keywords])), if_neg (hne .trueKw (by simp [keywords])),
    if_neg (hne .falseKw (by simp [keywords])), if_neg]
  have hdigit : c.isDigit ≠ true := fun h => (isDigit_eq_true_iff.mp h).not_isLetter hc
  have hsign : c ≠ '-' := by
    rintro rfl
    exact absurd (isWordStart_eq_true_iff.mpr hc) (by decide)
  simp [heq, hdigit, hsign]

/-- A finite number is read back. -/
theorem ofWord_displayText {x : Float} (h : Number.IsFinite x) :
    ofWord (Number.displayText x) = .lit (.number x) := by
  have hx : numberOf (Number.displayText x) = x := by
    obtain ⟨hfin, htext⟩ := Classical.epsilon_spec
      (p := fun y => Number.IsFinite y ∧ Number.displayText y = Number.displayText x) ⟨x, h, rfl⟩
    exact Number.displayText_injective hfin h htext
  obtain ⟨-, c, rest, heq, hc⟩ := Number.isNumeral_displayText h
  have hhead : (c.isDigit || c == '-') = true := by simpa using hc
  have hne {word : String} (hw : word.toList.head?.any (fun d => d.isDigit || d == '-') = false) :
      Number.displayText x ≠ word := by
    rintro rfl
    rw [heq] at hw
    exact Bool.false_ne_true (hw.symm.trans hhead)
  rw [ofWord, if_neg (hne (by decide)), if_neg (hne (by decide)), if_neg (hne (by decide)), if_pos,
    hx]
  rw [heq]
  exact hhead

/-- What is displayed of a literal is a reserved word or a finite number. -/
theorem isFinite_or_keyword {v : Value} (h : (lit v).Fits Token.IsLexeme) (hv : v.IsReadable) :
    (∃ x, v = .number x ∧ Number.IsFinite x) ∨ v = .nil ∨ ∃ b, v = .bool b := by
  rcases h with rfl | ⟨b, rfl⟩ | ⟨t, ⟨hlex, hk⟩, rfl⟩
  · exact .inr (.inl rfl)
  · exact .inr (.inr ⟨b, rfl⟩)
  unfold Token.IsLexeme at hlex
  simp only [List.mem_cons, List.not_mem_nil, or_false] at hk
  rcases hk with hk | hk
  · rw [hk] at hlex
    rw [hlex.of_number] at hv ⊢
    exact .inl ⟨_, rfl, isNaN_decimalValue _, hv⟩
  · rw [hk] at hlex
    obtain ⟨s, hs⟩ := hlex.of_string
    rw [hs] at hv
    exact hv.elim

/-- A literal that is neither a string nor an infinite number is read back. -/
theorem ofWord_literal {v : Value} (h : (lit v).Fits Token.IsLexeme) (hv : v.IsReadable) :
    ofWord (v.display.toOption.getD "") = .lit v := by
  rcases isFinite_or_keyword h hv with ⟨x, rfl, hx⟩ | rfl | ⟨b, rfl⟩
  · exact ofWord_displayText hx
  · rfl
  · cases b <;> rfl

/-! ## Trees -/

variable {n : Node}

theorem readAll_shapes {ns : List Node} (h : ∀ n ∈ ns, n.shape.read = n.relabel Token.unplaced) :
    SExpr.readAll (shapes ns) = relabelAll Token.unplaced ns := by
  induction ns with
  | nil => rfl
  | cons n ns ih =>
    rw [shapes, SExpr.readAll, h n List.mem_cons_self,
      ih fun n hn => h n (List.mem_cons_of_mem _ hn), relabelAll]

theorem map_parameter {params : List Token}
    (h : ∀ t ∈ params, t.Fits Token.IsLexeme [.identifier]) :
    (params.map fun t => SExpr.word t.lexeme).map parameter = params.map Token.unplaced := by
  rw [List.map_map]
  exact List.map_congr_left fun t ht => (unplaced_identifier (h t ht)).symm

/-- Operators are told apart by their texts, and by the number of their operands. -/
theorem ofHead_unary {op : Token} (h : op.Fits Token.IsLexeme [.bang, .minus]) (xs : List SExpr)
    (e : Node) : ofHead op.lexeme xs [e] = .unary op.unplaced e := by
  obtain ⟨hlex, hk⟩ := h
  have hall : ∀ k ∈ [Kind.bang, .minus], k.symbolText ≠ [] ∧
      ofHead (String.ofList k.symbolText) xs [e] =
        .unary (mark k (String.ofList k.symbolText)) e := by
    simp only [List.forall_mem_cons]
    exact ⟨⟨by decide, rfl⟩, ⟨by decide, rfl⟩, List.forall_mem_nil _⟩
  obtain ⟨hne, hhead⟩ := hall _ hk
  obtain ⟨ht, hu⟩ := unplaced_symbol hlex hne
  rw [hu, ht, hhead]

theorem ofHead_binary {op : Token} (h : op.Fits Token.IsLexeme binaryKinds) (xs : List SExpr)
    (l r : Node) : ofHead op.lexeme xs [l, r] = .binary l op.unplaced r := by
  obtain ⟨hlex, hk⟩ := h
  have hall : ∀ k ∈ binaryKinds, k.symbolText ≠ [] ∧
      ofHead (String.ofList k.symbolText) xs [l, r] =
        .binary l (mark k (String.ofList k.symbolText)) r := by
    simp only [binaryKinds, List.forall_mem_cons]
    refine ⟨?_, ?_, ?_, ?_, ?_, ?_, ?_, ?_, ?_, ?_, List.forall_mem_nil _⟩ <;>
      exact ⟨by decide, rfl⟩
  obtain ⟨hne, hhead⟩ := hall _ hk
  obtain ⟨ht, hu⟩ := unplaced_symbol hlex hne
  rw [hu, ht, hhead]

theorem ofHead_logical {op : Token} (h : op.Fits Token.IsLexeme [.andKw, .orKw]) (xs : List SExpr)
    (l r : Node) : ofHead op.lexeme xs [l, r] = .logical l op.unplaced r := by
  obtain ⟨hlex, hk⟩ := h
  have hall : ∀ k ∈ [Kind.andKw, .orKw], ∃ word, (word, k) ∈ keywords ∧
      ofHead word xs [l, r] = .logical l (mark k word) r := by
    simp only [List.forall_mem_cons]
    exact ⟨⟨"and", by simp [keywords], rfl⟩, ⟨"or", by simp [keywords], rfl⟩, List.forall_mem_nil _⟩
  obtain ⟨word, hmem, hhead⟩ := hall _ hk
  obtain ⟨ht, hu⟩ := unplaced_keyword hlex hmem
  rw [hu, ht, hhead]

theorem ofHead_func (x : SExpr) (params xs : List SExpr) (name : Token) (e : Node)
    (body : List Node) : ofHead "func" (x :: .list params :: xs) (.ident name :: e :: body) =
      .funcDecl name (params.map parameter) body :=
  rfl

theorem read_funcDecl (name : Token) (params : List Token) (body : List Node) :
    (funcDecl name params body).shape.read =
      ofHead "func"
        (.word name.lexeme :: .list (params.map fun t => .word t.lexeme) :: shapes body)
        (ofWord name.lexeme :: SExpr.read (.list (params.map fun t => .word t.lexeme)) ::
          SExpr.readAll (shapes body)) :=
  rfl

/-- **Reading back.** What a written tree is printed as is read back as this tree without the places
of its tokens, if no literal in it is a string or an infinite number. -/
theorem read_shape (h : n.Written Token.IsLexeme) (hr : n.Readable) :
    n.shape.read = n.relabel Token.unplaced := by
  induction n using Node.parts_induct with
  | _ n ih =>
  have ih : ∀ p ∈ n.parts, p.shape.read = p.relabel Token.unplaced :=
    fun p hp => ih p hp (h.part hp) (hr.part hp)
  have hfits := (written_iff.mp h).1
  cases n with
  | lit v => exact ofWord_literal hfits (hr v (.refl _))
  | ident name => exact ofWord_identifier hfits
  | group e | exprStmt e | printStmt e =>
    simp only [shape, SExpr.read, SExpr.readAll, ih e (List.mem_singleton_self e)]
    rfl
  | unary op e =>
    simp only [shape, SExpr.read, SExpr.readAll, ih e (List.mem_singleton_self e),
      ofHead_unary hfits, relabel]
  | binary l op r =>
    simp only [shape, SExpr.read, SExpr.readAll, ih l (by simp [parts]), ih r (by simp [parts]),
      ofHead_binary hfits, relabel]
  | logical l op r =>
    simp only [shape, SExpr.read, SExpr.readAll, ih l (by simp [parts]), ih r (by simp [parts]),
      ofHead_logical hfits, relabel]
  | assign name e =>
    simp only [shape, SExpr.read, SExpr.readAll, ih e (List.mem_singleton_self e),
      ofWord_identifier hfits]
    rfl
  | call callee paren es =>
    have hes := readAll_shapes fun e he => ih e (List.mem_cons_of_mem callee he)
    have hu := unplaced_rightParen hfits
    simp only [shape, SExpr.read, SExpr.readAll, ih callee List.mem_cons_self, hes, relabel, hu]
    rfl
  | whileStmt c b =>
    simp only [shape, SExpr.read, SExpr.readAll, ih c (by simp [parts]), ih b (by simp [parts])]
    rfl
  | block ss =>
    have hss : SExpr.readAll (shapes ss) = _ := readAll_shapes ih
    simp only [shape, SExpr.read, hss]
    rfl
  | ifStmt c t o =>
    have hc := ih c (by simp [parts])
    have ht := ih t (by simp [parts])
    cases o with
    | none =>
      simp only [shape, SExpr.read, SExpr.readAll, hc, ht]
      rfl
    | some e =>
      simp only [shape, SExpr.read, SExpr.readAll, hc, ht, ih e (by simp [parts])]
      rfl
  | varDecl name o =>
    cases o with
    | none =>
      simp only [shape, SExpr.read, SExpr.readAll, ofWord_identifier hfits]
      rfl
    | some e =>
      simp only [shape, SExpr.read, SExpr.readAll, ofWord_identifier hfits,
        ih e (by simp [parts])]
      rfl
  | funcDecl name params body =>
    obtain ⟨hname, hparams⟩ := List.forall_mem_cons.mp hfits
    have hbody : SExpr.readAll (shapes body) = _ := readAll_shapes ih
    rw [read_funcDecl, ofWord_identifier hname, hbody, ofHead_func, map_parameter hparams, relabel]
  | returnStmt keyword o =>
    have hu := unplaced_return hfits
    cases o with
    | none =>
      simp only [shape, SExpr.read, SExpr.readAll, relabel, hu]
      rfl
    | some e =>
      simp only [shape, SExpr.read, SExpr.readAll, ih e (by simp [parts]), relabel, hu]
      rfl
  | stray form => exact hfits.elim

/-! ## Plain words -/

theorem isPlainWord_displayText {x : Float} (h : Number.IsFinite x) :
    IsPlainWord (Number.displayText x) := by
  obtain ⟨hall, c, rest, heq, -⟩ := Number.isNumeral_displayText h
  refine ⟨by simp [heq], fun d hd hdel => ?_⟩
  rcases hall d hd with hdigit | hmem
  · exact (isDigit_eq_true_iff.mp hdigit).not_isDelimiter hdel
  · revert hmem
    rcases hdel with rfl | rfl | rfl <;> decide

theorem plain_heads : ∀ s ∈ ["group", "=", "call", ";", "print", "var", "block", "if", "if-else",
    "while", "func", "return", "nil", "true", "false"], IsPlainWord s := by
  decide

theorem isPlainWord_name (h : t.Fits Token.IsLexeme [.identifier]) : IsPlainWord t.lexeme :=
  isPlainWord_of_lexeme h.1 (by simp [List.mem_singleton.mp h.2])

theorem isPlainWord_operator {op : Token} {kinds : List Kind}
    (h : op.Fits Token.IsLexeme kinds)
    (hk : ∀ k ∈ kinds, k ∉ [.leftParen, .rightParen, .number, .string]) :
    IsPlainWord op.lexeme :=
  isPlainWord_of_lexeme h.1 (hk _ h.2)

theorem isPlainWord_literal {v : Value} (h : (lit v).Fits Token.IsLexeme) (hv : v.IsReadable) :
    IsPlainWord (v.display.toOption.getD "") := by
  rcases isFinite_or_keyword h hv with ⟨x, rfl, hx⟩ | rfl | ⟨b, rfl⟩
  · exact isPlainWord_displayText hx
  · exact plain_heads "nil" (by decide)
  · cases b
    · exact plain_heads "false" (by decide)
    · exact plain_heads "true" (by decide)

theorem allPlain_shapes {ns : List Node} (h : ∀ n ∈ ns, n.shape.Plain) :
    SExpr.AllPlain (shapes ns) := by
  rw [SExpr.allPlain_iff, shapes_eq_map]
  simpa using h

/-- The words of a printed tree are plain. -/
theorem plain_shape (h : n.Written Token.IsLexeme) (hr : n.Readable) : n.shape.Plain := by
  induction n using Node.parts_induct with
  | _ n ih =>
  have ih : ∀ p ∈ n.parts, p.shape.Plain := fun p hp => ih p hp (h.part hp) (hr.part hp)
  have hfits := (written_iff.mp h).1
  cases n with
  | lit v => exact isPlainWord_literal hfits (hr v (.refl _))
  | ident name => exact isPlainWord_name hfits
  | group e | exprStmt e | printStmt e =>
    exact ⟨plain_heads _ (by simp), ih e (by simp [parts]), trivial⟩
  | unary op e => exact ⟨isPlainWord_operator hfits (by decide), ih e (by simp [parts]), trivial⟩
  | binary l op r | logical l op r =>
    exact ⟨isPlainWord_operator hfits (by decide), ih l (by simp [parts]), ih r (by simp [parts]),
      trivial⟩
  | assign name e =>
    exact ⟨plain_heads _ (by simp), isPlainWord_name hfits, ih e (by simp [parts]), trivial⟩
  | call callee paren es =>
    exact ⟨plain_heads _ (by simp), ih callee (by simp [parts]),
      allPlain_shapes fun e he => ih e (by simp [parts, he])⟩
  | whileStmt c b =>
    exact ⟨plain_heads _ (by simp), ih c (by simp [parts]), ih b (by simp [parts]), trivial⟩
  | block ss => exact ⟨plain_heads _ (by simp), allPlain_shapes ih⟩
  | ifStmt c t o =>
    have hc := ih c (by simp [parts])
    have ht := ih t (by simp [parts])
    cases o with
    | none => exact ⟨plain_heads _ (by simp), hc, ht, trivial⟩
    | some e => exact ⟨plain_heads _ (by simp), hc, ht, ih e (by simp [parts]), trivial⟩
  | varDecl name o =>
    have hname := isPlainWord_name hfits
    cases o with
    | none => exact ⟨plain_heads _ (by simp), hname, trivial⟩
    | some e =>
      exact ⟨plain_heads _ (by simp), hname, plain_heads _ (by simp), ih e (by simp [parts]),
        trivial⟩
  | funcDecl name params body =>
    obtain ⟨hname, hparams⟩ := List.forall_mem_cons.mp hfits
    refine ⟨plain_heads _ (by simp), isPlainWord_name hname, ?_, allPlain_shapes ih⟩
    refine SExpr.allPlain_iff.mpr fun x hx => ?_
    obtain ⟨t, ht, rfl⟩ := List.mem_map.mp hx
    exact isPlainWord_name (hparams t ht)
  | returnStmt keyword o =>
    cases o with
    | none => exact ⟨plain_heads _ (by simp), trivial⟩
    | some e => exact ⟨plain_heads _ (by simp), ih e (by simp [parts]), trivial⟩
  | stray form => exact hfits.elim

end Node

end Lox
