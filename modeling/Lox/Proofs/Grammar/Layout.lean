import Lox.Proofs.Grammar.Similarity
import Lox.Proofs.Token.Respacing

/-!
# Programs with other layout

The readers of the grammar look at what there is to read of tokens, and not at their places. So
sources whose tokens read the same have the same trees up to the places of their tokens, and the
same errors up to the same; recovery does not depend on places either.

## Main definitions

* `Reader.Commutes f g x y`: the reader `y` does with tokens replaced by the function `f` what `x`
  does with those in their place
* `Token.unplaced t`: the token without its place

## Main results

* `parse_relabel`: the trees and the errors of tokens that are replaced
* `token_mem_of_mem_errors`: the errors of tokens are at these tokens
* `layout_means_nothing`: the lexemes of a source, with spaces between them, have its trees and its
  errors
-/

namespace Lox

/-- What a report says: what is wrong, and at which word. -/
def Diagnostic.wording (d : Diagnostic) : String × String :=
  (d.message, d.location)

namespace Grammar

/-- The error at another token. -/
def SyntaxError.relabel (f : Token → Token) (e : SyntaxError) : SyntaxError :=
  ⟨e.fault, f e.token⟩

/-- The state of a reader with its tokens replaced. -/
def Cursor.relabel (f : Token → Token) (c : Cursor) : Cursor :=
  ⟨c.rest.map f, c.functionDepth, c.errors.map (SyntaxError.relabel f)⟩

/-- What a reader ends with, with tokens replaced. -/
def Reply.relabel {α β : Type} (f : Token → Token) (g : α → β) : Reply α → Reply β
  | done a c => .done (g a) (c.relabel f)
  | failed e c => .failed (e.relabel f) (c.relabel f)
  | unfinished => .unfinished

/-- What the second reader does with tokens that are replaced is what the first one does with the
tokens themselves. -/
def Reader.Commutes (f : Token → Token) {α β : Type} (g : α → β) (x : Reader α) (y : Reader β) :
    Prop :=
  ∀ eof c, y (f eof) (c.relabel f) = (x eof c).relabel f g

variable {f : Token → Token}

/-- Recovery drops the same number of tokens. -/
theorem synchronize_map (hf : Relabels f) (ts : List Token) :
    synchronize (ts.map f) = (synchronize ts).map f := by
  induction ts with
  | nil => rfl
  | cons t ts ih =>
    have hnext : ((ts.map f).head?.any fun u => startsStatement u.kind) =
        (ts.head?.any fun u => startsStatement u.kind) := by
      cases ts <;> simp [hf.kind]
    rw [List.map_cons, synchronize, synchronize, hf.kind, hnext, ih]
    split <;> rfl

theorem getD_head?_map (t : Token) (ts : List Token) :
    (ts.map f).head?.getD (f t) = f (ts.head?.getD t) := by
  cases ts <;> rfl

theorem commutes_nextKind? (hf : Relabels f) : Reader.Commutes f id nextKind? nextKind? := by
  intro eof c
  have hkind : (c.rest.map f).head?.map Token.kind = c.rest.head?.map Token.kind := by
    cases c.rest <;> simp [hf.kind]
  simp only [nextKind?_apply, Cursor.relabel, hkind]
  rfl

theorem Reader.Commutes.bind {α β γ δ : Type} {g : α → β} {g' : γ → δ} {x : Reader α}
    {y : Reader β} {h : α → Reader γ} {h' : β → Reader δ} (hx : Reader.Commutes f g x y)
    (hh : ∀ a, Reader.Commutes f g' (h a) (h' (g a))) :
    Reader.Commutes f g' (x >>= h) (y >>= h') := by
  intro eof c
  rw [Reader.bind_apply, Reader.bind_apply, hx eof c]
  cases x eof c with
  | done a d => exact hh a eof d
  | failed e d => rfl
  | unfinished => rfl

theorem commutes_acceptIf? (hf : Relabels f) (wanted : Kind → Bool) :
    Reader.Commutes f (Option.map f) (acceptIf? wanted) (acceptIf? wanted) := by
  rintro eof ⟨rest, depth, errors⟩
  cases rest with
  | nil => rfl
  | cons t rest =>
    simp only [acceptIf?_apply, Cursor.relabel, List.map_cons, hf.kind]
    split <;> rfl

theorem commutes_record (fault : SyntaxFault) :
    Reader.Commutes f id (record fault) (record fault) := by
  intro eof c
  simp only [record_apply, Cursor.relabel, getD_head?_map]
  rfl

theorem commutes_fail {α β : Type} (g : α → β) (fault : SyntaxFault) :
    Reader.Commutes f g (fail fault) (fail fault) := by
  intro eof c
  simp only [fail_apply, Cursor.relabel, getD_head?_map]
  rfl

theorem commutes_inFunction {α β : Type} {g : α → β} {x : Reader α} {y : Reader β}
    (h : Reader.Commutes f g x y) : Reader.Commutes f g (inFunction x) (inFunction y) := by
  intro eof c
  have hx := h eof { c with functionDepth := c.functionDepth + 1 }
  simp only [Cursor.relabel] at hx
  simp only [inFunction_apply, Cursor.relabel, hx]
  cases x eof { c with functionDepth := c.functionDepth + 1 } <;> rfl

theorem commutes_recover {α β : Type} {g : α → β} {x : Reader α} {y : Reader β}
    (hf : Relabels f) (h : Reader.Commutes f g x y) :
    Reader.Commutes f (Option.map g) (recover x) (recover y) := by
  intro eof c
  simp only [recover_apply, h eof c]
  cases x eof c with
  | failed e d => simp only [Reply.relabel, Cursor.relabel, synchronize_map hf]; rfl
  | done a d => rfl
  | unfinished => rfl

/-- The steps of readers do the same with tokens that read the same. -/
theorem similarSteps_commutes (hf : Relabels f) :
    SimilarSteps f readerSteps readerSteps (Reader.Commutes f) (Reader.Commutes f) where
  pure g a := fun eof c => rfl
  bind hx hh := hx.bind hh
  unfinished g := fun eof c => rfl
  acceptIf? _ := commutes_acceptIf? hf _
  check _ := (commutes_nextKind? hf).bind fun o => fun eof c => rfl
  recordTarget t := fun eof c => rfl
  recordArguments := commutes_record _
  fail g := fun _ => commutes_fail g _
  acceptAny := commutes_acceptIf? hf
  recordReturn t := fun eof c => rfl
  recordParameters := commutes_record _
  functionDepth := fun eof c => rfl
  inFunction h := commutes_inFunction h
  recover h := commutes_recover hf h
  ahead h := h
  bindAhead hx hh := hx.bind hh
  branch h hs := (commutes_nextKind? hf).bind fun o => by
    cases o with
    | none => exact h
    | some kind => exact hs kind

/-! ## Parses -/

/-- The trees and the errors, with tokens replaced. -/
def Parse.relabel (f : Token → Token) (p : Parse) : Parse :=
  ⟨p.program.map (Node.relabel f), p.errors.map (SyntaxError.relabel f)⟩

/-- **Other tokens** that read the same have the same trees and errors. -/
theorem parse_relabel (hf : Relabels f) (s : TokenStream) :
    parse ⟨s.tokens.map f, f s.eof⟩ = (parse s).relabel f := by
  have hfuel : fuelFor (s.tokens.map f) = fuelFor s.tokens := by
    rw [fuelFor, List.length_map, fuelFor]
  have h := (similarSteps_commutes hf).declarations hf (fuelFor s.tokens) s.eof (start s.tokens)
  have hstart : start (s.tokens.map f) = (start s.tokens).relabel f := rfl
  simp only [parse, hfuel, hstart, h]
  cases declarations (fuelFor s.tokens) s.eof (start s.tokens) with
  | done program c | failed e c => simp [Reply.relabel, Parse.relabel, Cursor.relabel]
  | unfinished => rfl

/-- The errors of tokens are at these tokens: what is done to other ones makes no difference. -/
theorem token_mem_of_mem_errors {s : TokenStream} {e : SyntaxError} (h : e ∈ (parse s).errors) :
    e.token ∈ s.toList := by
  classical
  let f (t : Token) : Token := if t ∈ s.toList then t else { t with line := t.line + 1 }
  have hfixed {t : Token} (ht : t ∈ s.toList) : f t = t := if_pos ht
  have hf : Relabels f := by
    constructor <;> intro t <;> simp only [f] <;> split <;> rfl
  have hs : (⟨s.tokens.map f, f s.eof⟩ : TokenStream) = s := by
    have htokens : s.tokens.map f = s.tokens.map id :=
      List.map_congr_left fun t ht => hfixed (List.mem_append_left _ ht)
    rw [htokens, hfixed (List.mem_append_right _ (List.mem_singleton_self _)), List.map_id]
  have herrors := congrArg Parse.errors (parse_relabel hf s)
  rw [hs, ← List.map_id (parse s).errors] at herrors
  simp only [Parse.relabel, List.map_id] at herrors
  have he := List.map_inj_left.mp ((List.map_id _).trans herrors) e h
  by_contra hn
  have hline := congrArg (fun e => e.token.line) he
  simp [SyntaxError.relabel, f, hn] at hline

theorem wording_relabel (hf : Relabels f) (e : SyntaxError) :
    (e.relabel f).diagnostic.wording = e.diagnostic.wording := by
  simp only [Diagnostic.wording, SyntaxError.diagnostic, SyntaxError.relabel, location, hf.kind,
    hf.lexeme]

end Grammar

/-- The token without its place. -/
def Token.unplaced (t : Token) : Token :=
  { t with line := 0, offset := 0 }

theorem relabels_unplaced : Relabels Token.unplaced :=
  ⟨fun _ => rfl, fun _ => rfl, fun _ => rfl⟩

theorem map_unplaced_congr {ts us : List Token} (h : ts.map Token.reading = us.map Token.reading) :
    ts.map Token.unplaced = us.map Token.unplaced := by
  have hreading : Token.unplaced = (fun r => ⟨r.1, r.2.1, r.2.2, 0, 0⟩) ∘ Token.reading := rfl
  rw [hreading, ← List.map_map, h, List.map_map]

namespace Grammar

/-- Token sequences that read the same have the same trees, up to places, and the same errors. -/
theorem parse_of_readings {s s' : TokenStream}
    (h : s'.toList.map Token.reading = s.toList.map Token.reading) :
    (parse s').relabel Token.unplaced = (parse s).relabel Token.unplaced := by
  have hu := map_unplaced_congr h
  simp only [TokenStream.toList, List.map_append, List.map_singleton] at hu
  obtain ⟨htokens, heof⟩ := List.append_inj' hu rfl
  rw [← parse_relabel relabels_unplaced, ← parse_relabel relabels_unplaced, htokens,
    List.singleton_inj.mp heof]

theorem wordings_congr {p q : Parse} (h : p.relabel Token.unplaced = q.relabel Token.unplaced) :
    (p.errors.map SyntaxError.diagnostic).map Diagnostic.wording =
      (q.errors.map SyntaxError.diagnostic).map Diagnostic.wording := by
  have hwording (p : Parse) : (p.errors.map SyntaxError.diagnostic).map Diagnostic.wording =
      ((p.relabel Token.unplaced).errors.map SyntaxError.diagnostic).map Diagnostic.wording := by
    simp only [Parse.relabel, List.map_map]
    exact List.map_congr_left fun e _ => (wording_relabel relabels_unplaced e).symm
  rw [hwording p, hwording q, h]

/-- **Layout means nothing.** The lexemes of a source, with spaces between them, have no scan errors
and the tokens of the source; and their trees are those of the source, up to the places of tokens,
with the same errors at the same words. -/
theorem layout_means_nothing (source : String) :
    (scan (respaced source)).diagnostics = [] ∧
      (scan (respaced source)).stream.toList.map Token.reading =
        (scan source).stream.toList.map Token.reading ∧
      (parseSource (respaced source)).parse.program.map (Node.relabel Token.unplaced) =
        (parseSource source).parse.program.map (Node.relabel Token.unplaced) ∧
      (parseSource (respaced source)).parseDiagnostics.map Diagnostic.wording =
        (parseSource source).parseDiagnostics.map Diagnostic.wording := by
  obtain ⟨herrors, htokens⟩ := scan_respaced source
  have hparse := parse_of_readings htokens
  exact ⟨by rw [Scan.diagnostics, herrors]; rfl, htokens, congrArg Parse.program hparse,
    wordings_congr hparse⟩

end Grammar

end Lox
