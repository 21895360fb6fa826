import Lox.Proofs.Grammar.Similarity

/-!
# Where an expression ends

No rule for expressions reads a semicolon, and none of them looks behind one. So in front of a
semicolon an expression is read as in front of the end of the source, and the other way around. The
errors are the same up to their tokens: there are two sorts of them that do not stop the reader, and
too many arguments may be reported at the semicolon.

## Main definitions

* `Closing us`: if there is a next token then it is a semicolon
* `SyntaxFault.isExcused`: the errors that do not stop the reader of an expression
* `EndsAlike us us' g x y`: in front of tokens that `us` follows, the reader `x` ends as the reader
  `y` does where `us'` follows

## Main results

* `similarExpressionSteps_endsAlike`: so do all steps that expressions are made of
* `expression_closing`: an expression that is read up to its end is one with another end
-/

namespace Lox.Grammar

/-- The next token, if there is one, is a semicolon. -/
def Closing (us : List Token) : Prop :=
  ∀ t ∈ us.head?, t.kind = .semicolon

/-- The error is recorded while an expression is read, which goes on then. -/
def SyntaxFault.isExcused : SyntaxFault → Bool
  | invalidTarget | tooManyArguments => true
  | _ => false

/-- All errors are such ones. -/
def Excused (errors : List SyntaxError) : Prop :=
  ∀ e ∈ errors, e.fault.isExcused = true

theorem Excused.append {es es' : List SyntaxError} (h : Excused es) (h' : Excused es') :
    Excused (es ++ es') :=
  List.forall_mem_append.mpr ⟨h, h'⟩

theorem excused_nil : Excused [] :=
  fun _ h => absurd h List.not_mem_nil

variable {us us' : List Token} {α β γ δ : Type} {g : α → β} {g' : γ → δ} {x : Reader α}
  {y : Reader β}

/-- Both readers end in front of the same tokens and what follows these, with errors that are
excused on top of the earlier ones; or both fail. -/
inductive EndAlike (us us' : List Token) {α β : Type} (g : α → β)
    (errors errors' : List SyntaxError) : Reply α → Reply β → Prop
  | done {a : α} {ts : List Token} {d : Nat} {es es' : List SyntaxError} (h : Excused es)
      (h' : Excused es') : EndAlike us us' g errors errors'
      (.done a ⟨ts ++ us, d, es ++ errors⟩) (.done (g a) ⟨ts ++ us', d, es' ++ errors'⟩)
  | failed {e e' : SyntaxError} {c c' : Cursor} :
      EndAlike us us' g errors errors' (.failed e c) (.failed e' c')
  | unfinished : EndAlike us us' g errors errors' .unfinished .unfinished

/-- Nothing is recorded. -/
theorem EndAlike.quiet (g : α → β) (a : α) (ts : List Token) (d : Nat)
    (errors errors' : List SyntaxError) : EndAlike us us' g errors errors'
      (.done a ⟨ts ++ us, d, errors⟩) (.done (g a) ⟨ts ++ us', d, errors'⟩) := by
  rw [← List.nil_append errors, ← List.nil_append errors']
  exact .done excused_nil excused_nil

/-- In front of the same tokens, the two readers end alike whatever of the two follows. -/
def EndsAlike (us us' : List Token) {α β : Type} (g : α → β) (x : Reader α) (y : Reader β) : Prop :=
  ∀ eof eof' ts d errors errors', EndAlike us us' g errors errors'
    (x eof ⟨ts ++ us, d, errors⟩) (y eof' ⟨ts ++ us', d, errors'⟩)

/-- Errors that are excused count as earlier ones or not. -/
theorem EndAlike.of_excused {errors errors' es es' : List SyntaxError} {reply : Reply α}
    {reply' : Reply β} (he : Excused es) (he' : Excused es')
    (h : EndAlike us us' g (es ++ errors) (es' ++ errors') reply reply') :
    EndAlike us us' g errors errors' reply reply' := by
  cases h with
  | done h h' =>
    rw [← List.append_assoc, ← List.append_assoc]
    exact .done (h.append he) (h'.append he')
  | failed => exact .failed
  | unfinished => exact .unfinished

theorem endsAlike_pure (g : α → β) (a : α) : EndsAlike us us' g (pure a) (pure (g a)) :=
  fun _ _ ts d errors errors' => .quiet g a ts d errors errors'

theorem EndsAlike.bind {h : α → Reader γ} {h' : β → Reader δ} (hx : EndsAlike us us' g x y)
    (hh : ∀ a, EndsAlike us us' g' (h a) (h' (g a))) :
    EndsAlike us us' g' (x >>= h) (y >>= h') := by
  intro eof eof' ts d errors errors'
  have hxy := hx eof eof' ts d errors errors'
  rw [Reader.bind_apply, Reader.bind_apply]
  generalize x eof ⟨ts ++ us, d, errors⟩ = reply, y eof' ⟨ts ++ us', d, errors'⟩ = reply' at hxy ⊢
  cases hxy with
  | done he he' => exact (hh _ eof eof' _ _ _ _).of_excused he he'
  | failed => exact .failed
  | unfinished => exact .unfinished

/-- Only a semicolon may follow, which is not wanted. -/
theorem endsAlike_acceptIf? (hus : Closing us) (hus' : Closing us') {wanted : Kind → Bool}
    (hw : wanted .semicolon = false) :
    EndsAlike us us' (Option.map id) (acceptIf? wanted) (acceptIf? wanted) := by
  have hnone {vs : List Token} (hvs : Closing vs) (eof : Token) (d : Nat)
      (errors : List SyntaxError) :
      acceptIf? wanted eof ⟨vs, d, errors⟩ = .done none ⟨vs, d, errors⟩ := by
    cases vs with
    | nil => rfl
    | cons v vs => simp [acceptIf?_apply, hvs v rfl, hw]
  intro eof eof' ts d errors errors'
  cases ts with
  | nil =>
    rw [List.nil_append, List.nil_append, hnone hus, hnone hus']
    exact .quiet (Option.map id) none [] d errors errors'
  | cons t ts =>
    simp only [acceptIf?_apply, List.cons_append]
    split
    · exact .quiet (Option.map id) (some t) ts d errors errors'
    · exact .quiet (Option.map id) none (t :: ts) d errors errors'

theorem endsAlike_check (hus : Closing us) (hus' : Closing us') {kind : Kind}
    (hk : kind ≠ .semicolon) : EndsAlike us us' id (check kind) (check kind) := by
  have hnext {vs : List Token} (hvs : Closing vs) :
      (vs.head?.map Token.kind == some kind) = false := by
    cases vs with
    | nil => rfl
    | cons v vs => simpa [hvs v rfl] using hk.symm
  intro eof eof' ts d errors errors'
  have hsame : ((ts ++ us).head?.map Token.kind == some kind) =
      ((ts ++ us').head?.map Token.kind == some kind) := by
    cases ts with
    | nil => rw [List.nil_append, List.nil_append, hnext hus, hnext hus']
    | cons t ts => rfl
  show EndAlike us us' id errors errors' (.done _ _)
    (.done ((ts ++ us').head?.map Token.kind == some kind) _)
  rw [← hsame]
  exact .quiet id _ ts d errors errors'

theorem excused_singleton {fault : SyntaxFault} (hf : fault.isExcused = true) (t : Token) :
    Excused [⟨fault, t⟩] :=
  List.forall_mem_singleton.mpr hf

/-- The steps that expressions are made of end alike where a semicolon follows or nothing. -/
theorem similarExpressionSteps_endsAlike (hus : Closing us) (hus' : Closing us') :
    SimilarExpressionSteps id readerSteps readerSteps (EndsAlike us us') where
  pure := endsAlike_pure
  bind hx hh := hx.bind hh
  unfinished _ := fun _ _ _ _ _ _ => .unfinished
  acceptIf? hw := endsAlike_acceptIf? hus hus' hw
  check hk := endsAlike_check hus hus' hk
  recordTarget t := fun _ _ _ _ _ _ =>
    .done (g := id) (excused_singleton rfl t) (excused_singleton rfl t)
  recordArguments := fun _ _ _ _ _ _ =>
    .done (g := id) (excused_singleton rfl _) (excused_singleton rfl _)
  fail _ := fun _ _ _ _ _ _ _ => .failed

/-- **An expression that is read** up to its end is one with another end. -/
theorem expression_closing {fuel d : Nat} {eof : Token} {ts : List Token} {e : Node} {c : Cursor}
    (hus : Closing us) (hus' : Closing us') (eof' : Token) (errors : List SyntaxError)
    (h : expression fuel eof ⟨ts ++ us, d, []⟩ = .done e c) (hc : c.rest.length = us.length) :
    ∃ es, Excused es ∧
      expression fuel eof' ⟨ts ++ us', d, errors⟩ =
        .done e ⟨us', c.functionDepth, es ++ errors⟩ := by
  have halike := (similarExpressionRules (similarExpressionSteps_endsAlike hus hus') relabels_id
    fuel).expression eof eof' ts d [] errors
  rw [h] at halike
  generalize hr : expression fuel eof' ⟨ts ++ us', d, errors⟩ = reply at halike
  cases halike with
  | @done _ vs d es es' _ he' =>
    obtain rfl : vs = [] := by simpa using hc
    exact ⟨es', he', by rw [Node.relabel_id]; rfl⟩

end Lox.Grammar
