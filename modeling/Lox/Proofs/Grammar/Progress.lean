import Lox.Proofs.Grammar.Declares
import Lox.Proofs.Grammar.Tracking

/-!
# Progress of the readers

However broken a source is, it is read to its end. A declaration that is begun in front of a token
ends further on, whether it is read or dropped after an error, so the readers of programs and of
blocks do not stay where they are. On the way, only tokens of the list are looked at, from positions
that do not go back, and no token but the one that ends the source has two fatal errors.

## Main results

* `declaration_progress`: a declaration that ends has read a token
* `declarations_at_end`, `wholeExpression_at_end`: programs and expressions are read to their ends
* `readers_progress`: all of this, for readers with a position
-/

namespace Lox.Grammar

variable {s : TokenStream} {p : Pointer}

/-! ## Runs -/

theorem at_start (s : TokenStream) : (start s.tokens).At s .start :=
  ⟨Nat.zero_le _, rfl, rfl, rfl⟩

/-- At the beginning, nothing has been looked at. -/
theorem sound_start (s : TokenStream) : Pointer.start.Sound s ∧ Pointer.start.Settled s := by
  refine ⟨⟨?_, .nil, ?_, .nil, rfl⟩, ?_⟩ <;> exact fun _ h => absurd h List.not_mem_nil

/-- Whatever is read from the beginning, the reader with a position is sound after it. -/
theorem Agree.sound_done {α β : Type} {g : α → β} {reply : Reply α} {b : β}
    (h : Agree s g .start reply (.done b p)) : p.Sound s := by
  cases h with
  | done _ hl => exact (hl.sound (sound_start s)).1

theorem Agree.sound_failed {α β : Type} {g : α → β} {reply : Reply α} {e : SyntaxError}
    (h : Agree s g .start reply (.failed e p)) : p.Sound s := by
  cases h with
  | failed _ he ht hl =>
    have hq := hl.sound (sound_start s)
    exact hq.1.raise hq.2 he ht

/-- With enough fuel, a declaration that begins in front of a token ends. -/
theorem declaration_ends {fuel : Nat} (eof : Token) {c : Cursor}
    (hf : 20 * c.rest.length + 12 ≤ fuel) (hc : c.rest ≠ []) :
    ∃ o c', declaration fuel eof c = .done o c' ∧ c'.rest.length < c.rest.length := by
  have hm := (statementRules (fun _ => True) fuel).declaration hf eof c
    ⟨⟨Nat.le_refl _, fun _ _ => trivial⟩, hc⟩ rfl
  cases hr : declaration fuel eof c with
  | done o c' =>
    simp only [hr] at hm
    obtain ⟨ts, adv, ⟨hts, -⟩, -⟩ := hm
    refine ⟨o, c', rfl, ?_⟩
    rw [adv.rest, List.length_append]
    have := List.length_pos_iff.mpr hts
    omega
  | failed e c' => exact absurd hr (declaration_ne_failed fuel e c')
  | unfinished => simp only [hr] at hm

/-- Whatever the fuel is, a declaration that ends has read a token. -/
theorem declaration_progress {fuel : Nat} {eof : Token} {c c' : Cursor} {o : Option Node}
    (h : declaration fuel eof c = .done o c') (hc : c.rest ≠ []) :
    c'.rest.length < c.rest.length := by
  have hle := Nat.le_max_left fuel (20 * c.rest.length + 12)
  have hmore := (moreStatementFuel hle).declaration.eq (by rw [h]; simp)
  obtain ⟨o', c'', hr, hlt⟩ := declaration_ends eof (Nat.le_max_right fuel _) hc
  rw [h, hr] at hmore
  obtain ⟨-, rfl⟩ := Reply.done.inj hmore
  exact hlt

/-- With enough fuel, a source that is one expression is read, or there is an error. -/
theorem wholeExpression_ends (s : TokenStream) :
    wholeExpression (fuelFor s.tokens) s.eof (start s.tokens) ≠ .unfinished := by
  have hf : 20 * s.tokens.length + 10 ≤ fuelFor s.tokens :=
    Nat.le_trans (by omega) (le_fuelFor s.tokens)
  have hm := (expressionRules (fun _ => True) _).expression hf s.eof (start s.tokens)
    ⟨Nat.le_refl _, fun _ _ => trivial⟩ rfl
  rw [wholeExpression, Reader.bind_apply]
  cases hr : expression (fuelFor s.tokens) s.eof (start s.tokens) with
  | done e c =>
    simp only [Reader.bind_apply, nextKind?_apply]
    cases c.rest <;> simp
  | failed e c => simp
  | unfinished => simp only [hr] at hm

/-- The reader with a position reads a program to its end. -/
theorem declarations_at_end (hs : Ended s) :
    ∃ p, IndexReader.declarations (fuelFor s.tokens) s.toList .start = .done (parse s).program p ∧
      p.errors.reverse = (parse s).errors ∧ p.current = s.tokens.length ∧ p.Sound s := by
  have h := tracks_declarations hs (fuelFor s.tokens) _ _ (at_start s)
  obtain ⟨ns, c, hr⟩ := exists_declarations_fuelFor s.tokens s.eof
  have hrest := rest_of_declarations hr
  rw [hr] at h
  rw [parse, hr]
  cases hp : IndexReader.declarations (fuelFor s.tokens) s.toList .start <;> rw [hp] at h
  case done ms p =>
    have hsound := h.sound_done
    cases h with
    | done hat _ =>
      refine ⟨p, ?_, ?_, ?_, hsound⟩
      · rw [Node.map_relabel_id]
      · exact congrArg List.reverse hat.errors.symm
      · exact hat.eq_nil_iff.mp hrest
  all_goals cases h

/-- It reads a source that is one expression to its end, or raises an error. -/
theorem wholeExpression_at_end (hs : Ended s) :
    ∃ p, p.Sound s ∧
      ((∃ e, parseExpression s = .ok e ∧
          IndexReader.wholeExpression (fuelFor s.tokens) s.toList .start = .done e p) ∨
        ∃ error, parseExpression s = .error error ∧
          IndexReader.wholeExpression (fuelFor s.tokens) s.toList .start = .failed error p) := by
  have h := tracks_wholeExpression hs (fuelFor s.tokens) _ _ (at_start s)
  have hends := wholeExpression_ends s
  rw [parseExpression]
  cases hr : wholeExpression (fuelFor s.tokens) s.eof (start s.tokens) <;>
    cases hp : IndexReader.wholeExpression (fuelFor s.tokens) s.toList .start <;>
    rw [hr, hp] at h
  case done.done e c e' p =>
    have hsound := h.sound_done
    cases h
    exact ⟨p, hsound, .inl ⟨e, rfl, by rw [Node.relabel_id]⟩⟩
  case failed.failed error c error' p =>
    have hsound := h.sound_failed
    cases h
    exact ⟨_, hsound, .inr ⟨error, rfl, rfl⟩⟩
  case unfinished.unfinished => exact absurd hr hends
  all_goals cases h

/-- **A declaration that is begun in front of a token** ends further on, whether it is read or
dropped after an error. -/
theorem declaration_forward (hs : Ended s) (fuel : Nat) (hp : p.current < s.tokens.length) :
    (∃ o p', IndexReader.declaration fuel s.toList p = .done o p' ∧ p.current < p'.current ∧
        p'.current ≤ s.tokens.length) ∨
      (IndexReader.declaration fuel s.toList p = .unfinished ∧ fuel < fuelFor s.tokens) := by
  let c : Cursor := ⟨s.tokens.drop p.current, p.functionDepth, p.errors⟩
  have hat : c.At s p := ⟨Nat.le_of_lt hp, rfl, rfl, rfl⟩
  have hc : c.rest ≠ [] := fun hnil => Nat.ne_of_lt hp (hat.eq_nil_iff.mp hnil)
  have hlen : c.rest.length = s.tokens.length - p.current := List.length_drop
  have h := tracks_declaration hs fuel c p hat hp
  cases hr : declaration fuel s.eof c <;>
    cases hq : IndexReader.declaration fuel s.toList p <;> rw [hr, hq] at h
  case done.done o c' o' p' =>
    have hlt := declaration_progress hr hc
    cases h with
    | done hat' _ =>
      have hlen' := congrArg List.length hat'.rest
      rw [List.length_drop] at hlen'
      exact .inl ⟨_, _, rfl, by omega, hat'.inside⟩
  case failed.failed e c' _ _ => exact absurd hr (declaration_ne_failed fuel e c')
  case unfinished.unfinished =>
    refine .inr ⟨rfl, Nat.lt_of_not_le fun hle => ?_⟩
    have hf : 20 * c.rest.length + 12 ≤ fuel := by
      have := Nat.le_trans (le_fuelFor s.tokens) hle
      omega
    obtain ⟨o, c', hdone, -⟩ := declaration_ends s.eof hf hc
    rw [hr] at hdone
    exact absurd hdone (by simp)
  all_goals cases h

/-- **Readers make progress** and stay in bounds. In a list of tokens whose last one is the only one
that ends a source, the reader with a position reads the program, with the trees and the errors of
`parse`, up to that token, and the expression, with the result of `parseExpression`. All indices
that it looks at are in the list, its position never goes back, and it raises at most one error at
each token but the last. A declaration that it begins in front of another token ends further on; it
does not end only if there is not enough fuel. -/
theorem readers_progress (hs : Ended s) :
    (∃ p, IndexReader.declarations (fuelFor s.tokens) s.toList .start = .done (parse s).program p ∧
        p.errors.reverse = (parse s).errors ∧ p.current = s.tokens.length ∧ p.Sound s) ∧
      (∃ p, p.Sound s ∧
        ((∃ e, parseExpression s = .ok e ∧
            IndexReader.wholeExpression (fuelFor s.tokens) s.toList .start = .done e p) ∨
          ∃ error, parseExpression s = .error error ∧
            IndexReader.wholeExpression (fuelFor s.tokens) s.toList .start = .failed error p)) ∧
      ∀ (fuel : Nat) (p : Pointer), p.current < s.tokens.length →
        (∃ o p', IndexReader.declaration fuel s.toList p = .done o p' ∧ p.current < p'.current ∧
            p'.current ≤ s.tokens.length) ∨
          (IndexReader.declaration fuel s.toList p = .unfinished ∧ fuel < fuelFor s.tokens) :=
  ⟨declarations_at_end hs, wholeExpression_at_end hs,
    fun fuel _ hp => declaration_forward hs fuel hp⟩

/-- A block without its closing brace, in which a statement and a lone token have errors. -/
theorem readers_progress_unclosed_block :
    Ended (scan "\x7b print ; )").stream ∧
      (parse (scan "\x7b print ; )").stream).errors.map (·.token.offset) = [8, 10, 11] ∧
      ∃ p, IndexReader.declarations (fuelFor (scan "\x7b print ; )").stream.tokens)
            (scan "\x7b print ; )").stream.toList .start =
          .done (parse (scan "\x7b print ; )").stream).program p ∧
        p.errors.reverse = (parse (scan "\x7b print ; )").stream).errors ∧
        p.current = (scan "\x7b print ; )").stream.tokens.length ∧
        p.Sound (scan "\x7b print ; )").stream :=
  have hs : Ended (scan "\x7b print ; )").stream := ⟨by decide +kernel, rfl⟩
  ⟨hs, by decide +kernel, (readers_progress hs).1⟩

end Lox.Grammar
