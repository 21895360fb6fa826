import Lox.Proofs.Grammar.Position
import Lox.Proofs.Grammar.Similarity

/-!
# Both sorts of readers

A reader with a position does what the reader of the grammar does that has the tokens which are
left, if the list ends with a token that ends the source and has no other one. Both are then in the
same place all along. A reader with a position looks at the token before it only after it has moved:
a token that is accepted was passed, and a declaration is begun in front of a token, so recovery, if
it begins at the end of the list, does not begin at its first position.

## Main definitions

* `Ended s`: the last token is the only one that ends a source
* `Cursor.At s c p`: the two readers are in the same place
* `Tracks s g x y`: the reader `y` with a position does what the reader `x` does

## Main results

* `synchronize_at`: recovery ends in the same place
* `similarSteps_tracks`: all steps do, and so do the rules that are made of them
-/

namespace Lox.Grammar

open IndexReader

/-- The last token of a sequence is the only one that ends a source. -/
structure Ended (s : TokenStream) : Prop where
  inside : ∀ t ∈ s.tokens, t.kind ≠ .eof
  last : s.eof.kind = .eof

/-- The reader with a position is in the same place as the other one. -/
structure Cursor.At (s : TokenStream) (c : Cursor) (p : Pointer) : Prop where
  inside : p.current ≤ s.tokens.length
  rest : c.rest = s.tokens.drop p.current
  depth : c.functionDepth = p.functionDepth
  errors : c.errors = p.errors

variable {s : TokenStream} {c : Cursor} {p q : Pointer}

namespace Cursor.At

theorem saw (h : c.At s p) (i : Int) : c.At s (p.saw i) :=
  ⟨h.inside, h.rest, h.depth, h.errors⟩

theorem next (h : c.At s p) {t : Token} {rest : List Token} (hr : c.rest = t :: rest) :
    At s { c with rest := rest } p.next := by
  have hdrop := h.rest
  rw [hr] at hdrop
  have hlt : p.current < s.tokens.length := by
    refine Nat.lt_of_not_le fun hge => ?_
    rw [List.drop_eq_nil_of_le hge] at hdrop
    exact absurd hdrop (by simp)
  refine ⟨hlt, ?_, h.depth, h.errors⟩
  rw [List.drop_eq_getElem_cons hlt] at hdrop
  exact (List.cons.inj hdrop).2

/-- The token at the position is the next one, or the one that ends the source. -/
theorem getElem?_current (h : c.At s p) :
    s.toList[p.current]? = some (c.rest.head?.getD s.eof) := by
  rw [h.rest, List.head?_drop, TokenStream.toList]
  obtain hlt | heq := Nat.lt_or_eq_of_le h.inside
  · rw [List.getElem?_append_left hlt, List.getElem?_eq_getElem hlt]
    rfl
  · rw [heq, List.getElem?_concat_length, List.getElem?_eq_none (Nat.le_refl _)]
    rfl

theorem length_toList (s : TokenStream) : s.toList.length = s.tokens.length + 1 := by
  simp [TokenStream.toList]

end Cursor.At

open Cursor.At (length_toList)

theorem look_of_getElem? {i : Nat} {t : Token} (h : s.toList[i]? = some t) :
    look i s.toList p = .done t (p.saw i) := by
  have ht : tokenAt? s.toList i = some t := by
    rw [tokenAt?, if_pos (Int.natCast_nonneg i), Int.toNat_natCast, h]
  rw [look, ht]

namespace Cursor.At

variable (h : c.At s p)

include h

theorem peek : IndexReader.peek s.toList p = .done (c.rest.head?.getD s.eof) (p.saw p.current) :=
  look_of_getElem? h.getElem?_current

theorem inRange : 0 ≤ (p.current : Int) ∧ (p.current : Int) < s.toList.length := by
  have := h.inside
  rw [length_toList]
  omega

theorem leads_saw : p.Leads s (p.saw p.current) :=
  Pointer.leads_saw h.inRange

theorem isAtEnd (hs : Ended s) :
    IndexReader.isAtEnd s.toList p = .done c.rest.isEmpty (p.saw p.current) := by
  have hend : ((c.rest.head?.getD s.eof).kind == .eof) = c.rest.isEmpty := by
    cases hr : c.rest with
    | nil => simp [hs.last]
    | cons t rest =>
      have ht : t ∈ s.tokens := List.mem_of_mem_drop (h.rest ▸ hr ▸ List.mem_cons_self)
      simpa using hs.inside t ht
  rw [IndexReader.isAtEnd, bind_of_done h.peek, ← hend]
  rfl

/-- Behind the first position there is a token before the position. -/
theorem previous (hp : 0 < p.current) : ∃ t, s.toList[p.current - 1]? = some t ∧
    IndexReader.previous s.toList p = .done t (p.saw (p.current - 1)) ∧
    p.Leads s (p.saw (p.current - 1)) := by
  have hlt : p.current - 1 < s.toList.length := by
    have := h.inside
    rw [length_toList]
    omega
  have hcast : (p.current : Int) - 1 = (p.current - 1 : Nat) := by omega
  refine ⟨_, List.getElem?_eq_getElem hlt, ?_, Pointer.leads_saw (by omega)⟩
  rw [IndexReader.previous, hcast]
  exact look_of_getElem? (List.getElem?_eq_getElem hlt)

/-- In front of a token, this token is passed. -/
theorem advance (hs : Ended s) {t : Token} {rest : List Token} (hr : c.rest = t :: rest) :
    ∃ p', IndexReader.advance s.toList p = .done t p' ∧ At s { c with rest := rest } p' ∧
      (p.saw p.current).next.Leads s p' ∧ p'.current = p.current + 1 ∧
      p'.raised = p.raised ∧ s.toList[p'.current - 1]? = some t := by
  have hc := h.getElem?_current
  have hnext := (h.saw p.current).next hr
  obtain ⟨u, hu, hprev, hl⟩ := hnext.previous (Nat.succ_pos _)
  have htu : t = u := by
    rw [hr] at hc
    exact Option.some.inj (hc.symm.trans hu)
  subst htu
  refine ⟨_, ?_, hnext.saw _, hl, rfl, rfl, hu⟩
  rw [IndexReader.advance, bind_of_done (h.isAtEnd hs), hr]
  exact (bind_of_done (r := move) rfl _).trans hprev

/-- At the end, nothing is passed. -/
theorem advance_end (hs : Ended s) (hr : c.rest = []) (hp : 0 < p.current) :
    ∃ t p', IndexReader.advance s.toList p = .done t p' ∧ c.At s p' ∧ p.Leads s p' := by
  obtain ⟨t, -, hprev, hl⟩ := (h.saw p.current).previous hp
  refine ⟨t, _, ?_, (h.saw _).saw _, h.leads_saw.trans hl⟩
  rw [IndexReader.advance, bind_of_done (h.isAtEnd hs), hr]
  exact hprev

end Cursor.At

/-! ## Recovery -/

/-- Passing tokens after the token `t`, up to the next statement. -/
theorem skip_at (hs : Ended s) {fuel : Nat} {t : Token} (h : c.At s p)
    (ht : s.toList[p.current - 1]? = some t) (hp : 0 < p.current) (hf : c.rest.length < fuel) :
    ∃ p', skip fuel s.toList p = .done () p' ∧
      Cursor.At s { c with rest := synchronize (t :: c.rest) } p' ∧ p.Leads s p' := by
  -- each round passes one token, which is then the one before the position
  induction fuel generalizing c p t with
  | zero => exact absurd hf (Nat.not_lt_zero _)
  | succ fuel ih =>
    have hend := h.isAtEnd hs
    rw [skip, bind_of_done hend]
    cases hr : c.rest with
    | nil =>
      have hsync : synchronize [t] = [] := by
        rw [synchronize]
        split <;> rfl
      refine ⟨_, rfl, ?_, h.leads_saw⟩
      rw [hsync, ← hr]
      exact h.saw _
    | cons u us =>
      have h₁ := h.saw p.current
      obtain ⟨t', ht', hprev, hl⟩ := h₁.previous hp
      obtain rfl : t = t' := Option.some.inj (ht.symm.trans ht')
      have h₂ := h₁.saw ((p.saw p.current).current - 1)
      have hpeek := h₂.peek
      rw [hr] at hpeek
      have hlook := h.leads_saw.trans (hl.trans h₂.leads_saw)
      simp only [List.isEmpty_cons, Bool.false_eq_true, if_false]
      rw [bind_of_done hprev, synchronize]
      by_cases hsemi : t.kind = .semicolon
      · rw [if_pos (by simpa using hsemi), if_pos (.inl hsemi), ← hr]
        exact ⟨_, rfl, h₂, h.leads_saw.trans hl⟩
      rw [if_neg (by simpa using hsemi), bind_of_done hpeek]
      have hu : ((u :: us).head?.any fun u => startsStatement u.kind) = startsStatement u.kind :=
        rfl
      by_cases hstart : startsStatement u.kind = true
      · rw [if_pos (by simpa using hstart), if_pos (.inr (hu.trans hstart)), ← hr]
        exact ⟨_, rfl, h₂.saw _, hlook⟩
      · rw [if_neg (by simpa using hstart), if_neg (by simp [hsemi, hstart])]
        obtain ⟨p₄, hadv, h₄, hl₄, hcur, -, hu₄⟩ := (h₂.saw _).advance hs hr
        rw [bind_of_done hadv]
        have hlt : us.length < fuel := by
          rw [hr, List.length_cons] at hf
          omega
        obtain ⟨p', hskip, hat, hl'⟩ := ih h₄ hu₄ (by omega) hlt
        refine ⟨p', hskip, hat, hlook.trans (Pointer.Leads.trans ?_ (hl₄.trans hl'))⟩
        exact ((h₂.saw _).leads_saw).trans Pointer.leads_next

/-- After an error that was raised, in front of a token or at the end, the reader goes on behind the
place of the error, or at the end. -/
theorem synchronize_at (hs : Ended s) {e : SyntaxError} (h : c.At s (q.raise e))
    (he : e.fault.isFatal = true) (ht : s.toList[q.current]? = some e.token)
    (hn : 0 < s.tokens.length) :
    ∃ p', IndexReader.synchronize s.toList (q.raise e) = .done () p' ∧
      Cursor.At s { c with rest := synchronize c.rest } p' ∧ q.Leads s p' := by
  -- until a token is passed, the error is not behind, so here it is not settled
  have hraise (hq : q.Sound s ∧ q.Settled s) : (q.raise e).Sound s := hq.1.raise hq.2 he ht
  cases hr : c.rest with
  | nil =>
    have hcur : q.current = s.tokens.length := by
      have hlen := congrArg List.length (hr.symm.trans h.rest)
      rw [List.length_nil, List.length_drop] at hlen
      have : q.current ≤ s.tokens.length := h.inside
      have : s.tokens.length - q.current = 0 := hlen.symm
      omega
    have hpos : 0 < (q.raise e).current := hcur ▸ hn
    obtain ⟨t, p₁, hadv, h₁, hl₁⟩ := h.advance_end hs hr hpos
    refine ⟨p₁.saw p₁.current, ?_, ?_, ?_⟩
    · rw [IndexReader.synchronize, bind_of_done hadv, length_toList, skip,
        bind_of_done (h₁.isAtEnd hs), hr]
      rfl
    · rw [synchronize, ← hr]
      exact h₁.saw _
    · have hl := hl₁.trans h₁.leads_saw
      exact ⟨hl.forward, fun hq => hl.sound ⟨hraise hq, hq.2.raise_end e hcur⟩⟩
  | cons t rest =>
    obtain ⟨p₁, hadv, h₁, hl₁, hcur, -, ht₁⟩ := h.advance hs hr
    have hlen : rest.length < s.toList.length := by
      have hlen := congrArg List.length (hr.symm.trans h.rest)
      rw [List.length_cons, List.length_drop] at hlen
      rw [length_toList]
      omega
    obtain ⟨p', hskip, hat, hl'⟩ := skip_at hs h₁ ht₁ (by omega) hlen
    refine ⟨p', ?_, hat, ?_⟩
    · rw [IndexReader.synchronize, bind_of_done hadv]
      exact hskip
    · have hl := hl₁.trans hl'
      refine ⟨Nat.le_of_succ_le hl.forward, fun hq => hl.sound ⟨?_, ?_⟩⟩
      · exact ((hraise hq).saw h.inRange).next
      · exact hq.2.raise_next e

/-! ## Readers that agree -/

/-- How the two readers end when one of them has begun at `p`: in the same place, with the same
result, or with the same error, which was raised at its token. -/
inductive Agree (s : TokenStream) {α β : Type} (g : α → β) (p : Pointer) :
    Reply α → IndexReply β → Prop
  | done {a : α} {c' : Cursor} {p' : Pointer} (h : c'.At s p') (hl : p.Leads s p') :
      Agree s g p (.done a c') (.done (g a) p')
  | failed {e : SyntaxError} {c' : Cursor} {q : Pointer} (h : c'.At s (q.raise e))
      (he : e.fault.isFatal = true) (ht : s.toList[q.current]? = some e.token)
      (hl : p.Leads s q) : Agree s g p (.failed e c') (.failed e (q.raise e))
  | unfinished : Agree s g p .unfinished .unfinished

/-- The reader with a position does what the other one does, wherever they begin. -/
def Tracks (s : TokenStream) {α β : Type} (g : α → β) (x : Reader α) (y : IndexReader β) : Prop :=
  ∀ c p, c.At s p → Agree s g p (x s.eof c) (y s.toList p)

/-- It does so if they begin in front of a token. -/
def TracksAhead (s : TokenStream) {α β : Type} (g : α → β) (x : Reader α) (y : IndexReader β) :
    Prop :=
  ∀ c p, c.At s p → p.current < s.tokens.length → Agree s g p (x s.eof c) (y s.toList p)

section

variable {α β γ δ : Type} {g : α → β} {g' : γ → δ} {x : Reader α} {y : IndexReader β}

theorem Agree.after {reply : Reply α} {reply' : IndexReply β} (hl : p.Leads s q)
    (h : Agree s g q reply reply') : Agree s g p reply reply' := by
  cases h with
  | done h hl' => exact .done h (hl.trans hl')
  | failed h he ht hl' => exact .failed h he ht (hl.trans hl')
  | unfinished => exact .unfinished

theorem Agree.bind {h : α → Reader γ} {h' : β → IndexReader δ}
    (hx : Agree s g p (x s.eof c) (y s.toList p)) (hh : ∀ a, Tracks s g' (h a) (h' (g a))) :
    Agree s g' p ((x >>= h) s.eof c) ((y >>= h') s.toList p) := by
  rw [Reader.bind_apply, IndexReader.bind_apply]
  generalize x s.eof c = reply, y s.toList p = reply' at hx ⊢
  cases hx with
  | done hat hl => exact (hh _ _ _ hat).after hl
  | failed h he ht hl => exact .failed h he ht hl
  | unfinished => exact .unfinished

theorem tracks_pure (g : α → β) (a : α) : Tracks s g (pure a) (pure (g a)) :=
  fun _ _ h => .done h (.refl _)

theorem Cursor.At.eq_nil_iff (h : c.At s p) : c.rest = [] ↔ p.current = s.tokens.length := by
  rw [h.rest, List.drop_eq_nil_iff]
  exact ⟨fun hge => Nat.le_antisymm h.inside hge, fun heq => heq ▸ Nat.le_refl _⟩

/-- What comes next is the same for both readers. -/
theorem tracks_branch (hs : Ended s) {h : Option Kind → Reader α}
    {h' : Option Kind → IndexReader β} (hn : Tracks s g (h none) (h' none))
    (hk : ∀ kind, TracksAhead s g (h (some kind)) (h' (some kind))) :
    Tracks s g (Grammar.nextKind? >>= h) (IndexReader.nextKind? >>= h') := by
  intro c p hat
  have hend := hat.isAtEnd hs
  rw [show (Grammar.nextKind? >>= h) s.eof c = h (c.rest.head?.map Token.kind) s.eof c from rfl]
  cases hr : c.rest with
  | nil =>
    have hnext : IndexReader.nextKind? s.toList p = .done none (p.saw p.current) := by
      rw [IndexReader.nextKind?, bind_of_done hend, hr]
      rfl
    rw [bind_of_done hnext]
    exact (hn c _ (hat.saw _)).after hat.leads_saw
  | cons t rest =>
    have hpeek := (hat.saw p.current).peek
    have hnext : IndexReader.nextKind? s.toList p =
        .done (some t.kind) ((p.saw p.current).saw p.current) := by
      rw [IndexReader.nextKind?, bind_of_done hend, hr]
      rw [hr] at hpeek
      exact bind_of_done hpeek _
    rw [bind_of_done hnext]
    have hlt : p.current < s.tokens.length := by
      refine Nat.lt_of_le_of_ne hat.inside fun heq => ?_
      rw [hat.eq_nil_iff.mpr heq] at hr
      exact absurd hr (by simp)
    refine (hk t.kind c _ ((hat.saw _).saw _) hlt).after ?_
    exact hat.leads_saw.trans (hat.saw p.current).leads_saw

theorem tracks_acceptIf? (hs : Ended s) (wanted : Kind → Bool) :
    Tracks s (Option.map id) (Grammar.acceptIf? wanted) (IndexReader.acceptIf? wanted) := by
  intro c p hat
  have hend := hat.isAtEnd hs
  rw [IndexReader.acceptIf?, bind_of_done hend, acceptIf?_apply]
  cases hr : c.rest with
  | nil => exact .done (hat.saw _) hat.leads_saw
  | cons t rest =>
    have hpeek := (hat.saw p.current).peek
    rw [hr] at hpeek
    have hlook := hat.leads_saw.trans (hat.saw p.current).leads_saw
    simp only [List.isEmpty_cons, Bool.false_eq_true, if_false]
    rw [bind_of_done hpeek, show ((t :: rest).head?.getD s.eof) = t from rfl]
    by_cases hw : wanted t.kind = true
    · obtain ⟨p', hadv, hat', hl, -⟩ := ((hat.saw _).saw _).advance hs hr
      rw [if_pos hw, if_pos hw, bind_of_done hadv]
      refine .done hat' (hlook.trans (Pointer.Leads.trans ?_ hl))
      exact ((hat.saw _).saw _).leads_saw.trans Pointer.leads_next
    · rw [if_neg hw, if_neg hw]
      exact .done ((hat.saw _).saw _) hlook

theorem tracks_recordAt {fault : SyntaxFault} (hf : fault.isFatal = false) (t : Token) :
    Tracks s id (Grammar.recordAt fault t) (IndexReader.recordAt fault t) :=
  fun _ _ h => .done ⟨h.inside, h.rest, h.depth, congrArg (_ :: ·) h.errors⟩
    (Pointer.leads_note hf)

theorem tracks_record {fault : SyntaxFault} (hf : fault.isFatal = false) :
    Tracks s id (Grammar.record fault) (IndexReader.record fault) := by
  intro c p h
  rw [IndexReader.record, bind_of_done h.peek]
  exact (tracks_recordAt hf _ c _ (h.saw _)).after h.leads_saw

theorem tracks_fail (g : α → β) {fault : SyntaxFault} (hf : fault.isFatal = true) :
    Tracks s g (Grammar.fail fault) (IndexReader.fail fault) := by
  intro c p h
  rw [IndexReader.fail, bind_of_done h.peek]
  refine .failed (q := p.saw p.current) ?_ hf h.getElem?_current h.leads_saw
  exact ⟨h.inside, h.rest, h.depth, congrArg (_ :: ·) h.errors⟩

theorem tracks_inFunction (h : Tracks s g x y) :
    Tracks s g (Grammar.inFunction x) (IndexReader.inFunction y) := by
  intro c p hat
  have hx := h { c with functionDepth := c.functionDepth + 1 } (p.within (p.functionDepth + 1))
    ⟨hat.inside, hat.rest, congrArg (· + 1) hat.depth, hat.errors⟩
  have hin := Pointer.leads_within (s := s) (p := p) (p.functionDepth + 1)
  rw [inFunction_apply, IndexReader.inFunction]
  generalize x s.eof { c with functionDepth := c.functionDepth + 1 } = reply,
    y s.toList (p.within (p.functionDepth + 1)) = reply' at hx ⊢
  cases hx with
  | done hat hl =>
    exact .done ⟨hat.inside, hat.rest, congrArg (· - 1) hat.depth, hat.errors⟩
      (hin.trans (hl.trans (Pointer.leads_within _)))
  | @failed _ _ q hat he ht hl =>
    exact .failed (q := q.within (q.functionDepth - 1))
      ⟨hat.inside, hat.rest, congrArg (· - 1) hat.depth, hat.errors⟩ he ht
      (hin.trans (hl.trans (Pointer.leads_within _)))
  | unfinished => exact .unfinished

/-- In front of a token, recovery ends in the same place. -/
theorem tracks_recover (hs : Ended s) (h : Tracks s g x y) :
    TracksAhead s (Option.map g) (Grammar.recover x) (IndexReader.recover y) := by
  intro c p hat hlt
  have hx := h c p hat
  rw [recover_apply, IndexReader.recover]
  generalize x s.eof c = reply, y s.toList p = reply' at hx ⊢
  cases hx with
  | done hat hl => exact .done (g := Option.map g) (a := some _) hat hl
  | failed hat he ht hl =>
    obtain ⟨p', hsync, hat', hl'⟩ := synchronize_at hs hat he ht (Nat.zero_lt_of_lt hlt)
    show Agree s (Option.map g) p (.done none _)
      ((IndexReader.synchronize >>= fun _ => pure none) _ _)
    rw [bind_of_done hsync]
    exact .done (g := Option.map g) (a := none) hat' (hl.trans hl')
  | unfinished => exact .unfinished

end

/-- The steps of readers with a position do what those of the others do. -/
theorem similarSteps_tracks (hs : Ended s) :
    SimilarSteps id readerSteps indexSteps (Tracks s) (TracksAhead s) where
  pure := tracks_pure
  bind hx hh := fun c p h => (hx c p h).bind hh
  unfinished g := fun _ _ _ => .unfinished
  acceptIf? _ := tracks_acceptIf? hs _
  check _ := tracks_branch hs (tracks_pure id _) fun _ c p h _ => tracks_pure id _ c p h
  recordTarget := tracks_recordAt rfl
  recordArguments := tracks_record rfl
  fail g := tracks_fail g
  acceptAny := tracks_acceptIf? hs
  recordReturn := tracks_recordAt rfl
  recordParameters := tracks_record rfl
  functionDepth := fun c p h => by
    have hd : indexSteps.functionDepth s.toList p = .done (id c.functionDepth) p := by
      rw [h.depth]
      rfl
    rw [hd]
    exact .done h (.refl _)
  inFunction := tracks_inFunction
  recover := tracks_recover hs
  ahead h := fun c p hat _ => h c p hat
  bindAhead hx hh := fun c p h hlt => (hx c p h hlt).bind hh
  branch := tracks_branch hs

/-! ## Rules -/

theorem tracks_declaration (hs : Ended s) (fuel : Nat) :
    TracksAhead s (Option.map (Node.relabel id)) (declaration fuel)
      (IndexReader.declaration fuel) :=
  (similarStatementRules (similarSteps_tracks hs) relabels_id fuel).declaration

theorem tracks_declarations (hs : Ended s) (fuel : Nat) :
    Tracks s (List.map (Node.relabel id)) (declarations fuel) (IndexReader.declarations fuel) :=
  (similarSteps_tracks hs).declarations relabels_id fuel

theorem tracks_wholeExpression (hs : Ended s) (fuel : Nat) :
    Tracks s (Node.relabel id) (wholeExpression fuel) (IndexReader.wholeExpression fuel) :=
  (similarSteps_tracks hs).wholeExpression relabels_id fuel

end Lox.Grammar
