import Lox.Grammar.Expression
import Mathlib.Tactic.Common

/-!
# What a reader does

The readers of the grammar are put together from a few steps. Each of them moves a cursor forward
over some tokens, leaves the depth as it was, and adds errors but never takes one back. What is
more to be said of a reader is a relation between the tokens that it reads and its result; one part
of it holds in any case, the other one if no error was added.

A reader that meets a specification also ends: with enough fuel for the tokens in front of it, it
never runs out.

## Main definitions

* `Cursor.Advances c ts c'`: `c'` is the cursor `c` after the tokens `ts`
* `Reader.Meets`: a reader does what is said of it

## Main results

* `Reader.Meets.bind`: one reader after another
* `meets_expect`, `meets_accept`, `meets_recover`, ...: the steps
-/

namespace Lox.Grammar

/-- The second cursor is the first one after the tokens `ts`, with more errors or the same. -/
structure Cursor.Advances (c : Cursor) (ts : List Token) (c' : Cursor) : Prop where
  rest : c.rest = ts ++ c'.rest
  depth : c'.functionDepth = c.functionDepth
  errors : c.errors <:+ c'.errors

namespace Cursor.Advances

variable {c c₁ c₂ : Cursor} {ts us : List Token}

theorem refl (c : Cursor) : c.Advances [] c :=
  ⟨rfl, rfl, List.suffix_refl _⟩

theorem trans (h : c.Advances ts c₁) (h' : c₁.Advances us c₂) : c.Advances (ts ++ us) c₂ := by
  refine ⟨?_, h'.depth.trans h.depth, h.errors.trans h'.errors⟩
  rw [h.rest, h'.rest, List.append_assoc]

/-- No error on the way means no error in the first part of it. -/
theorem clean_left (h : c.Advances ts c₁) (h' : c₁.Advances us c₂) (hc : c₂.errors = c.errors) :
    c₁.errors = c.errors := by
  have hl := h'.errors.length_le
  rw [hc] at hl
  exact (h.errors.eq_of_length_le hl).symm

end Cursor.Advances

/-- In front of tokens that satisfy `pre`, inside of `d` functions, the reader ends. If it succeeds
then `always` holds of the tokens that it has read, of those that are left and of its result, and
`clean` does too if it has added no error. If it fails then it has added one. -/
def Reader.MeetsOn {α : Type} (pre : List Token → Prop) (d : Nat) (r : Reader α)
    (always clean : List Token → List Token → α → Prop) : Prop :=
  ∀ eof c, pre c.rest → c.functionDepth = d →
    match r eof c with
    | .done a c' =>
      ∃ ts, c.Advances ts c' ∧ always ts c'.rest a ∧ (c'.errors = c.errors → clean ts c'.rest a)
    | .failed _ c' => ∃ ts, c.Advances ts c' ∧ c'.errors ≠ c.errors
    | .unfinished => False

/-- At most `n` tokens, all of which satisfy `P`. -/
def Within (P : Token → Prop) (n : Nat) (ts : List Token) : Prop :=
  ts.length ≤ n ∧ ∀ t ∈ ts, P t

theorem Within.of_append {P : Token → Prop} {n : Nat} {ts us : List Token}
    (h : Within P n (ts ++ us)) : ts.length ≤ n ∧ Within P (n - ts.length) us := by
  have hl := h.1
  rw [List.length_append] at hl
  exact ⟨by omega, by omega, fun t ht => h.2 t (List.mem_append_right _ ht)⟩

/-- The specification, which says nothing of the tokens that are left, is met in front of at most
`n` tokens that satisfy `P`. -/
abbrev Reader.Meets {α : Type} (P : Token → Prop) (n d : Nat) (r : Reader α)
    (always clean : List Token → α → Prop) : Prop :=
  r.MeetsOn (Within P n) d (fun ts _ => always ts) (fun ts _ => clean ts)

variable {α β : Type} {P : Token → Prop} {pre : List Token → Prop} {n d : Nat}

namespace Reader

variable {r : Reader α} {always clean always' clean' : List Token → List Token → α → Prop}

/-- A weaker specification is met as well. -/
theorem MeetsOn.mono (h : r.MeetsOn pre d always clean)
    (ha : ∀ ts us a, always ts us a → always' ts us a)
    (hc : ∀ ts us a, always ts us a → clean ts us a → clean' ts us a) :
    r.MeetsOn pre d always' clean' := by
  intro eof c hp hd
  have hr := h eof c hp hd
  cases hx : r eof c with
  | done a c' =>
    simp only [hx] at hr ⊢
    obtain ⟨ts, adv, hA, hC⟩ := hr
    exact ⟨ts, adv, ha ts c'.rest a hA, fun he => hc ts c'.rest a hA (hC he)⟩
  | failed e c' => simpa only [hx] using hr
  | unfinished => simp only [hx] at hr

/-- A reader that reads nothing. -/
theorem MeetsOn.pure {a : α} (ha : ∀ us, always [] us a) (hc : ∀ us, clean [] us a) :
    (Pure.pure a : Reader α).MeetsOn pre d always clean :=
  fun _ c _ _ => ⟨[], .refl c, ha c.rest, fun _ => hc c.rest⟩

/-- A result that is known from the start. -/
theorem MeetsOn.pure_bind {a : α} {next : α → Reader β}
    {always clean : List Token → List Token → β → Prop}
    (h : (next a).MeetsOn pre d always clean) :
    (Pure.pure a >>= next).MeetsOn pre d always clean :=
  h

/-- One reader after another. The second one is specified in terms of what the first one read. -/
theorem MeetsOn.bindOn {next : α → Reader β} {always' clean' : List Token → List Token → β → Prop}
    (h : r.MeetsOn pre d always clean)
    (hk : ∀ ts a, (∃ us, always ts us a) → (next a).MeetsOn (fun us => pre (ts ++ us)) d
      (fun us vs b => always' (ts ++ us) vs b)
      (fun us vs b => clean ts (us ++ vs) a → clean' (ts ++ us) vs b)) :
    (r >>= next).MeetsOn pre d always' clean' := by
  intro eof c hp hd
  have hr := h eof c hp hd
  rw [Reader.bind_apply]
  cases hx : r eof c with
  | done a c₁ =>
    simp only [hx] at hr ⊢
    obtain ⟨ts, adv, hA, hC⟩ := hr
    have hp₁ : pre (ts ++ c₁.rest) := adv.rest ▸ hp
    have hs := hk ts a ⟨_, hA⟩ eof c₁ hp₁ (adv.depth.trans hd)
    cases hy : next a eof c₁ with
    | done b c₂ =>
      simp only [hy] at hs ⊢
      obtain ⟨us, adv', hA', hC'⟩ := hs
      refine ⟨ts ++ us, adv.trans adv', hA', fun he => ?_⟩
      -- errors are only ever added, so without an error in the end neither reader has found one
      have he₁ := adv.clean_left adv' he
      exact hC' (he.trans he₁.symm) (adv'.rest ▸ hC he₁)
    | failed e c₂ =>
      simp only [hy] at hs ⊢
      obtain ⟨us, adv', hne⟩ := hs
      refine ⟨ts ++ us, adv.trans adv', fun he => hne ?_⟩
      exact he.trans (adv.clean_left adv' he).symm
    | unfinished => simp only [hy] at hs
  | failed e c₁ => simpa only [hx] using hr
  | unfinished => simp only [hx] at hr

/-- A reader does the same in front of fewer lists of tokens. -/
theorem MeetsOn.of_imp {pre' : List Token → Prop} (h : r.MeetsOn pre d always clean)
    (hp : ∀ ts, pre' ts → pre ts) : r.MeetsOn pre' d always clean :=
  fun eof c hc hd => h eof c (hp _ hc) hd

/-- One reader after another, with a bound for what the second one finds. -/
theorem MeetsOn.bind {next : α → Reader β} {always' clean' : List Token → List Token → β → Prop}
    (h : r.MeetsOn (Within P n) d always clean)
    (hk : ∀ ts a, ts.length ≤ n → (∃ us, always ts us a) →
      (next a).MeetsOn (Within P (n - ts.length)) d (fun us vs b => always' (ts ++ us) vs b)
        (fun us vs b => clean ts (us ++ vs) a → clean' (ts ++ us) vs b)) :
    (r >>= next).MeetsOn (Within P n) d always' clean' := by
  refine h.bindOn fun ts a ha eof c hc hd => ?_
  obtain ⟨hl, hw⟩ := hc.of_append
  exact hk ts a hl ha eof c hw hd

theorem Meets.bind {next : α → Reader β} {always clean : List Token → α → Prop}
    {always' clean' : List Token → List Token → β → Prop} (h : r.Meets P n d always clean)
    (hk : ∀ ts a, ts.length ≤ n → always ts a → (next a).MeetsOn (Within P (n - ts.length)) d
      (fun us vs b => always' (ts ++ us) vs b)
      (fun us vs b => clean ts a → clean' (ts ++ us) vs b)) :
    (r >>= next).MeetsOn (Within P n) d always' clean' := by
  refine MeetsOn.bind h fun ts a hl ha => ?_
  obtain ⟨-, ha⟩ := ha
  exact hk ts a hl ha

/-- A result that is put into another form before it is used. -/
theorem map_bind {f : α → β} {γ : Type} {next : β → Reader γ} :
    (do return f (← r)) >>= next = r >>= fun a => next (f a) := by
  funext eof c
  simp only [Reader.bind_apply]
  cases r eof c <;> rfl

end Reader

/-! ## Steps -/

open Reader

/-- A token is read if it is wanted, and nothing otherwise. -/
theorem meets_acceptIf? (wanted : Kind → Bool) :
    (acceptIf? wanted).MeetsOn (Within P n) d
      (fun ts _ o => ts = o.toList ∧ ∀ t ∈ o, P t ∧ wanted t.kind = true)
      (fun _ us o => o = none → ∀ t ∈ us.head?, wanted t.kind = false) := by
  intro eof c hc _
  cases hr : c.rest with
  | nil =>
    simp only [acceptIf?_apply, hr]
    exact ⟨[], .refl c, by simp, fun _ _ => by simp⟩
  | cons t rest =>
    simp only [acceptIf?_apply, hr]
    by_cases h : wanted t.kind = true
    · rw [if_pos h]
      refine ⟨[t], ⟨hr, rfl, List.suffix_refl _⟩, ⟨rfl, ?_⟩, fun _ => by simp⟩
      rintro u ⟨⟩
      exact ⟨hc.2 t (by simp [hr]), h⟩
    · rw [if_neg h]
      exact ⟨[], .refl c, by simp, fun _ _ => by simpa [hr] using h⟩

theorem meets_accept? (kind : Kind) :
    (accept? kind).MeetsOn (Within P n) d
      (fun ts _ o => ts = o.toList ∧ ∀ t ∈ o, P t ∧ t.kind = kind)
      (fun _ us o => o = none → ∀ t ∈ us.head?, t.kind ≠ kind) :=
  (meets_acceptIf? _).mono (fun _ _ _ h => by simpa using h) fun _ _ _ _ h => by simpa using h

theorem meets_accept (kind : Kind) :
    (accept kind).MeetsOn (Within P n) d
      (fun ts _ b => b = false ∧ ts = [] ∨ b = true ∧ ∃ t, ts = [t] ∧ P t ∧ t.kind = kind)
      (fun _ us b => b = false → ∀ t ∈ us.head?, t.kind ≠ kind) := by
  refine MeetsOn.bind (meets_accept? kind) fun ts o _ ⟨_, ho, hk⟩ => ?_
  cases o with
  | none => exact MeetsOn.pure (fun _ => .inl ⟨rfl, by simp [ho]⟩) fun _ h _ => h rfl
  | some t => exact MeetsOn.pure (fun _ => .inr ⟨rfl, t, by simp [ho], hk t rfl⟩) (by simp)

/-- What is done next may depend on whether a token of the kind comes next. -/
theorem MeetsOn.ifAccept {kind : Kind} {r r' : Reader α}
    {always clean : List Token → List Token → α → Prop}
    (h : ∀ t, 0 < n → P t → t.kind = kind → r.MeetsOn (Within P (n - 1)) d
      (fun us vs a => always (t :: us) vs a) (fun us vs a => clean (t :: us) vs a))
    (h' : r'.MeetsOn (Within P n) d always clean) :
    (do if ← accept kind then r else r').MeetsOn (Within P n) d always clean := by
  refine MeetsOn.bind (meets_accept kind) fun ts b hl ⟨_, hts⟩ => ?_
  rcases hts with ⟨rfl, rfl⟩ | ⟨rfl, t, rfl, hP, hk⟩
  · exact h'.mono (fun _ _ _ ha => ha) fun _ _ _ _ hc _ => hc
  · exact (h t hl hP hk).mono (fun _ _ _ ha => ha) fun _ _ _ _ hc _ => hc

/-- A fatal error ends a reader, so anything can be said of its result. -/
theorem meets_fail {always clean : List Token → List Token → α → Prop} (fault : SyntaxFault) :
    (fail fault : Reader α).MeetsOn pre d always clean :=
  fun _ _ _ _ => ⟨[], ⟨rfl, rfl, List.suffix_cons _ _⟩, by simp⟩

theorem meets_expect (kind : Kind) (fault : SyntaxFault) :
    (expect kind fault).Meets P n d (fun ts t => ts = [t] ∧ P t ∧ t.kind = kind)
      (fun _ _ => True) := by
  refine MeetsOn.bind (meets_accept? kind) fun ts o _ ⟨_, ho, hk⟩ => ?_
  cases o with
  | none => exact meets_fail fault
  | some t => exact MeetsOn.pure (fun _ => ⟨by simpa using ho, hk t rfl⟩) fun _ _ => trivial

theorem meets_check (kind : Kind) :
    (check kind).MeetsOn pre d (fun ts _ _ => ts = []) (fun _ _ _ => True) :=
  fun _ c _ _ => ⟨[], .refl c, rfl, fun _ => trivial⟩

/-- What is done next may depend on whether there is a token, and on its kind. -/
theorem MeetsOn.bind_nextKind? {next : Option Kind → Reader α}
    {always clean : List Token → List Token → α → Prop}
    (h₀ : (next none).MeetsOn (Within P 0) d always clean)
    (h₁ : ∀ k, (next (some k)).MeetsOn (fun ts => Within P n ts ∧ ts ≠ []) d always clean) :
    (nextKind? >>= next).MeetsOn (Within P n) d always clean := by
  intro eof c hc hd
  rw [Reader.bind_apply]
  show match next (c.rest.head?.map Token.kind) eof c with
    | .done a c' =>
      ∃ ts, c.Advances ts c' ∧ always ts c'.rest a ∧ (c'.errors = c.errors → clean ts c'.rest a)
    | .failed _ c' => ∃ ts, c.Advances ts c' ∧ c'.errors ≠ c.errors
    | .unfinished => False
  cases hr : c.rest with
  | nil => exact h₀ eof c (by simp [Within, hr]) hd
  | cons t rest => exact h₁ t.kind eof c ⟨hc, by simp [hr]⟩ hd

/-- An error that is recorded is an error. -/
theorem meets_recordAt (fault : SyntaxFault) (token : Token) :
    (recordAt fault token).MeetsOn pre d (fun ts _ _ => ts = []) (fun _ _ _ => False) :=
  fun _ _ _ _ => ⟨[], ⟨rfl, rfl, List.suffix_cons _ _⟩, rfl, by simp⟩

theorem meets_record (fault : SyntaxFault) :
    (record fault).MeetsOn pre d (fun ts _ _ => ts = []) (fun _ _ _ => False) :=
  fun eof c => meets_recordAt fault (c.rest.head?.getD eof) eof c

/-- What may be missing is read as `none`, without a token. -/
theorem meets_unlessNext {r : Reader α} {always clean : List Token → α → Prop} (kind : Kind)
    (h : r.Meets P n d always clean) :
    (unlessNext kind r).Meets P n d (fun ts o => o.elim (ts = []) (always ts))
      (fun ts o => o.elim (ts = []) (clean ts)) := by
  refine Meets.bind (meets_check kind) ?_
  rintro _ b - rfl
  split
  · exact MeetsOn.pure (fun _ => rfl) fun _ _ => rfl
  · refine Meets.bind h fun ts a _ ha => MeetsOn.pure (fun _ => ?_) fun _ hc _ => ?_
    · simpa using ha
    · simpa using hc

theorem meets_functionDepth :
    functionDepth.MeetsOn pre d (fun ts _ k => ts = [] ∧ k = d) (fun _ _ _ => True) :=
  fun _ c _ hd => ⟨[], .refl c, ⟨rfl, hd⟩, fun _ => trivial⟩

/-- A function body is read one level deeper. -/
theorem meets_inFunction {r : Reader α} {always clean : List Token → List Token → α → Prop}
    (h : r.MeetsOn pre (d + 1) always clean) : (inFunction r).MeetsOn pre d always clean := by
  intro eof c hc hd
  have hr := h eof { c with functionDepth := c.functionDepth + 1 } hc (congrArg (· + 1) hd)
  rw [inFunction_apply]
  cases hx : r eof { c with functionDepth := c.functionDepth + 1 } with
  | done a c' =>
    simp only [hx] at hr ⊢
    obtain ⟨ts, adv, hA, hC⟩ := hr
    exact ⟨ts, ⟨adv.rest, by simp [adv.depth], adv.errors⟩, hA, hC⟩
  | failed e c' =>
    simp only [hx] at hr ⊢
    obtain ⟨ts, adv, hne⟩ := hr
    exact ⟨ts, ⟨adv.rest, by simp [adv.depth], adv.errors⟩, hne⟩
  | unfinished => simp only [hx] at hr

/-- Recovery has no result and has dropped a token, if there was one. -/
theorem meets_recover {r : Reader α} {always clean : List Token → List Token → α → Prop}
    (h : r.MeetsOn pre d always clean) (ha : ∀ ts us a, always ts us a → ts ≠ [])
    (hp : ∀ ts, pre ts → ts ≠ []) :
    (recover r).MeetsOn pre d (fun ts us o => ts ≠ [] ∧ ∀ a ∈ o, always ts us a)
      (fun ts us o => ∃ a ∈ o, clean ts us a) := by
  intro eof c hc hd
  have hr := h eof c hc hd
  rw [recover_apply]
  cases hx : r eof c with
  | done a c' =>
    simp only [hx] at hr ⊢
    obtain ⟨ts, adv, hA, hC⟩ := hr
    exact ⟨ts, adv, ⟨ha ts _ a hA, by simpa using hA⟩, fun he => ⟨a, rfl, hC he⟩⟩
  | failed e c' =>
    simp only [hx] at hr ⊢
    obtain ⟨ts, adv, hne⟩ := hr
    obtain ⟨us, hus⟩ := synchronize_suffix c'.rest
    refine ⟨ts ++ us, ⟨?_, adv.depth, adv.errors⟩, ⟨?_, by simp⟩, fun he => absurd he hne⟩
    · show c.rest = ts ++ us ++ synchronize c'.rest
      rw [List.append_assoc, hus]
      exact adv.rest
    · intro hnil
      obtain ⟨rfl, rfl⟩ := List.append_eq_nil_iff.mp hnil
      have hrest : c'.rest ≠ [] := by simpa [adv.rest] using hp _ hc
      obtain ⟨t, rest, ht⟩ := List.exists_cons_of_ne_nil hrest
      have hlt := length_synchronize_lt t rest
      rw [← ht] at hlt
      have hle := congrArg List.length hus
      simp only [List.nil_append] at hle
      omega
  | unfinished => simp only [hx] at hr

end Lox.Grammar
