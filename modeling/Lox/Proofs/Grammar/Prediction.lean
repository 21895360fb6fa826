import Lox.Proofs.Grammar.Errors

/-!
# Readers that decide by the next token

A rule of the grammar looks one token ahead, and only at its kind. If it does not get through some
tokens, then it stops at the first one with which no more tokens could have helped: before it, there
always is a way to go on.

All this is about the kinds of the tokens. So it is stated for a family of readers, say of one rule
with any fuel and any operand to its left: what decides between its members is not the tokens. The
statements hold for members that run out of fuel, since nothing is said of these.

## Main definitions

* `Reader.Clears r ts us`: in front of `us`, the reader gets through `ts` without a fatal error
* `Reader.Sticks stops r ts us fault`: it has its first fatal error behind `ts`
* `Accepts`, `Rejects`: the same of a family, for all tokens of these kinds; what is rejected can be
  completed in front of what may follow
* `Completable follow starts r`: there are tokens that the family gets through
* `Predictive stops follow starts n r`: any tokens, up to `n` of them, are accepted or rejected

## Main results

* `Predictive.transfer`: what other readers do
* `Predictive.bind`, `Predictive.bind_additive`: one reader after another
-/

namespace Lox.Grammar

/-! ## Kinds of tokens -/

/-- The tokens are of the same kinds, one by one. -/
def Alike (ts us : List Token) : Prop :=
  ts.map Token.kind = us.map Token.kind

/-- The kind of the next token. -/
def upcoming (ts : List Token) : Option Kind :=
  ts.head?.map Token.kind

@[simp] theorem upcoming_nil : upcoming [] = none := rfl

@[simp] theorem upcoming_cons (t : Token) (ts : List Token) :
    upcoming (t :: ts) = some t.kind := rfl

/-- The next token is there, and of one of these kinds. -/
def Upcoming (ks : List Kind) (k : Option Kind) : Prop :=
  ∃ k' ∈ ks, k = some k'

@[simp] theorem upcoming_some {ks : List Kind} {k : Kind} : Upcoming ks (some k) ↔ k ∈ ks := by
  simp [Upcoming]

@[simp] theorem not_upcoming_none {ks : List Kind} : ¬ Upcoming ks none := by
  simp [Upcoming]

theorem upcoming_of_mem (k : Kind) {ks : List Kind} (hk : k ∈ ks) (κ : Option Kind)
    (hκ : Upcoming [k] κ) : Upcoming ks κ := by
  obtain ⟨k', hk', rfl⟩ := hκ
  obtain rfl : k' = k := by simpa using hk'
  exact ⟨k', hk, rfl⟩

namespace Alike

variable {ts us vs : List Token}

theorem refl (ts : List Token) : Alike ts ts := rfl

theorem eq_nil (h : Alike ts []) : ts = [] :=
  List.map_eq_nil_iff.mp h

theorem of_cons {t : Token} (h : Alike us (t :: ts)) :
    ∃ u vs, us = u :: vs ∧ u.kind = t.kind ∧ Alike vs ts := by
  cases us with
  | nil => simp [Alike] at h
  | cons u vs =>
    obtain ⟨hk, hvs⟩ : u.kind = t.kind ∧ Alike vs ts := by simpa [Alike] using h
    exact ⟨u, vs, rfl, hk, hvs⟩

/-- Tokens like those of two lists are those of two lists. -/
theorem of_append (h : Alike vs (ts ++ us)) :
    ∃ ts' us', vs = ts' ++ us' ∧ Alike ts' ts ∧ Alike us' us := by
  have h' : vs.map Token.kind = ts.map Token.kind ++ us.map Token.kind := by
    rw [← List.map_append]
    exact h
  obtain ⟨ts', us', rfl, hts, hus⟩ := List.map_eq_append_iff.mp h'
  exact ⟨ts', us', rfl, hts, hus⟩

theorem length_eq (h : Alike ts us) : ts.length = us.length := by
  simpa using congrArg List.length h

theorem upcoming_eq (h : Alike ts us) : upcoming ts = upcoming us := by
  cases us with
  | nil => rw [h.eq_nil]
  | cons u us =>
    obtain ⟨t, ts, rfl, hk, -⟩ := h.of_cons
    simp [hk]

/-- What comes next behind tokens does not depend on what comes behind these. -/
theorem upcoming_append (h : Alike ts us) (hne : us ≠ []) (vs vs' : List Token) :
    upcoming (ts ++ vs) = upcoming (us ++ vs') := by
  obtain ⟨u, us, rfl⟩ := List.exists_cons_of_ne_nil hne
  obtain ⟨t, ts, rfl, hk, -⟩ := h.of_cons
  simp [hk]

end Alike

theorem upcoming_append_of_eq {ts ts' us us' : List Token} (hts : Alike ts' ts)
    (h : upcoming us' = upcoming us) : upcoming (ts' ++ us') = upcoming (ts ++ us) := by
  cases ts with
  | nil => simpa [hts.eq_nil] using h
  | cons t ts => exact hts.upcoming_append (by simp) us' us

/-! ## One reader -/

/-- None of the errors is fatal. -/
def Mild (errors : List SyntaxError) : Prop :=
  ∀ e ∈ errors, e.fault.isFatal = false

theorem Mild.append {es es' : List SyntaxError} (h : Mild es) (h' : Mild es') :
    Mild (es ++ es') := by
  intro e he
  rcases List.mem_append.mp he with he | he
  · exact h e he
  · exact h' e he

variable {α β : Type}

/-- If it is an end at all, there are the tokens `us` left, and no fatal error has been found on top
of the earlier ones. -/
def Reply.Clears (us : List Token) (d : Nat) (errors : List SyntaxError) : Reply α → Prop
  | .done _ c => c.rest = us ∧ c.functionDepth = d ∧ ∃ es, Mild es ∧ c.errors = es ++ errors
  | .failed _ _ => False
  | .unfinished => True

/-- The first fatal error on top of the earlier ones. The newest errors come first. -/
def FirstFatal (error : SyntaxError) (earlier errors : List SyntaxError) : Prop :=
  ∃ later mild, Mild mild ∧ errors = later ++ error :: (mild ++ earlier)

/-- If it is an end at all, the first fatal error on top of the earlier ones is this one. If a fatal
error `stops` the reader then this is no success. -/
def Reply.Blames (stops : Bool) (error : SyntaxError) (errors : List SyntaxError) : Reply α → Prop
  | .done _ c => stops = false ∧ FirstFatal error errors c.errors
  | .failed _ c => FirstFatal error errors c.errors
  | .unfinished => True

theorem FirstFatal.of_suffix {e : SyntaxError} {earlier es es' : List SyntaxError}
    (h : FirstFatal e earlier es) (hs : es <:+ es') : FirstFatal e earlier es' := by
  obtain ⟨later, mild, hm, rfl⟩ := h
  obtain ⟨latest, rfl⟩ := hs
  exact ⟨latest ++ later, mild, hm, by simp⟩

/-- Errors that are not fatal count as earlier ones or not. -/
theorem FirstFatal.of_mild {e : SyntaxError} {earlier mild es : List SyntaxError}
    (h : FirstFatal e (mild ++ earlier) es) (hm : Mild mild) : FirstFatal e earlier es := by
  obtain ⟨later, mild', hm', rfl⟩ := h
  exact ⟨later, mild' ++ mild, hm'.append hm, by simp⟩

theorem Reply.Clears.of_mild {us : List Token} {d : Nat} {earlier mild : List SyntaxError}
    {reply : Reply α} (h : reply.Clears us d (mild ++ earlier)) (hm : Mild mild) :
    reply.Clears us d earlier := by
  cases reply with
  | done a c =>
    obtain ⟨hrest, hd, es, hes, he⟩ := h
    exact ⟨hrest, hd, es ++ mild, hes.append hm, by rw [he, List.append_assoc]⟩
  | failed e c => exact h
  | unfinished => trivial

theorem Reply.Blames.of_mild {stops : Bool} {e : SyntaxError} {earlier mild : List SyntaxError}
    {reply : Reply α} (h : reply.Blames stops e (mild ++ earlier)) (hm : Mild mild) :
    reply.Blames stops e earlier := by
  cases reply with
  | done a c => exact ⟨h.1, h.2.of_mild hm⟩
  | failed e c => exact FirstFatal.of_mild h hm
  | unfinished => trivial

namespace Reader

variable {stops : Bool} {r : Reader α} {k : α → Reader β} {ts us vs : List Token}
  {fault : SyntaxFault}

/-- In front of the tokens `us`, the reader reads the tokens `ts` and finds no fatal error. -/
def Clears (r : Reader α) (ts us : List Token) : Prop :=
  ∀ eof d errors, (r eof ⟨ts ++ us, d, errors⟩).Clears us d errors

/-- The first fatal error that the reader finds is at the first one of the tokens `us`. -/
def Sticks (stops : Bool) (r : Reader α) (ts us : List Token) (fault : SyntaxFault) : Prop :=
  ∀ eof d errors,
    (r eof ⟨ts ++ us, d, errors⟩).Blames stops ⟨fault, us.head?.getD eof⟩ errors

/-- Behind a reader that gets through some tokens, the next one begins with the others. -/
theorem Clears.bind_eq (h : r.Clears ts us) (k : α → Reader β) (eof : Token) (d : Nat)
    (errors : List SyntaxError) :
    (r >>= k) eof ⟨ts ++ us, d, errors⟩ = .unfinished ∨
      ∃ a mild, Mild mild ∧
        (r >>= k) eof ⟨ts ++ us, d, errors⟩ = k a eof ⟨us, d, mild ++ errors⟩ := by
  have hr := h eof d errors
  rw [bind_apply]
  cases hx : r eof ⟨ts ++ us, d, errors⟩ with
  | done a c =>
    obtain ⟨rest, d', errors'⟩ := c
    rw [hx] at hr
    obtain ⟨rfl, rfl, mild, hm, rfl⟩ := hr
    exact .inr ⟨a, mild, hm, rfl⟩
  | failed e c =>
    rw [hx] at hr
    exact hr.elim
  | unfinished => exact .inl rfl

theorem Clears.bind (h : r.Clears ts (us ++ vs)) (hk : ∀ a, (k a).Clears us vs) :
    (r >>= k).Clears (ts ++ us) vs := by
  intro eof d errors
  rw [List.append_assoc]
  rcases h.bind_eq k eof d errors with hr | ⟨a, mild, hm, hr⟩ <;> rw [hr]
  · trivial
  · exact (hk a eof d (mild ++ errors)).of_mild hm

/-- The fatal error may be found by the second reader, behind what the first one has read. -/
theorem Clears.bind_sticks (h : r.Clears ts (us ++ vs)) (hk : ∀ a, (k a).Sticks stops us vs fault) :
    (r >>= k).Sticks stops (ts ++ us) vs fault := by
  intro eof d errors
  rw [List.append_assoc]
  rcases h.bind_eq k eof d errors with hr | ⟨a, mild, hm, hr⟩ <;> rw [hr]
  · trivial
  · exact (hk a eof d (mild ++ errors)).of_mild hm

/-- A reader that stops is not followed by another one. -/
theorem Sticks.bind (h : r.Sticks true ts us fault) : (r >>= k).Sticks stops ts us fault := by
  intro eof d errors
  have hr := h eof d errors
  rw [bind_apply]
  cases hx : r eof ⟨ts ++ us, d, errors⟩ with
  | done a c =>
    rw [hx] at hr
    simp [Reply.Blames] at hr
  | failed e c =>
    rw [hx] at hr
    exact hr
  | unfinished => trivial

/-- What follows a reader that does not stop adds its errors. -/
theorem Sticks.bind_additive (h : r.Sticks false ts us fault) (hk : ∀ a, Additive (k a)) :
    (r >>= k).Sticks false ts us fault := by
  intro eof d errors
  have hr := h eof d errors
  rw [bind_apply]
  cases hx : r eof ⟨ts ++ us, d, errors⟩ with
  | done a c =>
    rw [hx] at hr
    cases hy : k a eof c with
    | done b c' =>
      simp only [hy]
      exact ⟨rfl, hr.2.of_suffix ((hk a).errors_suffix.1 hy)⟩
    | failed e c' =>
      simp only [hy]
      exact hr.2.of_suffix ((hk a).errors_suffix.2 hy)
    | unfinished => simp only [hy, Reply.Blames]
  | failed e c =>
    rw [hx] at hr
    exact hr
  | unfinished => trivial

theorem clears_pure (a : α) (us : List Token) : (Pure.pure a : Reader α).Clears [] us :=
  fun _ _ _ => ⟨rfl, rfl, [], by simp [Mild], rfl⟩

end Reader

/-! ## A family of readers -/

open Reader

variable {ι κ : Type} {stops stops' : Bool} {follow starts : Option Kind → Prop} {n : Nat}
  {xs ts us : List Token} {fault : SyntaxFault}

/-- None of the tokens is of the kind that ends a source. -/
def Inner (ts : List Token) : Prop :=
  ∀ t ∈ ts, t.kind ≠ .eof

theorem Inner.append (h : Inner ts) (h' : Inner us) : Inner (ts ++ us) := by
  intro t ht
  rcases List.mem_append.mp ht with ht | ht
  · exact h t ht
  · exact h' t ht

/-- All of the readers read tokens of the kinds of `ts`, in front of what may follow or begins as
`us` does. They accept no tokens only if what follows counts as a start. -/
structure Accepts (follow starts : Option Kind → Prop) (r : ι → Reader α)
    (ts us : List Token) : Prop where
  clears : ∀ i ts' us', Alike ts' ts → upcoming us' = upcoming us ∨ follow (upcoming us') →
    (r i).Clears ts' us'
  nothing : ts = [] → ∀ k, follow k → starts k

/-- All of the readers stick behind tokens of the kinds of `ts`, in front of what begins as `us`
does. What they have read can be completed. -/
structure Rejects (stops : Bool) (follow : Option Kind → Prop) (r : ι → Reader α)
    (ts us : List Token) (fault : SyntaxFault) : Prop where
  fatal : fault.isFatal = true
  sticks : ∀ i ts' us', Alike ts' ts → upcoming us' = upcoming us →
    (r i).Sticks stops ts' us' fault
  completed : ts ≠ [] → ∃ ys, Inner ys ∧ ∀ i ts' us', Alike ts' ts → follow (upcoming us') →
    (r i).Clears (ts' ++ ys) us'

/-- All of the readers accept the first ones of the tokens, or all stick at the same one. -/
def Decides (stops : Bool) (follow starts : Option Kind → Prop) (r : ι → Reader α)
    (xs : List Token) : Prop :=
  ∃ ts us, xs = ts ++ us ∧
    (Accepts follow starts r ts us ∨ ∃ fault, Rejects stops follow r ts us fault)

/-- There are tokens that all of the readers read, in front of what may follow. The first one of
these tokens, or what follows if there are none, is a start. -/
def Completable (follow starts : Option Kind → Prop) (r : ι → Reader α) : Prop :=
  ∃ ys, Inner ys ∧ ∀ us, follow (upcoming us) →
    (∀ i, (r i).Clears ys us) ∧ starts (upcoming (ys ++ us))

/-- The readers look at the kind of the next token only, and they never go on to a place from which
there is no way to an end. -/
structure Predictive (stops : Bool) (follow starts : Option Kind → Prop) (n : Nat)
    (r : ι → Reader α) : Prop where
  completable : Completable follow starts r
  decides : ∀ xs, xs.length ≤ n → Decides stops follow starts r xs

/-! ### Families that do as other ones do -/

section Transfer

variable {r : ι → Reader α} {s : κ → Reader β}
  (hc : ∀ j ts us, (∀ i, (r i).Clears ts us) → (s j).Clears ts us)

include hc

theorem Completable.transfer (h : Completable follow starts r) : Completable follow starts s := by
  obtain ⟨ys, hys, h⟩ := h
  exact ⟨ys, hys, fun us hus => ⟨fun j => hc j ys us (h us hus).1, (h us hus).2⟩⟩

variable (hs : ∀ j ts us fault, (∀ i, (r i).Sticks stops ts us fault) →
    (s j).Sticks stops' ts us fault)

include hs

theorem Decides.transfer (h : Decides stops follow starts r xs) :
    Decides stops' follow starts s xs := by
  obtain ⟨ts, us, rfl, h | ⟨fault, h⟩⟩ := h
  · refine ⟨ts, us, rfl, .inl ⟨fun j ts' us' hts hus => ?_, h.nothing⟩⟩
    exact hc j ts' us' fun i => h.clears i ts' us' hts hus
  · refine ⟨ts, us, rfl, .inr ⟨fault, h.fatal, fun j ts' us' hts hus => ?_, fun hne => ?_⟩⟩
    · exact hs j ts' us' fault fun i => h.sticks i ts' us' hts hus
    · obtain ⟨ys, hys, hy⟩ := h.completed hne
      exact ⟨ys, hys, fun j ts' us' hts hus => hc j _ us' fun i => hy i ts' us' hts hus⟩

/-- A family that does what another one does is as predictive. -/
theorem Predictive.transfer (h : Predictive stops follow starts n r) :
    Predictive stops' follow starts n s :=
  ⟨h.completable.transfer hc, fun xs hxs => (h.decides xs hxs).transfer hc hs⟩

end Transfer

theorem clears_unfinished (ts us : List Token) : (unfinished : Reader α).Clears ts us :=
  fun _ _ _ => trivial

theorem sticks_unfinished (ts us : List Token) (fault : SyntaxFault) :
    (unfinished : Reader α).Sticks stops ts us fault :=
  fun _ _ _ => trivial

/-- Fewer tokens may follow. -/
theorem Predictive.of_follow {r : ι → Reader α} {follow' : Option Kind → Prop}
    (h : Predictive stops follow starts n r) (hf : ∀ κ, follow' κ → follow κ) :
    Predictive stops follow' starts n r := by
  obtain ⟨⟨ys, hys, hy⟩, hd⟩ := h
  refine ⟨⟨ys, hys, fun us hus => hy us (hf _ hus)⟩, fun xs hxs => ?_⟩
  obtain ⟨ts, us, rfl, h | ⟨fault, h⟩⟩ := hd xs hxs
  · exact ⟨ts, us, rfl, .inl ⟨fun i ts' us' hts hus => h.clears i ts' us' hts (hus.imp id (hf _)),
      fun hnil κ hκ => h.nothing hnil κ (hf κ hκ)⟩⟩
  · refine ⟨ts, us, rfl, .inr ⟨fault, h.fatal, h.sticks, fun hne => ?_⟩⟩
    obtain ⟨zs, hzs, hz⟩ := h.completed hne
    exact ⟨zs, hzs, fun i ts' us' hts hus => hz i ts' us' hts (hf _ hus)⟩

section Fuel

variable {r s : Nat → ι → Reader α} (f : ι → Nat) (h₀ : ∀ i, r 0 i = unfinished)
  (hs : ∀ m i, r (m + 1) i = s m i)

include h₀ hs

theorem eq_of_fuel (i : ι) : r (f i) i = unfinished ∨ r (f i) i = s (f i - 1) i := by
  cases f i with
  | zero => exact .inl (h₀ i)
  | succ m => exact .inr (hs m i)

theorem clears_of_fuel (i : ι) (ts us : List Token) (hc : ∀ i, (s (f i - 1) i).Clears ts us) :
    (r (f i) i).Clears ts us := by
  rcases eq_of_fuel f h₀ hs i with he | he <;> rw [he]
  · exact clears_unfinished ts us
  · exact hc i

/-- A rule with any fuel is completed as what it does with some. -/
theorem Completable.of_fuel (h : Completable follow starts fun i => s (f i - 1) i) :
    Completable follow starts fun i => r (f i) i :=
  h.transfer (clears_of_fuel f h₀ hs)

/-- A rule with any fuel is as predictive as what it does with some. -/
theorem Predictive.of_fuel (h : Predictive stops follow starts n fun i => s (f i - 1) i) :
    Predictive stops follow starts n fun i => r (f i) i := by
  refine h.transfer (clears_of_fuel f h₀ hs) fun i ts us fault hc => ?_
  rcases eq_of_fuel f h₀ hs i with he | he <;> rw [he]
  · exact sticks_unfinished ts us fault
  · exact hc i

end Fuel

/-! ### One reader after another -/

section Bind

variable {r : ι → Reader α} {k : ι → α → Reader β} {starts' : Option Kind → Prop}
  {follow' : Option Kind → Prop}

/-- Both parts are completed by what completes each, if the second one may follow the first one. -/
theorem Completable.bind (hr : Completable follow' starts r)
    (hk : Completable follow starts' fun p : ι × α => k p.1 p.2)
    (hf : ∀ κ, starts' κ → follow' κ) : Completable follow starts fun i => r i >>= k i := by
  obtain ⟨ys, hys, hr⟩ := hr
  obtain ⟨zs, hzs, hk⟩ := hk
  refine ⟨ys ++ zs, hys.append hzs, fun us hus => ?_⟩
  obtain ⟨hc, hst⟩ := hk us hus
  obtain ⟨hc', hst'⟩ := hr (zs ++ us) (hf _ hst)
  exact ⟨fun i => (hc' i).bind fun a => hc (i, a), by rwa [List.append_assoc]⟩

theorem Decides.bind {stops₁ : Bool} (hr : Decides stops₁ follow' starts r xs)
    (hstick : ∀ i ts us fault, (r i).Sticks stops₁ ts us fault →
      (r i >>= k i).Sticks stops ts us fault)
    (hc : Completable follow starts' fun p : ι × α => k p.1 p.2)
    (hk : ∀ ts us, xs = ts ++ us → (ts = [] → ∀ κ, follow' κ → starts κ) →
      Decides stops follow starts' (fun p : ι × α => k p.1 p.2) us)
    (hf : ∀ κ, starts' κ → follow' κ) :
    Decides stops follow starts (fun i => r i >>= k i) xs := by
  obtain ⟨zs, hzs, hz⟩ := hc
  obtain ⟨ts, us, rfl, hr | ⟨fault, hr⟩⟩ := hr
  · obtain ⟨us₁, us₂, rfl, h | ⟨fault, h⟩⟩ := hk ts us rfl hr.nothing
    · -- both parts accept
      refine ⟨ts ++ us₁, us₂, by simp, .inl ⟨fun i vs us' hvs hus => ?_, fun hnil κ hκ => ?_⟩⟩
      · obtain ⟨ts', us₁', rfl, hts, hus₁⟩ := hvs.of_append
        refine (hr.clears i ts' (us₁' ++ us') hts ?_).bind fun a =>
          h.clears (i, a) us₁' us' hus₁ hus
        by_cases hnil : us₁ = []
        · subst hnil
          rw [hus₁.eq_nil]
          exact hus.imp id fun hus => hf _ (h.nothing rfl _ hus)
        · exact .inl (hus₁.upcoming_append hnil us' us₂)
      · obtain ⟨rfl, rfl⟩ := List.append_eq_nil_iff.mp hnil
        exact hr.nothing rfl κ (hf κ (h.nothing rfl κ hκ))
    · -- the second part sticks
      refine ⟨ts ++ us₁, us₂, by simp,
        .inr ⟨fault, h.fatal, fun i vs us' hvs hus => ?_, fun hne => ?_⟩⟩
      · obtain ⟨ts', us₁', rfl, hts, hus₁⟩ := hvs.of_append
        have hup := upcoming_append_of_eq hus₁ hus
        exact (hr.clears i ts' (us₁' ++ us') hts (.inl hup)).bind_sticks fun a =>
          h.sticks (i, a) us₁' us' hus₁ hus
      · by_cases hnil : us₁ = []
        · subst hnil
          refine ⟨zs, hzs, fun i vs us' hvs hus => ?_⟩
          obtain ⟨hc, hst⟩ := hz us' hus
          rw [List.append_nil] at hvs
          exact (hr.clears i vs (zs ++ us') hvs (.inr (hf _ hst))).bind fun a => hc (i, a)
        · obtain ⟨ys, hys, hy⟩ := h.completed hnil
          refine ⟨ys, hys, fun i vs us' hvs hus => ?_⟩
          obtain ⟨ts', us₁', rfl, hts, hus₁⟩ := hvs.of_append
          rw [List.append_assoc]
          refine (hr.clears i ts' ((us₁' ++ ys) ++ us') hts (.inl ?_)).bind fun a =>
            hy (i, a) us₁' us' hus₁ hus
          rw [List.append_assoc]
          exact hus₁.upcoming_append hnil _ us₂
  · -- the first part sticks, and what completes the second one completes both
    refine ⟨ts, us, rfl, .inr ⟨fault, hr.fatal, fun i ts' us' hts hus => ?_, fun hne => ?_⟩⟩
    · exact hstick i ts' us' fault (hr.sticks i ts' us' hts hus)
    · obtain ⟨ys, hys, hy⟩ := hr.completed hne
      refine ⟨ys ++ zs, hys.append hzs, fun i ts' us' hts hus => ?_⟩
      obtain ⟨hc, hst⟩ := hz us' hus
      rw [← List.append_assoc]
      exact (hy i ts' (zs ++ us') hts (hf _ hst)).bind fun a => hc (i, a)

/-- **One reader after another.** What may follow the first one is what the second one starts
with. -/
theorem Predictive.bind (hr : Predictive true follow' starts n r)
    (hk : Predictive stops follow starts' n fun p : ι × α => k p.1 p.2)
    (hf : ∀ κ, starts' κ → follow' κ) : Predictive stops follow starts n fun i => r i >>= k i :=
  ⟨hr.completable.bind hk.completable hf, fun xs hxs =>
    (hr.decides xs hxs).bind (fun _ _ _ _ h => h.bind) hk.completable
      (fun ts us he _ => hk.decides us (by simp [he] at hxs; omega)) hf⟩

/-- The same where a fatal error does not stop the first reader. -/
theorem Predictive.bind_additive (hr : Predictive false follow' starts n r)
    (hadd : ∀ i a, Additive (k i a))
    (hk : Predictive false follow starts' n fun p : ι × α => k p.1 p.2)
    (hf : ∀ κ, starts' κ → follow' κ) : Predictive false follow starts n fun i => r i >>= k i :=
  ⟨hr.completable.bind hk.completable hf, fun xs hxs =>
    (hr.decides xs hxs).bind (fun i _ _ _ h => h.bind_additive (hadd i)) hk.completable
      (fun ts us he _ => hk.decides us (by simp [he] at hxs; omega)) hf⟩

end Bind

/-- Readers that read nothing, whatever comes next. -/
theorem completable_of_clears {r : ι → Reader α} (h : ∀ i us, (r i).Clears [] us) :
    Completable follow follow r :=
  ⟨[], by simp [Inner], fun us hus => ⟨fun i => h i us, hus⟩⟩

theorem predictive_of_clears {r : ι → Reader α} (h : ∀ i us, (r i).Clears [] us) :
    Predictive stops follow follow n r := by
  refine ⟨completable_of_clears h, fun xs _ => ?_⟩
  refine ⟨[], xs, rfl, .inl ⟨fun i ts' us' hts _ => ?_, fun _ _ h => h⟩⟩
  rw [hts.eq_nil]
  exact h i us'

theorem predictive_pure (a : ι → α) :
    Predictive stops follow follow n fun i => (pure (a i) : Reader α) :=
  predictive_of_clears fun i us => clears_pure (a i) us

/-- The result may be put into another form. -/
theorem Completable.bind_pure {r : ι → Reader α} {g : ι → α → β} (h : Completable follow starts r) :
    Completable follow starts fun i => r i >>= fun a => pure (g i a) :=
  h.bind (completable_of_clears fun _ us => clears_pure _ us) fun _ h => h

theorem Predictive.bind_pure {r : ι → Reader α} {g : ι → α → β}
    (h : Predictive stops follow starts n r) :
    Predictive stops follow starts n fun i => r i >>= fun a => pure (g i a) := by
  cases stops with
  | true => exact h.bind (predictive_pure _) fun _ h => h
  | false => exact h.bind_additive (fun _ _ => .pure _) (predictive_pure _) fun _ h => h

end Lox.Grammar
