import Lox.Proofs.Grammar.Meets
import Lox.Proofs.Grammar.Prediction

/-!
# Steps that decide by the next token

The steps of the rules of the grammar are predictive: each looks at the kind of the next token, and
reads it, leaves it, or blames it.

## Main results

* `Decides.acceptIf?`, `Predictive.acceptIf?`: one of two ways to go on, by the next token
* `predictive_expect`, `Predictive.expect`: a token that has to be there
* `Decides.nextKind?`, `Predictive.unlessNext`: something that may be missing
* `Predictive.noting`, `Predictive.functionDepth`, `Predictive.inFunction`, `Predictive.recover`:
  steps that read nothing
-/

namespace Lox.Grammar

open Reader

variable {α β ι : Type} {stops : Bool} {follow starts : Option Kind → Prop} {n : Nat}
  {xs ts us : List Token} {fault : SyntaxFault}

/-! ## Tokens that are accepted -/

section AcceptIf

variable {wanted : Kind → Bool} {k : ι → Option Token → Reader α} {starts' : Option Kind → Prop}

/-- The next token is not one that is wanted. -/
def Unwanted (wanted : Kind → Bool) (k : Option Kind) : Prop :=
  ∀ κ, k = some κ → wanted κ = false

theorem unwanted_of_starts (hw : ∀ κ, wanted κ = true → ¬ starts' (some κ)) {o : Option Kind}
    (h : starts' o) : Unwanted wanted o := by
  rintro κ rfl
  exact Bool.eq_false_iff.mpr fun hκ => hw κ hκ h

section

variable {next : Option Token → Reader α} {t : Token}

theorem acceptIf?_bind_some (ht : wanted t.kind = true) (eof : Token) (ts : List Token) (d : Nat)
    (errors : List SyntaxError) :
    (acceptIf? wanted >>= next) eof ⟨t :: ts, d, errors⟩ = next (some t) eof ⟨ts, d, errors⟩ := by
  simp [bind_apply, acceptIf?_apply, ht]

theorem acceptIf?_bind_none (hts : Unwanted wanted (upcoming ts)) (eof : Token) (d : Nat)
    (errors : List SyntaxError) :
    (acceptIf? wanted >>= next) eof ⟨ts, d, errors⟩ = next none eof ⟨ts, d, errors⟩ := by
  cases ts with
  | nil => rfl
  | cons t ts => simp [bind_apply, acceptIf?_apply, hts t.kind rfl]

theorem Reader.Clears.acceptIf?_some (ht : wanted t.kind = true)
    (h : (next (some t)).Clears ts us) : (acceptIf? wanted >>= next).Clears (t :: ts) us := by
  intro eof d errors
  rw [List.cons_append, acceptIf?_bind_some ht]
  exact h eof d errors

theorem Reader.Clears.acceptIf?_none (hts : Unwanted wanted (upcoming (ts ++ us)))
    (h : (next none).Clears ts us) : (acceptIf? wanted >>= next).Clears ts us := by
  intro eof d errors
  rw [acceptIf?_bind_none hts]
  exact h eof d errors

theorem Reader.Sticks.acceptIf?_some (ht : wanted t.kind = true)
    (h : (next (some t)).Sticks stops ts us fault) :
    (acceptIf? wanted >>= next).Sticks stops (t :: ts) us fault := by
  intro eof d errors
  rw [List.cons_append, acceptIf?_bind_some ht]
  exact h eof d errors

theorem Reader.Sticks.acceptIf?_none (hts : Unwanted wanted (upcoming (ts ++ us)))
    (h : (next none).Sticks stops ts us fault) :
    (acceptIf? wanted >>= next).Sticks stops ts us fault := by
  intro eof d errors
  rw [acceptIf?_bind_none hts]
  exact h eof d errors

end

/-- There is a way to go on with a token that is wanted. -/
theorem Completable.acceptIf?_some {t : Token} (ht : wanted t.kind = true) (hne : t.kind ≠ .eof)
    (hst : starts (some t.kind)) (h : Completable follow starts' fun i => k i (some t)) :
    Completable follow starts fun i => acceptIf? wanted >>= k i := by
  obtain ⟨ys, hys, h⟩ := h
  refine ⟨t :: ys, by simpa [Inner, hne] using hys, fun us hus => ⟨fun i => ?_, hst⟩⟩
  exact .acceptIf?_some ht ((h us hus).1 i)

/-- There is a way to go on without a token that is wanted. -/
theorem Completable.acceptIf?_none (hw : ∀ κ, wanted κ = true → ¬ starts' (some κ))
    (hst : ∀ κ, starts' κ → starts κ) (h : Completable follow starts' fun i => k i none) :
    Completable follow starts fun i => acceptIf? wanted >>= k i := by
  obtain ⟨ys, hys, h⟩ := h
  refine ⟨ys, hys, fun us hus => ?_⟩
  obtain ⟨hc, hs⟩ := h us hus
  exact ⟨fun i => .acceptIf?_none (unwanted_of_starts hw hs) (hc i), hst _ hs⟩

/-- Without a token that is wanted, the readers decide as they do without it. -/
theorem Decides.acceptIf?_none (hw : ∀ κ, wanted κ = true → ¬ starts' (some κ))
    (hst : ∀ κ, starts' κ → starts κ) (hxs : Unwanted wanted (upcoming xs))
    (h : Decides stops follow starts' (fun i => k i none) xs) :
    Decides stops follow starts (fun i => acceptIf? wanted >>= k i) xs := by
  obtain ⟨ts, us, rfl, h | ⟨fault, h⟩⟩ := h
  · refine ⟨ts, us, rfl, .inl ⟨fun i ts' us' hts hus => ?_,
      fun hnil κ hκ => hst κ (h.nothing hnil κ hκ)⟩⟩
    refine .acceptIf?_none ?_ (h.clears i ts' us' hts hus)
    rcases hus with hus | hus
    · rwa [upcoming_append_of_eq hts hus]
    · by_cases hnil : ts = []
      · subst hnil
        rw [hts.eq_nil]
        exact unwanted_of_starts hw (h.nothing rfl _ hus)
      · rwa [hts.upcoming_append hnil us' us]
  · refine ⟨ts, us, rfl, .inr ⟨fault, h.fatal, fun i ts' us' hts hus => ?_, fun hne => ?_⟩⟩
    · refine .acceptIf?_none ?_ (h.sticks i ts' us' hts hus)
      rwa [upcoming_append_of_eq hts hus]
    · obtain ⟨ys, hys, hy⟩ := h.completed hne
      refine ⟨ys, hys, fun i ts' us' hts hus => .acceptIf?_none ?_ (hy i ts' us' hts hus)⟩
      rwa [List.append_assoc, hts.upcoming_append hne _ us]

/-- A token that is wanted is read, and then it depends on what comes next. -/
theorem Decides.acceptIf?_some {t : Token} (ht : wanted t.kind = true) (h : Predictive stops follow
      starts' xs.length fun p : ι × { t : Token // wanted t.kind = true } => k p.1 (some p.2)) :
    Decides stops follow starts (fun i => acceptIf? wanted >>= k i) (t :: xs) := by
  have hkind {ts vs : List Token} (hvs : Alike vs (t :: ts)) :
      ∃ u ts', vs = u :: ts' ∧ wanted u.kind = true ∧ Alike ts' ts := by
    obtain ⟨u, ts', rfl, hu, hts⟩ := hvs.of_cons
    exact ⟨u, ts', rfl, hu ▸ ht, hts⟩
  obtain ⟨⟨zs, hzs, hz⟩, hd⟩ := h
  obtain ⟨ts, us, rfl, h | ⟨fault, h⟩⟩ := hd xs (Nat.le_refl _)
  · refine ⟨t :: ts, us, rfl, .inl ⟨fun i vs us' hvs hus => ?_, by simp⟩⟩
    obtain ⟨u, ts', rfl, hu, hts⟩ := hkind hvs
    exact .acceptIf?_some hu (h.clears (i, ⟨u, hu⟩) ts' us' hts hus)
  · refine ⟨t :: ts, us, rfl, .inr ⟨fault, h.fatal, fun i vs us' hvs hus => ?_, fun _ => ?_⟩⟩
    · obtain ⟨u, ts', rfl, hu, hts⟩ := hkind hvs
      exact .acceptIf?_some hu (h.sticks (i, ⟨u, hu⟩) ts' us' hts hus)
    · by_cases hnil : ts = []
      · subst hnil
        refine ⟨zs, hzs, fun i vs us' hvs hus => ?_⟩
        obtain ⟨u, ts', rfl, hu, hts⟩ := hkind hvs
        rw [hts.eq_nil]
        exact .acceptIf?_some hu ((hz us' hus).1 (i, ⟨u, hu⟩))
      · obtain ⟨ys, hys, hy⟩ := h.completed hnil
        refine ⟨ys, hys, fun i vs us' hvs hus => ?_⟩
        obtain ⟨u, ts', rfl, hu, hts⟩ := hkind hvs
        exact .acceptIf?_some hu (hy (i, ⟨u, hu⟩) ts' us' hts hus)

/-- **One token of lookahead.** A token that is wanted decides for the one way to go on, and the
starts of the other way are not wanted. -/
theorem Decides.acceptIf? (hw : ∀ κ, wanted κ = true → ¬ starts' (some κ))
    (hst : ∀ κ, starts' κ → starts κ)
    (hsome : ∀ m < xs.length, ∃ starts₁, Predictive stops follow starts₁ m
      fun p : ι × { t : Token // wanted t.kind = true } => k p.1 (some p.2))
    (hnone : Decides stops follow starts' (fun i => k i none) xs) :
    Decides stops follow starts (fun i => Grammar.acceptIf? wanted >>= k i) xs := by
  cases xs with
  | nil => exact .acceptIf?_none hw hst (fun κ hκ => by simp at hκ) hnone
  | cons t ts =>
    cases ht : wanted t.kind with
    | true =>
      obtain ⟨starts₁, h⟩ := hsome _ (Nat.lt_succ_self _)
      exact .acceptIf?_some ht h
    | false =>
      refine .acceptIf?_none hw hst (fun κ hκ => ?_) hnone
      obtain rfl : t.kind = κ := by simpa using hκ
      exact ht

theorem Predictive.acceptIf? (hw : ∀ κ, wanted κ = true → ¬ starts (some κ))
    (hsome : ∀ m < n, ∃ starts₁, Predictive stops follow starts₁ m
      fun p : ι × { t : Token // wanted t.kind = true } => k p.1 (some p.2))
    (hnone : Predictive stops follow starts n fun i => k i none) :
    Predictive stops follow starts n fun i => Grammar.acceptIf? wanted >>= k i :=
  ⟨hnone.completable.acceptIf?_none hw fun _ h => h, fun xs hxs =>
    .acceptIf? hw (fun _ h => h) (fun m hm => hsome m (Nat.lt_of_lt_of_le hm hxs))
      (hnone.decides xs hxs)⟩

end AcceptIf

/-- Where only some kinds of tokens may come, none of the others is wanted. -/
theorem not_upcoming_of_wanted {wanted : Kind → Bool} {ks : List Kind}
    (h : ∀ k ∈ ks, wanted k = false) (κ : Kind) (hκ : wanted κ = true) :
    ¬ Upcoming ks (some κ) := by
  rw [upcoming_some]
  intro hk
  simp [h κ hk] at hκ

section Accept

variable {kind : Kind} {r r' : ι → Reader α} {starts' : Option Kind → Prop}

theorem not_of_beq (hk : ¬ starts (some kind)) (κ : Kind) (h : (κ == kind) = true) :
    ¬ starts (some κ) := by
  obtain rfl : κ = kind := by simpa using h
  exact hk

theorem Predictive.accept? {k : ι → Option Token → Reader α} (hk : ¬ starts (some kind))
    (hsome : ∀ m < n, ∃ starts₁, Predictive stops follow starts₁ m
      fun p : ι × { t : Token // (t.kind == kind) = true } => k p.1 (some p.2))
    (hnone : Predictive stops follow starts n fun i => k i none) :
    Predictive stops follow starts n fun i => Grammar.accept? kind >>= k i :=
  .acceptIf? (not_of_beq hk) hsome hnone

theorem accept_bind (next : Bool → Reader α) :
    (accept kind >>= next) = Grammar.accept? kind >>= fun o => next o.isSome :=
  map_bind

theorem Decides.ifAccept (hk : ¬ starts' (some kind)) (hst : ∀ κ, starts' κ → starts κ)
    (h : ∀ m < xs.length, ∃ starts₁, Predictive stops follow starts₁ m
      fun p : ι × { t : Token // (t.kind == kind) = true } => r p.1)
    (h' : Decides stops follow starts' r' xs) :
    Decides stops follow starts (fun i => do if ← accept kind then r i else r' i) xs := by
  simp only [accept_bind]
  exact .acceptIf? (not_of_beq hk) hst h h'

/-- The token decides which one of two readers goes on. -/
theorem Predictive.ifAccept (hk : ¬ starts (some kind))
    (h : ∀ m < n, ∃ starts₁, Predictive stops follow starts₁ m
      fun p : ι × { t : Token // (t.kind == kind) = true } => r p.1)
    (h' : Predictive stops follow starts n r') :
    Predictive stops follow starts n (fun i => do if ← accept kind then r i else r' i) := by
  simp only [accept_bind]
  exact .accept? hk h h'

end Accept

/-! ## Tokens that are expected -/

/-- A fatal error blames the next token. -/
theorem decides_fail (hf : fault.isFatal = true) :
    Decides stops follow starts (fun _ : ι => (fail fault : Reader α)) xs := by
  refine ⟨[], xs, rfl, .inr ⟨fault, hf, fun i ts' us' hts _ eof d errors => ?_, by simp⟩⟩
  rw [hts.eq_nil]
  exact ⟨[], [], by simp [Mild], rfl⟩

/-- A token of the kind that has to be there completes what is there. -/
theorem predictive_expect {kind : Kind} (hk : kind ≠ .eof) (hf : fault.isFatal = true) :
    Predictive stops follow (Upcoming [kind]) n fun _ : ι => expect kind fault := by
  refine ⟨Completable.acceptIf?_some (t := ⟨kind, "", none, 0, 0⟩) (by simp) hk (by simp)
    (completable_of_clears fun _ us => clears_pure _ us), fun xs _ => ?_⟩
  have hno : Decides stops follow (fun _ => False) (fun _ : ι => (fail fault : Reader Token)) xs :=
    decides_fail hf
  have hyes (m : Nat) : Predictive stops follow follow m
      fun p : ι × { t : Token // (t.kind == kind) = true } => (pure p.2.1 : Reader Token) :=
    predictive_pure _
  exact .acceptIf? (by simp) (by simp) (fun m _ => ⟨follow, hyes m⟩) hno

theorem Predictive.expect {kind : Kind} {k : ι → Token → Reader α} (hk : kind ≠ .eof)
    (hf : fault.isFatal = true)
    (h : ∃ starts', Predictive stops follow starts' n fun p : ι × Token => k p.1 p.2) :
    Predictive stops follow (Upcoming [kind]) n fun i => Grammar.expect kind fault >>= k i := by
  obtain ⟨starts', h⟩ := h
  have hexpect : Predictive true (fun _ => True) (Upcoming [kind]) n
      fun _ : ι => Grammar.expect kind fault := predictive_expect hk hf
  exact .bind hexpect h fun _ _ => trivial

/-- A token that has to be there may be the last one. -/
theorem Predictive.expect_pure {kind : Kind} {g : ι → Token → α} (hk : kind ≠ .eof)
    (hf : fault.isFatal = true) : Predictive stops follow (Upcoming [kind]) n
      fun i => Grammar.expect kind fault >>= fun t => pure (g i t) :=
  .bind_pure (predictive_expect hk hf)

/-! ## What may be missing -/

section NextKind

variable {ends : Option Kind → Prop} {k : ι → Option Kind → Reader α} {a : ι → α}
  {r : ι → Reader α}

theorem nextKind?_bind {next : Option Kind → Reader α} (eof : Token) (d : Nat)
    (errors : List SyntaxError) :
    (nextKind? >>= next) eof ⟨ts, d, errors⟩ = next (upcoming ts) eof ⟨ts, d, errors⟩ := rfl

/-- Nothing is read if the next token ends something. -/
theorem Reader.Clears.nextKind?_pure {next : Option Kind → Reader α} {b : α}
    (h : next (upcoming us) = pure b) : (Grammar.nextKind? >>= next).Clears [] us := by
  intro eof d errors
  rw [nextKind?_bind, List.nil_append, h]
  exact clears_pure b us eof d errors

theorem Completable.nextKind? (hend : ∀ i κ, ends κ → k i κ = pure (a i))
    (hf : ∀ κ, follow κ → ends κ) : Completable follow follow fun i => nextKind? >>= k i :=
  ⟨[], by simp [Inner], fun us hus =>
    ⟨fun i => .nextKind?_pure (hend i (upcoming us) (hf _ hus)), hus⟩⟩

/-- Either there is nothing before the next token, or it is decided by a reader that begins with
it. -/
theorem Decides.nextKind? (hend : ∀ i κ, ends κ → k i κ = pure (a i))
    (hgo : ∀ i κ, ¬ ends κ → k i κ = r i) (hf : ∀ κ, follow κ → ends κ)
    (h : ¬ ends (upcoming xs) → Decides stops follow starts r xs) :
    Decides stops follow follow (fun i => Grammar.nextKind? >>= k i) xs := by
  by_cases hxs : ends (upcoming xs)
  · refine ⟨[], xs, rfl, .inl ⟨fun i ts' us' hts hus => ?_, fun _ _ h => h⟩⟩
    rw [hts.eq_nil]
    exact .nextKind?_pure (hend i _ (hus.elim (fun he => he ▸ hxs) (hf _)))
  · have hgo' (i : ι) {ts : List Token} (hts : upcoming ts = upcoming xs) (eof : Token) (d : Nat)
        (errors : List SyntaxError) :
        (Grammar.nextKind? >>= k i) eof ⟨ts, d, errors⟩ = r i eof ⟨ts, d, errors⟩ := by
      rw [nextKind?_bind, hts, hgo i _ hxs]
    obtain ⟨ts, us, rfl, h | ⟨fault, h⟩⟩ := h hxs
    · refine ⟨ts, us, rfl, .inl ⟨fun i ts' us' hts hus => ?_, fun _ _ h => h⟩⟩
      by_cases hgoes : upcoming us' = upcoming us ∨ ts ≠ []
      · have hup : upcoming (ts' ++ us') = upcoming (ts ++ us) :=
          hgoes.elim (upcoming_append_of_eq hts) fun hne => hts.upcoming_append hne us' us
        intro eof d errors
        rw [hgo' i hup]
        exact h.clears i ts' us' hts hus eof d errors
      · obtain ⟨hus', hnil⟩ : upcoming us' ≠ upcoming us ∧ ts = [] := by simpa using hgoes
        subst hnil
        rw [hts.eq_nil]
        exact .nextKind?_pure (hend i _ (hf _ (hus.resolve_left hus')))
    · refine ⟨ts, us, rfl, .inr ⟨fault, h.fatal, fun i ts' us' hts hus eof d errors => ?_,
        fun hne => ?_⟩⟩
      · rw [hgo' i (upcoming_append_of_eq hts hus)]
        exact h.sticks i ts' us' hts hus eof d errors
      · obtain ⟨ys, hys, hy⟩ := h.completed hne
        refine ⟨ys, hys, fun i ts' us' hts hus eof d errors => ?_⟩
        rw [hgo' i (by rw [List.append_assoc, hts.upcoming_append hne])]
        exact hy i ts' us' hts hus eof d errors

/-- Something is read if the next token is not of the kind that stands in its place. -/
theorem Predictive.unlessNext {kind : Kind} (h : Predictive stops (Upcoming [kind]) starts n r) :
    Predictive stops (Upcoming [kind]) (Upcoming [kind]) n
      fun i => Grammar.unlessNext kind (r i) := by
  have he (i : ι) : Grammar.unlessNext kind (r i) =
      Grammar.nextKind? >>= fun κ => if (κ == some kind) = true then pure none else some <$> r i :=
    rfl
  have hup (κ : Option Kind) (hκ : Upcoming [kind] κ) : (κ == some kind) = true := by
    obtain ⟨k', hk', rfl⟩ := hκ
    simpa using hk'
  have hend (i : ι) (κ : Option Kind) (hκ : (κ == some kind) = true) :
      (if (κ == some kind) = true then pure none else some <$> r i) = pure none :=
    if_pos hκ
  simp only [he]
  refine ⟨.nextKind? hend hup, fun xs hxs => ?_⟩
  exact .nextKind? hend (fun i κ hκ => if_neg hκ) hup fun _ =>
    (Predictive.bind_pure h).decides xs hxs

end NextKind

/-! ## Steps that read nothing -/

section

variable {r : ι → Reader α}

/-- A reader of no tokens, that finds an error which is not fatal. -/
def Remarks (note : Reader Unit) : Prop :=
  ∀ eof c, ∃ e : SyntaxError, e.fault.isFatal = false ∧
    note eof c = .done () { c with errors := e :: c.errors }

theorem remarks_recordAt (hf : fault.isFatal = false) (token : Token) :
    Remarks (recordAt fault token) :=
  fun _ _ => ⟨⟨fault, token⟩, hf, rfl⟩

theorem remarks_record (hf : fault.isFatal = false) : Remarks (record fault) :=
  fun eof c => ⟨⟨fault, c.rest.head?.getD eof⟩, hf, rfl⟩

theorem Remarks.clears {note : Reader Unit} (hn : Remarks note) : note.Clears [] us := by
  intro eof d errors
  obtain ⟨e, he, hr⟩ := hn eof ⟨us, d, errors⟩
  rw [List.nil_append, hr]
  exact ⟨rfl, rfl, [e], by simpa [Mild] using he, rfl⟩

/-- An error that is not fatal makes no difference. -/
theorem Predictive.noting {b : ι → Prop} {inst : ∀ i, Decidable (b i)} {note : ι → Reader Unit}
    (hn : ∀ i, Remarks (note i)) (h : Predictive stops follow starts n r) :
    Predictive stops follow starts n fun i => if b i then note i >>= fun _ => r i else r i := by
  refine h.transfer (fun i ts us hr => ?_) fun i ts us fault hr => ?_
  · split
    · exact (hn i).clears.bind fun _ => hr i
    · exact hr i
  · split
    · exact (hn i).clears.bind_sticks fun _ => hr i
    · exact hr i

/-- The depth may be looked at. -/
theorem Predictive.functionDepth {k : ι → Nat → Reader α}
    (h : Predictive stops follow starts n fun p : ι × Nat => k p.1 p.2) :
    Predictive stops follow starts n fun i => Grammar.functionDepth >>= k i :=
  h.transfer (fun i _ _ hr eof d errors => hr (i, d) eof d errors)
    fun i _ _ _ hr eof d errors => hr (i, d) eof d errors

theorem Predictive.inFunction (h : Predictive stops follow starts n r) :
    Predictive stops follow starts n fun i => Grammar.inFunction (r i) := by
  refine h.transfer (fun i ts us hr eof d errors => ?_) fun i ts us fault hr eof d errors => ?_
  · have hc := hr i eof (d + 1) errors
    rw [inFunction_apply]
    cases hx : r i eof ⟨ts ++ us, d + 1, errors⟩ with
    | done a c =>
      rw [hx] at hc
      exact ⟨hc.1, congrArg (· - 1) hc.2.1, hc.2.2⟩
    | failed e c =>
      rw [hx] at hc
      exact hc
    | unfinished => trivial
  · have hs := hr i eof (d + 1) errors
    rw [inFunction_apply]
    cases hx : r i eof ⟨ts ++ us, d + 1, errors⟩ with
    | done a c =>
      rw [hx] at hs
      exact hs
    | failed e c =>
      rw [hx] at hs
      exact hs
    | unfinished => trivial

/-- A fatal error is caught, and it is the first one all the same. -/
theorem Predictive.recover (h : Predictive stops follow starts n r) :
    Predictive false follow starts n fun i => Grammar.recover (r i) := by
  refine h.transfer (fun i ts us hr eof d errors => ?_) fun i ts us fault hr eof d errors => ?_
  · have hc := hr i eof d errors
    rw [recover_apply]
    cases hx : r i eof ⟨ts ++ us, d, errors⟩ with
    | done a c =>
      rw [hx] at hc
      exact hc
    | failed e c =>
      rw [hx] at hc
      exact hc.elim
    | unfinished => trivial
  · have hs := hr i eof d errors
    rw [recover_apply]
    cases hx : r i eof ⟨ts ++ us, d, errors⟩ with
    | done a c =>
      rw [hx] at hs
      exact ⟨rfl, hs.2⟩
    | failed e c =>
      rw [hx] at hs
      exact ⟨rfl, hs⟩
    | unfinished => trivial

end

end Lox.Grammar
