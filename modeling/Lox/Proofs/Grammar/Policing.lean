import Lox.Grammar.Statement
import Lox.Proofs.Node.ReturnSites
import Mathlib.Tactic.Common

/-!
# Recording `return`s outside of functions

A `return` is read at some depth of function bodies, and it is recorded as an error if this depth
is zero. What survives of the functions around it is another matter: a fatal error may drop the
head of a function, or a whole one from the middle of its body on, and reading goes on with what
comes next. Still the errors are right about the tree: a `return` that survives is recorded as an
error exactly if no function of the tree is around it.

The offsets of tokens tell the errors apart. A token that is read stays behind, and no error is
recorded at it later on, so what is recorded of a `return` does not change any more.

## Main definitions

* `Cursor.Flags c offset`: a `return` at the offset is recorded as one outside of all functions
* `Cursor.Leads c c'`: reading goes from one cursor to the other
* `Cursor.Polices c rs`: the cursor has the right errors for the `return`s
* `Reader.Polices`: a reader keeps the right errors for the `return`s that it reads

## Main results

* `Reader.Polices.bind`: one reader after another
* `polices_inFunction`, `polices_return`: a function body, and a `return`
-/

namespace Lox.Grammar

/-! ## Cursors -/

namespace Cursor

/-- A token at the offset is left. -/
def Ahead (c : Cursor) (offset : Nat) : Prop :=
  ∃ t ∈ c.rest, t.offset = offset

/-- A `return` at the offset is recorded as one outside of all functions. -/
def Flags (c : Cursor) (offset : Nat) : Prop :=
  ∃ e ∈ c.errors, e.fault = .topLevelReturn ∧ e.token.offset = offset

/-- The tokens that are left come in the order of their offsets, and nothing is recorded of them. -/
structure Fresh (c : Cursor) : Prop where
  ordered : c.rest.Pairwise (·.offset < ·.offset)
  unflagged : ∀ offset, c.Ahead offset → ¬c.Flags offset

/-- The second cursor is the first one after some tokens, and what is recorded of other tokens is
the same. -/
structure Leads (c c' : Cursor) : Prop where
  rest : c'.rest <:+ c.rest
  depth : c'.functionDepth = c.functionDepth
  flags : ∀ offset, (c.Ahead offset → c'.Ahead offset) → (c'.Flags offset ↔ c.Flags offset)

/-- The `return`s have been read, and those outside of all functions are recorded as errors. -/
def Polices (c : Cursor) (rs : List ReturnSite) : Prop :=
  ∀ r ∈ rs, ¬c.Ahead r.keyword.offset ∧
    (c.Flags r.keyword.offset ↔ r.inBody = false ∧ c.functionDepth = 0)

variable {c c₁ c₂ : Cursor} {rs rs' : List ReturnSite}

theorem Ahead.of_suffix {offset : Nat} (h : c₁.Ahead offset) (hs : c₁.rest <:+ c.rest) :
    c.Ahead offset := by
  obtain ⟨t, ht, ho⟩ := h
  exact ⟨t, hs.mem ht, ho⟩

namespace Leads

theorem refl (c : Cursor) : c.Leads c :=
  ⟨List.suffix_refl _, rfl, fun _ _ => Iff.rfl⟩

/-- Reading that takes tokens and records no error. -/
theorem of_suffix {rest : List Token} (h : rest <:+ c.rest) : c.Leads { c with rest := rest } :=
  ⟨h, rfl, fun _ _ => Iff.rfl⟩

theorem trans (h : c.Leads c₁) (h' : c₁.Leads c₂) : c.Leads c₂ where
  rest := h'.rest.trans h.rest
  depth := h'.depth.trans h.depth
  flags offset ha :=
    (h'.flags offset fun h₁ => ha (h₁.of_suffix h.rest)).trans
      (h.flags offset fun h₀ => (ha h₀).of_suffix h'.rest)

theorem fresh (h : c.Leads c₁) (hc : c.Fresh) : c₁.Fresh where
  ordered := hc.ordered.sublist h.rest.sublist
  unflagged offset ha hf :=
    hc.unflagged offset (ha.of_suffix h.rest) ((h.flags offset fun _ => ha).mp hf)

/-- What has been read is not read again. -/
theorem polices (h : c.Leads c₁) (hp : c.Polices rs) : c₁.Polices rs := by
  intro r hr
  obtain ⟨hn, hf⟩ := hp r hr
  refine ⟨fun ha => hn (ha.of_suffix h.rest), ?_⟩
  rw [h.flags _ fun ha => absurd ha hn, hf, h.depth]

/-- An error that is not about a `return`. -/
theorem record {fault : SyntaxFault} (hf : fault ≠ .topLevelReturn) (t : Token) :
    c.Leads { c with errors := ⟨fault, t⟩ :: c.errors } :=
  ⟨List.suffix_refl _, rfl, fun _ _ => by simp [Flags, hf]⟩

end Leads

theorem polices_nil (c : Cursor) : c.Polices [] :=
  fun _ h => nomatch h

theorem Polices.mono (h : c.Polices rs) (hs : rs' ⊆ rs) : c.Polices rs' :=
  fun r hr => h r (hs hr)

theorem Polices.append (h : c.Polices rs) (h' : c.Polices rs') : c.Polices (rs ++ rs') :=
  fun r hr => (List.mem_append.mp hr).elim (h r) (h' r)

end Cursor

/-! ## Readers -/

/-- Inside of `d` functions, and after the `return`s `before` have been read, the reader leaves the
right errors for the `return`s `after` in its result. -/
def Reader.Polices {α : Type} (d : Nat) (before : List ReturnSite) (r : Reader α)
    (after : α → List ReturnSite) : Prop :=
  ∀ eof c, c.Fresh → c.functionDepth = d → c.Polices before →
    match r eof c with
    | .done a c' => c.Leads c' ∧ c'.Polices (after a)
    | .failed _ c' => c.Leads c'
    | .unfinished => True

variable {α β : Type} {d : Nat} {before before' : List ReturnSite} {r r' : Reader α}
  {after : α → List ReturnSite}

namespace Reader.Polices

theorem pure {a : α} (h : after a ⊆ before) :
    Reader.Polices d before (Pure.pure a : Reader α) after :=
  fun _ c _ _ hp => ⟨.refl c, hp.mono h⟩

theorem mono (h : r.Polices d before after) (hs : before ⊆ before') :
    r.Polices d before' after :=
  fun eof c hc hd hp => h eof c hc hd (hp.mono hs)

/-- One reader after another. The second one begins after what the first one has read. -/
theorem bind {next : α → Reader β} {after' : β → List ReturnSite} (h : r.Polices d [] after)
    (hk : ∀ a, (next a).Polices d (before ++ after a) after') :
    (r >>= next).Polices d before after' := by
  intro eof c hc hd hp
  have hr := h eof c hc hd (Cursor.polices_nil _)
  rw [Reader.bind_apply]
  cases hx : r eof c with
  | done a c₁ =>
    simp only [hx] at hr ⊢
    obtain ⟨hl, ha⟩ := hr
    have hs := hk a eof c₁ (hl.fresh hc) (hl.depth.trans hd) ((hl.polices hp).append ha)
    cases hy : next a eof c₁ with
    | done b c₂ =>
      simp only [hy] at hs ⊢
      exact ⟨hl.trans hs.1, hs.2⟩
    | failed e c₂ =>
      simp only [hy] at hs ⊢
      exact hl.trans hs
    | unfinished => trivial
  | failed e c₁ => simpa only [hx] using hr
  | unfinished => trivial

/-- A reader whose result has no `return`s in it, and then another one. -/
theorem andThen {next : α → Reader β} {after' : β → List ReturnSite}
    (h : r.Polices d [] fun _ => []) (hk : ∀ a, (next a).Polices d before after') :
    (r >>= next).Polices d before after' :=
  h.bind fun a => (hk a).mono (List.subset_append_left _ _)

/-- A result that is known from the start. -/
theorem pure_bind {a : α} {next : α → Reader β} {after' : β → List ReturnSite}
    (h : (next a).Polices d before after') : (Pure.pure a >>= next).Polices d before after' :=
  h

theorem ite {b : Prop} [Decidable b] (h : r.Polices d before after)
    (h' : r'.Polices d before after) : (if b then r else r').Polices d before after := by
  split
  · exact h
  · exact h'

end Reader.Polices

/-! ## Steps -/

open Reader

theorem polices_unfinished : (unfinished : Reader α).Polices d before after :=
  fun _ _ _ _ _ => trivial

theorem polices_nextKind? : nextKind?.Polices d [] fun _ => [] :=
  fun _ c _ _ _ => ⟨.refl c, Cursor.polices_nil _⟩

theorem polices_recordAt {fault : SyntaxFault} (hf : fault ≠ .topLevelReturn) (t : Token) :
    (recordAt fault t).Polices d [] fun _ => [] :=
  fun _ _ _ _ _ => ⟨.record hf t, Cursor.polices_nil _⟩

theorem polices_record {fault : SyntaxFault} (hf : fault ≠ .topLevelReturn) :
    (record fault).Polices d [] fun _ => [] :=
  fun eof c => polices_recordAt hf (c.rest.head?.getD eof) eof c

theorem polices_fail {fault : SyntaxFault} (hf : fault ≠ .topLevelReturn) :
    (fail fault : Reader α).Polices d before after :=
  fun eof c _ _ _ => .record hf (c.rest.head?.getD eof)

theorem polices_acceptIf? (wanted : Kind → Bool) :
    (acceptIf? wanted).Polices d [] fun _ => [] := by
  intro eof c _ _ _
  cases hr : c.rest with
  | nil =>
    simp only [acceptIf?_apply, hr]
    exact ⟨.refl c, Cursor.polices_nil _⟩
  | cons t rest =>
    simp only [acceptIf?_apply, hr]
    by_cases h : wanted t.kind = true
    · rw [if_pos h]
      exact ⟨.of_suffix (hr ▸ List.suffix_cons t rest), Cursor.polices_nil _⟩
    · rw [if_neg h]
      exact ⟨.refl c, Cursor.polices_nil _⟩

theorem polices_accept? (kind : Kind) : (accept? kind).Polices d [] fun _ => [] :=
  polices_acceptIf? _

theorem polices_accept (kind : Kind) : (accept kind).Polices d [] fun _ => [] :=
  (polices_accept? kind).andThen fun _ => .pure (List.Subset.refl _)

theorem polices_check (kind : Kind) : (check kind).Polices d [] fun _ => [] :=
  polices_nextKind?.andThen fun _ => .pure (List.Subset.refl _)

theorem polices_expect (kind : Kind) {fault : SyntaxFault} (hf : fault ≠ .topLevelReturn) :
    (expect kind fault).Polices d [] fun _ => [] := by
  refine (polices_accept? kind).andThen fun o => ?_
  cases o with
  | none => exact polices_fail hf
  | some t => exact .pure (List.Subset.refl _)

theorem Reader.Polices.unlessNext {kind : Kind} (h : r.Polices d [] after) :
    (unlessNext kind r).Polices d [] fun o => o.elim [] after :=
  (polices_check kind).andThen fun _ =>
    .ite (.pure (List.Subset.refl _)) (h.bind fun _ => .pure (List.Subset.refl _))

theorem polices_acceptLiteral? : acceptLiteral?.Polices d [] fun _ => [] := by
  refine (polices_acceptIf? _).andThen fun o => ?_
  cases o with
  | none => exact .pure (List.Subset.refl _)
  | some t => exact .pure (List.Subset.refl _)

/-- What may be missing does not have more `return`s in it. -/
theorem Reader.Polices.recover (h : r.Polices d [] after) :
    (recover r).Polices d [] fun o => o.elim [] after := by
  intro eof c hc hd hp
  have hr := h eof c hc hd hp
  rw [recover_apply]
  cases hx : r eof c with
  | done a c' =>
    simp only [hx] at hr ⊢
    exact hr
  | failed e c' =>
    simp only [hx] at hr ⊢
    exact ⟨hr.trans (.of_suffix (synchronize_suffix c'.rest)), Cursor.polices_nil _⟩
  | unfinished => trivial

/-- An error may be recorded first. -/
theorem Reader.Polices.noting {b : Prop} [Decidable b] {note : Reader Unit}
    (hn : note.Polices d [] fun _ => []) (h : r.Polices d before after) :
    (if b then note >>= fun _ => r else r).Polices d before after :=
  .ite (hn.andThen fun _ => h) h

/-- In a function body no `return` is recorded as an error, and around the body there is a
function. -/
theorem polices_inFunction {r : Reader (List Node)}
    (h : r.Polices (d + 1) [] Node.allReturnSites) : (inFunction r).Polices d [] fun body =>
      (Node.allReturnSites body).map fun r => ⟨r.keyword, true⟩ := by
  intro eof c hc hd _
  have hr := h eof { c with functionDepth := c.functionDepth + 1 } ⟨hc.ordered, hc.unflagged⟩
    (congrArg (· + 1) hd) (Cursor.polices_nil _)
  rw [inFunction_apply]
  cases hx : r eof { c with functionDepth := c.functionDepth + 1 } with
  | done body c' =>
    simp only [hx] at hr ⊢
    obtain ⟨hl, hp⟩ := hr
    refine ⟨⟨hl.rest, by simp [hl.depth], hl.flags⟩, ?_⟩
    simp only [Cursor.Polices, List.forall_mem_map]
    -- the depth in the body was not zero, so none of its own `return`s is recorded
    intro s hs
    obtain ⟨hn, hf⟩ := hp s hs
    exact ⟨hn, iff_of_false (fun hfl => by simpa [hl.depth] using (hf.mp hfl).2) (by simp)⟩
  | failed e c' =>
    simp only [hx] at hr ⊢
    exact ⟨hr.rest, by simp [hr.depth], hr.flags⟩
  | unfinished => trivial

/-! ## The keyword of a `return` -/

namespace Cursor

variable {c : Cursor} {t : Token} {rest : List Token}

/-- A token that is read is not among those that are left. -/
theorem Fresh.not_ahead (hc : c.Fresh) (hr : c.rest = t :: rest) (errors : List SyntaxError) :
    ¬Ahead ⟨rest, c.functionDepth, errors⟩ t.offset := by
  rintro ⟨u, hu, ho⟩
  have hlt := List.rel_of_pairwise_cons (hr ▸ hc.ordered) hu
  exact absurd ho (Nat.ne_of_gt hlt)

/-- The keyword is read inside of a function, and nothing is recorded of it. -/
theorem Fresh.return_inside (hc : c.Fresh) (hr : c.rest = t :: rest) (hd : c.functionDepth ≠ 0) :
    Polices { c with rest := rest } [⟨t, false⟩] := by
  have hf := hc.unflagged t.offset ⟨t, by simp [hr], rfl⟩
  rintro _ (_ | ⟨_, ⟨⟩⟩)
  exact ⟨hc.not_ahead hr _, iff_of_false hf fun h => hd h.2⟩

/-- The keyword is read outside of all functions, and recorded. -/
theorem Fresh.return_outside (hc : c.Fresh) (hr : c.rest = t :: rest) (hd : c.functionDepth = 0) :
    let c' : Cursor := ⟨rest, c.functionDepth, ⟨.topLevelReturn, t⟩ :: c.errors⟩
    c.Leads c' ∧ c'.Polices [⟨t, false⟩] := by
  intro c'
  have hn := hc.not_ahead hr c'.errors
  refine ⟨⟨hr ▸ List.suffix_cons t rest, rfl, fun offset ha => ?_⟩, ?_⟩
  · have hne : t.offset ≠ offset := by
      rintro rfl
      exact hn (ha ⟨t, by simp [hr], rfl⟩)
    simp [Flags, c', hne]
  · rintro _ (_ | ⟨_, ⟨⟩⟩)
    exact ⟨hn, iff_of_true ⟨_, List.mem_cons_self, rfl, rfl⟩ ⟨rfl, hd⟩⟩

end Cursor

/-- What a `return` statement has after its keyword, which has been read. -/
theorem polices_returnValue {fuel : Nat} (he : (expression fuel).Polices d [] Node.returnSites)
    (keyword : Token) : (do
      let value ← unlessNext .semicolon (expression fuel)
      let _ ← expect .semicolon .semicolonAfterReturnValue
      return Node.returnStmt keyword value).Polices d [⟨keyword, false⟩] Node.returnSites := by
  refine he.unlessNext.bind fun o => (polices_expect _ (by simp)).andThen fun _ => .pure ?_
  cases o <;> simp [Node.returnSites]

/-- A reader does its work after the keyword, so it does it before the keyword. -/
theorem Reader.Polices.of_leads (h : r.Polices d before after) {eof : Token} {c c₁ : Cursor}
    (hc : c.Fresh) (hd : c.functionDepth = d) (hl : c.Leads c₁) (hp : c₁.Polices before) :
    match r eof c₁ with
    | .done a c' => c.Leads c' ∧ c'.Polices (after a)
    | .failed _ c' => c.Leads c'
    | .unfinished => True := by
  have hr := h eof c₁ (hl.fresh hc) (hl.depth.trans hd) hp
  cases hx : r eof c₁ with
  | done a c' =>
    simp only [hx] at hr ⊢
    exact ⟨hl.trans hr.1, hr.2⟩
  | failed e c' =>
    simp only [hx] at hr ⊢
    exact hl.trans hr
  | unfinished => trivial

/-- A statement, if it begins with `return`, or whatever else comes next. -/
theorem polices_return {fuel : Nat} {other : Reader Node}
    (he : (expression fuel).Polices d [] Node.returnSites)
    (h : other.Polices d [] Node.returnSites) :
    (do
      if let some keyword ← accept? .returnKw then returnStatement fuel keyword
      else other).Polices d [] Node.returnSites := by
  intro eof c hc hd hp
  rw [Reader.bind_apply]
  cases hr : c.rest with
  | nil => simpa only [accept?, acceptIf?, hr] using h eof c hc hd hp
  | cons t rest =>
    simp only [accept?, acceptIf?_apply, hr]
    by_cases hk : t.kind = .returnKw
    · simp only [hk, beq_self_eq_true, if_true]
      unfold returnStatement
      rw [Reader.bind_apply]
      simp only [functionDepth_apply]
      -- the error comes after the keyword is read, and nothing is recorded there later on
      by_cases hd₀ : c.functionDepth = 0
      · rw [if_pos hd₀]
        obtain ⟨hl, hp⟩ := hc.return_outside hr hd₀
        exact (polices_returnValue he t).of_leads hc hd hl hp
      · rw [if_neg hd₀]
        exact (polices_returnValue he t).of_leads hc hd
          (.of_suffix (hr ▸ List.suffix_cons t rest)) (hc.return_inside hr hd₀)
    · simp only [beq_iff_eq, hk, if_false]
      exact h eof c hc hd hp

end Lox.Grammar
