import Lox.Proofs.Evaluation.Simulation
import Lox.Proofs.Token.Seam

/-!
# Where runtime errors come from

The runtime error that ends a program is at a token of the program, or at one of a function that was
declared before. Tokens do not say where they come from, and two sources can have the same one. But
when the program is moved to another place, its own tokens move with it, and those of older
functions stay.

## Main definitions

* `ErrorMoves b config m ss e`, `ErrorStays b config m ss e`: the program `ss` ends with the error
  `e`, and with the one that is moved along, or with the same one, wherever it is moved to

## Main results

* `moves_or_stays`: the error of a program does one of the two
* `ErrorMoves.not_stays`: it does not do both
-/

namespace Lox

/-- Wherever the program is moved to, it ends with this error at the token that is moved along. -/
def ErrorMoves (b : Budget) (config : Config) (m : Machine) (ss : List Node) (e : RuntimeError) :
    Prop :=
  ∀ f, Relabels f → ∃ m',
    interpret b (ss.map (Node.relabel f)) config m = .done (some ⟨e.cause, f e.token⟩) m'

/-- Wherever the program is moved to, it ends with this error at this token. -/
def ErrorStays (b : Budget) (config : Config) (m : Machine) (ss : List Node) (e : RuntimeError) :
    Prop :=
  ∀ f, Relabels f → ∃ m', interpret b (ss.map (Node.relabel f)) config m = .done (some e) m'

theorem relabels_shift (lines chars : Nat) : Relabels (Token.shift lines chars) :=
  ⟨fun _ => rfl, fun _ => rfl, fun _ => rfl⟩

variable {b : Budget} {config : Config} {m m' : Machine} {ss : List Node} {e : RuntimeError}

/-- A token that is moved to the next line is another one. -/
theorem ErrorMoves.not_stays (h : ErrorMoves b config m ss e) : ¬ErrorStays b config m ss e := by
  intro hs
  -- the program is moved by one line
  obtain ⟨m₁, h₁⟩ := h _ (relabels_shift 1 0)
  obtain ⟨m₂, h₂⟩ := hs _ (relabels_shift 1 0)
  rw [h₁] at h₂
  have hline : e.token.line + 1 = e.token.line :=
    congrArg (fun o => (o.getD e).token.line) (Outcome.done.inj h₂).1
  omega

/-! ## Marked tokens -/

/-- What becomes of a token if those that were marked, by moving them that many characters further
on, are taken back and replaced, and the others are kept. -/
def unmark (k : Nat) (f : Token → Token) (t : Token) : Token :=
  if k ≤ t.offset then f { t with offset := t.offset - k } else t

variable {k : Nat} {f : Token → Token} {P Q : Token → Prop}

theorem relabels_unmark (hf : Relabels f) : Relabels (unmark k f) := by
  constructor <;> intro t <;> unfold unmark <;> split
  · exact hf.kind _
  · rfl
  · exact hf.lexeme _
  · rfl
  · exact hf.literal _
  · rfl

theorem unmark_shift (t : Token) : unmark k f (t.shift 0 k) = f t := by
  simp [unmark, Token.shift]

theorem unmark_of_lt {t : Token} (h : t.offset < k) : unmark k f t = t :=
  if_neg (Nat.not_le_of_lt h)

theorem map_relabel_unmark (ss : List Node) :
    (ss.map (Node.relabel (Token.shift 0 k))).map (Node.relabel (unmark k f)) =
      ss.map (Node.relabel f) := by
  have hcomp : unmark k f ∘ Token.shift 0 k = f := funext unmark_shift
  rw [List.map_map]
  exact List.map_congr_left fun s _ => (Node.relabel_relabel _ s).trans (by rw [hcomp])

/-- A token of the program that was marked, or an older one, and what becomes of it. -/
def Unmarks (k : Nat) (f : Token → Token) (P Q : Token → Prop) (t t' : Token) : Prop :=
  ((∃ u, Q u ∧ t = u.shift 0 k) ∨ P t) ∧ t' = unmark k f t

/-- If no older token looks like a marked one, then a program with marked tokens runs like the
program with other tokens. -/
theorem alike_unmark (b : Budget) (config : Config) (hf : Relabels f)
    (hk : ∀ t, P t → t.offset < k) (hs : m.store.Sound P) (hss : Node.AllStatements Q ss) :
    (interpret b (ss.map (Node.relabel (Token.shift 0 k))) config m).Alike (Unmarks k f P Q)
      (Option.Rel (RuntimeError.Alike (Unmarks k f P Q)))
      (interpret b (ss.map (Node.relabel f)) config m) := by
  have hm : m.Alike (Unmarks k f P Q) m :=
    Machine.alike_self hs fun t ht => ⟨.inr ht, (unmark_of_lt (hk t ht)).symm⟩
  have hmarked : Node.AllStatements (fun t => Unmarks k f P Q t (unmark k f t))
      (ss.map (Node.relabel (Token.shift 0 k))) := by
    rw [Node.allStatements_iff, List.forall_mem_map]
    intro s hs
    refine Node.IsStatement.relabel (relabels_shift 0 k) ?_
    exact (Node.allStatements_iff.mp hss s hs).mono fun t ht => ⟨.inl ⟨t, ht, rfl⟩, rfl⟩
  have h := alike_interpret b (relabels_unmark hf) hmarked config m m hm
  rwa [map_relabel_unmark] at h

/-! ## Errors -/

/-- A run like one that ends with an error ends with an error. -/
theorem Outcome.Alike.error {R : Token → Token → Prop} {x : Outcome (Option RuntimeError)}
    (h : (Outcome.done (some e) m).Alike R (Option.Rel (RuntimeError.Alike R)) x) :
    ∃ t m', R e.token t ∧ x = .done (some ⟨e.cause, t⟩) m' := by
  cases x with
  | done o m' =>
    obtain ⟨ho, -⟩ := h
    cases ho with
    | @some _ e' he =>
      obtain ⟨hcause, htoken⟩ := he
      exact ⟨e'.token, m', htoken, by rw [← hcause]⟩
  | failed f m' => exact h.elim
  | unfinished => exact h.elim

/-- Only a run that ends with an error is like one that does. -/
theorem Outcome.Alike.error_of {R : Token → Token → Prop} {x : Outcome (Option RuntimeError)}
    (h : x.Alike R (Option.Rel (RuntimeError.Alike R)) (.done (some e) m)) :
    ∃ t m', R t e.token ∧ x = .done (some ⟨e.cause, t⟩) m' := by
  cases x with
  | done o m' =>
    obtain ⟨ho, -⟩ := h
    cases ho with
    | @some e' _ he =>
      obtain ⟨hcause, htoken⟩ := he
      exact ⟨e'.token, m', htoken, by rw [hcause]⟩
  | failed f m' => exact h.elim
  | unfinished => exact h.elim

/-- **The origin of an error.** The runtime error of a program is at one of its tokens and moves
with the program, or it is at a token of an older function and stays. -/
theorem moves_or_stays (hP : ∃ k, ∀ t, P t → t.offset < k) (hs : m.store.Sound P)
    (hss : Node.AllStatements Q ss) (h : interpret b ss config m = .done (some e) m') :
    (Q e.token ∧ ErrorMoves b config m ss e) ∨ (P e.token ∧ ErrorStays b config m ss e) := by
  obtain ⟨k, hk⟩ := hP
  -- the run with marked tokens knows where its error comes from
  have hid := alike_unmark b config relabels_id hk hs hss
  rw [Node.map_relabel_id, h] at hid
  obtain ⟨t, m₀, ⟨horigin, htoken⟩, hmarked⟩ := hid.error_of
  have hrun : ∀ f, Relabels f → ∃ m', interpret b (ss.map (Node.relabel f)) config m =
      .done (some ⟨e.cause, unmark k f t⟩) m' := by
    intro f hf
    have hx := alike_unmark b config hf hk hs hss
    rw [hmarked] at hx
    obtain ⟨t', m', ⟨-, ht'⟩, hrun⟩ := hx.error
    exact ⟨m', ht' ▸ hrun⟩
  rcases horigin with ⟨u, hu, rfl⟩ | ht
  · rw [unmark_shift] at htoken
    refine .inl ⟨htoken ▸ hu, fun f hf => ?_⟩
    obtain ⟨m', hx⟩ := hrun f hf
    rw [unmark_shift] at hx
    exact ⟨m', htoken ▸ hx⟩
  · rw [unmark_of_lt (hk t ht)] at htoken
    refine .inr ⟨htoken ▸ ht, fun f hf => ?_⟩
    obtain ⟨m', hx⟩ := hrun f hf
    rw [unmark_of_lt (hk t ht), ← htoken] at hx
    exact ⟨m', hx⟩

end Lox
