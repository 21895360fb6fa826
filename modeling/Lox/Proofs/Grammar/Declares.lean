import Lox.Proofs.Grammar.Acceptance
import Lox.Proofs.Grammar.Errors
import Lox.Proofs.Grammar.Fuel

/-!
# Programs in parts

A program is a declaration and the program that comes after it. The fuel of the parser makes no
difference, so the parts of a program can be put together whatever the fuel that each was read with.

## Main definitions

* `Declares eof c ns c'`: from the cursor `c` to the end of the source, there are the declarations
  `ns`

## Main results

* `parse_of_declares`: a program is its declarations
* `Declares.cons`, `Declares.of_cons`: the first one of the declarations and the others
* `Declares.above`: earlier errors make no difference
* `Derives.declares`: declarations may be put in front of others
-/

namespace Lox.Grammar

open Reader

variable {eof : Token} {c c₁ c₂ : Cursor} {ts : List Token} {ns : List Node}

/-- From the cursor `c` on, the declarations are `ns`, and `c'` is where they end. -/
def Declares (eof : Token) (c : Cursor) (ns : List Node) (c' : Cursor) : Prop :=
  ∃ fuel, declarations fuel eof c = .done ns c'

/-- Recovery leaves no fatal error that would end a declaration. -/
theorem declaration_ne_failed (fuel : Nat) (e : SyntaxError) (c' : Cursor) :
    declaration fuel eof c ≠ .failed e c' := by
  cases fuel with
  | zero => simp [declaration]
  | succ fuel =>
    rw [declaration, recover_apply]
    split <;> simp

/-- So none would end a program. -/
theorem declarations_ne_failed (fuel : Nat) (e : SyntaxError) (c' : Cursor) :
    declarations fuel eof c ≠ .failed e c' := by
  induction fuel generalizing c with
  | zero => simp [declarations]
  | succ fuel ih =>
    intro h
    rw [declarations, bind_eq_failed_iff] at h
    obtain h | ⟨o, c₁, -, h⟩ := h
    · simp [nextKind?_apply] at h
    cases o with
    | none => simp at h
    | some k =>
      simp only [bind_eq_failed_iff] at h
      obtain h | ⟨_, _, -, h | ⟨_, _, -, h⟩⟩ := h
      · exact declaration_ne_failed _ _ _ h
      · exact ih h
      · simp at h

/-- The parser has enough fuel for any sequence of tokens. -/
theorem exists_declarations_fuelFor (ts : List Token) (eof : Token) :
    ∃ ns c, declarations (fuelFor ts) eof (start ts) = .done ns c := by
  have hm := meets_declarations (P := fun _ => True) (le_fuelFor ts) eof (start ts)
    ⟨Nat.le_refl _, fun _ _ => trivial⟩ rfl
  cases hr : declarations (fuelFor ts) eof (start ts) with
  | done ns c => exact ⟨ns, c, rfl⟩
  | failed e c => exact absurd hr (declarations_ne_failed _ e c)
  | unfinished => simp only [hr] at hm

/-- Any fuel that is enough gives the same declarations. -/
theorem Declares.unique {ms : List Node} (h : Declares eof c ns c₁) (h' : Declares eof c ms c₂) :
    ns = ms ∧ c₁ = c₂ := by
  obtain ⟨fuel, h⟩ := h
  obtain ⟨fuel', h'⟩ := h'
  have hl := (below_declarations (Nat.le_max_left fuel fuel')).eq (by rw [h]; simp)
  have hr := (below_declarations (Nat.le_max_right fuel fuel')).eq (by rw [h']; simp)
  have he : Reply.done ns c₁ = .done ms c₂ := by rw [← h, ← h', ← hl, ← hr]
  exact Reply.done.inj he

/-- A program is its declarations, whatever the fuel. -/
theorem parse_of_declares (h : Declares eof (start ts) ns c) :
    parse ⟨ts, eof⟩ = ⟨ns, c.errors.reverse⟩ := by
  obtain ⟨ms, c', hr⟩ := exists_declarations_fuelFor ts eof
  obtain ⟨rfl, rfl⟩ := h.unique ⟨_, hr⟩
  simp only [parse, hr]

theorem exists_declares (ts : List Token) (eof : Token) :
    ∃ c, Declares eof (start ts) (parse ⟨ts, eof⟩).program c ∧
      (parse ⟨ts, eof⟩).errors = c.errors.reverse := by
  obtain ⟨ns, c, hr⟩ := exists_declarations_fuelFor ts eof
  rw [parse_of_declares ⟨_, hr⟩]
  exact ⟨c, ⟨_, hr⟩, rfl⟩

/-- A program is a declaration and what comes after it. -/
theorem Declares.cons {t : Token} {o : Option Node} {fuel : Nat} (hc : c.rest = t :: ts)
    (h : declaration fuel eof c = .done o c₁) (h' : Declares eof c₁ ns c₂) :
    Declares eof c (o.toList ++ ns) c₂ := by
  obtain ⟨fuel', h'⟩ := h'
  have hd := (moreStatementFuel (Nat.le_max_left fuel fuel')).declaration.eq (by rw [h]; simp)
  have hds := (below_declarations (Nat.le_max_right fuel fuel')).eq (by rw [h']; simp)
  refine ⟨max fuel fuel' + 1, ?_⟩
  simp only [declarations, bind_apply, nextKind?_apply, hc, List.head?_cons, Option.map_some, hd,
    h, hds, h', pure_apply]

theorem Declares.of_cons {t : Token} (hc : c.rest = t :: ts) (h : Declares eof c ns c₂) :
    ∃ o ms c₁ fuel, declaration fuel eof c = .done o c₁ ∧ Declares eof c₁ ms c₂ ∧
      ns = o.toList ++ ms := by
  obtain ⟨fuel, h⟩ := h
  cases fuel with
  | zero => simp [declarations] at h
  | succ fuel =>
    rw [declarations, bind_eq_done_iff] at h
    obtain ⟨k, c', hk, h⟩ := h
    obtain ⟨rfl, rfl⟩ : some t.kind = k ∧ c = c' := by simpa [nextKind?, hc] using hk
    simp only [bind_eq_done_iff] at h
    obtain ⟨o, c₁, hd, ms, c₃, hds, he⟩ := h
    obtain ⟨rfl, rfl⟩ : o.toList ++ ms = ns ∧ c₃ = c₂ := by simpa using he
    exact ⟨o, ms, c₁, fuel, hd, ⟨fuel, hds⟩, rfl⟩

theorem Declares.of_nil (hc : c.rest = []) (h : Declares eof c ns c₂) : ns = [] ∧ c₂ = c :=
  h.unique ⟨1, by simp [declarations, bind_apply, nextKind?_apply, hc]⟩

/-- Earlier errors make no difference to declarations. -/
theorem Declares.above (h : Declares eof (start ts) ns c) (errors : List SyntaxError) :
    Declares eof ⟨ts, 0, errors⟩ ns { c with errors := c.errors ++ errors } := by
  obtain ⟨fuel, h⟩ := h
  refine ⟨fuel, ?_⟩
  rw [additive_declarations fuel eof ts 0 errors, show declarations fuel eof ⟨ts, 0, []⟩ = _ from h]
  rfl

/-- Declarations may stand in front of others, as long as these do not begin with an `else`. -/
theorem Derives.declares {us : List Token} {ms : List Node} {errors : List SyntaxError}
    (h : Derives .program ts ns) (hg : Node.AllLegal false ns) (hus : Avoids [.elseKw] us)
    (h' : Declares eof ⟨us, 0, errors⟩ ms c) :
    Declares eof ⟨ts ++ us, 0, errors⟩ (ns ++ ms) c := by
  generalize hs : StatementSymbol.program = s at h
  induction h with
  | noMore => exact h'
  | @more ts₁ ts₂ n ns hd hds _ ih =>
    rcases hd.head with ⟨-, hne⟩ | ⟨t, vs, rfl, -⟩
    · simp at hne
    have hn : StatementSymbol.Complete 0 .declaration (t :: vs) [n] :=
      hd.complete ⟨hg.1, trivial⟩
    have helse : Avoids [.elseKw] (ts₂ ++ us) := hds.avoids_append (by decide) hus
    rw [List.append_assoc]
    exact .cons rfl (hn n _ rfl (Nat.le_refl _) eof _ errors helse) (ih hg.2 rfl)
  | _ => simp at hs

end Lox.Grammar
