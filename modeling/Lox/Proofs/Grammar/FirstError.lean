import Lox.Proofs.Grammar.Declares
import Lox.Proofs.Grammar.PredictiveStatements

/-!
# The first fatal error of a program

The first fatal error is at the first token with which a program cannot be completed any more. The
tokens in front of it can be, and no tokens behind it take the error away.

## Main definitions

* `Parse.firstFatal? p`: the first fatal error of a program
* `FirstFatalAt ts i fault`: it is this one, at the token in position `i`

## Main results

* `FirstFatalAt.unique`: there is one such position
* `first_fatal_error_at_first_unfixable_token`: it is the first one without a way to go on
-/

namespace Lox.Grammar

open Reader

/-- The first error that ends a declaration. -/
def Parse.firstFatal? (p : Parse) : Option SyntaxError :=
  p.errors.find? fun e => e.fault.isFatal

/-- In a program of tokens of these kinds, the first fatal error is this one, and it is at the token
in position `i`; the last position is that of the end of the source. Only the kinds of the tokens
count, so they may be taken to be different from each other, and a token to be known by its
position. -/
def FirstFatalAt (ts : List Token) (i : Nat) (fault : SyntaxFault) : Prop :=
  ∀ us eof, Alike us ts → ∃ t, (us ++ [eof])[i]? = some t ∧
    (parse ⟨us, eof⟩).firstFatal? = some ⟨fault, t⟩

variable {eof : Token} {ts us : List Token} {i : Nat} {fault : SyntaxFault}

/-- The tokens, each with its position for its place in the source. -/
def numbered (ts : List Token) : List Token :=
  ts.mapIdx fun i t => { t with offset := i }

theorem alike_numbered (ts : List Token) : Alike (numbered ts) ts := by
  refine List.ext_getElem? fun i => ?_
  simp [numbered, Function.comp_def]

theorem offset_of_getElem?_numbered {t : Token} (h : (numbered ts)[i]? = some t) :
    t.offset = i := by
  obtain ⟨u, -, rfl⟩ : ∃ u, ts[i]? = some u ∧ { u with offset := i } = t := by
    simpa [numbered] using h
  rfl

/-- There is one position, and one fault. -/
theorem FirstFatalAt.unique {j : Nat} {fault' : SyntaxFault} (h : FirstFatalAt ts i fault)
    (h' : FirstFatalAt ts j fault') : i = j ∧ fault = fault' := by
  -- with numbers on the tokens, the error tells the position
  let eof : Token := ⟨.eof, "", none, 0, ts.length⟩
  have hnum : numbered ts ++ [eof] = numbered (ts ++ [eof]) := by simp [numbered, eof]
  obtain ⟨t, ht, hp⟩ := h (numbered ts) eof (alike_numbered ts)
  obtain ⟨t', ht', hp'⟩ := h' (numbered ts) eof (alike_numbered ts)
  rw [hnum] at ht ht'
  obtain ⟨rfl, rfl⟩ : fault = fault' ∧ t = t' := by simpa [hp] using hp'
  exact ⟨(offset_of_getElem?_numbered ht).symm.trans (offset_of_getElem?_numbered ht'), rfl⟩

/-! ## Errors of a program -/

theorem find?_fatal_eq_none {errors : List SyntaxError} (h : Mild errors) :
    errors.find? (fun e => e.fault.isFatal) = none :=
  List.find?_eq_none.mpr fun e he => by simp [h e he]

theorem FirstFatal.find?_reverse {e : SyntaxError} {errors : List SyntaxError}
    (h : FirstFatal e [] errors) (hf : e.fault.isFatal = true) :
    errors.reverse.find? (fun e => e.fault.isFatal) = some e := by
  obtain ⟨later, mild, hm, rfl⟩ := h
  have hn : (mild.reverse).find? (fun e => e.fault.isFatal) = none :=
    find?_fatal_eq_none fun e he => hm e (List.mem_reverse.mp he)
  simp [List.find?_append, hn, hf]

/-- What the declarations of a program get through is a program without a fatal error. -/
theorem firstFatal?_of_clears (h : ∀ fuel, (declarations fuel).Clears ts us) (eof : Token) :
    (parse ⟨ts ++ us, eof⟩).firstFatal? = none := by
  obtain ⟨ns, c, hr⟩ := exists_declarations_fuelFor (ts ++ us) eof
  have hc := h (fuelFor (ts ++ us)) eof 0 []
  rw [show declarations (fuelFor (ts ++ us)) eof ⟨ts ++ us, 0, []⟩ = _ from hr] at hc
  obtain ⟨-, -, es, hm, he⟩ := hc
  rw [parse_of_declares ⟨_, hr⟩]
  refine find?_fatal_eq_none fun e he' => hm e ?_
  simpa [he] using he'

/-- What the declarations of a program stick at is its first fatal error. -/
theorem firstFatal?_of_sticks (h : ∀ fuel, (declarations fuel).Sticks false ts us fault)
    (hf : fault.isFatal = true) (eof : Token) :
    (parse ⟨ts ++ us, eof⟩).firstFatal? = some ⟨fault, us.head?.getD eof⟩ := by
  obtain ⟨ns, c, hr⟩ := exists_declarations_fuelFor (ts ++ us) eof
  have hs := h (fuelFor (ts ++ us)) eof 0 []
  rw [show declarations (fuelFor (ts ++ us)) eof ⟨ts ++ us, 0, []⟩ = _ from hr] at hs
  rw [parse_of_declares ⟨_, hr⟩]
  exact hs.2.find?_reverse hf

/-- Where the declarations of a program stick is the same whatever comes behind the next token. -/
theorem firstFatalAt_of_rejects {vs : List Token}
    (h : Rejects false (· = none) declarations ts us fault) (hvs : upcoming vs = upcoming us) :
    FirstFatalAt (ts ++ vs) ts.length fault := by
  intro xs eof hxs
  obtain ⟨ts', vs', rfl, hts, hvs'⟩ := hxs.of_append
  refine ⟨vs'.head?.getD eof, ?_, firstFatal?_of_sticks (fun fuel => ?_) h.fatal eof⟩
  · rw [← hts.length_eq]
    cases vs' <;> simp
  · exact h.sticks fuel ts' vs' hts (hvs'.upcoming_eq.trans hvs)

/-- **The first fatal error.** Let a program have a fatal error, and `i` be the position of the
token at which the first one is. Then the tokens before it are the beginning of a program without a
fatal error, and any program that begins with these tokens and this one has the same first fatal
error in the same position. -/
theorem first_fatal_error_at_first_unfixable_token {X : List Token} {eof : Token}
    (h : (parse ⟨X, eof⟩).firstFatal? ≠ none) :
    ∃ i fault, FirstFatalAt X i fault ∧
      (∃ Y, (∀ t ∈ Y, t.kind ≠ .eof) ∧ ∀ eof, (parse ⟨X.take i ++ Y, eof⟩).firstFatal? = none) ∧
      (i < X.length → ∀ Z, FirstFatalAt (X.take (i + 1) ++ Z) i fault) := by
  have hp : Predictive false (· = none) (· = none) X.length declarations :=
    predictive_declarations id
  obtain ⟨ts, us, rfl, ha | ⟨fault, hr⟩⟩ := hp.decides X (Nat.le_refl _)
  · have hclears (fuel : Nat) : (declarations fuel).Clears ts us :=
      ha.clears fuel ts us (.refl ts) (.inl rfl)
    exact absurd (firstFatal?_of_clears hclears eof) h
  · refine ⟨ts.length, fault, firstFatalAt_of_rejects hr rfl, ?_, fun hi Z => ?_⟩
    · obtain ⟨Y, hY, hclears⟩ : ∃ Y, Inner Y ∧ ∀ fuel, (declarations fuel).Clears (ts ++ Y) [] := by
        by_cases hnil : ts = []
        · subst hnil
          obtain ⟨Y, hY, hy⟩ := hp.completable
          exact ⟨Y, hY, (hy [] rfl).1⟩
        · obtain ⟨Y, hY, hy⟩ := hr.completed hnil
          exact ⟨Y, hY, fun fuel => hy fuel ts [] (.refl ts) rfl⟩
      refine ⟨Y, hY, fun eof => ?_⟩
      rw [List.take_left, ← List.append_nil (ts ++ Y)]
      exact firstFatal?_of_clears hclears eof
    · cases us with
      | nil => simp at hi
      | cons u us =>
        rw [List.take_length_add_append, List.append_assoc]
        exact firstFatalAt_of_rejects hr rfl

/-- A `print` without an operand: the semicolon is the first token too many. -/
theorem first_fatal_error_at_first_unfixable_token_print :
    let print : Token := ⟨.printKw, "print", none, 1, 0⟩
    let semi : Token := ⟨.semicolon, ";", none, 1, 5⟩
    FirstFatalAt [print, semi] 1 .expression ∧
      (∃ Y, (∀ t ∈ Y, t.kind ≠ .eof) ∧ ∀ eof, (parse ⟨[print] ++ Y, eof⟩).firstFatal? = none) ∧
      ∀ Z, FirstFatalAt ([print, semi] ++ Z) 1 .expression := by
  intro print semi
  let eof : Token := ⟨.eof, "", none, 1, 6⟩
  have hp : (parse ⟨[print, semi], eof⟩).firstFatal? = some ⟨.expression, semi⟩ := rfl
  have hpos : ∀ i, ([print, semi] ++ [eof])[i]? = some semi → i = 1
    | 0, h => by simp [print, semi] at h
    | 1, _ => rfl
    | 2, h => by simp [eof, semi] at h
    | i + 3, h => by simp at h
  have hfatal : (parse ⟨[print, semi], eof⟩).firstFatal? ≠ none := by simp [hp]
  obtain ⟨i, fault, hi, hY, hZ⟩ := first_fatal_error_at_first_unfixable_token hfatal
  obtain ⟨t, ht, hp'⟩ := hi [print, semi] eof (.refl _)
  obtain ⟨rfl, rfl⟩ : SyntaxFault.expression = fault ∧ semi = t := by simpa [hp] using hp'
  obtain rfl := hpos i ht
  exact ⟨hi, hY, hZ (by simp)⟩

end Lox.Grammar
