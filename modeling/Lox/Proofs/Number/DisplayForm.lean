import Lox.Proofs.Number.Magnitude
import Lox.Proofs.Token.LineNumber
import Lox.Proofs.Token.Respacing

/-!
# The two forms of a number

The literal form and the display form of a number are read off one decimal, so they denote the same
number. They differ in how they write it. The literal form has a point or an exponent always, the
display form only where it needs one: digits that end in no zero never leave a point with a zero
behind it.

A number that is displayed without an exponent is displayed in a form that sources may have, so its
magnitude, as a source of its own, is scanned as one number. The mantissas of the two forms are the
same where both have an exponent.

## Main definitions

* `LiteralForm cs`: what literal forms of magnitudes look like
* `signedValue cs`: what the text of a number denotes, its sign included

## Main results

* `decimal?_mod`: the decimal that stands for a number ends in no zero
* `textValue_literalMagnitude`: what literal forms denote
* `scanChars_number`: a source that is one number is scanned as that number
* `displayText_of_literalText`: how the display form of a number comes about from its literal form
-/

namespace Lox

/-! ## Numbers as sources -/

section

variable {cs : List Char}

theorem IsNumber.exists_piece (h : IsNumber cs) : ∃ whole fraction,
    IsDigits whole ∧ (∀ c ∈ fraction, IsDigit c) ∧ cs = (Piece.number whole fraction).text := by
  cases h with
  | whole h => exact ⟨cs, [], h, by simp, rfl⟩
  | @fraction ds es h hf =>
    obtain ⟨e, rest, rfl⟩ := List.exists_cons_of_ne_nil hf.1
    exact ⟨ds, e :: rest, h, hf.2, rfl⟩

theorem piece_of_isDigit {c : Char} (h : IsDigit c) (cs : List Char) :
    piece c cs = numberPiece (c :: cs) := by
  have hpart : isWordPart c = true := isWordPart_eq_true_iff.mpr (.inr h)
  have hsingle : singleKind? c = none := Option.eq_none_iff_forall_ne_some.mpr fun k hk => by
    simpa [hpart] using (singleKind?_alone hk).2.2.2
  have hoperator : operatorKinds? c = none := Option.eq_none_iff_forall_ne_some.mpr fun k hk => by
    simpa [hpart] using (operatorKinds?_alone hk).2.2.2
  have hne {d : Char} (hd : ¬IsDigit d) : c ≠ d := fun heq => hd (heq ▸ h)
  unfold piece isSpacing
  simp only [hsingle, hoperator]
  simp [hne (d := '/') (by decide), hne (d := ' ') (by decide), hne (d := '\r') (by decide),
    hne (d := '\t') (by decide), hne (d := '\n') (by decide), hne (d := '"') (by decide),
    isDigit_eq_true_iff.mpr h]

/-- A source that is one number is scanned as that number. -/
theorem scanChars_number (h : IsNumber cs) :
    scanChars cs = ⟨⟨[⟨.number, String.ofList cs, some (.number (decimalValue cs)), 1, 0⟩],
      ⟨.eof, "", none, 1, cs.length⟩⟩, []⟩ := by
  obtain ⟨whole, fraction, hw, hf, rfl⟩ := h.exists_piece
  have hgap : IsGap [] := by simp [IsGap]
  have hcut := numberPiece_gap (fun c hc => isDigit_eq_true_iff.mpr (hw.2 c hc))
    (fun c hc => isDigit_eq_true_iff.mpr (hf c hc)) hgap
  rw [List.append_nil] at hcut
  have hpieces : pieces (Piece.number whole fraction).text = [.number whole fraction] := by
    generalize hcs : (Piece.number whole fraction).text = cs at *
    cases cs with
    | nil => exact absurd rfl (Lexeme.number h).ne_nil
    | cons c cs =>
      rw [pieces, piece_of_isDigit h.head, hcut, pieces]
  have hafter : Counters.start.after (.number whole fraction) =
      ⟨1, (Piece.number whole fraction).text.length⟩ := by
    have hcurrent := Counters.start.current_after (.number whole fraction)
    rw [Counters.start, Nat.zero_add] at hcurrent
    rw [← hcurrent]
    cases fraction <;> rfl
  unfold scanChars Counters.endToken
  rw [hpieces]
  simp only [place, hafter]
  simp [Counters.start, Placed.token?, Placed.error?, Piece.token?,
    numberValue_eq_decimalValue hw.2 hf]

end

namespace Number

variable {x : Float} {cs : List Char} {q : ℚ}

/-! ## The ends of digits -/

theorem digitChar_eq_zero_iff {n : ℕ} (hn : n < 10) : Nat.digitChar n = '0' ↔ n = 0 := by
  decide +revert

/-- No zero is in front of the digits of a number that is not zero. -/
theorem head?_toDigits {n : ℕ} (hn : n ≠ 0) : (Nat.toDigits 10 n).head? ≠ some '0' := by
  induction n using Nat.strongRecOn with
  | ind n ih =>
    rw [Nat.toDigits_eq_if (by decide)]
    split
    · rename_i hlt
      simpa [digitChar_eq_zero_iff hlt] using hn
    · rw [List.head?_append_of_ne_nil _ Nat.toDigits_ne_nil]
      exact ih (n / 10) (by omega) (by omega)

theorem getLast?_toDigits (n : ℕ) :
    (Nat.toDigits 10 n).getLast? = some (Nat.digitChar (n % 10)) := by
  rw [Nat.toDigits_eq_if (by decide)]
  split
  · rename_i hlt
    rw [Nat.mod_eq_of_lt hlt]
    rfl
  · rw [List.getLast?_concat]

namespace Decimal

variable {d : Decimal}

/-- With fuel enough, all zeros at the end are moved. -/
theorem stripZeros_mod {fuel : ℕ} (hpos : 0 < d.digits) (hfuel : d.digits ≤ fuel) :
    (d.stripZeros fuel).digits % 10 ≠ 0 := by
  induction fuel generalizing d with
  | zero => omega
  | succ fuel ih =>
    rw [stripZeros]
    split
    · exact ih (d := ⟨d.digits / 10, d.exponent + 1⟩) (by simp only; omega) (by simp only; omega)
    · assumption

end Decimal

/-- The decimal that stands for a value has no zero at the end of its digits. -/
theorem Dyadic.shortest_mod {m : Dyadic} (hm : 0 < m.significand) : m.shortest.digits % 10 ≠ 0 := by
  have hpos := (rounds_shortest hm).pos hm
  obtain ⟨d, hd⟩ : ∃ d : Decimal, m.shortest = d.stripZeros d.digits := ⟨_, rfl⟩
  rw [hd] at hpos ⊢
  rw [Decimal.value_stripZeros, Decimal.value] at hpos
  refine Decimal.stripZeros_mod (Nat.pos_of_ne_zero fun h => ?_) (le_refl _)
  rw [h] at hpos
  simp at hpos

theorem decimal?_mod {d : Decimal} (h : d ∈ decimal? x) : d.digits % 10 ≠ 0 := by
  unfold decimal? at h
  simp only at h
  split at h
  · cases h
  · rename_i hz
    obtain rfl := Option.some.inj h
    exact Dyadic.shortest_mod (Nat.pos_of_ne_zero hz)

/-! ## Numbers with a point and without one -/

theorem AllDigits.isDigits {ds : List Char} (h : AllDigits ds) (hne : ds ≠ []) : IsDigits ds :=
  ⟨hne, fun c hc => isDigit_eq_true_iff.mp (h c hc)⟩

theorem AllDigits.point_notMem {ds : List Char} (h : AllDigits ds) : '.' ∉ ds :=
  fun hm => absurd (h _ hm) (by decide)

namespace Denotes

theorem isNumber (h : Denotes cs q) : IsNumber cs := by
  cases h with
  | whole h hne => exact .whole (h.isDigits hne)
  | fraction h hne h' hne' => exact .fraction (h.isDigits hne) (h'.isDigits hne')

theorem exists_fraction (h : Denotes cs q) (hp : '.' ∈ cs) :
    ∃ ds es, IsDigits ds ∧ IsDigits es ∧ cs = ds ++ '.' :: es := by
  cases h with
  | whole h => exact absurd hp h.point_notMem
  | fraction h hne h' hne' => exact ⟨_, _, h.isDigits hne, h'.isDigits hne', rfl⟩

/-- A zero behind a point changes nothing. -/
theorem append_zero (h : Denotes cs q) (hp : '.' ∉ cs) :
    IsDigits cs ∧ Denotes (cs ++ ['.', '0']) q := by
  cases h with
  | whole h hne hq =>
    have hzero : Nat.ofDigitChars 10 (cs ++ ['0']) 0 = 10 ^ 1 * Nat.ofDigitChars 10 cs 0 :=
      ofDigitChars_append_zeros 1 cs
    refine ⟨h.isDigits hne, .fraction h hne (allDigits_zeros 1) (List.cons_ne_nil _ _) ?_⟩
    rw [hzero, ← hq, List.length_singleton]
    push_cast
    ring
  | fraction => exact absurd (List.mem_append_right _ List.mem_cons_self) hp

end Denotes

namespace Decimal

variable (d : Decimal)

/-- A decimal is written with a point exactly if it has digits behind it. -/
theorem point_mem_positional : '.' ∈ d.positional ↔ d.exponent < 0 := by
  unfold positional
  simp only
  split
  · rename_i he
    have hdigits := d.allDigits_digitChars.append (allDigits_zeros d.exponent.toNat)
    exact iff_of_false hdigits.point_notMem (by omega)
  · split <;> exact iff_of_true (by simp) (by omega)

/-- Behind a point, the last digit is that of the decimal. -/
theorem getLast?_positional (he : d.exponent < 0) :
    d.positional.getLast? = d.digitChars.getLast? := by
  have hpos := d.length_digitChars_pos
  have hpoint : d.point = d.digitChars.length + d.exponent := rfl
  unfold positional
  rw [if_neg (by omega)]
  split
  · rw [← List.cons_append, ← List.cons_append,
      List.getLast?_append_of_ne_nil _ (List.length_pos_iff.mp hpos)]
  · have hlt : d.point.toNat < d.digitChars.length := by omega
    have hne : d.digitChars.drop d.point.toNat ≠ [] := by simpa using hlt
    obtain ⟨c, rest, hrest⟩ := List.exists_cons_of_ne_nil hne
    rw [List.getLast?_append_of_ne_nil _ (List.cons_ne_nil _ _), hrest, List.getLast?_cons_cons,
      ← hrest, List.getLast?_drop, if_neg (by omega)]

end Decimal

/-! ## The literal form of a magnitude -/

/-- A digit, with a point and more digits behind it or without them. -/
inductive IsMantissa : List Char → Prop
  | digit {c : Char} (h : IsDigit c) : IsMantissa [c]
  | fraction {c : Char} {ds : List Char} (h : IsDigit c) (hds : IsDigits ds) :
      IsMantissa (c :: '.' :: ds)

/-- The literal form of a magnitude: digits on both sides of a point, or a mantissa with an exponent
that has a sign and at least two digits, and is not zero. -/
inductive LiteralForm : List Char → Prop
  | positional {ds es : List Char} (h : IsDigits ds) (h' : IsDigits es) :
      LiteralForm (ds ++ '.' :: es)
  | exponent {mantissa ds : List Char} {sign : Char} (h : IsMantissa mantissa)
      (hs : sign = '+' ∨ sign = '-') (hds : IsDigits ds) (hlength : 2 ≤ ds.length)
      (hne : Nat.ofDigitChars 10 ds 0 ≠ 0) : LiteralForm (mantissa ++ 'e' :: sign :: ds)

namespace Decimal

variable (d : Decimal)

theorem isMantissa_mantissa : IsMantissa d.mantissa := by
  have hdigits := d.allDigits_digitChars.isDigits (List.length_pos_iff.mp d.length_digitChars_pos)
  unfold mantissa
  generalize d.digitChars = cs at *
  obtain ⟨hne, hdigits⟩ := hdigits
  rcases cs with _ | ⟨first, _ | ⟨second, cs⟩⟩
  · exact absurd rfl hne
  · exact .digit (hdigits first List.mem_cons_self)
  · obtain ⟨hfirst, hrest⟩ := List.forall_mem_cons.mp hdigits
    exact .fraction hfirst ⟨List.cons_ne_nil _ _, hrest⟩

theorem leading_ne_zero (h : d.isPositional = false) : d.leading ≠ 0 := by
  intro hz
  rw [isPositional, hz] at h
  exact absurd h (by decide)

end Decimal

/-- The sign of an exponent. -/
def exponentSign (e : ℤ) : Char :=
  if e < 0 then '-' else '+'

theorem exponentSign_eq (e : ℤ) : exponentSign e = '+' ∨ exponentSign e = '-' := by
  unfold exponentSign
  split
  · exact .inr rfl
  · exact .inl rfl

theorem exponentText_eq (width : ℕ) (e : ℤ) :
    exponentText width e = 'e' :: exponentSign e ::
      (List.replicate (width - (Nat.toDigits 10 e.natAbs).length) '0' ++
        Nat.toDigits 10 e.natAbs) := rfl

/-- An exponent has a digit, so to one of width one no zeros are added. -/
theorem exponentText_one (e : ℤ) :
    exponentText 1 e = 'e' :: exponentSign e :: Nat.toDigits 10 e.natAbs := by
  have hpos : 0 < (Nat.toDigits 10 e.natAbs).length := Nat.length_toDigits_pos
  rw [exponentText_eq, Nat.sub_eq_zero_of_le hpos, List.replicate_zero, List.nil_append]

/-- A magnitude has a literal form, with a point where it has no exponent. -/
theorem literalForm_literalMagnitude (o : Option Decimal) : LiteralForm (literalMagnitude o) := by
  cases o with
  | none =>
    have hzero : IsDigits ['0'] := (allDigits_zeros 1).isDigits (List.cons_ne_nil _ _)
    exact .positional hzero hzero
  | some d =>
    rw [literalMagnitude]
    by_cases hp : d.isPositional = true
    · rw [if_pos hp]
      split
      · rename_i he
        have hdigits := (d.denotes_positional.append_zero
          (d.point_mem_positional.not.mpr (by omega))).1
        exact .positional hdigits ((allDigits_zeros 1).isDigits (List.cons_ne_nil _ _))
      · rename_i he
        obtain ⟨ds, es, hds, hes, heq⟩ :=
          d.denotes_positional.exists_fraction (d.point_mem_positional.mpr (by omega))
        exact heq ▸ .positional hds hes
    · rw [if_neg hp, exponentText_eq]
      have hne := d.leading_ne_zero (eq_false_of_ne_true hp)
      have hdigits := (allDigits_zeros (2 - (Nat.toDigits 10 d.leading.natAbs).length)).append
        (allDigits_toDigits d.leading.natAbs)
      refine .exponent d.isMantissa_mantissa (exponentSign_eq _) (hdigits.isDigits ?_) ?_ ?_
      · exact List.append_ne_nil_of_right_ne_nil _ Nat.toDigits_ne_nil
      · rw [List.length_append, List.length_replicate]
        omega
      · rw [ofDigitChars_zeros_append, Nat.ofDigitChars_ten_toDigits]
        omega

/-- The literal form of a magnitude denotes its decimal, and zero if there is none. -/
theorem textValue_literalMagnitude (o : Option Decimal) :
    textValue (literalMagnitude o) = o.elim 0 Decimal.value := by
  cases o with
  | none =>
    exact (Denotes.fraction (allDigits_zeros 1) (List.cons_ne_nil _ _) (allDigits_zeros 1)
      (List.cons_ne_nil _ _) (by simp [Nat.ofDigitChars_cons])).textValue_eq
  | some d =>
    rw [literalMagnitude]
    split
    · split
      · rename_i he
        have hp : '.' ∉ d.positional := d.point_mem_positional.not.mpr (by omega)
        exact (d.denotes_positional.append_zero hp).2.textValue_eq
      · exact d.textValue_positional
    · exact d.textValue_mantissa 2

/-! ## The display form of a magnitude -/

/-- No displayed magnitude ends in a point and a zero. -/
theorem not_suffix_displayMagnitude {plain : Bool} {o : Option Decimal}
    (ho : ∀ d ∈ o, d.digits % 10 ≠ 0) : ¬['.', '0'] <:+ displayMagnitude plain o := by
  intro hs
  cases o with
  | none => exact absurd (hs.subset List.mem_cons_self) (by simp [displayMagnitude])
  | some d =>
    have hmod := ho d rfl
    rw [displayMagnitude] at hs
    split at hs
    · have he := d.point_mem_positional.mp (hs.subset List.mem_cons_self)
      have hzero : ['0'] <:+ d.positional := (List.suffix_cons '.' ['0']).trans hs
      rw [List.singleton_suffix_iff_getLast?_eq_some, d.getLast?_positional he,
        Decimal.digitChars, getLast?_toDigits, Option.some.injEq,
        digitChar_eq_zero_iff (Nat.mod_lt _ (by decide))] at hzero
      exact hmod hzero
    · rw [exponentText_one] at hs
      have hexponent : exponentSign d.leading :: Nat.toDigits 10 d.leading.natAbs <:+
          d.mantissa ++ 'e' :: exponentSign d.leading :: Nat.toDigits 10 d.leading.natAbs :=
        (List.suffix_cons ..).trans (List.suffix_append ..)
      have hp := (List.suffix_of_suffix_length_le hs hexponent
        (Nat.succ_le_succ Nat.length_toDigits_pos)).subset List.mem_cons_self
      rcases List.mem_cons.mp hp with h | h
      · rcases exponentSign_eq d.leading with hs | hs <;> exact absurd (h.trans hs) (by decide)
      · exact (allDigits_toDigits _).point_notMem h

/-- A magnitude that is displayed positionally is displayed as the text of a number. -/
theorem isNumber_displayMagnitude {plain : Bool} {o : Option Decimal}
    (h : 'e' ∉ literalMagnitude o ∨ plain = true) : IsNumber (displayMagnitude plain o) := by
  cases o with
  | none => exact .whole ((allDigits_zeros 1).isDigits (List.cons_ne_nil _ _))
  | some d =>
    have hpositional : (d.isPositional || plain) = true := by
      rcases h with h | h
      · rw [Bool.or_eq_true]
        refine .inl (Decidable.byContradiction fun hp => h ?_)
        rw [literalMagnitude, if_neg hp]
        exact List.mem_append_right _ List.mem_cons_self
      · rw [h, Bool.or_true]
    rw [displayMagnitude, if_pos hpositional]
    exact d.denotes_positional.isNumber

theorem e_notMem_of_isPositional {d : Decimal} (h : d.isPositional = true) :
    'e' ∉ literalMagnitude (some d) := by
  have he : 'e' ∉ d.positional := fun hm => by simpa using d.denotes_positional.ne_e 'e' hm
  rw [literalMagnitude, if_pos h]
  split
  · simpa using he
  · exact he

/-- A magnitude that is displayed with an exponent has the mantissa of the literal form, and the
exponent without the zeros in front of it. -/
theorem exists_exponent {o : Option Decimal} (h : 'e' ∈ literalMagnitude o) :
    ∃ mantissa sign zeros ds, IsMantissa mantissa ∧ (sign = '+' ∨ sign = '-') ∧ IsDigits ds ∧
      ds.head? ≠ some '0' ∧
      literalMagnitude o = mantissa ++ 'e' :: sign :: (List.replicate zeros '0' ++ ds) ∧
      displayMagnitude false o = mantissa ++ 'e' :: sign :: ds := by
  cases o with
  | none => exact absurd h (by decide)
  | some d =>
    have hp : ¬d.isPositional = true := fun hp => e_notMem_of_isPositional hp h
    have hne := d.leading_ne_zero (eq_false_of_ne_true hp)
    refine ⟨d.mantissa, exponentSign d.leading, 2 - (Nat.toDigits 10 d.leading.natAbs).length,
      Nat.toDigits 10 d.leading.natAbs, d.isMantissa_mantissa, exponentSign_eq _,
      (allDigits_toDigits _).isDigits Nat.toDigits_ne_nil, head?_toDigits (by omega), ?_, ?_⟩
    · rw [literalMagnitude, if_neg hp, exponentText_eq]
    · rw [displayMagnitude, Bool.or_false, if_neg hp, exponentText_one]

/-! ## Signs -/

/-- What the text of a number denotes, with a sign in front of it or without one. -/
def signedValue : List Char → ℚ
  | '-' :: cs => -textValue cs
  | cs => textValue cs

theorem signedValue_sign_append (h : ∃ c rest, cs = c :: rest ∧ c.isDigit = true) :
    signedValue (sign x ++ cs) = if isNegative x then -textValue cs else textValue cs := by
  obtain ⟨c, rest, rfl, hc⟩ := h
  unfold sign
  split
  · rfl
  · have hne : c ≠ '-' := by
      rintro rfl
      exact absurd hc (by decide)
    rw [List.nil_append, signedValue]
    simpa using hne

theorem LiteralForm.head (h : LiteralForm cs) : ∃ c rest, cs = c :: rest ∧ c.isDigit = true := by
  cases h with
  | positional h =>
    obtain ⟨c, rest, rfl⟩ := List.exists_cons_of_ne_nil h.1
    exact ⟨c, _, rfl, isDigit_eq_true_iff.mpr (h.2 c List.mem_cons_self)⟩
  | exponent h =>
    cases h with
    | digit h | fraction h => exact ⟨_, _, rfl, isDigit_eq_true_iff.mpr h⟩

theorem suffix_of_suffix_sign_append (h : ['.', '0'] <:+ sign x ++ cs) : ['.', '0'] <:+ cs := by
  unfold sign at h
  split at h
  · rcases List.suffix_cons_iff.mp h with h | h
    · exact absurd (List.cons.inj h).1 (by decide)
    · exact h
  · exact h

theorem isPlainRange_eq_true_iff : isPlainRange x = true ↔ 1e-6 ≤ x.abs ∧ x.abs < 1e21 := by
  simp [isPlainRange]

theorem toList_literalText (h : IsFinite x) :
    (literalText x).toList = sign x ++ literalMagnitude (decimal? x) := by
  rw [literalText, if_neg (ne_true_of_eq_false h.1), if_neg (ne_true_of_eq_false h.2),
    String.toList_ofList]

/-- **The two forms of a finite number** have one sign, and denote one number. The display form
never ends in a point and a zero. If the literal form has no exponent or the magnitude is in the
plain range, then the display form is a number without an exponent, and so the display form of the
magnitude is scanned as that number; or else it has the mantissa of the literal form and the same
exponent, without the zeros in front of it. -/
theorem displayText_of_literalText (h : IsFinite x) :
    ∃ literal display, (literalText x).toList = sign x ++ literal ∧
      (displayText x).toList = sign x ++ display ∧ LiteralForm literal ∧
      signedValue (displayText x).toList = signedValue (literalText x).toList ∧
      ¬['.', '0'] <:+ (displayText x).toList ∧
      ('e' ∉ literal ∨ 1e-6 ≤ x.abs ∧ x.abs < 1e21 →
        IsNumber display ∧ (displayText x.abs).toList = display ∧
          scan (displayText x.abs) =
            ⟨⟨[⟨.number, displayText x.abs, some (.number (decimalValue display)), 1, 0⟩],
              ⟨.eof, "", none, 1, display.length⟩⟩, []⟩) ∧
      ('e' ∈ literal → ¬(1e-6 ≤ x.abs ∧ x.abs < 1e21) →
        ∃ mantissa s zeros ds, IsMantissa mantissa ∧ (s = '+' ∨ s = '-') ∧ IsDigits ds ∧
          ds.head? ≠ some '0' ∧
          literal = mantissa ++ 'e' :: s :: (List.replicate zeros '0' ++ ds) ∧
          display = mantissa ++ 'e' :: s :: ds) := by
  have hform := literalForm_literalMagnitude (decimal? x)
  refine ⟨literalMagnitude (decimal? x), displayMagnitude (isPlainRange x) (decimal? x),
    toList_literalText h, toList_displayText h, hform, ?_, ?_, ?_, ?_⟩
  · rw [toList_displayText h, toList_literalText h, signedValue_sign_append hform.head,
      signedValue_sign_append (head_displayMagnitude ..), textValue_displayMagnitude,
      textValue_literalMagnitude]
  · rw [toList_displayText h]
    exact fun hs => not_suffix_displayMagnitude (fun d hd => decimal?_mod hd)
      (suffix_of_suffix_sign_append hs)
  · intro hplain
    have hnumber := isNumber_displayMagnitude (hplain.imp_right isPlainRange_eq_true_iff.mpr)
    have habs := toList_displayText_abs h
    refine ⟨hnumber, habs, ?_⟩
    rw [scan, habs, scanChars_number hnumber, ← habs, String.ofList_toList]
  · intro he hplain
    rw [← isPlainRange_eq_true_iff, Bool.not_eq_true] at hplain
    rw [hplain]
    exact exists_exponent he

/-- A number with an exponent in its literal form only, and one with an exponent in both forms. -/
theorem displayText_of_literalText_both_forms :
    (IsFinite (-1.5e17) ∧ literalText (-1.5e17) = "-1.5e+17" ∧
      displayText (-1.5e17) = "-150000000000000000" ∧
      (scan (displayText (Float.abs (-1.5e17)))).errors = []) ∧
    (IsFinite (-2.5e-8) ∧ literalText (-2.5e-8) = "-2.5e-08" ∧ displayText (-2.5e-8) = "-2.5e-8" ∧
      signedValue (displayText (-2.5e-8)).toList = signedValue (literalText (-2.5e-8)).toList) := by
  have hlarge : IsFinite (-1.5e17) := ⟨by decide +kernel, by decide +kernel⟩
  have hsmall : IsFinite (-2.5e-8) := ⟨by decide +kernel, by decide +kernel⟩
  obtain ⟨_, _, -, -, -, -, -, hscan, -⟩ := displayText_of_literalText hlarge
  obtain ⟨_, _, -, -, -, hvalue, -, -, -⟩ := displayText_of_literalText hsmall
  refine ⟨⟨hlarge, by decide +kernel, by decide +kernel, ?_⟩,
    hsmall, by decide +kernel, by decide +kernel, hvalue⟩
  rw [(hscan (.inr ⟨by decide +kernel, by decide +kernel⟩)).2.2]

end Number

end Lox
