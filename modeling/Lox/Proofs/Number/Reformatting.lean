import Lox.Proofs.Number.DisplayForm

/-!
# The display form, made of the literal form

Both forms of a number are read off its decimal. The display form can be made of the literal form as
well, as a text that is made of another one: a point and a zero are cut off at the end, the zeros in
front of the exponent are left out, or the exponent is left out and the point of the mantissa is
moved instead.

## Main definitions

* `movePoint mantissa places`: the mantissa with its point moved
* `displayOfLiteral plain cs`: the display form that is made of the literal form `cs`

## Main results

* `movePoint_mantissa`: where the point of a mantissa is moved to
* `toList_displayText_eq_displayOfLiteral`: this makes the display form of every finite number
-/

namespace Lox.Number

/-! ## Texts made of texts -/

/-- The text without a point and a zero at its end. -/
def withoutPointZero (cs : List Char) : List Char :=
  if ['.', '0'] <:+ cs then cs.take (cs.length - 2) else cs

/-- The point of a mantissa is moved to the right by so many places. Where there are no digits,
zeros are put in. -/
def movePoint (mantissa : List Char) (places : ℤ) : List Char :=
  let whole := mantissa.takeWhile (· ≠ '.')
  let digits := whole ++ (mantissa.dropWhile (· ≠ '.')).tail
  let point : ℤ := whole.length + places
  if digits.length ≤ point then digits ++ List.replicate (point - digits.length).toNat '0'
  else if point ≤ 0 then '0' :: '.' :: (List.replicate (-point).toNat '0' ++ digits)
  else digits.take point.toNat ++ '.' :: digits.drop point.toNat

/-- A mantissa that may have a sign, with its point moved. -/
def moveSignedPoint (mantissa : List Char) (places : ℤ) : List Char :=
  (if mantissa.head? = some '-' then ['-'] else []) ++
    movePoint (mantissa.dropWhile (· = '-')) places

/-- An exponent with its sign, and without the zeros in front of its digits. -/
def shortExponent (exponent : List Char) : List Char :=
  (if exponent.head? = some '-' then '-' else '+') ::
    ((exponent.dropWhile fun c => c = '+' ∨ c = '-').dropWhile (· = '0'))

/-- The display form that is made of a literal form; `plain` leaves out the exponent. -/
def displayOfLiteral (plain : Bool) (cs : List Char) : List Char :=
  if 'e' ∈ cs then
    let mantissa := cs.takeWhile (· ≠ 'e')
    let exponent := cs.dropWhile (· ≠ 'e')
    if plain then withoutPointZero (moveSignedPoint mantissa (exponentValue exponent))
    else mantissa ++ 'e' :: shortExponent exponent.tail
  else withoutPointZero cs

variable {x : Float} {cs : List Char}

/-! ## The end of a text -/

theorem withoutPointZero_append (cs : List Char) : withoutPointZero (cs ++ ['.', '0']) = cs := by
  rw [withoutPointZero, if_pos (List.suffix_append _ _)]
  simp

/-- Nothing is cut off from a displayed number. -/
theorem withoutPointZero_sign_append (x : Float) (plain : Bool) {o : Option Decimal}
    (ho : ∀ d ∈ o, d.digits % 10 ≠ 0) :
    withoutPointZero (sign x ++ displayMagnitude plain o) =
      sign x ++ displayMagnitude plain o :=
  if_neg fun hs => not_suffix_displayMagnitude ho (suffix_of_suffix_sign_append hs)

/-! ## Mantissas -/

/-- The point of a mantissa is moved to where the decimal has it without an exponent. -/
theorem movePoint_mantissa (d : Decimal) : movePoint d.mantissa d.leading = d.positional := by
  have hpos := d.length_digitChars_pos
  have hdigits := d.allDigits_digitChars
  have hpoint : d.point = d.digitChars.length + d.exponent := rfl
  have hleading : d.leading = d.point - 1 := rfl
  have hmantissa : (d.mantissa.takeWhile (· ≠ '.')).length = 1 ∧
      d.mantissa.takeWhile (· ≠ '.') ++ (d.mantissa.dropWhile (· ≠ '.')).tail =
        d.digitChars := by
    unfold Decimal.mantissa
    generalize d.digitChars = cs at *
    rcases cs with _ | ⟨first, cs⟩
    · exact absurd hpos (Nat.lt_irrefl _)
    have hfirst : first ≠ '.' := fun h => absurd (hdigits first List.mem_cons_self) (h ▸ by decide)
    rcases cs with _ | ⟨second, cs⟩ <;> simp [hfirst]
  obtain ⟨hwhole, hall⟩ := hmantissa
  unfold movePoint Decimal.positional
  simp only [hwhole, hall]
  have hplace : ((1 : ℕ) : ℤ) + d.leading = d.point := by omega
  rw [hplace]
  by_cases he : 0 ≤ d.exponent
  · have hzeros : (d.point - d.digitChars.length).toNat = d.exponent.toNat := by omega
    rw [if_pos (by omega), if_pos he, hzeros]
  · rw [if_neg (by omega), if_neg he]

/-- The sign in front of a text that begins with a digit can be told from it. -/
theorem moveSignedPoint_sign_append (x : Float) (hcs : ∃ c rest, cs = c :: rest ∧ c.isDigit = true)
    (places : ℤ) : moveSignedPoint (sign x ++ cs) places = sign x ++ movePoint cs places := by
  obtain ⟨c, rest, rfl, hc⟩ := hcs
  have hne : c ≠ '-' := fun h => absurd hc (h ▸ by decide)
  unfold moveSignedPoint sign
  split <;> simp [hne]

/-! ## Exponents -/

/-- The sign of an exponent is kept, but not the zeros in front of its digits. -/
theorem shortExponent_exponentText (width : ℕ) {e : ℤ} (he : e ≠ 0) :
    'e' :: shortExponent (exponentText width e).tail = exponentText 1 e := by
  have hhead := head?_toDigits (Int.natAbs_ne_zero.mpr he)
  rw [exponentText_one, exponentText_eq, List.tail_cons]
  generalize hzeros : List.replicate (width - (Nat.toDigits 10 e.natAbs).length) '0' = zeros
  generalize hdigits : Nat.toDigits 10 e.natAbs = digits at *
  have hall : AllDigits (zeros ++ digits) :=
    (hzeros ▸ allDigits_zeros _).append (hdigits ▸ allDigits_toDigits _)
  have hsign : (zeros ++ digits).dropWhile (fun c => c = '+' ∨ c = '-') = zeros ++ digits := by
    refine List.dropWhile_eq_self_iff.mpr fun hl h => ?_
    have hdigit := hall _ (List.getElem_mem hl)
    rcases of_decide_eq_true h with h | h <;> rw [h] at hdigit <;> exact absurd hdigit (by decide)
  have hzero : ∀ c ∈ zeros, decide (c = '0') = true := fun c hc =>
    decide_eq_true (List.eq_of_mem_replicate (hzeros ▸ hc))
  have hnone : digits.dropWhile (· = '0') = digits := by
    refine List.dropWhile_eq_self_iff.mpr fun hl h => hhead ?_
    rw [List.head?_eq_getElem?, List.getElem?_eq_getElem hl, of_decide_eq_true h]
  have hkept : (exponentSign e :: (zeros ++ digits)).dropWhile (fun c => c = '+' ∨ c = '-') =
      zeros ++ digits := by
    refine (List.dropWhile_cons_of_pos ?_).trans hsign
    exact decide_eq_true (exponentSign_eq e)
  rw [shortExponent, hkept, List.dropWhile_append_of_pos hzero, hnone, List.head?_cons]
  rcases exponentSign_eq e with h | h <;> rw [h] <;> rfl

/-! ## The two forms -/

/-- With an exponent, the mantissa and the exponent can be told apart. -/
theorem displayOfLiteral_exponent (x : Float) (plain : Bool) {d : Decimal} (hd : d.leading ≠ 0) :
    displayOfLiteral plain (sign x ++ (d.mantissa ++ exponentText 2 d.leading)) =
      if plain then withoutPointZero (sign x ++ d.positional)
      else sign x ++ (d.mantissa ++ exponentText 1 d.leading) := by
  have hcons : exponentText 2 d.leading = 'e' :: (exponentText 2 d.leading).tail := rfl
  have hmem : 'e' ∈ sign x ++ d.mantissa ++ exponentText 2 d.leading := by
    rw [hcons]
    exact List.mem_append_right _ List.mem_cons_self
  have hmantissa : ∀ c ∈ sign x ++ d.mantissa, decide (c ≠ 'e') = true := by
    refine List.forall_mem_append.mpr ⟨fun c hc => ?_, d.denotes_mantissa.ne_e⟩
    unfold sign at hc
    split at hc
    · obtain rfl := List.mem_singleton.mp hc
      rfl
    · cases hc
  have htake : (sign x ++ d.mantissa ++ exponentText 2 d.leading).takeWhile (· ≠ 'e') =
      sign x ++ d.mantissa := by
    rw [List.takeWhile_append_of_pos hmantissa, hcons, List.takeWhile_cons_of_neg (by decide),
      List.append_nil]
  have hdrop : (sign x ++ d.mantissa ++ exponentText 2 d.leading).dropWhile (· ≠ 'e') =
      exponentText 2 d.leading := by
    rw [List.dropWhile_append_of_pos hmantissa, hcons, List.dropWhile_cons_of_neg (by decide)]
  rw [← List.append_assoc, displayOfLiteral, if_pos hmem]
  simp only [htake, hdrop]
  rw [exponentValue_exponentText, moveSignedPoint_sign_append x d.denotes_mantissa.head,
    movePoint_mantissa, shortExponent_exponentText 2 hd, List.append_assoc]

theorem displayOfLiteral_of_notMem (x : Float) (plain : Bool) (h : 'e' ∉ cs) :
    displayOfLiteral plain (sign x ++ cs) = withoutPointZero (sign x ++ cs) := by
  refine if_neg ?_
  unfold sign
  split <;> simpa using h

/-- **The display form** of a finite number is made of its literal form. -/
theorem toList_displayText_eq_displayOfLiteral (h : IsFinite x) :
    (displayText x).toList = displayOfLiteral (isPlainRange x) (literalText x).toList := by
  rw [toList_displayText h, toList_literalText h]
  have hkept := withoutPointZero_sign_append x (isPlainRange x) (fun d => decimal?_mod (x := x))
  generalize decimal? x = o at *
  generalize isPlainRange x = plain at *
  cases o with
  | none =>
    have hcut := withoutPointZero_append (sign x ++ ['0'])
    rw [List.append_assoc] at hcut
    rw [displayOfLiteral_of_notMem x plain (by decide)]
    exact hcut.symm
  | some d =>
    by_cases hp : d.isPositional = true
    · rw [displayOfLiteral_of_notMem x plain (e_notMem_of_isPositional hp)]
      rw [displayMagnitude, hp, Bool.true_or, if_pos rfl] at hkept ⊢
      rw [literalMagnitude, if_pos hp]
      split
      · rw [← List.append_assoc, withoutPointZero_append]
      · exact hkept.symm
    · have hleading := d.leading_ne_zero (eq_false_of_ne_true hp)
      rw [literalMagnitude, if_neg hp, displayOfLiteral_exponent x plain hleading]
      rw [displayMagnitude, eq_false_of_ne_true hp, Bool.false_or] at hkept ⊢
      cases plain with
      | true => exact hkept.symm
      | false => rfl

end Lox.Number
