import Mathlib.Data.List.Basic

/-!
# Words and lists of them

The texts that are words, and lists of such texts between parentheses, with single spaces between
the members. As no word has a space or a parenthesis in it, the text says what the word or the list
is, and where it ends in a longer text.

## Main definitions

* `SExpr`: a word, or a list
* `SExpr.text x`, `SExpr.string x`: the text of `x`
* `IsUnbroken cs`: there is no space and no parenthesis among the characters
* `IsPlainWord s`, `SExpr.Plain x`: no word is empty or has a space or a parenthesis

## Main results

* `SExpr.string_list`: the members of a list, with spaces between them
* `SExpr.text_append_inj`: a text says what it is the text of, and where it ends
* `SExpr.text_injective`: plain words and lists with the same text are the same
-/

namespace Lox

/-- A word, or a list of words and lists. -/
inductive SExpr where
  | word (s : String)
  | list (items : List SExpr)

/-- A character that words do not have. -/
def IsDelimiter (c : Char) : Prop :=
  c = ' ' ∨ c = '(' ∨ c = ')'

/-- There is no space and no parenthesis among the characters. -/
def IsUnbroken (cs : List Char) : Prop :=
  ∀ c ∈ cs, ¬IsDelimiter c

/-- The text is not empty and has no space and no parenthesis. -/
def IsPlainWord (s : String) : Prop :=
  s.toList ≠ [] ∧ IsUnbroken s.toList

instance : DecidablePred IsDelimiter :=
  fun c => inferInstanceAs (Decidable (c = ' ' ∨ c = '(' ∨ c = ')'))

-- only the characters of the text are tried
instance : DecidablePred IsUnbroken :=
  List.decidableBAll fun c => ¬IsDelimiter c

instance : DecidablePred IsPlainWord :=
  fun s => inferInstanceAs (Decidable (s.toList ≠ [] ∧ IsUnbroken s.toList))

namespace SExpr

/-- Induction on a word or a list: what is proved of a list may be assumed of its members. -/
@[elab_as_elim]
theorem induct {motive : SExpr → Prop} (word : ∀ s, motive (.word s))
    (list : ∀ xs, (∀ x ∈ xs, motive x) → motive (.list xs)) (x : SExpr) : motive x :=
  @SExpr.rec motive (fun xs => ∀ x ∈ xs, motive x) word list (by simp)
    (fun _ _ h hs => by simpa using ⟨h, hs⟩) x

mutual

/-- The text of a word is the word; the text of a list has the texts of its members between
parentheses. -/
def text : SExpr → List Char
  | word s => s.toList
  | list xs => '(' :: ((spaced xs).tail ++ [')'])

/-- The texts of the members, each with a space in front. -/
def spaced : List SExpr → List Char
  | [] => []
  | x :: xs => ' ' :: (x.text ++ spaced xs)

end

mutual

/-- The words in it are plain. -/
def Plain : SExpr → Prop
  | word s => IsPlainWord s
  | list xs => AllPlain xs

/-- The members are plain. -/
def AllPlain : List SExpr → Prop
  | [] => True
  | x :: xs => x.Plain ∧ AllPlain xs

end

theorem allPlain_iff {xs : List SExpr} : AllPlain xs ↔ ∀ x ∈ xs, x.Plain := by
  induction xs with
  | nil => simp [AllPlain]
  | cons x xs ih => simp [AllPlain, ih]

variable {x y : SExpr} {xs ys : List SExpr} {us vs : List Char}

/-! ## Strings -/

/-- The text as a string. -/
def string (x : SExpr) : String :=
  String.ofList x.text

@[simp] theorem string_word (s : String) : (word s).string = s :=
  String.ofList_toList

/-- The members of a list are separated by spaces. -/
theorem tail_spaced (xs : List SExpr) :
    (spaced xs).tail = [' '].intercalate (xs.map text) := by
  cases xs with
  | nil => rfl
  | cons x xs =>
    rw [spaced, List.tail_cons, List.map_cons]
    induction xs generalizing x with
    | nil => simp [spaced]
    | cons y ys ih => simp [spaced, ih y]

theorem string_list (xs : List SExpr) :
    (list xs).string = "(" ++ " ".intercalate (xs.map string) ++ ")" := by
  refine String.toList_inj.mp ?_
  simp [string, text, tail_spaced, String.toList_intercalate, Function.comp_def]

/-! ## Where a text ends -/

/-- The text does not go on with a word. -/
def Stops (us : List Char) : Prop :=
  ∀ c ∈ us.head?, IsDelimiter c

theorem stops_spaced_append : Stops (spaced xs ++ ')' :: us) := by
  cases xs with
  | nil => simp [spaced, Stops, IsDelimiter]
  | cons x xs => simp [spaced, Stops, IsDelimiter]

/-- No text begins with the parenthesis that closes a list. -/
theorem Plain.text_append_ne (h : x.Plain) : x.text ++ us ≠ ')' :: vs := by
  cases x with
  | word s =>
    obtain ⟨hne, hs⟩ := h
    obtain ⟨c, cs, heq⟩ := List.exists_cons_of_ne_nil hne
    rw [text, heq]
    rintro ⟨⟩
    exact hs ')' (by simp [heq]) (.inr (.inr rfl))
  | list xs => simp [text]

/-- Two words that end at delimiters are one word if the texts go on in the same way. -/
theorem append_inj_of_stops {cs ds : List Char} (hc : IsUnbroken cs) (hd : IsUnbroken ds)
    (hu : Stops us) (hv : Stops vs) (h : cs ++ us = ds ++ vs) : cs = ds ∧ us = vs := by
  induction cs generalizing ds with
  | nil =>
    cases ds with
    | nil => exact ⟨rfl, h⟩
    | cons d ds =>
      obtain rfl : us = d :: (ds ++ vs) := h
      exact absurd (hu d rfl) (hd d List.mem_cons_self)
  | cons c cs ih =>
    cases ds with
    | nil =>
      obtain rfl : c :: (cs ++ us) = vs := h
      exact absurd (hv c rfl) (hc c List.mem_cons_self)
    | cons d ds =>
      obtain ⟨rfl, htail⟩ := List.cons.inj h
      obtain ⟨rfl, hrest⟩ := ih (fun c hcs => hc c (List.mem_cons_of_mem _ hcs))
        (fun d hds => hd d (List.mem_cons_of_mem _ hds)) htail
      exact ⟨rfl, hrest⟩

/-! ## Texts say what they are -/

/-- Members that are told apart by their texts are told apart in a list. -/
theorem spaced_append_inj (ih : ∀ x ∈ xs, ∀ y us vs, y.Plain → Stops us → Stops vs →
      x.text ++ us = y.text ++ vs → x = y ∧ us = vs) (hy : ∀ y ∈ ys, y.Plain)
    (h : spaced xs ++ ')' :: us = spaced ys ++ ')' :: vs) : xs = ys ∧ us = vs := by
  induction xs generalizing ys with
  | nil =>
    cases ys with
    | nil => simpa [spaced] using h
    | cons y ys => simp [spaced] at h
  | cons x xs ihxs =>
    cases ys with
    | nil => simp [spaced] at h
    | cons y ys =>
      simp only [spaced, List.cons_append, List.append_assoc, List.cons.injEq, true_and] at h
      obtain ⟨rfl, htail⟩ := ih x List.mem_cons_self y _ _ (hy y List.mem_cons_self)
        stops_spaced_append stops_spaced_append h
      obtain ⟨rfl, hu⟩ := ihxs (fun x hx => ih x (List.mem_cons_of_mem _ hx))
        (fun y hys => hy y (List.mem_cons_of_mem _ hys)) htail
      exact ⟨rfl, hu⟩

/-- The first space may be left out on both sides. -/
theorem spaced_of_tail (hx : ∀ x ∈ xs, x.Plain) (hy : ∀ y ∈ ys, y.Plain)
    (h : (spaced xs).tail ++ ')' :: us = (spaced ys).tail ++ ')' :: vs) :
    spaced xs ++ ')' :: us = spaced ys ++ ')' :: vs := by
  cases xs with
  | nil =>
    cases ys with
    | nil => exact h
    | cons y ys =>
      simp only [spaced, List.tail_cons, List.append_assoc] at h
      exact absurd h.symm (hy y List.mem_cons_self).text_append_ne
  | cons x xs =>
    cases ys with
    | nil =>
      simp only [spaced, List.tail_cons, List.append_assoc] at h
      exact absurd h (hx x List.mem_cons_self).text_append_ne
    | cons y ys => exact congrArg (' ' :: ·) h

/-- A text says what it is the text of, and where it ends. -/
theorem text_append_inj (hx : x.Plain) (hy : y.Plain) (hu : Stops us) (hv : Stops vs)
    (h : x.text ++ us = y.text ++ vs) : x = y ∧ us = vs := by
  induction x using SExpr.induct generalizing y us vs with
  | word s =>
    cases y with
    | word t =>
      obtain ⟨heq, hrest⟩ := append_inj_of_stops hx.2 hy.2 hu hv h
      exact ⟨congrArg word (String.toList_inj.mp heq), hrest⟩
    | list ys =>
      obtain ⟨c, cs, heq⟩ := List.exists_cons_of_ne_nil hx.1
      simp only [text, heq, List.cons_append] at h
      exact absurd (.inr (.inl (List.cons.inj h).1)) (hx.2 c (by simp [heq]))
  | list xs ih =>
    cases y with
    | word t =>
      obtain ⟨c, cs, heq⟩ := List.exists_cons_of_ne_nil hy.1
      simp only [text, heq, List.cons_append] at h
      exact absurd (.inr (.inl (List.cons.inj h).1.symm)) (hy.2 c (by simp [heq]))
    | list ys =>
      have hxs := allPlain_iff.mp hx
      have hys := allPlain_iff.mp hy
      simp only [text, List.cons_append, List.append_assoc, List.nil_append, List.cons.injEq,
        true_and] at h
      obtain ⟨rfl, hrest⟩ := spaced_append_inj
        (fun x hx y us vs hy hu hv h => ih x hx (hxs x hx) hy hu hv h) hys
        (spaced_of_tail hxs hys h)
      exact ⟨rfl, hrest⟩

/-- **Words and lists.** A plain word or list is known by its text. -/
theorem text_injective (hx : x.Plain) (hy : y.Plain) (h : x.text = y.text) : x = y :=
  have hstops : Stops [] := by simp [Stops]
  (text_append_inj hx hy hstops hstops (congrArg (· ++ []) h)).1

end SExpr

end Lox
