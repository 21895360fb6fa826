import Lox.CommandLine.Options
import Mathlib.Data.List.TakeWhile

/-!
# The options that a command line gives

A command line is read in one pass, which also looks for the names of scripts and for values, and
ends at the first mistake. What becomes of an option can be said without it: a command line that is
accepted turns it on exactly if one of the arguments in front of the two dashes gives it. Such an
argument is the long form of the option, of which the end may be missing, or it is a dash with
letters behind it, one of which is that of the option.

## Main definitions

* `Flag.GivenBy f text`: the argument gives the option
* `Given f args`: an argument of the command line does so
* `Settings.isOn s f`: the option is turned on
* `Settings.Reflects s args`: the settings are what the command line gives

## Main results

* `Argument.gives_iff_givenBy`: what the argument gives by its form
* `isOn_iff_given`: what is turned on is what is given
-/

namespace Lox.CommandLine

namespace Flag

/-- The letters behind one dash. An equals sign behind the first letter does not count if more
letters follow. -/
def letters : List Char → List Char
  | '-' :: c :: '=' :: d :: cs => c :: d :: cs
  | '-' :: cs => cs
  | _ => []

/-- The text is the long form of the option. Its end may be missing, but not all of its letters. -/
def IsShortened (f : Flag) (text : String) : Prop :=
  2 < text.toList.length ∧ text.toList <+: f.long.toList

/-- The text is a dash and letters of options behind it, one of which is that of the option. -/
def IsJoined (f : Flag) (text : String) : Prop :=
  (∀ c ∈ letters text.toList, (ofLetter? c).isSome) ∧ ∃ c ∈ letters text.toList, f.letter? = some c

/-- The argument gives the option. -/
def GivenBy (f : Flag) (text : String) : Prop :=
  f.IsShortened text ∨ f.IsJoined text

instance (f : Flag) (text : String) : Decidable (f.IsShortened text) :=
  inferInstanceAs (Decidable (_ ∧ _))

-- the letters are looked through, and not all characters
instance (f : Flag) (text : String) : Decidable (f.IsJoined text) :=
  @instDecidableAnd _ _ (List.decidableBAll _ _) (List.decidableBEx _ _)

instance (f : Flag) (text : String) : Decidable (f.GivenBy text) :=
  inferInstanceAs (Decidable (_ ∨ _))

end Flag

/-- An argument in front of the two dashes gives the option. -/
def Given (f : Flag) (args : List String) : Prop :=
  ∃ text ∈ args.takeWhile (· ≠ "--"), f.GivenBy text

instance (f : Flag) (args : List String) : Decidable (Given f args) :=
  List.decidableBEx _ _

/-- The option is turned on. The help and the version are never turned on, since they end the
reading, and the limit of the recursion is no option of this kind. -/
def Settings.isOn (s : Settings) : Flag → Bool
  | .interactive => s.interactive
  | .parse => s.parse
  | .tokens => s.tokens
  | .debug => s.debug
  | .help | .version | .recursionLimit => false

/-- The argument gives the option by its form. -/
def Argument.Gives (a : Argument) (f : Flag) : Prop :=
  ∃ flags, flagsOf a = .ok flags ∧ f ∈ flags

/-! ## Texts -/

namespace Flag

variable {f g : Flag} {c : Char} {text : String}

theorem ofLetter?_eq_some_iff : ofLetter? c = some f ↔ f.letter? = some c := by
  constructor
  · intro h
    simpa using List.find?_some h
  · intro h
    cases f <;> cases h <;> rfl

/-- The option with a letter is the only one. -/
theorem letter?_eq_some_iff (h : ofLetter? c = some g) : f.letter? = some c ↔ f = g := by
  rw [← ofLetter?_eq_some_iff, h, Option.some.injEq, eq_comm]

/-- No two long forms have the same first letter. -/
theorem IsShortened.unique (hf : f.IsShortened text) (hg : g.IsShortened text) : f = g := by
  have hletters : ∀ f g : Flag, f.long.toList[2]? = g.long.toList[2]? → f = g := by
    intro f g
    cases f <;> cases g <;> decide
  have hthird {h : Flag} (hh : h.IsShortened text) : h.long.toList[2]? = text.toList[2]? := by
    obtain ⟨hlength, t, ht⟩ := hh
    rw [← ht, List.getElem?_append_left hlength]
  exact hletters f g ((hthird hf).trans (hthird hg).symm)

theorem IsShortened.equal_notMem (h : f.IsShortened text) : '=' ∉ text.toList := by
  intro hmem
  have hlong : '=' ∈ f.long.toList := h.2.subset hmem
  cases f <;> revert hlong <;> decide

theorem IsShortened.dashes (h : f.IsShortened text) :
    ∃ c cs, text.toList = '-' :: '-' :: c :: cs := by
  obtain ⟨hlength, t, ht⟩ := h
  have hlong : ∃ cs, f.long.toList = '-' :: '-' :: cs := by
    cases f <;> exact ⟨_, rfl⟩
  obtain ⟨ds, hds⟩ := hlong
  match htext : text.toList with
  | [] | [_] | [_, _] => simp [htext] at hlength
  | a :: b :: c :: cs =>
    rw [htext, hds] at ht
    cases ht
    exact ⟨c, cs, rfl⟩

theorem letters_of_ne {cs : List Char} (h : ∀ ds, cs ≠ '=' :: ds) :
    letters ('-' :: c :: cs) = c :: cs := by
  rw [letters]
  intro c d ds heq
  cases heq
  exact h _ rfl

/-- The character behind the dash counts as a letter. -/
theorem mem_letters (c : Char) (cs : List Char) : c ∈ letters ('-' :: c :: cs) := by
  by_cases h : ∀ ds, cs ≠ '=' :: ds
  · rw [letters_of_ne h]
    exact List.mem_cons_self
  · obtain ⟨ds, hds⟩ := Classical.not_forall.mp h
    obtain rfl := Classical.not_not.mp hds
    cases ds <;> exact List.mem_cons_self

/-- The first letter is that of an option, which is one of those that are given. -/
theorem isJoined_iff {cs : List Char} (hletters : letters text.toList = c :: cs)
    (hc : ofLetter? c = some g) : f.IsJoined text ↔
      (∀ d ∈ cs, (ofLetter? d).isSome) ∧ (f = g ∨ ∃ d ∈ cs, f.letter? = some d) := by
  simp [IsJoined, hletters, hc, letter?_eq_some_iff hc]

/-- Without a dash in front, or with nothing behind it, a text gives nothing. -/
theorem not_givenBy (h : ∀ c cs, text.toList ≠ '-' :: c :: cs) : ¬ f.GivenBy text := by
  rintro (hf | ⟨-, c, hc, -⟩)
  · obtain ⟨c, cs, hdashes⟩ := hf.dashes
    exact h _ _ hdashes
  · unfold letters at hc
    split at hc
    · rename_i htext
      exact h _ _ htext
    · rename_i cs _ htext
      cases cs with
      | nil => cases hc
      | cons d ds => exact h _ _ htext
    · cases hc

/-- A dash is not the letter of an option. -/
theorem not_isJoined_of_dashes {cs : List Char} (h : text.toList = '-' :: '-' :: cs) :
    ¬ f.IsJoined text := by
  rintro ⟨hall, -⟩
  have hdash : (ofLetter? '-').isSome := hall '-' (h ▸ mem_letters '-' cs)
  cases hdash

theorem isShortened_of_ofLong? (h : ofLong? text = some f) : f.IsShortened text := by
  obtain rfl : f.long = text := by simpa using List.find?_some h
  exact ⟨by cases f <;> decide, List.prefix_rfl⟩

theorem mem_startingWith_iff {start : List Char} :
    f ∈ startingWith start ↔ start <+: f.long.toList := by
  have hall : f ∈ all := by cases f <;> decide
  simp [startingWith, hall]

/-- Two dashes alone are no shortened option, since all options begin with them. -/
theorem isShortened_of_startingWith {cs : List Char} (htext : text.toList = '-' :: '-' :: cs)
    (h : startingWith text.toList = [f]) : f.IsShortened text := by
  refine ⟨?_, mem_startingWith_iff.mp (h ▸ List.mem_singleton_self f)⟩
  cases cs with
  | nil =>
    rw [htext] at h
    cases h
  | cons c cs => simp [htext]

end Flag

/-! ## Arguments -/

variable {f flag : Flag} {text : String}

theorem splitAtEqual_of_notMem {cs : List Char} (h : '=' ∉ cs) : splitAtEqual cs = (cs, none) := by
  have hdrop : cs.dropWhile (· ≠ '=') = [] :=
    List.dropWhile_eq_nil_iff.mpr fun c hc => by simpa using fun e : c = '=' => h (e ▸ hc)
  rw [splitAtEqual, hdrop]

theorem splitAtEqual_of_mem {cs : List Char} (h : '=' ∈ cs) :
    ∃ name value, splitAtEqual cs = (name, some value) := by
  have hdrop : cs.dropWhile (· ≠ '=') ≠ [] := fun hnil => by
    simpa using List.dropWhile_eq_nil_iff.mp hnil '=' h
  obtain ⟨c, rest, hc⟩ := List.exists_cons_of_ne_nil hdrop
  exact ⟨_, _, by rw [splitAtEqual, hc]⟩

/-- A reading in two parts ends well if both parts do. -/
theorem bind_eq_ok_iff {α β : Type} {x : Except UsageError α} {next : α → Except UsageError β}
    {b : β} : (x >>= next) = .ok b ↔ ∃ a, x = .ok a ∧ next a = .ok b := by
  cases x <;> simp [bind, Except.bind]

/-- One more letter is one more option. -/
theorem joined_cons_eq_ok_iff {c : Char} {cs : List Char} {flags : List Flag} :
    joined flag (c :: cs) = .ok flags ↔
      ∃ next rest, Flag.ofLetter? c = some next ∧ joined next cs = .ok rest ∧
        flag :: rest = flags := by
  rw [joined]
  cases Flag.ofLetter? c with
  | none => simp
  | some next => simp [bind_eq_ok_iff, pure, Except.pure]

theorem exists_joined_iff {cs : List Char} :
    (∃ flags, joined flag cs = .ok flags) ↔ ∀ c ∈ cs, (Flag.ofLetter? c).isSome := by
  induction cs generalizing flag with
  | nil => simp [joined]
  | cons c cs ih =>
    rw [List.forall_mem_cons]
    constructor
    · rintro ⟨flags, h⟩
      obtain ⟨next, rest, hnext, hrest, -⟩ := joined_cons_eq_ok_iff.mp h
      exact ⟨by rw [hnext, Option.isSome_some], ih.mp ⟨rest, hrest⟩⟩
    · rintro ⟨hc, hcs⟩
      obtain ⟨next, hnext⟩ := Option.isSome_iff_exists.mp hc
      obtain ⟨rest, hrest⟩ := ih.mpr hcs
      exact ⟨_, joined_cons_eq_ok_iff.mpr ⟨next, rest, hnext, hrest, rfl⟩⟩

theorem mem_of_joined_iff {cs : List Char} {flags : List Flag} (h : joined flag cs = .ok flags) :
    f ∈ flags ↔ f = flag ∨ ∃ c ∈ cs, f.letter? = some c := by
  induction cs generalizing flag flags with
  | nil =>
    cases h
    simp
  | cons c cs ih =>
    obtain ⟨next, rest, hnext, hrest, rfl⟩ := joined_cons_eq_ok_iff.mp h
    simp [ih hrest, Flag.letter?_eq_some_iff hnext]

namespace Argument

theorem not_gives {a : Argument} (h : flagsOf a = .ok []) : ¬ a.Gives f := by
  rintro ⟨flags, hflags, hf⟩
  cases h.symm.trans hflags
  cases hf

/-- What is only in the form of an option gives none. -/
theorem not_gives_ofUnknown : ¬ (ofUnknown text).Gives f := by
  unfold ofUnknown
  split <;> exact not_gives rfl

theorem gives_long {value : Option String} :
    (long flag value).Gives f ↔ value = none ∧ f = flag := by
  cases value <;> simp [Gives, flagsOf]

/-- An argument that begins with two dashes gives the option of which it is the long form. -/
theorem gives_iff_of_dashes {a : Argument} {cs : List Char} (htext : text.toList = '-' :: '-' :: cs)
    (h : ofText text = .ok a) : a.Gives f ↔ f.GivenBy text := by
  have hgiven : f.GivenBy text ↔ f.IsShortened text :=
    or_iff_left (Flag.not_isJoined_of_dashes htext)
  rw [hgiven]
  simp only [ofText, htext] at h
  rw [← htext] at h
  by_cases hequal : '=' ∈ text.toList
  · have hnot : ¬ f.IsShortened text := fun hf => hf.equal_notMem hequal
    obtain ⟨name, value, hsplit⟩ := splitAtEqual_of_mem hequal
    rw [hsplit] at h
    dsimp only at h
    split at h <;> cases h
    · simp [gives_long, hnot]
    · simp [gives_long, hnot]
    · simp [not_gives_ofUnknown, hnot]
  · have hlong (flag : Flag) (hflag : flag.IsShortened text) :
        (long flag none).Gives f ↔ f.IsShortened text := by
      rw [gives_long]
      exact ⟨fun ⟨_, e⟩ => e ▸ hflag, fun hf => ⟨rfl, hf.unique hflag⟩⟩
    rw [splitAtEqual_of_notMem hequal] at h
    dsimp only at h
    split at h <;> cases h
    · rename_i flag hflag
      rw [String.ofList_toList] at hflag
      exact hlong flag (Flag.isShortened_of_ofLong? hflag)
    · rename_i flag _ hflag
      exact hlong flag (Flag.isShortened_of_startingWith htext hflag)
    · rename_i hnone
      refine iff_of_false not_gives_ofUnknown fun hf => ?_
      have hmem := Flag.mem_startingWith_iff.mpr hf.2
      rw [hnone] at hmem
      cases hmem

theorem gives_short {cs : List Char} :
    (short flag (some cs)).Gives f ↔ cs ≠ [] ∧ (∀ c ∈ cs, (Flag.ofLetter? c).isSome) ∧
      (f = flag ∨ ∃ c ∈ cs, f.letter? = some c) := by
  cases cs with
  | nil => simp [Gives, flagsOf]
  | cons c cs =>
    rw [← @exists_joined_iff flag]
    constructor
    · rintro ⟨flags, hflags, hf⟩
      exact ⟨List.cons_ne_nil _ _, ⟨flags, hflags⟩, (mem_of_joined_iff hflags).mp hf⟩
    · rintro ⟨-, ⟨flags, hflags⟩, hf⟩
      exact ⟨flags, hflags, (mem_of_joined_iff hflags).mpr hf⟩

/-- An argument that begins with one dash gives the options of which the letters are behind it. -/
theorem gives_iff_of_dash {a : Argument} {c : Char} {cs : List Char} (hc : c ≠ '-')
    (htext : text.toList = '-' :: c :: cs) (h : ofText text = .ok a) :
    a.Gives f ↔ f.GivenBy text := by
  have hgiven : f.GivenBy text ↔ f.IsJoined text := by
    refine or_iff_right fun hf => ?_
    obtain ⟨d, ds, hdashes⟩ := hf.dashes
    rw [htext] at hdashes
    cases hdashes
    exact hc rfl
  rw [hgiven]
  simp only [ofText, htext] at h
  split at h <;> cases h
  · rename_i flag hflag
    rw [Flag.isJoined_iff (by rw [htext, Flag.letters_of_ne (by simp)]) hflag]
    simp [Gives, flagsOf]
  · rename_i flag cs hflag
    rw [gives_short]
    cases cs with
    | nil =>
      have hequal : ¬ f.IsJoined text := fun hf => by
        have : (Flag.ofLetter? '=').isSome := hf.1 '=' (by rw [htext]; simp [Flag.letters])
        cases this
      simp [hequal]
    | cons d ds => simp [Flag.isJoined_iff (by rw [htext, Flag.letters]) hflag]
  · rename_i flag hflag hnil hequal
    rw [gives_short, Flag.isJoined_iff (by rw [htext, Flag.letters_of_ne hequal]) hflag]
    simp [show _ ≠ [] from hnil]
  · rename_i hnone
    refine iff_of_false not_gives_ofUnknown fun hf => ?_
    have hletter := hf.1 c (htext ▸ Flag.mem_letters c _)
    rw [hnone] at hletter
    cases hletter

/-- **What an argument gives.** By its form, an argument gives the options of which it is the long
form, or of which it has the letters. -/
theorem gives_iff_givenBy {a : Argument} (h : ofText text = .ok a) :
    a.Gives f ↔ f.GivenBy text := by
  have hform := h
  unfold ofText at hform
  split at hform
  · rename_i htext
    exact gives_iff_of_dashes htext h
  · rename_i htext
    cases hform
    exact iff_of_false (not_gives rfl) (Flag.not_givenBy (by simp [htext]))
  · rename_i c cs hc htext
    exact gives_iff_of_dash hc htext h
  · rename_i hdash
    cases hform
    exact iff_of_false (not_gives rfl) (Flag.not_givenBy hdash)

/-- The arguments of a command line give what their texts give, up to the two dashes. -/
theorem exists_gives_iff {args : List String} {arguments : List Argument}
    (h : ofTexts args = .ok arguments) : (∃ a ∈ arguments, a.Gives f) ↔ Given f args := by
  induction args generalizing arguments with
  | nil =>
    cases h
    simp [Given]
  | cons text args ih =>
    rw [ofTexts] at h
    split at h
    · rename_i hdashes
      cases h
      simp [Given, hdashes, Gives, flagsOf]
    · rename_i hne
      obtain ⟨a, ha, h⟩ := bind_eq_ok_iff.mp h
      obtain ⟨rest, hrest, h⟩ := bind_eq_ok_iff.mp h
      cases h
      have ih := ih hrest
      unfold Given at ih ⊢
      simp [hne, gives_iff_givenBy ha, ih]

end Argument

/-! ## Readings -/

namespace Reading

variable {r : Reading}

@[simp] theorem settings_endOperands : r.endOperands.settings = r.settings := by
  unfold endOperands
  split <;> rfl

@[simp] theorem settings_separator : r.separator.settings = r.settings := by
  unfold separator
  split <;> rfl

@[simp] theorem settings_unknown : (r.unknown text).settings = r.settings := rfl

@[simp] theorem isOn_operand : (r.operand text).settings.isOn f = r.settings.isOn f := by
  unfold operand
  split <;> cases f <;> rfl

end Reading

/-- Options without values are turned on. -/
theorem isOn_takeFlags {r r' : Reading} {flags : List Flag} (hf : f ≠ .recursionLimit)
    (h : takeFlags r flags = .inl r') :
    r'.settings.isOn f = true ↔ r.settings.isOn f = true ∨ f ∈ flags := by
  induction flags generalizing r with
  | nil =>
    cases h
    simp
  | cons flag flags ih =>
    have hset (change : Settings → Settings) (h : takeFlags (r.set change) flags = .inl r')
        (hchange : (change r.settings).isOn f = true ↔ r.settings.isOn f = true ∨ f = flag) :
        r'.settings.isOn f = true ↔ r.settings.isOn f = true ∨ f ∈ flag :: flags := by
      rw [ih h, List.mem_cons, ← or_assoc, ← hchange, Reading.set]
    cases flag with
    | help | version => cases h
    | interactive | parse | tokens | debug =>
      refine hset _ h ?_
      cases f <;> simp [Settings.isOn]
    | recursionLimit =>
      rw [ih h, List.mem_cons, or_iff_right hf]

/-- No option asks for a run. -/
theorem takeFlags_ne_run {r : Reading} {flags : List Flag} {s : Settings} :
    takeFlags r flags ≠ .inr (.run s) := by
  induction flags generalizing r with
  | nil => exact Sum.inl_ne_inr
  | cons flag flags ih =>
    cases flag with
    | help | version => simp [takeFlags]
    | _ => exact ih

theorem isOn_takeLimit {r r' : Reading} (h : takeLimit r text = .ok r') :
    r'.settings.isOn f = r.settings.isOn f := by
  obtain ⟨n, -, h⟩ := bind_eq_ok_iff.mp h
  cases h
  cases f <;> rfl

/-- A reading that ends well turns on what the arguments give. -/
theorem isOn_readArguments {r : Reading} {arguments : List Argument} {s : Settings}
    (hf : f ≠ .recursionLimit) (h : readArguments r arguments = .ok (.run s)) :
    s.isOn f = true ↔ r.settings.isOn f = true ∨ ∃ a ∈ arguments, a.Gives f := by
  -- by induction on the arguments: only those of the last case give options
  fun_induction readArguments r arguments with
  | case1 r =>
    unfold Reading.finish at h
    split at h <;> cases h
    simp
  | case2 r arguments ih => simp [ih h, Argument.not_gives (a := .separator) rfl]
  | case3 r text arguments ih => simp [ih h, Argument.not_gives (a := .operand text) rfl]
  | case4 r text arguments ih => simp [ih h, Argument.not_gives (a := .unknown text) rfl]
  | case5 r text arguments ih =>
    obtain ⟨r', hr', h⟩ := bind_eq_ok_iff.mp h
    simp [ih r' h, isOn_takeLimit hr', Argument.gives_long]
  | case6 r text arguments ih =>
    obtain ⟨r', hr', h⟩ := bind_eq_ok_iff.mp h
    simp [ih r' h, isOn_takeLimit hr', Argument.gives_long, hf,
      Argument.not_gives (a := .operand text) rfl]
  | case7 => cases h
  | case8 r argument arguments _ _ _ _ _ _ ih =>
    obtain ⟨flags, hflags, h⟩ := bind_eq_ok_iff.mp h
    have hgives : argument.Gives f ↔ f ∈ flags := by simp [Argument.Gives, hflags]
    split at h
    · rename_i r' hr'
      simp [ih r' h, isOn_takeFlags hf hr', hgives, or_assoc]
    · rename_i invocation hinvocation
      cases h
      exact absurd hinvocation takeFlags_ne_run

/-- **What a command line turns on.** A command line that is accepted, and asks neither for the help
nor for the version, turns on the options that it gives, and no other ones. -/
theorem isOn_iff_given {args : List String} {s : Settings} (hf : f ≠ .recursionLimit)
    (h : Invocation.ofArguments args = .ok (.run s)) : s.isOn f = true ↔ Given f args := by
  obtain ⟨arguments, harguments, h⟩ := bind_eq_ok_iff.mp h
  rw [← Argument.exists_gives_iff harguments, isOn_readArguments hf h]
  refine or_iff_right ?_
  cases f <;> exact Bool.false_ne_true

/-- The end of an option may be missing; behind the two dashes, there are no options. -/
example : Given .tokens ["--tok", "--", "--parse"] ∧ ¬ Given .parse ["--tok", "--", "--parse"] := by
  decide

/-- The settings are what the command line gives. -/
structure Settings.Reflects (s : Settings) (args : List String) : Prop where
  interactive : s.interactive = true ↔ Given .interactive args
  parse : s.parse = true ↔ Given .parse args
  tokens : s.tokens = true ↔ Given .tokens args
  debug : s.debug = true ↔ Given .debug args

theorem reflects_of_ofArguments {args : List String} {s : Settings}
    (h : Invocation.ofArguments args = .ok (.run s)) : s.Reflects args where
  interactive := isOn_iff_given (f := .interactive) (by decide) h
  parse := isOn_iff_given (f := .parse) (by decide) h
  tokens := isOn_iff_given (f := .tokens) (by decide) h
  debug := isOn_iff_given (f := .debug) (by decide) h

theorem Settings.Reflects.debug_eq {args args' : List String} {s s' : Settings}
    (h : s.Reflects args) (h' : s'.Reflects args')
    (hdebug : Given .debug args ↔ Given .debug args') :
    s.debug = s'.debug := by
  rw [Bool.eq_iff_iff, h.debug, hdebug, h'.debug]

end Lox.CommandLine
