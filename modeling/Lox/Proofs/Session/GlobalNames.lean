import Lox.Proofs.Grammar.Placement
import Lox.Proofs.Session.Phases
import Lox.Proofs.Store.Forest
import Mathlib.Data.List.Induction
import Mathlib.Data.List.Nodup

/-!
# The names that the prompt shows

The global scope binds the clock and what the programs of a session have declared at their top
level. A declaration binds its name when it has the value; blocks, calls and assignments bind
nothing there, and a program that fails keeps what it has bound. So what a session binds is known
from the statements of its programs that were executed to their end.

The prompt leaves out what is called `clock`. That is the clock itself, unless the session declares
a name like this of its own, which is not shown either.

## Main definitions

* `completed b config ss m`: the statements of a program that are executed to their end
* `Machine.BindsGlobally m names`: the names of the global scope
* `Session.Declares config steps m names`: what the steps of a session have declared
* `Session.Shows m name line`: what the prompt shows of a name

## Main results

* `bindsGlobally_executeProgram`: what a program binds
* `Session.Declares.bindsGlobally`: what a session binds
* `Session.prompt_shows_declarations`: what the prompt shows
-/

namespace Lox

open Eval

/-! ## Lists without repetitions -/

theorem eraseDups_concat {α : Type} [BEq α] [LawfulBEq α] (xs : List α) (x : α) :
    (xs ++ [x]).eraseDups = if x ∈ xs then xs.eraseDups else xs.eraseDups ++ [x] := by
  rw [List.eraseDups_append]
  by_cases h : x ∈ xs
  · simp [h, List.removeAll]
  · simp [h, List.removeAll, List.eraseDups_cons]

theorem nodup_eraseDups {α : Type} [BEq α] [LawfulBEq α] (xs : List α) : xs.eraseDups.Nodup := by
  induction xs using List.reverseRecOn with
  | nil => exact List.nodup_nil
  | append_singleton xs x ih =>
    rw [eraseDups_concat]
    split
    · exact ih
    · rename_i hx
      refine List.nodup_append.mpr ⟨ih, List.nodup_singleton x, fun y hy z hz => ?_⟩
      rintro rfl
      obtain rfl := List.mem_singleton.mp hz
      exact hx (List.mem_eraseDups.mp hy)

theorem Bindings.lookup_of_mem {bs : Bindings} {name : String} {v : Value} (hbs : bs.names.Nodup)
    (h : (name, v) ∈ bs) : bs.lookup name = some v := by
  induction bs with
  | nil => cases h
  | cons b bs ih =>
    obtain ⟨hb, hbs⟩ := List.nodup_cons.mp hbs
    rcases List.mem_cons.mp h with rfl | h
    · rw [lookup_cons, if_pos rfl]
    · have hne : name ≠ b.1 := fun e => hb (e ▸ List.mem_map_of_mem (f := Prod.fst) h)
      rw [lookup_cons, if_neg hne]
      exact ih hbs h

/-! ## Programs -/

/-- The statements of a program that are executed to their end. -/
def completed (b : Budget) (config : Config) : List Node → Machine → List Node
  | [], _ => []
  | s :: ss, m =>
    match execute b.fuel b.calls s config m with
    | .done _ m' => s :: completed b config ss m'
    | _ => []

/-- The global scope is current, and it binds these names, in the order in which they come first. -/
structure Machine.BindsGlobally (m : Machine) (names : List String) : Prop where
  current : m.current = globalScope
  size : globalScope < m.store.scopes.size
  names : m.store.names globalScope = names.eraseDups

variable {α : Type} {m m' : Machine} {names : List String} {config : Config}

namespace Machine.BindsGlobally

theorem later (h : m.BindsGlobally names) (he : m.Extends m.store.scopes.size [] m') :
    m'.BindsGlobally names where
  current := he.current.trans h.current
  size := Nat.lt_of_lt_of_le h.size he.store.size
  names := (he.gainsNames.sameNames globalScope h.size).trans h.names

theorem define (h : m.BindsGlobally names) (name : String) (v : Value) :
    Machine.BindsGlobally { m with store := m.store.define m.current name v }
      (names ++ [name]) where
  current := h.current
  size := by
    show globalScope < (m.store.define m.current name v).scopes.size
    rw [Store.size_define]
    exact h.size
  names := by
    have hmem : name ∈ (m.store.bindings globalScope).names ↔ name ∈ names := by
      show name ∈ m.store.names globalScope ↔ _
      rw [h.names, List.mem_eraseDups]
    show (m.store.define m.current name v).names globalScope = _
    rw [Store.names, Store.bindings_define, if_pos ⟨h.current, h.size⟩, Bindings.names_put,
      eraseDups_concat]
    simp only [hmem]
    split
    · exact h.names
    · exact congrArg (· ++ [name]) h.names

end Machine.BindsGlobally

/-- What binds nothing in the current scope leaves the names of the global scope as they are, since
it binds nothing in the scopes around the current one either. -/
theorem Eval.Keeps.bindsGlobally {x : Eval α} (hx : ∀ n, Keeps n [] x) (h : m.BindsGlobally names) :
    (x config m).After (·.BindsGlobally names) := by
  have hk := hx m.store.scopes.size config m (Nat.le_refl _)
  cases hr : x config m <;> simp only [hr] at hk
  · exact h.later hk.1
  · exact h.later hk
  · trivial

/-- `p` holds of the state if a run ends well, and `q` if it fails. -/
def Outcome.Ends (p q : Machine → Prop) : Outcome α → Prop
  | .done _ m => p m
  | .failed _ m => q m
  | .unfinished => True

/-- A declaration binds its name when it has the value, and nothing if it does not get so far. -/
theorem ends_define {x : Eval Value} (hx : ∀ n, Keeps n [] x) (h : m.BindsGlobally names)
    (name : String) :
    ((do
      let v ← x
      define name v
      return .normal : Eval Completion) config m).Ends
        (·.BindsGlobally (names ++ [name])) (·.BindsGlobally names) := by
  have hk : (x config m).After (·.BindsGlobally names) := Keeps.bindsGlobally hx h
  rw [bind_apply]
  cases hr : x config m with
  | done v n =>
    rw [hr] at hk
    exact Machine.BindsGlobally.define hk name v
  | failed f n =>
    rw [hr] at hk
    exact hk
  | unfinished => trivial

theorem ends_execute (config : Config) {s : Node} (hs : s.declaration? = none → s.declared = [])
    (h : m.BindsGlobally names) (fuel calls : Nat) :
    (execute fuel calls s config m).Ends
      (·.BindsGlobally (names ++ s.declaration?.toList)) (·.BindsGlobally names) := by
  cases hd : s.declaration? with
  | none =>
    have hk : (execute fuel calls s config m).After (·.BindsGlobally names) :=
      Keeps.bindsGlobally
        (fun n => (framed n fuel).execute calls s (List.subset_nil.mpr (hs hd))) h
    rw [Option.toList_none, List.append_nil]
    cases hr : execute fuel calls s config m <;> rw [hr] at hk <;> exact hk
  | some name =>
    cases fuel with
    | zero =>
      simp only [execute]
      trivial
    | succ fuel =>
      have hw : (Session.wrote m (if config.debug then [.executing s.form] else [])).BindsGlobally
          names := ⟨h.current, h.size, h.names⟩
      cases s with
      | varDecl token initializer =>
        cases hd
        rw [execute, bind_apply, Session.trace_apply]
        cases initializer with
        | none => exact ends_define (fun _ => keeps_pure Value.nil) hw _
        | some e => exact ends_define (fun n => (framed n fuel).evaluate calls e) hw _
      | funcDecl token params body =>
        cases hd
        rw [execute, bind_apply, Session.trace_apply]
        exact ends_define (x := do return .function (← newFunction token params body))
          (fun n => (keeps_newFunction token params body).bind fun _ => keeps_pure _) hw _
      | _ => cases hd

/-- A program binds in the global scope what its statements declare that are executed to their end,
however it ends itself. -/
theorem bindsGlobally_executeProgram (b : Budget) {ss : List Node}
    (hs : ∀ s ∈ ss, s.declaration? = none → s.declared = []) (h : m.BindsGlobally names) :
    (executeProgram b ss config m).After
      (·.BindsGlobally (names ++ (completed b config ss m).filterMap Node.declaration?)) := by
  -- by induction on the statements: each one that ends well adds what it declares to the names, and
  -- behind one that fails nothing is executed
  induction ss generalizing m names with
  | nil =>
    rw [completed, List.filterMap_nil, List.append_nil]
    exact h
  | cons s ss ih =>
    obtain ⟨hs, hss⟩ := List.forall_mem_cons.mp hs
    have he := ends_execute config hs h b.fuel b.calls
    rw [executeProgram, bind_apply, completed]
    cases hr : execute b.fuel b.calls s config m with
    | done r n =>
      rw [hr] at he
      have hrest := ih hss he
      rw [List.append_assoc] at hrest
      cases hd : s.declaration? <;> simpa [hd] using hrest
    | failed f n =>
      rw [hr] at he
      show n.BindsGlobally (names ++ [])
      rw [List.append_nil]
      exact he
    | unfinished => trivial

/-- A runtime error is reported, and changes nothing that is bound. -/
theorem bindsGlobally_interpret {b : Budget} {ss : List Node}
    (h : (executeProgram b ss config m).After (·.BindsGlobally names)) :
    (interpret b ss config m).After (·.BindsGlobally names) := by
  unfold Lox.interpret reportRuntimeError
  cases hr : executeProgram b ss config m with
  | done a m' =>
    rw [hr] at h
    exact h
  | failed f m' =>
    rw [hr] at h
    have h : m'.BindsGlobally names := h
    cases f with
    | runtime error => exact ⟨h.current, h.size, h.names⟩
    | fault | tooDeep => exact h
  | unfinished => trivial

namespace Session

variable {steps : List Step} {s : Step} {b : Budget}

/-! ## Sessions -/

/-- What the program of a step declares at its top level, of what is executed to its end. -/
def Step.declared (b : Budget) (config : Config) (m : Machine) (s : Step) : List String :=
  (completed b config (s.program?.getD []) (wrote m (s.prelude config))).filterMap Node.declaration?

/-- After these steps, each with some budget, the session can be in this state, and the steps have
declared these names, one after the other. -/
inductive Declares (config : Config) : List Step → Machine → List String → Prop
  | start : Declares config [] .initial []
  | done {steps : List Step} {m m' : Machine} {names : List String} {b : Budget} {s : Step}
      {error : Option RuntimeError} :
      Declares config steps m names → s.perform b config m = .done error m' →
      Declares config (steps ++ [s]) m' (names ++ s.declared b config m)
  | failed {steps : List Step} {m m' : Machine} {names : List String} {b : Budget} {s : Step}
      {f : Failure} :
      Declares config steps m names → s.perform b config m = .failed f m' →
      Declares config (steps ++ [s]) m' (names ++ s.declared b config m)

theorem Declares.reaches (h : Declares config steps m names) : Reaches config steps m := by
  induction h with
  | start => exact .start
  | done _ hr ih => exact .done ih hr
  | failed _ hr ih => exact .failed ih hr

theorem Reaches.declares (h : Reaches config steps m) : ∃ names, Declares config steps m names := by
  induction h with
  | start => exact ⟨_, .start⟩
  | done _ hr ih =>
    obtain ⟨names, ih⟩ := ih
    exact ⟨_, .done ih hr⟩
  | failed _ hr ih =>
    obtain ⟨names, ih⟩ := ih
    exact ⟨_, .failed ih hr⟩

theorem Declares.formed (h : Declares config steps m names) : m.store.Formed :=
  h.reaches.reachable.formed.machine.store

theorem Step.declared_of_mem_program {ss : List Node} (h : s.program? = some ss) :
    ∀ n ∈ ss, n.declaration? = none → n.declared = [] := by
  intro n hn hd
  cases s with
  | run source =>
    obtain ⟨-, hss⟩ := Option.ite_none_right_eq_some.mp h
    obtain rfl := Option.some.inj hss
    exact Grammar.declared_of_mem_parse hn hd
  | interpret source =>
    obtain rfl := Option.some.inj h
    exact Grammar.declared_of_mem_parse hn hd
  | command line => cases h

/-- A step binds what its program declares. -/
theorem Step.bindsGlobally_perform (config : Config) (s : Step) (b : Budget)
    (hm : m.store.Formed) (h : m.BindsGlobally names) :
    (s.perform b config m).After (·.BindsGlobally (names ++ s.declared b config m)) := by
  cases hs : s.program? with
  | some ss =>
    have hw : (wrote m (s.prelude config)).BindsGlobally names := ⟨h.current, h.size, h.names⟩
    rw [perform_of_program hs, declared, hs, Option.getD_some]
    exact bindsGlobally_interpret (bindsGlobally_executeProgram b (declared_of_mem_program hs) hw)
  | none =>
    obtain ⟨r, ws, hw⟩ := perform_of_no_program config hs b hm
    have hnone : s.declared b config m = [] := by simp [declared, hs, completed]
    rw [hw, hnone, List.append_nil]
    exact ⟨h.current, h.size, h.names⟩

theorem bindsGlobally_initial : Machine.initial.BindsGlobally ["clock"] where
  current := rfl
  size := Nat.one_pos
  names := rfl

/-- A session binds the clock in the global scope, and what it declares. -/
theorem Declares.bindsGlobally (h : Declares config steps m names) :
    m.BindsGlobally ("clock" :: names) := by
  -- by induction on the steps: one that fails keeps what its program has bound before
  induction h with
  | start => exact bindsGlobally_initial
  | @done _ m _ _ b s _ hm hr ih =>
    have hs := s.bindsGlobally_perform config b hm.formed ih
    rw [hr] at hs
    exact hs
  | @failed _ m _ _ b s _ hm hr ih =>
    have hs := s.bindsGlobally_perform config b hm.formed ih
    rw [hr] at hs
    exact hs

/-! ## The prompt -/

/-- The line shows the name and the value that it has in the global scope. -/
def Shows (m : Machine) (name line : String) : Prop :=
  ∃ v shown, m.store.get? globalScope name = some v ∧ v.display = .ok shown ∧
    line = "  " ++ name ++ " = " ++ shown

/-- What is displayed of the value that a name has in the global scope. -/
def displayed? (m : Machine) (name : String) : Option String :=
  (m.store.get? globalScope name).bind fun v => v.display.toOption

theorem shows_of_displayed {name shown : String} (h : displayed? m name = some shown) :
    Shows m name ("  " ++ name ++ " = " ++ shown) := by
  obtain ⟨v, hv, hd⟩ := Option.bind_eq_some_iff.mp h
  refine ⟨v, shown, hv, ?_, rfl⟩
  cases hv : v.display with
  | ok s =>
    rw [hv] at hd
    exact congrArg _ (Option.some.inj hd)
  | error e =>
    rw [hv] at hd
    cases hd

theorem Shows.unique {name line line' : String} (h : Shows m name line) (h' : Shows m name line') :
    line = line' := by
  obtain ⟨v, shown, hv, hshown, rfl⟩ := h
  obtain ⟨v', shown', hv', hshown', rfl⟩ := h'
  obtain rfl := Option.some.inj (hv.symm.trans hv')
  obtain rfl := Except.ok.inj (hshown.symm.trans hshown')
  rfl

/-- Of the names that a session has declared, those that the prompt shows, in the order in which
they come first. -/
def shownNames (names : List String) : List String :=
  (names.filter (· ≠ "clock")).eraseDups

/-- What the prompt writes when it shows these lines, the newest one first. -/
def bindingReplies : List String → List Write
  | [] => [.reply "  (no user-defined bindings)"]
  | lines => (lines.map .reply).reverse

theorem showBindings_apply {R : String → String → Prop} {bs : Bindings}
    (h : ∀ b ∈ bs, ∃ shown, b.2.display = .ok shown ∧ R b.1 ("  " ++ b.1 ++ " = " ++ shown))
    (config : Config) (m : Machine) :
    ∃ lines, List.Forall₂ R bs.names lines ∧
      Prompt.showBindings bs config m = .done () (wrote m (lines.map .reply).reverse) := by
  induction bs generalizing m with
  | nil => exact ⟨[], .nil, rfl⟩
  | cons b bs ih =>
    obtain ⟨name, v⟩ := b
    obtain ⟨hb, hbs⟩ := List.forall_mem_cons.mp h
    obtain ⟨shown, hshown, hR⟩ := hb
    obtain ⟨lines, hlines, hrest⟩ := ih hbs (wrote m [.reply ("  " ++ name ++ " = " ++ shown)])
    have hshown' : v.display = .ok shown := hshown
    refine ⟨_ :: lines, .cons hR hlines, ?_⟩
    rw [Prompt.showBindings, hshown']
    refine hrest.trans ?_
    simp [wrote]

/-- The clock is the first of the names, and what is left without it is shown. -/
theorem filter_eraseDups_clock (names : List String) :
    ("clock" :: names).eraseDups.filter (· ≠ "clock") = shownNames names := by
  have htail : names.filter (fun name => !name == "clock") = names.filter (· ≠ "clock") :=
    List.filter_congr fun name _ => by simp [beq_eq_decide]
  rw [List.eraseDups_cons, htail, List.filter_cons_of_neg (by simp), shownNames]
  refine List.filter_eq_self.mpr fun name hname => ?_
  exact (List.mem_filter.mp (List.mem_eraseDups.mp hname)).2

/-- In a state that binds these names, the prompt shows all of them except the clock. -/
theorem showGlobals_apply (config : Config) (hm : m.store.Formed)
    (h : m.BindsGlobally ("clock" :: names)) :
    ∃ lines, List.Forall₂ (Shows m) (shownNames names) lines ∧
      Prompt.showGlobals config m = .done () (wrote m (bindingReplies lines)) := by
  let bs : Bindings := (m.store.bindings globalScope).filter fun b => b.1 ≠ "clock"
  have hall : (m.store.bindings globalScope).names = ("clock" :: names).eraseDups := h.names
  have hnames : bs.names = shownNames names := by
    rw [← filter_eraseDups_clock, ← hall, Bindings.names, Bindings.names, List.filter_map]
    rfl
  have hshows : ∀ b ∈ bs, ∃ shown, b.2.display = .ok shown ∧
      Shows m b.1 ("  " ++ b.1 ++ " = " ++ shown) := by
    intro b hb
    have hmem : b ∈ m.store.bindings globalScope := (List.mem_filter.mp hb).1
    obtain ⟨shown, hshown⟩ := (hm.sound.values globalScope b hmem).display
    have howner := Store.owner?_of_mem h.size (List.mem_map_of_mem (f := Prod.fst) hmem)
    refine ⟨shown, hshown, b.2, shown, ?_, hshown, rfl⟩
    rw [Store.get?_eq_of_owner? howner]
    exact Bindings.lookup_of_mem (hall ▸ nodup_eraseDups _) hmem
  obtain ⟨lines, hlines, hshow⟩ := showBindings_apply hshows config m
  refine ⟨lines, hnames ▸ hlines, ?_⟩
  rw [Prompt.showGlobals, bind_apply]
  simp only [Prompt.globals]
  cases hbs : bs with
  | nil =>
    rw [hbs] at hlines
    obtain rfl := List.forall₂_nil_left_iff.mp hlines
    rw [show List.filter _ (m.store.bindings globalScope) = [] from hbs]
    rfl
  | cons b bs' =>
    rw [hbs] at hlines hshow
    obtain ⟨line, lines', -, -, rfl⟩ := List.forall₂_cons_left_iff.mp hlines
    rw [show List.filter _ (m.store.bindings globalScope) = b :: bs' from hbs]
    exact hshow

/-- The command shows what the global scope binds. -/
theorem command_env {line : String} {config : Config} {m m' : Machine}
    (h : Text.trim line = ":env") (hshow : Prompt.showGlobals config m = .done () m') :
    Prompt.command line config m = .done true m' := by
  have hcommand : Prompt.command? line = some .env := by
    rw [Prompt.command?, h]
    decide
  rw [Prompt.command, hcommand]
  show (Prompt.showGlobals >>= fun _ => pure true) config m = _
  rw [bind_apply, hshow]
  rfl

/-- What is displayed of some names when the run has ended. -/
def thenDisplayed (x : Eval α) (names : List String) : Eval (List (Option String)) := do
  let _ ← x
  fun _ m => .done (names.map (displayed? m)) m

theorem done_of_thenDisplayed {x : Eval α} {shown : List (Option String)}
    (h : (thenDisplayed x names config m).result? = some shown) :
    ∃ a m', x config m = .done a m' ∧ names.map (displayed? m') = shown := by
  obtain ⟨m', hdone⟩ := Outcome.result?_eq_some_iff.mp h
  obtain ⟨a, m'', hx, hshown⟩ := bind_eq_done_iff.mp hdone
  cases hshown
  exact ⟨a, m', hx, rfl⟩

/-- **What the prompt shows.** Every state that the steps of a session lead to is one in which they
have declared some names. Of these the command `:env` shows each one once, in the order in which
they were declared first, with the value that it has in the global scope; only the name `clock` is
left out. If none is left, it says so. Neither this command nor any other line that the prompt takes
changes what is bound. -/
theorem prompt_shows_declarations (config : Config) :
    (∀ steps m, Reaches config steps m ↔ ∃ names, Declares config steps m names) ∧
    ∀ steps m names, Declares config steps m names →
      (∃ lines, List.Forall₂ (Shows m) (shownNames names) lines ∧
        ∀ line, Text.trim line = ":env" →
          Prompt.command line config m = .done true (wrote m (bindingReplies lines))) ∧
      ∀ line, ∃ handled ws, Prompt.command line config m = .done handled (wrote m ws) := by
  refine ⟨fun steps m => ⟨Reaches.declares, fun ⟨_, h⟩ => h.reaches⟩, fun steps m names h => ?_⟩
  obtain ⟨lines, hlines, hshow⟩ := showGlobals_apply config h.formed h.bindsGlobally
  exact ⟨⟨lines, hlines, fun line hline => command_env hline hshow⟩, fun line =>
    writesOnly_command h.formed.sound line config m rfl⟩

/-- A call changes a variable, a block and a failed declaration bind nothing outside, and what comes
after the failure is not executed. -/
theorem prompt_shows_declarations_after_error :
    ∃ m, Declares ⟨false, fun _ => 0⟩
        [.run ("var a = 1; func f(x) \x7b var b = x; a = b; \x7d f(2); "
          ++ "\x7b var d = 3; \x7d var e = nil + 1; var g = 4;")] m ["a", "f"] ∧
      Prompt.command " :env" ⟨false, fun _ => 0⟩ m =
        .done true (wrote m [.reply "  f = <fn f>", .reply "  a = 2"]) := by
  let config : Config := ⟨false, fun _ => 0⟩
  let s : Step := .run ("var a = 1; func f(x) \x7b var b = x; a = b; \x7d f(2); "
    ++ "\x7b var d = 3; \x7d var e = nil + 1; var g = 4;")
  have hrun : (thenDisplayed (s.perform ⟨40, 5⟩) ["a", "f"] config .initial).result? =
      some [some "2", some "<fn f>"] := by
    decide +kernel
  have hnames : s.declared ⟨40, 5⟩ config .initial = ["a", "f"] := by
    decide +kernel
  obtain ⟨error, m, hperform, hshown⟩ := done_of_thenDisplayed hrun
  simp only [List.map_cons, List.map_nil, List.cons.injEq, and_true] at hshown
  obtain ⟨ha, hf⟩ := hshown
  have hm : Declares config [s] m ["a", "f"] := hnames ▸ .done .start hperform
  obtain ⟨⟨lines, hlines, henv⟩, -⟩ := (prompt_shows_declarations config).2 _ _ _ hm
  obtain ⟨la, rest, hla, hrest, rfl⟩ := List.forall₂_cons_left_iff.mp hlines
  obtain ⟨lf, last, hlf, hlast, rfl⟩ := List.forall₂_cons_left_iff.mp hrest
  obtain rfl := List.forall₂_nil_left_iff.mp hlast
  obtain rfl := hla.unique (shows_of_displayed ha)
  obtain rfl := hlf.unique (shows_of_displayed hf)
  exact ⟨m, hm, henv " :env" (by decide)⟩

/-- A variable of a program is not shown if it is called like the clock, and the prompt says that
there is nothing to show. -/
theorem prompt_hides_declared_clock :
    ∃ m, Declares ⟨false, fun _ => 0⟩ [.run "var clock = 1;"] m ["clock"] ∧
      Shows m "clock" "  clock = 1" ∧
      Prompt.command ":env" ⟨false, fun _ => 0⟩ m =
        .done true (wrote m [.reply "  (no user-defined bindings)"]) := by
  let config : Config := ⟨false, fun _ => 0⟩
  let s : Step := .run "var clock = 1;"
  have hrun : (thenDisplayed (s.perform ⟨40, 5⟩) ["clock"] config .initial).result? =
      some [some "1"] := by
    decide +kernel
  have hnames : s.declared ⟨40, 5⟩ config .initial = ["clock"] := by
    decide +kernel
  obtain ⟨error, m, hperform, hshown⟩ := done_of_thenDisplayed hrun
  have hclock : displayed? m "clock" = some "1" := List.singleton_inj.mp hshown
  have hm : Declares config [s] m ["clock"] := hnames ▸ .done .start hperform
  obtain ⟨lines, hlines, hshow⟩ := showGlobals_apply config hm.formed hm.bindsGlobally
  obtain rfl := List.forall₂_nil_left_iff.mp hlines
  exact ⟨m, hm, shows_of_displayed hclock, command_env (by decide) hshow⟩

end Session

end Lox
