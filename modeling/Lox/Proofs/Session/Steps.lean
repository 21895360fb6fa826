import Lox.Prompt
import Lox.Proofs.Grammar.Acceptance
import Lox.Proofs.Store.Soundness

/-!
# The steps of a session

What is done with a session from its first state on: sources are run, or what is left of them when
their errors are taken out, and commands are carried out. A step that fails leaves a state too, and
the session goes on from there.

## Main definitions

* `Outcome.result?`: the result of a run that ends well
* `Step`, `Step.perform`: a step
* `Step.tokens`: the tokens of the source that a step gives to the session
* `Reaches config steps m`: after these steps, the session can be in the state `m`

## Main results

* `run_apply`, `run_apply_of_ne_nil`: what the run of a source does, in terms of `interpret`
* `writesOnly_command`: commands write to the log, and change nothing else
-/

namespace Lox

/-- The result of a run that ends well. -/
def Outcome.result? {α : Type} : Outcome α → Option α
  | .done a _ => some a
  | _ => none

theorem Outcome.result?_eq_some_iff {α : Type} {x : Outcome α} {a : α} :
    x.result? = some a ↔ ∃ m, x = .done a m := by
  cases x <;> simp [result?]

namespace Session

open Eval

/-- What is done with a session. -/
inductive Step where
  | run (source : String)
  /-- what is left of a source when its errors are taken out -/
  | interpret (source : String)
  /-- a line that may be a command -/
  | command (line : String)

namespace Step

/-- Carries out a step, whose result is the runtime error that ended it. -/
def perform (b : Budget) : Step → Eval (Option RuntimeError)
  | run source => return (← Session.run b source).runtimeError
  | interpret source => return (← interpretAnyway b source).2
  | command line => do
    let _ ← Prompt.command line
    return none

/-- The tokens of the source that the step gives to the session. -/
def tokens : Step → List Token
  | run source | interpret source => (scan source).stream.tokens
  | command _ => []

end Step

/-- After these steps, each with some budget, the session can be in this state. -/
inductive Reaches (config : Config) : List Step → Machine → Prop
  | start : Reaches config [] .initial
  | done {steps : List Step} {m m' : Machine} {b : Budget} {s : Step}
      {error : Option RuntimeError} :
      Reaches config steps m → s.perform b config m = .done error m' →
      Reaches config (steps ++ [s]) m'
  | failed {steps : List Step} {m m' : Machine} {b : Budget} {s : Step} {f : Failure} :
      Reaches config steps m → s.perform b config m = .failed f m' →
      Reaches config (steps ++ [s]) m'

/-! ## Writes -/

section

variable {α β : Type} {config : Config} {m : Machine}

/-- The state after some writes, the newest one first. -/
def wrote (m : Machine) (ws : List Write) : Machine :=
  { m with log := ws ++ m.log }

/-- With a store like this one, the run writes to the log, changes nothing else, and ends well. -/
def WritesOnly (s : Store) (x : Eval α) : Prop :=
  ∀ config m, m.store = s → ∃ a ws, x config m = .done a (wrote m ws)

variable {s : Store}

theorem WritesOnly.bind {x : Eval α} {next : α → Eval β} (h : WritesOnly s x)
    (hk : ∀ a, WritesOnly s (next a)) : WritesOnly s (x >>= next) := by
  intro config m hm
  obtain ⟨a, ws, hx⟩ := h config m hm
  obtain ⟨b, vs, hy⟩ := hk a config (wrote m ws) hm
  refine ⟨b, vs ++ ws, ?_⟩
  rw [bind_apply, hx]
  show next a config (wrote m ws) = _
  rw [hy, wrote, wrote, wrote, List.append_assoc]

theorem writesOnly_pure (a : α) : WritesOnly s (pure a) :=
  fun _ _ _ => ⟨a, [], rfl⟩

theorem writesOnly_write (w : Write) : WritesOnly s (write w) :=
  fun _ _ _ => ⟨(), [w], rfl⟩

theorem trace_apply (w : Write) :
    trace w config m = .done () (wrote m (if config.debug then [w] else [])) := by
  unfold trace
  rw [bind_apply]
  show (if config.debug = true then write w else pure ()) config m = _
  split <;> rfl

theorem reply_apply (lines : List String) :
    Prompt.reply lines config m = .done () (wrote m (lines.map .reply).reverse) := by
  induction lines generalizing m with
  | nil => rfl
  | cons line lines ih =>
    refine (ih (m := wrote m [.reply line])).trans ?_
    simp [wrote]

theorem writesOnly_reply (lines : List String) : WritesOnly s (Prompt.reply lines) :=
  fun _ _ _ => ⟨(), _, reply_apply lines⟩

/-! ## Runs -/

/-- The trace of a scan. -/
def scanTrace (config : Config) (source : String) : List Write :=
  if config.debug then [.scanned (scan source).stream.toList.length (scan source).errors.length]
  else []

theorem scanTraced_apply (source : String) :
    scanTraced source config m = .done (scan source) (wrote m (scanTrace config source)) := by
  unfold scanTraced
  rw [bind_apply, trace_apply]
  rfl

/-- The traces of a scan and of a parse. -/
def parseTrace (config : Config) (source : String) : List Write :=
  let p := (Grammar.parseSource source).parse
  (if config.debug then [.parsed p.program.length p.errors.length] else []) ++
    scanTrace config source

theorem parseTraced_apply (source : String) :
    parseTraced source config m =
      .done (Grammar.parseSource source) (wrote m (parseTrace config source)) := by
  unfold parseTraced
  rw [bind_apply, scanTraced_apply]
  show ((trace _) >>= _) config _ = _
  rw [bind_apply, trace_apply]
  simp only [pure_apply, wrote, parseTrace, List.append_assoc]
  rfl

/-- A source that nothing is wrong with is interpreted. -/
theorem run_apply {b : Budget} {source : String}
    (h : (Grammar.parseSource source).diagnostics = []) :
    Session.run b source config m =
      (do return ⟨[], ← interpret b (Grammar.parseSource source).parse.program⟩ : Eval Report)
        config (wrote m (parseTrace config source)) := by
  unfold Session.run
  rw [bind_apply, parseTraced_apply]
  simp only [h, List.isEmpty_nil, if_true]

/-- The report of diagnostics, in debug mode with the source that they are about. -/
def reportOf (config : Config) (ds : List Diagnostic) (source : String) : Write :=
  .diagnostics ds (if config.debug then some source else none)

/-- A source that something is wrong with is not interpreted. It is traced, and what is wrong with
it is reported. -/
theorem run_apply_of_diagnostics {b : Budget} {source : String}
    (h : (Grammar.parseSource source).diagnostics ≠ []) :
    Session.run b source config m =
      .done ⟨(Grammar.parseSource source).diagnostics, none⟩
        (wrote m (reportOf config (Grammar.parseSource source).diagnostics source ::
          parseTrace config source)) := by
  unfold Session.run
  rw [bind_apply, parseTraced_apply]
  simp only [List.isEmpty_iff, h, if_false]
  rfl

theorem run_apply_of_ne_nil (b : Budget) (config : Config) (m : Machine) {source : String}
    (h : (Grammar.parseSource source).diagnostics ≠ []) :
    ∃ ws, Session.run b source config m =
      .done ⟨(Grammar.parseSource source).diagnostics, none⟩ (wrote m ws) :=
  ⟨_, run_apply_of_diagnostics h⟩

/-! ## Commands -/

theorem writesOnly_bind_globals {next : Bindings → Eval α}
    (h : WritesOnly s (next (s.bindings globalScope))) :
    WritesOnly s (Prompt.globals >>= next) := by
  intro config m hm
  obtain rfl := hm
  exact h config m rfl

theorem writesOnly_bind_scanTraced {next : Scan → Eval α} (source : String)
    (h : WritesOnly s (next (scan source))) : WritesOnly s (scanTraced source >>= next) := by
  intro config m hm
  obtain ⟨a, ws, hx⟩ := h config (wrote m (scanTrace config source)) hm
  refine ⟨a, ws ++ scanTrace config source, ?_⟩
  rw [bind_apply, scanTraced_apply]
  exact hx.trans (by simp only [wrote, List.append_assoc])

/-- In a sound store, all bindings can be shown. -/
theorem writesOnly_showBindings {bs : Bindings} (h : ∀ b ∈ bs, ∃ line, b.2.display = .ok line) :
    WritesOnly s (Prompt.showBindings bs) := by
  induction bs with
  | nil => exact writesOnly_pure ()
  | cons b bs ih =>
    obtain ⟨name, v⟩ := b
    obtain ⟨line, hline⟩ := h _ List.mem_cons_self
    have hline' : v.display = .ok line := hline
    rw [Prompt.showBindings, hline']
    show WritesOnly s (do
      write (.reply ("  " ++ name ++ " = " ++ line))
      Prompt.showBindings bs)
    exact (writesOnly_write _).bind fun _ => ih fun b hb => h b (List.mem_cons_of_mem _ hb)

theorem writesOnly_showGlobals {P : Token → Prop} (h : s.Sound P) :
    WritesOnly s Prompt.showGlobals := by
  have hall : ∀ b ∈ (s.bindings globalScope).filter fun b => b.1 ≠ "clock",
      ∃ line, b.2.display = .ok line := fun b hb =>
    (h.values globalScope b (List.mem_filter.mp hb).1).display
  unfold Prompt.showGlobals
  refine writesOnly_bind_globals ?_
  split
  · exact writesOnly_write _
  · exact writesOnly_showBindings hall

/-- The tree of an expression can be printed. -/
theorem writesOnly_showExpression (source : String) :
    WritesOnly s (Prompt.showExpression source) := by
  unfold Prompt.showExpression
  refine writesOnly_bind_scanTraced source ?_
  split
  · rename_i e he
    obtain ⟨printed, hp⟩ := (Grammar.isExpression_of_expressionOfScan he).print
    rw [hp]
    exact writesOnly_write (.reply printed)
  · exact writesOnly_write _

theorem writesOnly_showTokens (source : String) : WritesOnly s (Prompt.showTokens source) := by
  refine writesOnly_bind_scanTraced source ?_
  refine (writesOnly_reply _).bind fun _ => ?_
  split
  · exact writesOnly_pure _
  · exact writesOnly_write _

/-- Commands write to the log, and change nothing else. -/
theorem writesOnly_command {P : Token → Prop} (h : s.Sound P) (line : String) :
    WritesOnly s (Prompt.command line) := by
  unfold Prompt.command
  split
  · rename_i c _
    refine WritesOnly.bind ?_ fun _ => writesOnly_pure _
    cases c with
    | parse source => exact writesOnly_showExpression source
    | tokens source => exact writesOnly_showTokens source
    | env => exact writesOnly_showGlobals h
    | help => exact writesOnly_reply _
  · exact writesOnly_pure _

end

end Session

end Lox
