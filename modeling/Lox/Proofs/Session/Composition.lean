import Lox.Proofs.Evaluation.Origin
import Lox.Proofs.Grammar.Relabel
import Lox.Proofs.Session.Safety

/-!
# Runs compose

Two sources that nothing is wrong with, one after the other, do what they do when they are joined by
a newline: the second one only stands further down and further to the right. If the first one ends
with a runtime error then the second one is not run either way.

The functions of the first source, and of those that were run before, are the same in both cases,
and the tokens of the second source are moved. So are the tokens of its functions.

## Main definitions

* `Machine.Resembles m m'`, `Outcome.Agrees E`: what is seen of two states, and of two runs
* `Relocated`: the runtime errors of the second source, run by itself and behind the first one

## Main results

* `interpret_append`: the statements of one program after those of another
* `parseSource_join`: the trees of sources that are joined
* `runs_compose`: the sources, one after the other and joined
-/

namespace Lox

/-- The programs have printed the same, and the same global names are bound, in the same order, to
the same values. -/
structure Machine.Resembles (m m' : Machine) : Prop where
  printed : m'.printed = m.printed
  globals : m'.store.bindings globalScope = m.store.bindings globalScope

theorem Machine.Alike.resembles {R : Token → Token → Prop} {m m' : Machine} (h : m.Alike R m') :
    m.Resembles m' where
  printed := h.printed
  globals := by simp only [Store.bindings, h.scopes]

/-- The runs end in the same way, with states that resemble each other; if they end with runtime
errors then these are related by `E`. -/
def Outcome.Agrees (E : RuntimeError → RuntimeError → Prop) :
    Outcome Session.Report → Outcome Session.Report → Prop
  | .done r m, .done r' m' =>
    r'.diagnostics = r.diagnostics ∧ Option.Rel E r.runtimeError r'.runtimeError ∧ m.Resembles m'
  | .failed f m, .failed f' m' => f' = f ∧ m.Resembles m'
  | .unfinished, .unfinished => True
  | _, _ => False

/-! ## Programs one after another -/

theorem executeProgram_append (b : Budget) (ss ts : List Node) (config : Config) (m : Machine) :
    executeProgram b (ss ++ ts) config m =
      match executeProgram b ss config m with
      | .done _ n => executeProgram b ts config n
      | .failed f n => .failed f n
      | .unfinished => .unfinished := by
  induction ss generalizing m with
  | nil => rfl
  | cons s ss ih =>
    rw [List.cons_append, executeProgram, executeProgram, Eval.bind_apply, Eval.bind_apply]
    cases execute b.fuel b.calls s config m with
    | done r n => exact ih n
    | failed f n => rfl
    | unfinished => rfl

/-- The second program is run if the first one ends without a runtime error. -/
theorem interpret_append (b : Budget) (ss ts : List Node) (config : Config) (m : Machine) :
    interpret b (ss ++ ts) config m =
      match interpret b ss config m with
      | .done none n => interpret b ts config n
      | outcome => outcome := by
  unfold interpret reportRuntimeError
  rw [executeProgram_append]
  cases executeProgram b ss config m with
  | done r n => rfl
  | failed f n => cases f <;> rfl
  | unfinished => rfl

namespace Grammar

variable {a b : String}

theorem diagnostics_eq_nil_iff {p : SourceParse} :
    p.diagnostics = [] ↔ p.scan.errors = [] ∧ p.parse.errors = [] := by
  simp [SourceParse.diagnostics, SourceParse.scanDiagnostics, SourceParse.parseDiagnostics]

/-- How far on the second of two sources stands that are joined by a newline. -/
def behind (a : String) : Token → Token :=
  Token.shift (Text.newlines a.toList + 1) (a.length + 1)

theorem relabels_behind (a : String) : Relabels (behind a) :=
  relabels_shift _ _

/-- The trees of two sources that nothing is wrong with, if they are joined by a newline. -/
theorem parseSource_join (ha : (parseSource a).diagnostics = [])
    (hb : (parseSource b).diagnostics = []) :
    (parseSource (a ++ "\n" ++ b)).diagnostics = [] ∧
      (parseSource (a ++ "\n" ++ b)).parse.program = (parseSource a).parse.program ++
        (parseSource b).parse.program.map (Node.relabel (behind a)) := by
  rw [diagnostics_eq_nil_iff] at ha hb
  have hchars : (a ++ "\n" ++ b).toList = a.toList ++ '\n' :: b.toList := by
    simp [String.toList_append]
  have hterminated : ∀ e ∈ (scanChars a.toList).errors, e.fault ≠ .unterminatedString := by
    intro e he
    have hnil : (scanChars a.toList).errors = [] := ha.1
    simp [hnil] at he
  obtain ⟨htokens, -, herrors⟩ := scanChars_newline hterminated b.toList
  rw [← hchars, String.length_toList] at htokens herrors
  have hparse : (parseSource (a ++ "\n" ++ b)).parse = ⟨(parseSource a).parse.program ++
      (parseSource b).parse.program.map (Node.relabel (behind a)), []⟩ := by
    have hpa : parse (scan a).stream = ⟨(parseSource a).parse.program, []⟩ := by
      rw [← ha.2]
      rfl
    have hpb : parse (scan b).stream = ⟨(parseSource b).parse.program, []⟩ := by
      rw [← hb.2]
      rfl
    have h : parse ⟨(scanChars a.toList).stream.tokens ++
        (scanChars b.toList).stream.tokens.map (behind a),
        (scanChars (a ++ "\n" ++ b).toList).stream.eof⟩ = _ :=
      parse_append (relabels_behind a) hpa hpb
    exact (congrArg (fun ts => parse ⟨ts, _⟩) htokens).trans h
  rw [diagnostics_eq_nil_iff, hparse]
  refine ⟨⟨?_, rfl⟩, rfl⟩
  have hea : (scanChars a.toList).errors = [] := ha.1
  have heb : (scanChars b.toList).errors = [] := hb.1
  rw [hea, heb] at herrors
  exact herrors

end Grammar

namespace Session

open Eval

/-! ## Traces -/

section

variable {config : Config} {m m' : Machine} {ws ws' : List Write}

theorem printed_wrote (h : ∀ w ∈ ws, w.channel ≠ .out) : (wrote m ws).printed = m.printed := by
  have hnil : ws.filter (fun w => w.channel = .out) = [] :=
    List.filter_eq_nil_iff.mpr fun w hw => by simpa using h w hw
  simp only [Machine.printed, wrote, List.filter_append, hnil, List.nil_append]

theorem channel_of_mem_parseTrace {source : String} {w : Write}
    (h : w ∈ parseTrace config source) : w.channel ≠ .out := by
  unfold parseTrace scanTrace at h
  split at h
  · simp only [List.cons_append, List.nil_append, List.mem_cons, List.not_mem_nil, or_false] at h
    rcases h with rfl | rfl <;> simp [Write.channel]
  · simp at h

/-- Traces make no difference for how a program runs. -/
theorem alike_wrote {R : Token → Token → Prop} (hm : m.Alike R m')
    (h : ∀ w ∈ ws, w.channel ≠ .out) (h' : ∀ w ∈ ws', w.channel ≠ .out) :
    (wrote m ws).Alike R (wrote m' ws') where
  scopes := hm.scopes
  size := hm.size
  closures := hm.closures
  current := hm.current
  printed := by rw [printed_wrote h, printed_wrote h', hm.printed]
  clockReads := hm.clockReads

end

/-! ## Errors -/

/-- The runtime error of `b`, when it is run in the state `n`, and the one that comes instead of it
if `b` is joined to `a`. If it is at a token of `b` then it moves with that, and if it is at a token
of an older function then it stays. -/
def Relocated (budget : Budget) (config : Config) (n : Machine) (older : List Step) (a b : String)
    (e e' : RuntimeError) : Prop :=
  let program := (Grammar.parseSource b).parse.program
  e'.cause = e.cause ∧
    ((e.token ∈ (scan b).stream.tokens ∧ ErrorMoves budget config n program e ∧
        e'.token = Grammar.behind a e.token) ∨
      (Step.InSources older e.token ∧ ErrorStays budget config n program e ∧
        e'.token = e.token))

variable {budget : Budget} {config : Config} {m m' n n' : Machine} {steps older : List Step}
  {a b : String} {e e' : RuntimeError}

/-- A session has been given finitely many tokens. -/
theorem exists_offset_lt (steps : List Step) :
    ∃ k, ∀ t, Step.InSources steps t → t.offset < k := by
  have hlist : ∀ ts : List Token, ∃ k, ∀ t ∈ ts, t.offset < k := by
    intro ts
    induction ts with
    | nil => exact ⟨0, by simp⟩
    | cons t ts ih =>
      obtain ⟨k, hk⟩ := ih
      refine ⟨k + t.offset + 1, List.forall_mem_cons.mpr ⟨by omega, fun u hu => ?_⟩⟩
      have := hk u hu
      omega
  obtain ⟨k, hk⟩ := hlist (steps.flatMap Step.tokens)
  exact ⟨k, fun t ⟨s, hs, ht⟩ => hk t (List.mem_flatMap.mpr ⟨s, hs, ht⟩)⟩

/-- A token that satisfies `P`, and what it is replaced by if it is kept. -/
def Kept (P : Token → Prop) (t t' : Token) : Prop :=
  P t ∧ t' = t

/-- A program runs alike in states that are the same but for their traces. -/
theorem interpret_alike {P : Token → Prop} {ss : List Node} (budget : Budget) (config : Config)
    (hss : Node.AllStatements P ss) (hn : n.Alike (Kept P) n') :
    (interpret budget ss config n).Alike (Kept P) (Option.Rel (RuntimeError.Alike (Kept P)))
      (interpret budget ss config n') := by
  have hid : Node.AllStatements (fun t => Kept P t (id t)) ss :=
    Node.allStatements_iff.mpr fun s hs =>
      (Node.allStatements_iff.mp hss s hs).mono fun t ht => ⟨ht, rfl⟩
  have h := alike_interpret budget relabels_id hid config n n' hn
  rwa [Node.map_relabel_id] at h

/-- In such states, a program ends with the same error. -/
theorem interpret_eq_error {P : Token → Prop} {ss : List Node} (hss : Node.AllStatements P ss)
    (hn : n.Alike (Kept P) n') (h : interpret budget ss config n = .done (some e) m) :
    ∃ m', interpret budget ss config n' = .done (some e) m' := by
  have hx := interpret_alike budget config hss hn
  rw [h] at hx
  obtain ⟨t, m', ⟨-, rfl⟩, hm'⟩ := hx.error
  exact ⟨m', hm'⟩

/-- The tokens of `b` that a program ends at move with it, and those of older functions stay. -/
theorem relocated {ws : List Write} (hn : n.Alike (Kept (Step.InSources older)) n')
    (hs : n.store.Sound (Step.InSources older)) (hws : ∀ w ∈ ws, w.channel ≠ .out)
    (h : interpret budget (Grammar.parseSource b).parse.program config (wrote n ws) =
      .done (some e) m)
    (h' : interpret budget
      ((Grammar.parseSource b).parse.program.map (Node.relabel (Grammar.behind a))) config n' =
        .done (some e') m') :
    Relocated budget config n older a b e e' := by
  have hall : Node.AllStatements (fun _ => True) (Grammar.parseSource b).parse.program :=
    Grammar.allStatements_parse fun _ _ => trivial
  have hmoved : Node.AllStatements (fun _ => True)
      ((Grammar.parseSource b).parse.program.map (Node.relabel (Grammar.behind a))) := by
    rw [Node.allStatements_iff, List.forall_mem_map]
    exact fun s hs => (Node.allStatements_iff.mp hall s hs).relabel (Grammar.relabels_behind a)
  have hwrote : (wrote n ws).Alike (Kept fun _ => True) (wrote n []) :=
    alike_wrote (Machine.alike_self hs fun _ _ => ⟨trivial, rfl⟩) hws (by simp)
  obtain ⟨m₁, h₁⟩ := interpret_eq_error hall hwrote h
  have htoken : ∀ t m₂, interpret budget
      ((Grammar.parseSource b).parse.program.map (Node.relabel (Grammar.behind a))) config n =
        .done (some ⟨e.cause, t⟩) m₂ → e' = ⟨e.cause, t⟩ := by
    intro t m₂ hx
    have hn' : n.Alike (Kept fun _ => True) n' := hn.mono fun _ _ ht => ⟨trivial, ht.2⟩
    obtain ⟨m₃, hx'⟩ := interpret_eq_error hmoved hn' hx
    rw [h'] at hx'
    exact Option.some.inj (Outcome.done.inj hx').1
  have hss : Node.AllStatements (· ∈ (scan b).stream.tokens)
      (Grammar.parseSource b).parse.program := Grammar.allStatements_parse fun _ ht => ht
  rcases moves_or_stays (exists_offset_lt older) hs hss h₁ with ⟨hb, hmoves⟩ | ⟨hold, hstays⟩
  · obtain ⟨m₂, hx⟩ := hmoves _ (Grammar.relabels_behind a)
    obtain rfl := htoken _ m₂ hx
    exact ⟨rfl, .inl ⟨hb, hmoves, rfl⟩⟩
  · obtain ⟨m₂, hx⟩ := hstays _ (Grammar.relabels_behind a)
    obtain rfl := htoken _ m₂ hx
    exact ⟨rfl, .inr ⟨hold, hstays, rfl⟩⟩

/-! ## Runs -/

/-- Programs that run alike have reports that agree. -/
theorem agrees_of_alike {R : Token → Token → Prop} {E : RuntimeError → RuntimeError → Prop}
    {ss ss' : List Node}
    (h : (interpret budget ss config m).Alike R (Option.Rel (RuntimeError.Alike R))
      (interpret budget ss' config m'))
    (hE : ∀ e e' n n', interpret budget ss config m = .done (some e) n →
      interpret budget ss' config m' = .done (some e') n' → E e e') :
    ((do return ⟨[], ← interpret budget ss⟩ : Eval Report) config m).Agrees E
      ((do return ⟨[], ← interpret budget ss'⟩ : Eval Report) config m') := by
  rw [bind_apply, bind_apply]
  cases hr : interpret budget ss config m <;> cases hr' : interpret budget ss' config m' <;>
    rw [hr, hr'] at h
  case done.done o n o' n' =>
    obtain ⟨ho, hn⟩ := h
    refine ⟨rfl, ?_, hn.resembles⟩
    cases ho with
    | none => exact .none
    | some => exact .some (hE _ _ n n' hr hr')
  case failed.failed x n x' n' =>
    cases x <;> cases x'
    case runtime.runtime => exact absurd hr interpret_ne_runtime
    case fault.fault => exact ⟨congrArg Failure.fault h.1, h.2.resembles⟩
    case tooDeep.tooDeep => exact ⟨rfl, h.2.resembles⟩
    all_goals exact h.1.elim
  case unfinished.unfinished => trivial
  all_goals exact h.elim

/-- The second source runs behind the first one as it does by itself. -/
theorem run_agrees (hb : (Grammar.parseSource b).diagnostics = [])
    (hs : n.store.Sound (Step.InSources older))
    (hn : n.Alike (Kept (Step.InSources older)) n') :
    (run budget b config n).Agrees (Relocated budget config n older a b) ((do
      let error ← interpret budget
        ((Grammar.parseSource b).parse.program.map (Node.relabel (Grammar.behind a)))
      return ⟨[], error⟩ : Eval Report) config n') := by
  have hws : ∀ w ∈ parseTrace config b, w.channel ≠ .out := fun _ => channel_of_mem_parseTrace
  have hwrote : (wrote n (parseTrace config b)).Alike (fun _ _ => True) (wrote n' []) :=
    alike_wrote (hn.mono fun _ _ _ => trivial) hws (by simp)
  have hss : Node.AllStatements (fun _ => True) (Grammar.parseSource b).parse.program :=
    Grammar.allStatements_parse fun _ _ => trivial
  have hx := alike_interpret budget (Grammar.relabels_behind a) hss config _ _ hwrote
  rw [run_apply hb]
  exact agrees_of_alike hx fun e e' n₁ n₁' h₁ h₁' => relocated hn hs hws h₁ h₁'

/-- What a run of two sources does, in terms of the first program. -/
theorem run_join (ha : (Grammar.parseSource a).diagnostics = [])
    (hb : (Grammar.parseSource b).diagnostics = []) (budget : Budget) (config : Config)
    (m : Machine) :
    run budget (a ++ "\n" ++ b) config m =
      match interpret budget (Grammar.parseSource a).parse.program config
          (wrote m (parseTrace config (a ++ "\n" ++ b))) with
      | .done none n => (do
        let error ← interpret budget
          ((Grammar.parseSource b).parse.program.map (Node.relabel (Grammar.behind a)))
        return ⟨[], error⟩ : Eval Report) config n
      | .done (some e) n => .done ⟨[], some e⟩ n
      | .failed f n => .failed f n
      | .unfinished => .unfinished := by
  obtain ⟨hd, hprogram⟩ := Grammar.parseSource_join ha hb
  rw [run_apply hd, bind_apply, hprogram, interpret_append]
  cases interpret budget (Grammar.parseSource a).parse.program config
      (wrote m (parseTrace config (a ++ "\n" ++ b))) with
  | done o n => cases o <;> rfl
  | failed f n => rfl
  | unfinished => rfl

/-- **Runs compose.** In a session, a run of two sources that are joined by a newline, with nothing
wrong in either, is a run of the first one, followed by a run of the second one unless the first one
ended with a runtime error. The program prints the same, the global names have the same values in
the same order, and the runtime error is the same, but for the tokens of the second source. -/
theorem runs_compose (h : Reaches config steps m) (ha : (Grammar.parseSource a).diagnostics = [])
    (hb : (Grammar.parseSource b).diagnostics = []) (budget : Budget) :
    match run budget a config m with
    | .done ⟨_, none⟩ n =>
      (run budget b config n).Agrees (Relocated budget config n (steps ++ [.run a]) a b)
        (run budget (a ++ "\n" ++ b) config m)
    | outcome => outcome.Agrees Eq (run budget (a ++ "\n" ++ b) config m) := by
  have hs : (wrote m (parseTrace config a)).store.Sound (Step.InSources (steps ++ [.run a])) :=
    h.sound.mono fun _ => Step.InSources.append
  have hss : Node.AllStatements (Step.InSources (steps ++ [.run a]))
      (Grammar.parseSource a).parse.program :=
    Grammar.allStatements_parse fun t ht => Step.inSources_last (s := .run a) ht
  generalize steps ++ [Step.run a] = older at hs hss ⊢
  -- up to the end of the first source, the two ways differ in their traces only
  have hm : (wrote m (parseTrace config a)).Alike (Kept (Step.InSources older))
      (wrote m (parseTrace config (a ++ "\n" ++ b))) :=
    alike_wrote (Machine.alike_self hs fun t ht => ⟨ht, rfl⟩)
      (fun _ => channel_of_mem_parseTrace) fun _ => channel_of_mem_parseTrace
  have hx := interpret_alike budget config hss hm
  have hends := interpret_ends budget config hs hss
  rw [run_join ha hb, run_apply ha, bind_apply]
  cases hr : interpret budget (Grammar.parseSource a).parse.program config
      (wrote m (parseTrace config a)) <;>
    cases hr' : interpret budget (Grammar.parseSource a).parse.program config
      (wrote m (parseTrace config (a ++ "\n" ++ b))) <;> rw [hr, hr'] at hx
  case done.done o n o' n' =>
    rw [hr] at hends
    obtain ⟨ho, hn⟩ := hx
    cases ho with
    | none => exact run_agrees hb hends.1 hn
    | @some e e' he =>
      obtain ⟨hcause, -, htoken⟩ := he
      have hee : e = e' := by
        cases e
        cases e'
        simp_all
      exact ⟨rfl, .some hee, hn.resembles⟩
  case failed.failed x n x' n' =>
    rw [hr] at hends
    obtain ⟨hf, hn⟩ := hx
    obtain ⟨-, rfl⟩ := hends
    cases x' with
    | tooDeep => exact ⟨rfl, hn.resembles⟩
    | runtime => exact hf.elim
    | fault => exact hf.elim
  case unfinished.unfinished => trivial
  all_goals exact hx.elim

/-- A function of the first source is called by the second one, and fails there. -/
theorem runs_compose_declaration_call :
    ∃ r n, run ⟨30, 5⟩ "func f() { return g; }" ⟨false, fun _ => 0⟩ .initial = .done r n ∧
      r.runtimeError = none ∧
      (run ⟨30, 5⟩ "f();" ⟨false, fun _ => 0⟩ n).Agrees
        (Relocated ⟨30, 5⟩ ⟨false, fun _ => 0⟩ n [.run "func f() { return g; }"]
          "func f() { return g; }" "f();")
        (run ⟨30, 5⟩ ("func f() { return g; }" ++ "\n" ++ "f();") ⟨false, fun _ => 0⟩ .initial) := by
  have h := @runs_compose ⟨false, fun _ => 0⟩ .initial [] "func f() { return g; }" "f();" .start
    (by decide +kernel) (by decide +kernel) ⟨30, 5⟩
  have hrun : (run ⟨30, 5⟩ "func f() { return g; }" ⟨false, fun _ => 0⟩ .initial).result?.map
      Report.hadRuntimeError = some false := by
    decide +kernel
  obtain ⟨⟨ds, o⟩, hreport, hnone⟩ := Option.map_eq_some_iff.mp hrun
  obtain rfl : o = none := Option.isSome_eq_false_iff.mp hnone |> Option.isNone_iff_eq_none.mp
  obtain ⟨n, hdone⟩ := Outcome.result?_eq_some_iff.mp hreport
  rw [hdone] at h
  exact ⟨⟨ds, none⟩, n, hdone, rfl, h⟩

end Session

end Lox
