import Lox.CommandLine.Program
import Lox.Proofs.CommandLine.Options
import Lox.Proofs.Evaluation.Frame
import Lox.Proofs.Grammar.PrintedPrograms
import Lox.Proofs.Session.Steps

/-!
# Listings of scripts

A command line can ask for the tokens or for the trees of a script. They are listed then, and what
is wrong with the script is reported, but none of its statements is executed. Each kind of listing
has a way of its own through the program, and so has the run of a script; but what is wrong with a
script is found out and reported in the same way by all of them.

The prompt comes first: a command line that asks for it runs the script, whatever else it asks for.

## Main definitions

* `Ending.output`, `Ending.errors`: what the program has written to the output and to the errors
* `Ending.Lists e lines ds`: the program has listed these lines and reported these diagnostics, and
  that is all
* `Ending.ofListing`: how a listing ends, after these traces and with these lines
* `Names args path`: the command line names this script
* `RunsAs args' args path`: the command line only runs the script, with or without traces as the
  other one

## Main results

* `listTokens_apply`, `listTrees_apply`: what a listing does
* `lists_ofListing`, `errors_ofListing`: what is seen of it
* `listings_execute_nothing`: how a command line ends that asks for a listing
-/

namespace Lox

/-- What is written there belongs to the output, of the program or of its host. -/
def Channel.isOutput : Channel → Bool
  | out | hostOut => true
  | err | hostErr => false

/-- The write is made by a statement that is executed. -/
def Write.isOfStatement : Write → Bool
  | .printed _ | .executing _ | .calling _ | .runtimeError _ => true
  | _ => false

/-- The write is the trace of a scan or of a parse. -/
def Write.isPhaseTrace : Write → Bool
  | .scanned .. | .parsed .. => true
  | _ => false

/-- The traces of scans and parses go to the errors, and no statement makes them. -/
theorem Write.of_isPhaseTrace {w : Write} (h : w.isPhaseTrace = true) :
    w.channel.isOutput = false ∧ w.isOfStatement = false := by
  cases w <;> cases h <;> exact ⟨rfl, rfl⟩

namespace CommandLine

open Eval Session

namespace Ending

/-- What was written to the output. -/
def output [Text.Locator] (e : Ending) : String :=
  written Channel.isOutput e.log

/-- What was written to the errors. -/
def errors [Text.Locator] (e : Ending) : String :=
  written (fun c => !c.isOutput) e.log

/-- The program has written these lines to the output, and nothing else. It has reported these
diagnostics, and its exit code says whether there are any. No write is that of a statement. -/
structure Lists [Text.Locator] (e : Ending) (lines : List String) (ds : List Diagnostic) :
    Prop where
  output : e.output = String.join (lines.map (· ++ "\n"))
  reported : ds ≠ [] → ∃ shown, .diagnostics ds shown ∈ e.log
  exit : e.exit = some (if ds = [] then ExitCode.ok else ExitCode.dataError)
  noStatement : ∀ w ∈ e.log, w.isOfStatement = false

end Ending

/-- The settings name this script and no other one, and the host accepts their limit of the
recursion. -/
structure Settings.Use (s : Settings) (path : String) : Prop where
  scripts : s.scripts = [path]
  limit : s.recursionLimit ≤ largestHostLimit

/-- The command line is accepted, asks neither for the help nor for the version, and names this
script and no other one, and no limit of the recursion that the host does not accept. -/
def Names (args : List String) (path : String) : Prop :=
  ∃ s, Invocation.ofArguments args = .ok (.run s) ∧ s.Use path

/-- The first command line runs the script and asks for nothing else. It is traced if the second one
is. -/
structure RunsAs (args' args : List String) (path : String) : Prop where
  names : Names args' path
  noTokens : ¬ Given .tokens args'
  noTrees : ¬ Given .parse args'
  noPrompt : ¬ Given .interactive args'
  debug : Given .debug args' ↔ Given .debug args

/-- The lines that list the tokens of a source, each one with its line number. -/
def tokenLines (source : String) : List String :=
  (scan source).stream.toList.map fun t =>
    String.ofList (Text.paddedNumber t.line) ++ "  " ++ t.display

/-! ## What is written -/

/-- What is written by a listing, the newest write first: traces, then the lines, and then the
report of the diagnostics if there are any. -/
def listing (config : Config) (traces : List Write) (lines : List String) (ds : List Diagnostic)
    (source : String) : List Write :=
  (if ds = [] then [] else [reportOf config ds source]) ++ ((lines.map .reply).reverse ++ traces)

/-- How a listing ends. The exit code says whether there are diagnostics. -/
def Ending.ofListing (config : Config) (traces : List Write) (lines : List String)
    (ds : List Diagnostic) (source : String) : Ending :=
  ⟨some (if ds = [] then ExitCode.ok else ExitCode.dataError),
    listing config traces lines ds source⟩

variable {wanted : Channel → Bool} {config : Config} {m : Machine}

/-- Nothing is seen of writes to other channels. -/
theorem written_eq_empty [Text.Locator] {ws : List Write} (h : ∀ w ∈ ws, wanted w.channel = false) :
    written wanted ws = "" := by
  have hnil : ws.reverse.filter (fun w => wanted w.channel) = [] :=
    List.filter_eq_nil_iff.mpr fun w hw => by simp [h w (List.mem_reverse.mp hw)]
  rw [written, hnil]
  rfl

theorem written_replies [Text.Locator] (lines : List String) :
    written Channel.isOutput (lines.map .reply).reverse = String.join (lines.map (· ++ "\n")) := by
  rw [written, List.reverse_reverse,
    List.filter_eq_self.mpr (by simp [Write.channel, Channel.isOutput])]
  simp [Function.comp_def, Write.text]

theorem isPhaseTrace_of_mem_scanTrace {source : String} {w : Write}
    (h : w ∈ scanTrace config source) : w.isPhaseTrace = true := by
  unfold scanTrace at h
  split at h
  · obtain rfl := List.mem_singleton.mp h
    rfl
  · cases h

theorem isPhaseTrace_of_mem_parseTrace {source : String} {w : Write}
    (h : w ∈ parseTrace config source) : w.isPhaseTrace = true := by
  rcases List.mem_append.mp h with h | h
  · split at h
    · obtain rfl := List.mem_singleton.mp h
      rfl
    · cases h
  · exact isPhaseTrace_of_mem_scanTrace h

section Listing

variable {traces : List Write} {lines : List String} {ds : List Diagnostic} {source : String}

/-- A listing after the traces of a scan or a parse writes its lines and reports its diagnostics. -/
theorem lists_ofListing [Text.Locator] (htraces : ∀ w ∈ traces, w.isPhaseTrace = true) :
    (Ending.ofListing config traces lines ds source).Lists lines ds where
  output := by
    have htraces : written Channel.isOutput traces = "" :=
      written_eq_empty fun w hw => (Write.of_isPhaseTrace (htraces w hw)).1
    have hreport : written Channel.isOutput
        (if ds = [] then [] else [reportOf config ds source]) = "" := by
      split
      · rfl
      · exact written_eq_empty (by simp [reportOf, Write.channel, Channel.isOutput])
    rw [Ending.output, Ending.ofListing, listing, written_append, written_append, htraces, hreport,
      written_replies]
    simp
  reported hds := by
    have hreport : reportOf config ds source ∈
        (if ds = [] then [] else [reportOf config ds source]) := by simp [hds]
    exact ⟨_, List.mem_append_left _ hreport⟩
  exit := rfl
  noStatement := by
    intro w hw
    rcases List.mem_append.mp hw with hw | hw
    · split at hw
      · cases hw
      · obtain rfl := List.mem_singleton.mp hw
        rfl
    rcases List.mem_append.mp hw with hw | hw
    · obtain ⟨line, -, rfl⟩ := List.mem_map.mp (List.mem_reverse.mp hw)
      rfl
    · exact (Write.of_isPhaseTrace (htraces w hw)).2

/-- The lines that are listed do not show in the errors. -/
theorem errors_ofListing [Text.Locator] (lines' : List String) :
    (Ending.ofListing config traces lines ds source).errors =
      (Ending.ofListing config traces lines' ds source).errors := by
  have hreplies (lines : List String) :
      written (fun c => !c.isOutput) (lines.map .reply).reverse = "" :=
    written_eq_empty (by simp [Write.channel, Channel.isOutput])
  simp only [Ending.errors, Ending.ofListing, listing, written_append, hreplies]

end Listing

/-! ## The ways through the program -/

theorem exitListing_apply (ds : List Diagnostic) (source : String) :
    exitListing ds source config m =
      .done (.exited (if ds = [] then ExitCode.ok else ExitCode.dataError))
        (wrote m (if ds = [] then [] else [reportOf config ds source])) := by
  cases ds <;> rfl

/-- The end of a listing, when its traces are written. -/
theorem reply_exitListing_apply (traces : List Write) (lines : List String) (ds : List Diagnostic)
    (source : String) :
    (Prompt.reply lines >>= fun _ => exitListing ds source) config (wrote m traces) =
      .done (.exited (if ds = [] then ExitCode.ok else ExitCode.dataError))
        (wrote m (listing config traces lines ds source)) := by
  rw [bind_apply, reply_apply]
  show exitListing ds source config _ = _
  rw [exitListing_apply]
  simp only [wrote, listing, List.append_assoc]

/-- The tokens are listed, and the scan errors are reported. -/
theorem listTokens_apply (source : String) :
    listTokens source config m =
      .done (.exited (if (scan source).errors.map ScanError.diagnostic = [] then ExitCode.ok
          else ExitCode.dataError))
        (wrote m (listing config (scanTrace config source) (tokenLines source)
          ((scan source).errors.map ScanError.diagnostic) source)) := by
  unfold listTokens
  rw [bind_apply, scanTraced_apply]
  exact reply_exitListing_apply _ (tokenLines source) _ source

/-- Every tree that is read can be printed. -/
theorem exists_printAll (source : String) :
    ∃ lines, Node.printAll (Grammar.parseSource source).parse.program = .ok lines ∧
      List.Forall₂ (fun n line => n.print = .ok line)
        (Grammar.parseSource source).parse.program lines := by
  have hprint : ∀ n ∈ (Grammar.parseSource source).parse.program,
      n.print = .ok n.shape.string := fun n hn =>
    Node.print_eq (Grammar.written_of_isParsed ⟨source, n, .inl hn, .refl n⟩)
  refine ⟨_, Node.printAll_eq hprint, ?_⟩
  rw [Node.shapes_eq_map, List.map_map, List.forall₂_map_right_iff, List.forall₂_same]
  exact hprint

/-- The trees are listed, those of a source with errors too, and all diagnostics are reported. -/
theorem listTrees_apply {source : String} {lines : List String}
    (h : Node.printAll (Grammar.parseSource source).parse.program = .ok lines) :
    listTrees source config m =
      .done (.exited (if (Grammar.parseSource source).diagnostics = [] then ExitCode.ok
          else ExitCode.dataError))
        (wrote m (listing config (parseTrace config source) lines
          (Grammar.parseSource source).diagnostics source)) := by
  unfold listTrees
  rw [bind_apply, parseTraced_apply]
  dsimp only
  rw [h]
  exact reply_exitListing_apply _ lines _ source

/-- The run of a script that something is wrong with does what the listing of its trees does, but
for the lines. -/
theorem runScript_apply {b : Budget} {source : String}
    (h : (Grammar.parseSource source).diagnostics ≠ []) :
    runScript b source config m =
      .done (.exited ExitCode.dataError)
        (wrote m (listing config (parseTrace config source) []
          (Grammar.parseSource source).diagnostics source)) := by
  unfold runScript
  rw [bind_apply, run_apply_of_diagnostics h]
  simp [listing, h, Report.exitCode, Report.hadError]

/-! ## Command lines -/

section Program

variable {b : Budget} {clock : Nat → Float} {file : String → ScriptFile} {input path : String}
  {args args' : List String} {s s' : Settings} {source : String}

theorem start_eq (hpath : s.Use path) (hfile : (file path).source path = .ok source) :
    start b file (.ok (.run s)) = useSource b s source := by
  have hone : ¬1 < [path].length := by simp
  have hlimit : ¬largestHostLimit < s.hostLimit :=
    Int.not_lt.mpr (max_le hpath.limit (by decide))
  simp only [start, hpath.scripts, if_neg hone, if_neg hlimit, hfile]

variable (hargs : Invocation.ofArguments args = .ok (.run s)) (hpath : s.Use path)
  (hfile : (file path).source path = .ok source)

include hargs hpath hfile

/-- A use of the script that comes to an exit is the whole of what the program does. -/
theorem runProgram_of_exited {code : Nat} {ws : List Write}
    (h : useSource b s source ⟨s.debug, clock⟩ .initial =
      .done (.exited code) (wrote .initial ws)) :
    runProgram b clock file input args = ⟨some code, ws⟩ := by
  simp only [runProgram, perform, hargs, isDebug, start_eq hpath hfile]
  rw [bind_apply, h]
  show Ending.mk (some code) (ws ++ []) = _
  rw [List.append_nil]

/-- Two command lines that use the script in the same way come to the same. -/
theorem runProgram_congr (hargs' : Invocation.ofArguments args' = .ok (.run s'))
    (hpath' : s'.Use path) (hdebug : s'.debug = s.debug)
    (huse : useSource b s' source = useSource b s source) :
    runProgram b clock file input args' = runProgram b clock file input args := by
  simp only [runProgram, perform, hargs, hargs', isDebug, start_eq hpath hfile,
    start_eq hpath' hfile, hdebug, huse]

/-- A command line that asks for the tokens, and not for the prompt, lists them. -/
theorem runProgram_tokens (hprompt : s.interactive = false) (htokens : s.tokens = true) :
    runProgram b clock file input args =
      .ofListing ⟨s.debug, clock⟩ (scanTrace ⟨s.debug, clock⟩ source) (tokenLines source)
        (Grammar.parseSource source).scanDiagnostics source := by
  refine runProgram_of_exited hargs hpath hfile ?_
  simp only [useSource, hprompt, htokens, if_true, Bool.false_eq_true, if_false]
  exact listTokens_apply source

/-- A command line that asks for the trees, and neither for the prompt nor for the tokens, lists
them. -/
theorem runProgram_trees {lines : List String} (hprompt : s.interactive = false)
    (htokens : s.tokens = false) (htrees : s.parse = true)
    (hlines : Node.printAll (Grammar.parseSource source).parse.program = .ok lines) :
    runProgram b clock file input args =
      .ofListing ⟨s.debug, clock⟩ (parseTrace ⟨s.debug, clock⟩ source) lines
        (Grammar.parseSource source).diagnostics source := by
  refine runProgram_of_exited hargs hpath hfile ?_
  simp only [useSource, hprompt, htokens, htrees, if_true, Bool.false_eq_true, if_false]
  exact listTrees_apply hlines

/-- A command line that only runs a script with which something is wrong reports that, and lists
nothing. -/
theorem runProgram_broken (hprompt : s.interactive = false) (htokens : s.tokens = false)
    (htrees : s.parse = false)
    (hbroken : (Grammar.parseSource source).diagnostics ≠ []) :
    runProgram b clock file input args =
      .ofListing ⟨s.debug, clock⟩ (parseTrace ⟨s.debug, clock⟩ source) []
        (Grammar.parseSource source).diagnostics source := by
  rw [Ending.ofListing, if_neg hbroken]
  refine runProgram_of_exited hargs hpath hfile ?_
  simp only [useSource, hprompt, htokens, htrees, Bool.false_eq_true, if_false]
  exact runScript_apply hbroken

/-- A command line that asks for a listing, and not for the prompt, comes to the same without any
fuel, whatever the time and the input. -/
theorem runProgram_eq_unfuelled (hprompt : s.interactive = false)
    (hlisting : s.tokens = true ∨ s.parse = true) (clock' : Nat → Float) (input' : String) :
    runProgram b clock file input args = runProgram ⟨0, 0⟩ clock' file input' args := by
  cases htokens : s.tokens with
  | true =>
    rw [runProgram_tokens hargs hpath hfile hprompt htokens,
      runProgram_tokens hargs hpath hfile hprompt htokens]
    rfl
  | false =>
    have htrees : s.parse = true := hlisting.resolve_left (by simp [htokens])
    obtain ⟨lines, hlines, -⟩ := exists_printAll source
    rw [runProgram_trees hargs hpath hfile hprompt htokens htrees hlines,
      runProgram_trees hargs hpath hfile hprompt htokens htrees hlines]
    rfl

/-- If the listing of the trees exits because of diagnostics, then so does each command line that
only runs the script, with nothing on the output and with the same errors. -/
theorem runProgram_runsAs [Text.Locator] (hprompt : s.interactive = false)
    (htokens : s.tokens = false) (htrees : s.parse = true) (hruns : RunsAs args' args path)
    (hexit : (runProgram b clock file input args).exit = some ExitCode.dataError) (b' : Budget)
    (clock' : Nat → Float) (input' : String) :
    let e := runProgram b' clock' file input' args'
    e.exit = some ExitCode.dataError ∧ e.output = "" ∧
      e.errors = (runProgram b clock file input args).errors := by
  obtain ⟨s', hargs', hpath'⟩ := hruns.names
  have hgiven := reflects_of_ofArguments hargs
  have hgiven' := reflects_of_ofArguments hargs'
  have hdebug : s'.debug = s.debug := hgiven'.debug_eq hgiven hruns.debug
  obtain ⟨lines, hlines, -⟩ := exists_printAll source
  rw [runProgram_trees hargs hpath hfile hprompt htokens htrees hlines] at hexit ⊢
  have hbroken : (Grammar.parseSource source).diagnostics ≠ [] := by
    intro hnil
    simp [Ending.ofListing, hnil, ExitCode.ok, ExitCode.dataError] at hexit
  have hrun := @runProgram_broken b' clock' file input' path args' s' source hargs' hpath' hfile
    (Bool.eq_false_of_not_eq_true (mt hgiven'.interactive.mp hruns.noPrompt))
    (Bool.eq_false_of_not_eq_true (mt hgiven'.tokens.mp hruns.noTokens))
    (Bool.eq_false_of_not_eq_true (mt hgiven'.parse.mp hruns.noTrees)) hbroken
  rw [hdebug] at hrun
  intro e
  have hlists : e.Lists [] (Grammar.parseSource source).diagnostics := by
    rw [show e = _ from hrun]
    exact lists_ofListing fun _ => isPhaseTrace_of_mem_parseTrace
  refine ⟨by rw [hlists.exit, if_neg hbroken], hlists.output, ?_⟩
  rw [show e = _ from hrun]
  exact errors_ofListing _

end Program

/-- **Listings execute nothing.** A command line names a script that can be read, and it asks for
the tokens or for the trees. If it does not ask for the prompt, the program comes to the same as
without any fuel, with which no statement can be executed. It lists the tokens, with the scan
errors, or else the trees, with all diagnostics. If it exits because of the latter, then so does
each command line that only runs the script, with nothing on the output and with the same errors. If
the prompt is asked for, it makes no difference that the tokens or the trees are asked for, too. -/
theorem listings_execute_nothing [Text.Locator] {args : List String} {path source : String}
    {file : String → ScriptFile} {content : List UInt8} (hargs : Names args path)
    (hfile : file path = .bytes content) (hsource : Text.readText content = .ok source)
    (hlisting : Given .tokens args ∨ Given .parse args) (b : Budget) (clock : Nat → Float)
    (input : String) :
    let p := Grammar.parseSource source
    let e := runProgram b clock file input args
    (¬ Given .interactive args →
      (∀ clock' input', e = runProgram ⟨0, 0⟩ clock' file input' args) ∧
      (Given .tokens args → e.Lists (tokenLines source) p.scanDiagnostics) ∧
      (¬ Given .tokens args →
        (∃ lines, List.Forall₂ (fun n line => n.print = .ok line) p.parse.program lines ∧
          e.Lists lines p.diagnostics) ∧
        (e.exit = some ExitCode.dataError → ∀ b' clock' input' args', RunsAs args' args path →
          let e' := runProgram b' clock' file input' args'
          e'.exit = some ExitCode.dataError ∧ e'.output = "" ∧ e'.errors = e.errors))) ∧
    (Given .interactive args → ∀ args', Names args' path → Given .interactive args' →
      (Given .debug args' ↔ Given .debug args) → runProgram b clock file input args' = e) := by
  obtain ⟨s, hs, hpath⟩ := hargs
  have hread : (file path).source path = .ok source := by
    rw [hfile, ScriptFile.source, hsource]
    rfl
  have hgiven := reflects_of_ofArguments hs
  intro p e
  refine ⟨fun hprompt => ?_, fun hprompt args' hargs' hprompt' hdebug => ?_⟩
  · replace hprompt : s.interactive = false :=
      Bool.eq_false_of_not_eq_true (mt hgiven.interactive.mp hprompt)
    refine ⟨fun clock' input' => runProgram_eq_unfuelled hs hpath hread hprompt
      (hlisting.imp hgiven.tokens.mpr hgiven.parse.mpr) clock' input', fun htokens => ?_,
      fun hnoTokens => ?_⟩
    · rw [show e = _ from runProgram_tokens hs hpath hread hprompt (hgiven.tokens.mpr htokens)]
      exact lists_ofListing fun _ => isPhaseTrace_of_mem_scanTrace
    · have htrees : s.parse = true := hgiven.parse.mpr (hlisting.resolve_left hnoTokens)
      replace hnoTokens : s.tokens = false :=
        Bool.eq_false_of_not_eq_true (mt hgiven.tokens.mp hnoTokens)
      refine ⟨?_, fun hexit b' clock' input' args' hruns =>
        runProgram_runsAs hs hpath hread hprompt hnoTokens htrees hruns hexit b' clock' input'⟩
      obtain ⟨lines, hlines, hprinted⟩ := exists_printAll source
      refine ⟨lines, hprinted, ?_⟩
      rw [show e = _ from runProgram_trees hs hpath hread hprompt hnoTokens htrees hlines]
      exact lists_ofListing fun _ => isPhaseTrace_of_mem_parseTrace
  · obtain ⟨s', hs', hpath'⟩ := hargs'
    have hgiven' := reflects_of_ofArguments hs'
    refine runProgram_congr hs hpath hread hs' hpath' (hgiven'.debug_eq hgiven hdebug) ?_
    simp only [useSource, hgiven.interactive.mpr hprompt, hgiven'.interactive.mpr hprompt', if_true]

/-- The first statement is listed, and not executed, although the second one cannot be read. -/
theorem listings_execute_nothing_missing_operand :
    let source := "print true;\nprint ;"
    let file := fun _ => ScriptFile.bytes source.toUTF8.toList
    let e := runProgram .standard (fun _ => 0) file "" ["--parse", "--debug", "a.lox"]
    let e' := runProgram .standard (fun _ => 0) file "" ["--debug", "a.lox"]
    e.output = "(print true)\n" ∧ e.exit = some ExitCode.dataError ∧
      (∀ w ∈ e.log, w.isOfStatement = false) ∧
      e'.exit = some ExitCode.dataError ∧ e'.output = "" ∧ e'.errors = e.errors := by
  intro source file e e'
  have hread : Text.readText source.toUTF8.toList = .ok source := by decide +kernel
  have hargs : Names ["--parse", "--debug", "a.lox"] "a.lox" := ⟨_, rfl, rfl, by decide⟩
  have hfile : file "a.lox" = .bytes source.toUTF8.toList := rfl
  obtain ⟨-, -, hlisting⟩ := (listings_execute_nothing hargs hfile hread
    (.inr (by decide)) .standard (fun _ => 0) "").1 (by decide)
  obtain ⟨⟨lines, -, hlists⟩, hrun⟩ := hlisting (by decide)
  have hexit : e.exit = some ExitCode.dataError := by decide +kernel
  have hruns : RunsAs ["--debug", "a.lox"] ["--parse", "--debug", "a.lox"] "a.lox" :=
    ⟨⟨_, rfl, rfl, by decide⟩, by decide, by decide, by decide, by decide⟩
  exact ⟨by decide +kernel, hexit, hlists.noStatement,
    hrun hexit .standard (fun _ => 0) "" _ hruns⟩

/-- At the prompt, a script of which the trees are asked for runs, and they are not listed. -/
theorem prompt_runs_listed_script :
    let source := "print true;"
    let args := ["-i", "--parse", "a.lox"]
    let file := fun _ => ScriptFile.bytes source.toUTF8.toList
    let e := runProgram .standard (fun _ => 0) file "" args
    Names args "a.lox" ∧ Given .parse args ∧ Text.readText source.toUTF8.toList = .ok source ∧
      e.exit = none ∧ "true\n" ∈ e.log.map Write.text ∧ ∀ lines ds, ¬ e.Lists lines ds := by
  intro source args file e
  have hexit : e.exit = none := by decide +kernel
  refine ⟨⟨_, rfl, rfl, by decide⟩, by decide, by decide +kernel, hexit, by decide +kernel,
    fun lines ds h => ?_⟩
  rw [h.exit] at hexit
  cases hexit

end CommandLine

end Lox
