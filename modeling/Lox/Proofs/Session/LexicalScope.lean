import Lox.Proofs.Evaluation.Nesting
import Lox.Proofs.Evaluation.Shadowing
import Lox.Proofs.Session.Restoration

/-!
# Names in functions

A name in a function belongs to a variable around the function, wherever it is called, unless the
function has a parameter of that name or declares it. The scope of a call lies in the scope in which
the function was made, and in the scope of the call, and in those inside it, the name stays free.

Which variable that is may change. There is no pass that resolves names before a program is run: a
name is looked for each time it is used. So if it is declared again around the function, in a block
inside the scope of the variable that was found, later uses find the new variable. Nothing else
changes what is found: not what the function declares or is given, and not what is declared where it
is called.

## Main definitions

* `Moment.Finds σ name j`: the variable that is read or changed next, and the scope it is in
* `Session.Phase.Declares config p q name j`: a declaration that comes between two phases
* `Session.InCall config f σ`: the moment belongs to a call of the function, or to the call of a
  function that was made in it

## Main results

* `Session.Phase.Leads.free`: what is free in a scope stays free there, for the rest of a session
* `Session.InCall.owner?`: where a name in a function is looked for
* `Session.functions_find_names`: what a name in a function belongs to, in two of its calls
-/

namespace Lox

namespace Moment

/-- The function that is called next. -/
def callee? (σ : Moment) : Option FunctionRef :=
  match σ.task with
  | .callFunction f _ => some f
  | _ => none

theorem task_of_callee? {σ : Moment} {f : FunctionRef} (h : σ.callee? = some f) :
    ∃ vs, σ.task = .callFunction f vs := by
  unfold callee? at h
  split at h
  · rename_i vs ht
    cases h
    exact ⟨vs, ht⟩
  · cases h

/-- The name of a variable that is read or changed next. -/
def looksUp? (σ : Moment) : Option String :=
  match σ.task, σ.frames with
  | .evaluate (.ident name), _ => some name.lexeme
  | .value _, .assign name :: _ => some name.lexeme
  | _, _ => none

/-- A variable is read or changed next, and it is the one of that name in the scope `j`. -/
structure Finds (σ : Moment) (name : String) (j : ScopeId) : Prop where
  looksUp : σ.looksUp? = some name
  owner : σ.machine.store.owner? σ.machine.current name = some j

end Moment

namespace Session

variable {config : Config} {f : FunctionRef} {σ τ : Moment} {name : String} {i j : ScopeId}

namespace Phase

variable {p q : Phase}

/-- In a phase between two steps, nothing is to be done and nothing waits. -/
def moment : Phase → Moment
  | idle m => ⟨.completed .normal, [], 0, m⟩
  | running σ => σ

/-- Only the code that is run in the current scope is new. -/
theorem free_of_code {m : Machine} {t : Task} {calls : Nat} (hstore : m.store = σ.machine.store)
    (hfree : σ.Free name i)
    (hcode : name ∈ t.binders → i ∉ m.store.chain (t.scopes.headD m.current)) :
    Moment.Free ⟨t, [], calls, m⟩ name i := by
  intro k hk hb
  rcases hb with hb | ⟨hc, hb⟩ | hb | hb
  · exact hfree k (hstore ▸ hk) (.bound (hstore ▸ hb))
  · exact hfree _ (hstore ▸ hk) (.closure (hstore ▸ hc) hb)
  · exact hcode hb hk
  · cases hb

theorem Next.free (hp : Reachable config p) (h : p.Next config q) (hi : i < p.store.scopes.size)
    (hne : i ≠ globalScope) (hfree : p.moment.Free name i) : q.moment.Free name i := by
  have hformed := hp.formed
  cases h with
  | @start m s ss calls hs =>
    have hhome : m.current = globalScope := hp.home
    refine free_of_code rfl hfree fun _ hmem => ?_
    have hchain : i ∈ m.store.chain m.current := hmem
    rw [hhome] at hchain
    have htree : m.store.IsTree := hformed.machine.store.tree
    rcases htree.chain_cases htree.lt_size with ⟨-, hc⟩ | ⟨j, hj, -⟩
    · rw [hc] at hchain
      exact hne (List.mem_singleton.mp hchain)
    · exact absurd hj (Nat.not_lt_zero j)
  | @skip m m' s b error hs hr =>
    obtain ⟨r, ws, hw⟩ := Step.perform_of_no_program config hs _ hformed.machine.store
    cases hw.symm.trans hr
    exact free_of_code rfl hfree fun h => absurd h List.not_mem_nil
  | advance hstep => exact Moment.Free.next hfree hformed hi hstep
  | finish hend =>
    obtain ⟨-, hstore, -⟩ := ending?_eq_some config hend
    exact free_of_code hstore hfree fun h => absurd h List.not_mem_nil

/-- What is free in a scope stays free there. -/
theorem Leads.free (hp : Reachable config p) (h : p.Leads config q) (hi : i < p.store.scopes.size)
    (hne : i ≠ globalScope) (hfree : p.moment.Free name i) : q.moment.Free name i := by
  induction h with
  | refl => exact hfree
  | tail hpq hnext ih =>
    exact Next.free (hp.trans hpq) hnext (Nat.lt_of_lt_of_le hi (hp.formed.leads hpq).2.size) hne ih

/-! ## Declarations -/

/-- Between the two phases, the name is declared in the scope. -/
def Declares (config : Config) (p q : Phase) (name : String) (j : ScopeId) : Prop :=
  ∃ σ τ, p.Leads config (running σ) ∧ σ.declares? = some name ∧ σ.machine.current = j ∧
    σ.next? config = some τ ∧ (running τ).Leads config q

/-- A name that was declared is bound. -/
theorem Declares.mem_names (h : Declares config p q name j) (hp : p.Formed) :
    name ∈ q.store.names j := by
  obtain ⟨σ, τ, hbefore, hname, rfl, hstep, hafter⟩ := h
  have hσ : σ.Formed := (hp.leads hbefore).1
  obtain ⟨τ', hstep', hbound⟩ := Moment.next?_of_declares? config hname hσ.machine.current
  obtain rfl : τ = τ' := Option.some.inj (hstep.symm.trans hstep')
  have hτ : Phase.Formed (running τ) := (hσ.next hstep).formed
  exact ((hτ.leads hafter).2.names σ.machine.current).subset hbound

/-- Names are bound by declarations only. -/
theorem Next.names (hp : p.Formed) (h : p.Next config q) (hj : j < p.store.scopes.size)
    (hn : name ∈ q.store.names j) : name ∈ p.store.names j ∨ Declares config p q name j := by
  cases h with
  | start => exact .inl hn
  | skip hs hr =>
    obtain ⟨r, ws, hw⟩ := Step.perform_of_no_program config hs _ hp.machine.store
    cases hw.symm.trans hr
    exact .inl hn
  | advance hstep =>
    rcases (Moment.transition_of_next? hstep).names hj hn with hn | ⟨hd, rfl⟩
    · exact .inl hn
    · exact .inr ⟨_, _, .refl, hd, rfl, hstep, .refl⟩
  | @finish _ m hend =>
    obtain ⟨-, hstore, -⟩ := ending?_eq_some config hend
    have hn : name ∈ m.store.names j := hn
    rw [hstore] at hn
    exact .inl hn

/-- A name that is bound in a scope since some phase was declared there. -/
theorem Leads.declares (hp : p.Formed) (h : p.Leads config q) (hj : j < p.store.scopes.size)
    (hn : name ∉ p.store.names j) (hn' : name ∈ q.store.names j) :
    Declares config p q name j := by
  induction h with
  | refl => exact absurd hn' hn
  | tail hpq hnext ih =>
    obtain ⟨hformed, hcont⟩ := hp.leads hpq
    rcases hnext.names hformed (Nat.lt_of_lt_of_le hj hcont.size) hn' with
      hbound | ⟨σ, τ, hbefore, hname, hcurrent, hstep, hafter⟩
    · obtain ⟨σ, τ, hbefore, hname, hcurrent, hstep, hafter⟩ := ih hbound
      exact ⟨σ, τ, hbefore, hname, hcurrent, hstep, hafter.tail hnext⟩
    · exact ⟨σ, τ, hpq.trans hbefore, hname, hcurrent, hstep, hafter⟩

end Phase

/-! ## Calls -/

/-- A call of the function begins: its body comes next, in the scope that was made for it. -/
def Begins (config : Config) (f : FunctionRef) (β : Moment) : Prop :=
  ∃ ρ ρ' i, Phase.Reachable config (.running ρ) ∧ ρ.callee? = some f ∧
    ρ.next? config = some ρ' ∧ ρ'.task.scopes = [i] ∧ ρ'.next? config = some β

/-- The current scope lies inside one in which a call of the function has begun. -/
def InCall (config : Config) (f : FunctionRef) (σ : Moment) : Prop :=
  ∃ β, Begins config f β ∧ (Phase.running β).Leads config (.running σ) ∧
    β.machine.current ∈ σ.machine.store.chain σ.machine.current

variable {c : Closure} {β : Moment}

theorem Begins.reachable (h : Begins config f β) : Phase.Reachable config (.running β) := by
  obtain ⟨ρ, ρ', i, hρ, -, hstep, -, hstep'⟩ := h
  exact (hρ.tail (.advance hstep)).tail (.advance hstep')

theorem InCall.reachable (h : InCall config f σ) : Phase.Reachable config (.running σ) := by
  obtain ⟨β, hβ, hleads, -⟩ := h
  exact hβ.reachable.trans hleads

/-- The scope of a call lies in the scope of the function, and nothing binds a name there that the
function does not bind. -/
theorem Begins.scope (h : Begins config f β) :
    ∃ c, β.machine.store.closures[f.id]? = some c ∧ β.task = .executeAll c.body ∧
      c.scope < β.machine.store.scopes.size ∧ β.machine.current ≠ globalScope ∧
      β.machine.store.chain β.machine.current =
        β.machine.current :: β.machine.store.chain c.scope ∧
      ∀ name, name ∉ c.binders → β.Free name β.machine.current := by
  obtain ⟨ρ, ρ', i, hρ, hcallee, hstep, hscopes, hstep'⟩ := h
  obtain ⟨vs, ht⟩ := Moment.task_of_callee? hcallee
  have hformed : ρ.Formed := hρ.formed
  have hformed' : ρ'.Formed := (hformed.next hstep).formed
  have hi : i < ρ'.machine.store.scopes.size :=
    hformed'.task.scopes i (hscopes ▸ List.mem_singleton.mpr rfl)
  obtain ⟨c, calls, ws, hc, rfl, rfl⟩ := Moment.enter_of_callFunction ht hstep hscopes
  have hscope : c.scope < ρ.machine.store.scopes.size := hformed.machine.store.scopes _ _ hc
  have hcont := (hformed.next hstep).continues
  have hfree : ∀ name, name ∉ c.binders → β.Free name ρ.machine.store.scopes.size :=
    fun name hname =>
      (Moment.free_of_call hformed ht hstep hscopes hc hname).next hformed' hi hstep'
  cases hstep'
  refine ⟨c, hcont.closure hc, rfl, Nat.lt_of_lt_of_le hscope hcont.size,
    Nat.ne_of_gt hformed.machine.store.tree.lt_size, ?_, hfree⟩
  show (ρ.machine.store.newCall c vs).chain _ = _ :: (ρ.machine.store.newCall c vs).chain c.scope
  rw [Store.chain_newCall_self, Store.chain_newCall c vs hscope]

/-- The body of a call, as long as it calls no other function, is run in the call. -/
theorem Begins.inCall (hβ : Begins config f β) (h : Moment.Leads config { β with frames := [] } σ)
    (hcall : ∀ g ∈ σ.frames, ¬ g.IsCall) : InCall config f (σ.hold β.frames) := by
  have hformed : β.Formed := hβ.reachable.formed
  obtain ⟨c, -, htask, -⟩ := hβ.scope
  have hbody : Moment.Formed { β with frames := [] } :=
    ⟨hformed.machine, hformed.task, fun _ hf => absurd hf List.not_mem_nil⟩
  have hstays : Moment.Stays β.machine.current { β with frames := [] } :=
    ⟨Store.mem_chain_self hformed.machine.current,
      fun k (hk : k ∈ β.task.scopes) => absurd hk (htask ▸ List.not_mem_nil)⟩
  exact ⟨β, hβ, .of_moments (h.hold β.frames),
    Moment.inside_chain (h.stays hbody hstays).frames hcall⟩

/-- The calls of a function that a call has made are part of that call. -/
theorem InCall.of_declared {δ δ' : Moment} {g : FunctionRef} {token : Token} {params : List Token}
    {body : List Node} (hδ : InCall config f δ) (ht : δ.task = .declare token params body)
    (hstep : δ.next? config = some δ') (hg : δ'.task = .value (.function g))
    (hleads : (Phase.running δ').Leads config (.running σ)) (hσ : InCall config g σ) :
    InCall config f σ := by
  obtain ⟨β, hβ, hbefore, hmem⟩ := hδ
  obtain ⟨γ, hγ, hafter, hmem'⟩ := hσ
  have hδ : δ.Formed := Phase.Reachable.formed (hβ.reachable.trans hbefore)
  have hδ' : δ'.Formed := (hδ.next hstep).formed
  have hσ : σ.Formed := Phase.Reachable.formed (hγ.reachable.trans hafter)
  have hcont := (Phase.Formed.leads (p := .running δ') hδ' hleads).2
  have hcont' : γ.machine.store.Continues σ.machine.store := (hγ.reachable.formed.leads hafter).2
  obtain ⟨g', hg', -, hc⟩ := Moment.next?_declare ht hstep
  obtain rfl : g = g' := by simpa using hg.symm.trans hg'
  obtain ⟨c, hc', -, hscope, -, hchain, -⟩ := hγ.scope
  obtain rfl : c = ⟨token, params, body, δ.machine.current⟩ :=
    Option.some.inj ((hcont'.closure hc').symm.trans (hcont.closure hc))
  have hγ' : γ.Formed := hγ.reachable.formed
  rw [← hcont'.chain hγ'.machine.current, ← hcont'.chain hscope] at hchain
  have hδmem : β.machine.current ∈ σ.machine.store.chain δ.machine.current :=
    ((hδ.next hstep).continues.trans hcont).mem_chain hmem
  refine ⟨β, hβ, (hbefore.tail (.advance hstep)).trans hleads, ?_⟩
  refine hσ.machine.store.tree.mem_chain_trans hσ.machine.current ?_ hmem'
  rw [hchain]
  exact List.mem_cons_of_mem _ hδmem

/-- In a call, a name that the function does not bind is looked for from the scope of the function
on. -/
theorem InCall.owner? (h : InCall config f σ) (hc : σ.machine.store.closures[f.id]? = some c)
    (hname : name ∉ c.binders) :
    σ.machine.store.owner? σ.machine.current name = σ.machine.store.owner? c.scope name := by
  obtain ⟨β, hβ, hleads, hmem⟩ := h
  have hformed : β.Formed := hβ.reachable.formed
  have hσ : σ.Formed := Phase.Reachable.formed (hβ.reachable.trans hleads)
  have hcont : β.machine.store.Continues σ.machine.store := (hβ.reachable.formed.leads hleads).2
  obtain ⟨c', hc', -, hscope, hne, hchain, hfree⟩ := hβ.scope
  obtain rfl : c = c' := Option.some.inj (hc.symm.trans (hcont.closure hc'))
  rw [← hcont.chain hformed.machine.current, ← hcont.chain hscope] at hchain
  have hfree : σ.Free name β.machine.current :=
    Phase.Leads.free hβ.reachable hleads hformed.machine.current hne (hfree name hname)
  have hnot : ∀ l, β.machine.current ∈ σ.machine.store.chain l → name ∉ σ.machine.store.names l :=
    fun l hl hn => hfree l hl (.bound hn)
  calc σ.machine.store.owner? σ.machine.current name
      = σ.machine.store.owner? β.machine.current name :=
        hσ.machine.store.tree.owner?_inside hσ.machine.current hmem hnot
    _ = σ.machine.store.owner? c.scope name :=
        Store.owner?_of_not_mem hchain (hnot _ (hchain ▸ List.mem_cons_self))

/-- Names that a function does not bind are looked for from its scope on, and what is found is the
innermost of the scopes that come into question. -/
theorem InCall.finds {σ' : Moment} {j j' : ScopeId} (hσ : InCall config f σ)
    (hσ' : InCall config f σ') (hleads : (Phase.running σ).Leads config (.running σ'))
    (hc : σ.machine.store.closures[f.id]? = some c) (hname : name ∉ c.binders)
    (hj : σ.Finds name j) (hj' : σ'.Finds name j') :
    let candidate k := k = j ∨
      (k ∈ σ.machine.store.chain c.scope ∧ j ∈ σ.machine.store.chain k ∧ k ≠ j) ∧
        Phase.Declares config (.running σ) (.running σ') name k
    σ.machine.store.owner? c.scope name = some j ∧
    σ'.machine.store.owner? c.scope name = some j' ∧
    candidate j' ∧ ∀ k, candidate k → k ∈ σ.machine.store.chain j' := by
  have hformed : σ.Formed := hσ.reachable.formed
  have hformed' : σ'.Formed := hσ'.reachable.formed
  have htree := hformed.machine.store.tree
  have hcont : σ.machine.store.Continues σ'.machine.store := (hσ.reachable.formed.leads hleads).2
  have hscope := hformed.machine.store.scopes _ _ hc
  have hfound := (hσ.owner? hc hname).symm.trans hj.owner
  have hfound' := (hσ'.owner? (hcont.closure hc) hname).symm.trans hj'.owner
  obtain ⟨k, hk, hlater⟩ := htree.owner?_later hcont hscope hfound
  obtain rfl : j' = k := Option.some.inj (hfound'.symm.trans hk)
  have hmem : j' ∈ σ.machine.store.chain c.scope :=
    hlater.elim (fun h => h ▸ Store.mem_chain_of_owner? hfound) fun h => h.1
  have hlt := htree.lt_of_mem_chain hscope hmem
  refine ⟨hfound, hfound', ?_, ?_⟩
  · rcases hlater with rfl | ⟨hmem, haround, hne, hn, hn'⟩
    · exact .inl rfl
    · exact .inr ⟨⟨hmem, haround, hne⟩, hleads.declares hσ.reachable.formed hlt hn hn'⟩
  · rintro k (rfl | ⟨⟨hk, -, -⟩, hdeclared⟩)
    · exact hlater.elim (fun h => h ▸ Store.mem_chain_self hlt) fun h => h.2.1
    · have hbound := hdeclared.mem_names hσ.reachable.formed
      rw [← hcont.chain hlt]
      rw [← hcont.chain hscope] at hk
      exact hformed'.machine.store.tree.mem_chain_owner? (Nat.lt_of_lt_of_le hscope hcont.size)
        hfound' hk hbound

/-- **Functions find names where they were declared.** Let a function be called. Its body is run in
the call as long as it calls no other function, and so are the calls of the functions that are
declared in the call. If a name is looked up in a call of the function, and neither a parameter nor
a declaration in the function has this name, then the variable that is found is the one that the
name belongs to in the scope of the function, wherever it was called. A later call finds the same
variable, unless the name was declared since in a scope around the function, inside the one in which
it was found before; then it is found in the innermost one of these. -/
theorem functions_find_names (config : Config) (f : FunctionRef) :
    (∀ β σ, Begins config f β → Moment.Leads config { β with frames := [] } σ →
      (∀ g ∈ σ.frames, ¬ g.IsCall) → InCall config f (σ.hold β.frames)) ∧
    (∀ δ δ' σ g token params body, InCall config f δ → δ.task = .declare token params body →
      δ.next? config = some δ' → δ'.task = .value (.function g) →
      (Phase.running δ').Leads config (.running σ) → InCall config g σ → InCall config f σ) ∧
    ∀ σ σ' c name j j', InCall config f σ → InCall config f σ' →
      (Phase.running σ).Leads config (.running σ') →
      σ.machine.store.closures[f.id]? = some c → name ∉ c.binders →
      σ.Finds name j → σ'.Finds name j' →
      let candidate k := k = j ∨
        (k ∈ σ.machine.store.chain c.scope ∧ j ∈ σ.machine.store.chain k ∧ k ≠ j) ∧
          Phase.Declares config (.running σ) (.running σ') name k
      σ.machine.store.owner? c.scope name = some j ∧
      σ'.machine.store.owner? c.scope name = some j' ∧
      candidate j' ∧ ∀ k, candidate k → k ∈ σ.machine.store.chain j' :=
  ⟨fun _ _ hβ h hcall => hβ.inCall h hcall,
    fun _ _ _ _ _ _ _ hδ ht hstep hg hleads hσ => hδ.of_declared ht hstep hg hleads hσ,
    fun _ _ _ _ _ _ hσ hσ' hleads hc hname hj hj' => hσ.finds hσ' hleads hc hname hj hj'⟩

/-! ## Runs -/

/-- So many steps after a moment, the function is called, and so many steps after its body has begun
to run, a moment in the call. -/
def inCallAfter (config : Config) (f : FunctionRef) (n k : Nat) (σ : Moment) : Option Moment := do
  let ρ ← after config n σ
  let ρ' ← ρ.next? config
  let β ← ρ'.next? config
  let τ ← after config k β
  if ρ.callee? = some f ∧ ρ'.task.scopes = [β.machine.current] ∧
      β.machine.current ∈ τ.machine.store.chain τ.machine.current then some τ
  else none

theorem inCall_of_inCallAfter {n k : Nat} (hσ : Phase.Reachable config (.running σ))
    (h : inCallAfter config f n k σ = some τ) :
    InCall config f τ ∧ σ.Leads config τ := by
  unfold inCallAfter at h
  obtain ⟨ρ, hρ, h⟩ := Option.bind_eq_some_iff.mp h
  obtain ⟨ρ', hρ', h⟩ := Option.bind_eq_some_iff.mp h
  obtain ⟨β, hβ, h⟩ := Option.bind_eq_some_iff.mp h
  obtain ⟨τ', hτ, h⟩ := Option.bind_eq_some_iff.mp h
  obtain ⟨⟨hcallee, hscopes, hmem⟩, heq⟩ := Option.ite_none_right_eq_some.mp h
  obtain rfl := Option.some.inj heq
  have hbody := moment_leads_of_after hτ
  refine ⟨⟨β, ⟨ρ, ρ', _, hσ.trans (leads_of_after hρ), hcallee, hρ', hscopes, hβ⟩,
    .of_moments hbody, hmem⟩, ?_⟩
  exact (moment_leads_of_after hρ).trans (.head hρ' (.head hβ hbody))

/-- The variable that is changed in a function is another one after a declaration. -/
theorem functions_find_names_redeclared :
    let config : Config := ⟨false, fun _ => 0⟩
    let s : Step := .run "var a; { func f() { a = nil; } f(); var a; f(); }"
    ∃ σ σ', s.Passes config ⟨40, 5⟩ .initial σ ∧ InCall config ⟨0, "f", 0⟩ σ ∧
      InCall config ⟨0, "f", 0⟩ σ' ∧ σ.Finds "a" 0 ∧ σ'.Finds "a" 1 ∧
      Phase.Declares config (.running σ) (.running σ') "a" 1 ∧
      0 ∈ σ.machine.store.chain 1 := by
  intro config s
  obtain ⟨-, -, hfinds⟩ := functions_find_names config ⟨0, "f", 0⟩
  have hs : s.program?.isSome = true := by decide +kernel
  let σ₀ := s.entry config ⟨40, 5⟩ .initial
  -- the moments at which the variable is changed, in the first call and in the second
  have hfirst : ((inCallAfter config ⟨0, "f", 0⟩ 23 5 σ₀).map fun σ =>
      (σ.looksUp?, σ.machine.store.owner? σ.machine.current "a",
        σ.machine.store.closures[0]?.map Closure.binders)) =
      some (some "a", some 0, some []) := by decide +kernel
  have hsecond : (((inCallAfter config ⟨0, "f", 0⟩ 23 5 σ₀).bind
      (inCallAfter config ⟨0, "f", 0⟩ 21 5)).map fun σ =>
      (σ.looksUp?, σ.machine.store.owner? σ.machine.current "a")) =
      some (some "a", some 1) := by decide +kernel
  obtain ⟨σ, hσ, hfirst⟩ := Option.map_eq_some_iff.mp hfirst
  rw [hσ, Option.bind_some] at hsecond
  obtain ⟨σ', hσ', hsecond⟩ := Option.map_eq_some_iff.mp hsecond
  obtain ⟨hlook, hrest⟩ := Prod.mk.inj hfirst
  obtain ⟨howner, hclosure⟩ := Prod.mk.inj hrest
  obtain ⟨hlook', howner'⟩ := Prod.mk.inj hsecond
  obtain ⟨c, hc, hbinders⟩ := Option.map_eq_some_iff.mp hclosure
  obtain ⟨hcall, hbefore⟩ := inCall_of_inCallAfter (Step.reachable_entry config ⟨40, 5⟩ hs) hσ
  obtain ⟨hcall', hbetween⟩ := inCall_of_inCallAfter hcall.reachable hσ'
  have hname : "a" ∉ c.binders := hbinders ▸ List.not_mem_nil
  obtain ⟨-, -, hsame | ⟨-, hdeclared⟩, hinnermost⟩ := hfinds σ σ' c "a" 0 1 hcall hcall'
    (.of_moments hbetween) hc hname ⟨hlook, howner⟩ ⟨hlook', howner'⟩
  · cases hsame
  · exact ⟨σ, σ', Step.passes_of_entry hs hbefore, hcall, hcall', ⟨hlook, howner⟩,
      ⟨hlook', howner'⟩, hdeclared, hinnermost 0 (.inl rfl)⟩

/-- The identifier that is read next, with its line and its offset. -/
def reads? (σ : Moment) : Option (String × Nat × Nat) :=
  match σ.task with
  | .evaluate (.ident ⟨.identifier, name, none, line, offset⟩) => some (name, line, offset)
  | _ => none

theorem task_of_reads? {line offset : Nat} (h : reads? σ = some (name, line, offset)) :
    σ.task = .evaluate (.ident ⟨.identifier, name, none, line, offset⟩) := by
  unfold reads? at h
  split at h
  · rename_i ht
    cases h
    exact ht
  · cases h

/-- What is printed is another variable after a declaration, though it is the same occurrence of its
name in the same function, and the function neither has a parameter of that name nor declares it. -/
theorem variable_changes_after_redeclaration :
    let config : Config := ⟨false, fun _ => 0⟩
    let source := "var a = true; { func show() { print a; } show(); var a = false; show(); }"
    let s : Step := .run source
    let token : Token := ⟨.identifier, "a", none, 1, 36⟩
    (Grammar.parseSource source).diagnostics = [] ∧
    ∃ σ σ' c, s.Passes config ⟨40, 5⟩ .initial σ ∧ s.Passes config ⟨40, 5⟩ .initial σ' ∧
      InCall config ⟨0, "show", 0⟩ σ ∧ InCall config ⟨0, "show", 0⟩ σ' ∧
      (Phase.running σ).Leads config (.running σ') ∧
      σ.task = .evaluate (.ident token) ∧ σ'.task = .evaluate (.ident token) ∧
      σ.machine.store.closures[0]? = some c ∧ token.lexeme ∉ c.binders ∧
      σ.Finds token.lexeme 0 ∧ σ'.Finds token.lexeme 1 := by
  intro config source s token
  have hclean : (Grammar.parseSource source).diagnostics.isEmpty = true := by decide +kernel
  have hs : s.program?.isSome = true := by decide +kernel
  let σ₀ := s.entry config ⟨40, 5⟩ .initial
  -- the moments at which the variable is read, in the first call and in the second
  have hfirst : ((inCallAfter config ⟨0, "show", 0⟩ 24 3 σ₀).map fun σ =>
      (reads? σ, σ.machine.store.owner? σ.machine.current "a",
        σ.machine.store.closures[0]?.map Closure.binders)) =
      some (some ("a", 1, 36), some 0, some []) := by decide +kernel
  have hsecond : (((inCallAfter config ⟨0, "show", 0⟩ 24 3 σ₀).bind
      (inCallAfter config ⟨0, "show", 0⟩ 22 3)).map fun σ =>
      (reads? σ, σ.machine.store.owner? σ.machine.current "a")) =
      some (some ("a", 1, 36), some 1) := by decide +kernel
  obtain ⟨σ, hσ, hfirst⟩ := Option.map_eq_some_iff.mp hfirst
  rw [hσ, Option.bind_some] at hsecond
  obtain ⟨σ', hσ', hsecond⟩ := Option.map_eq_some_iff.mp hsecond
  obtain ⟨hread, hrest⟩ := Prod.mk.inj hfirst
  obtain ⟨howner, hclosure⟩ := Prod.mk.inj hrest
  obtain ⟨hread', howner'⟩ := Prod.mk.inj hsecond
  obtain ⟨c, hc, hbinders⟩ := Option.map_eq_some_iff.mp hclosure
  have ht : σ.task = .evaluate (.ident token) := task_of_reads? hread
  have ht' : σ'.task = .evaluate (.ident token) := task_of_reads? hread'
  obtain ⟨hcall, hbefore⟩ := inCall_of_inCallAfter (Step.reachable_entry config ⟨40, 5⟩ hs) hσ
  obtain ⟨hcall', hbetween⟩ := inCall_of_inCallAfter hcall.reachable hσ'
  refine ⟨List.isEmpty_iff.mp hclean, σ, σ', c, Step.passes_of_entry hs hbefore,
    Step.passes_of_entry hs (hbefore.trans hbetween), hcall, hcall', .of_moments hbetween, ht, ht',
    hc, hbinders ▸ List.not_mem_nil, ⟨?_, howner⟩, ⟨?_, howner'⟩⟩
  · simp only [Moment.looksUp?, ht]
  · simp only [Moment.looksUp?, ht']

end Session

end Lox
