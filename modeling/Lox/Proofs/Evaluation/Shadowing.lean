import Lox.Proofs.Evaluation.Formation
import Lox.Proofs.Evaluation.Transition

/-!
# Names that are not shadowed

A name can come to be bound in a scope only by code that is run there, or in a scope around it: by
what is to be done there already, or by the body of a function that was made there. So if no such
code binds the name, in a scope and in all those inside it, then it is bound in none of them, and it
will not be.

This is what makes the parameters and the declarations of a function count for the scopes of its
calls: in the scope that is made for a call, nothing binds a name that its function does not bind.

## Main definitions

* `Moment.MayBind σ name k`: the name is bound in the scope `k`, or by code that is run there
* `Moment.Free σ name i`: in the scope `i` and inside it, nothing binds the name

## Main results

* `Moment.Free.next`: what is free stays free
* `Moment.free_of_call`: in the scope of a call, the names are free that its function does not bind
-/

namespace Lox

open Eval

/-- A frame has code that binds the name in the scope `k`. In front of the frames the scope `i` is
current. -/
inductive Frame.Bind (name : String) (k : ScopeId) : ScopeId → List Frame → Prop
  | here {f : Frame} {fs : List Frame} : name ∈ f.binders → Bind name k k (f :: fs)
  | behind {i : ScopeId} {f : Frame} {fs : List Frame} :
      Bind name k (f.scopeBehind i) fs → Bind name k i (f :: fs)

namespace Moment

/-- The name is bound in the scope `k`, or there is code that will be run in that scope, or in one
inside it, and binds the name there. -/
inductive MayBind (σ : Moment) (name : String) : ScopeId → Prop
  | bound {k : ScopeId} : name ∈ σ.machine.store.names k → MayBind σ name k
  /-- The function can be called. -/
  | closure {id : Nat} {c : Closure} : σ.machine.store.closures[id]? = some c →
      name ∈ c.binders → MayBind σ name c.scope
  /-- The code comes next, in the current scope or in one that is entered. -/
  | task : name ∈ σ.task.binders → MayBind σ name (σ.task.scopes.headD σ.machine.current)
  | frame {k : ScopeId} : Frame.Bind name k σ.machine.current σ.frames → MayBind σ name k

variable {config : Config} {σ τ : Moment} {name : String} {i k : ScopeId}

/-! ## Steps -/

/-- In a scope, plain frames have the code of all of them. -/
theorem bind_append_iff {new frames : List Frame} (h : ∀ f ∈ new, IsPlain f) :
    Frame.Bind name k i (new ++ frames) ↔
      k = i ∧ name ∈ new.flatMap Frame.binders ∨ Frame.Bind name k i frames := by
  induction new with
  | nil => simp
  | cons f new ih =>
    obtain ⟨hf, hnew⟩ := List.forall_mem_cons.mp h
    rw [List.cons_append, List.flatMap_cons, List.mem_append]
    constructor
    · rintro (hb | hb)
      · exact .inl ⟨rfl, .inl hb⟩
      · rw [hf.scopeBehind, ih hnew] at hb
        exact hb.imp (fun h => ⟨h.1, .inr h.2⟩) id
    · rintro (⟨rfl, hb | hb⟩ | hb)
      · exact .here hb
      · exact .behind (by rw [hf.scopeBehind, ih hnew]; exact .inl ⟨rfl, hb⟩)
      · exact .behind (by rw [hf.scopeBehind, ih hnew]; exact .inr hb)

/-- **Step.** What may bind a name after a step could do so before, or it is in a scope that is made
by the step, and could do so in the scope around that. -/
theorem Transition.mayBind (h : Transition σ τ) (hb : τ.MayBind name k) :
    σ.MayBind name k ∨ k = σ.machine.store.scopes.size ∧
      ∃ j, τ.machine.store.chain k = k :: σ.machine.store.chain j ∧ σ.MayBind name j := by
  cases h with
  | @work t u old new frames calls m m' ht hu hplain hcode hm =>
    obtain ⟨hold, hnew⟩ := List.forall_mem_append.mp hplain
    -- what the step has left of the code was to be run in the current scope before
    have hplace : ∀ x, x ∈ u.binders ++ new.flatMap Frame.binders →
        MayBind ⟨t, old ++ frames, calls, m⟩ x m.current := by
      intro x hx
      rcases List.mem_append.mp (hcode hx) with hx | hx
      · have htask := MayBind.task (σ := ⟨t, old ++ frames, calls, m⟩) hx
        rwa [ht] at htask
      · exact .frame ((bind_append_iff hold).mpr (.inl ⟨rfl, hx⟩))
    left
    rcases hb with hb | ⟨hc, hb⟩ | hb | hb
    · exact .bound (hm.store ▸ hb)
    · exact .closure (hm.store ▸ hc) hb
    · rw [hu]
      exact hm.current ▸ hplace name (List.mem_append_left _ hb)
    · rcases (bind_append_iff hnew).mp hb with ⟨rfl, hb'⟩ | hb'
      · exact hm.current ▸ hplace name (List.mem_append_right _ hb')
      · exact .frame ((bind_append_iff hold).mpr (.inr (hm.current ▸ hb')))
  | @assign _ _ j _ _ m ho =>
    left
    rcases hb with hb | ⟨hc, hb⟩ | hb | hb
    · rw [Store.names_define_of_mem (Store.mem_names_of_owner? ho)] at hb
      exact .bound hb
    · exact .closure hc hb
    · exact absurd hb List.not_mem_nil
    · exact .frame (.behind hb)
  | @define token _ _ _ m =>
    left
    rcases hb with hb | ⟨hc, hb⟩ | hb | hb
    · rcases Store.mem_names_define hb with hb' | ⟨rfl, rfl⟩
      · exact .bound hb'
      · exact .frame (.here (List.mem_singleton.mpr rfl))
    · exact .closure hc hb
    · exact absurd hb List.not_mem_nil
    · exact .frame (.behind hb)
  | @declare token params body _ _ _ m =>
    left
    rcases hb with hb | ⟨hc, hb⟩ | hb | hb
    · exact .bound hb
    · simp only [Store.newClosure, Array.getElem?_push] at hc
      split at hc
      · obtain rfl := Option.some.inj hc
        exact .task hb
      · exact .closure hc hb
    · exact absurd hb List.not_mem_nil
    · exact .frame hb
  | @block ss _ _ m =>
    rcases hb with hb | ⟨hc, hb⟩ | hb | hb
    · rw [Store.names_newScope] at hb
      exact .inl (.bound hb)
    · exact .inl (.closure hc hb)
    · exact .inr ⟨rfl, m.current, Store.chain_newScope_self _ _, .task hb⟩
    · exact .inl (.frame hb)
  | @call f vs c _ _ m _ hc =>
    rcases hb with hb | ⟨hc', hb⟩ | hb | hb
    · rcases Store.mem_names_newCall hb with hb' | ⟨rfl, hb'⟩
      · exact .inl (.bound hb')
      · exact .inr ⟨rfl, c.scope, Store.chain_newCall_self _ _ _,
          .closure hc (List.mem_append_left _ hb')⟩
    · rw [Store.closures_newCall] at hc'
      exact .inl (.closure hc' hb)
    · exact .inr ⟨rfl, c.scope, Store.chain_newCall_self _ _ _,
        .closure hc (List.mem_append_right _ hb)⟩
    · rcases hb with hb | hb
      · exact absurd hb List.not_mem_nil
      · exact .inl (.frame hb)
  | enter =>
    left
    rcases hb with hb | ⟨hc, hb⟩ | hb | hb
    · exact .bound hb
    · exact .closure hc hb
    · exact .task hb
    · rcases hb with hb | hb
      · exact absurd hb List.not_mem_nil
      · exact .frame hb
  | leave hcode hscopes =>
    left
    rcases hb with hb | ⟨hc, hb⟩ | hb | hb
    · exact .bound hb
    · exact .closure hc hb
    · rw [hcode] at hb
      exact absurd hb List.not_mem_nil
    · exact .frame (.behind hb)
  | ret hscopes hcode =>
    left
    rcases hb with hb | ⟨hc, hb⟩ | hb | hb
    · exact .bound hb
    · exact .closure hc hb
    · rw [hcode] at hb
      exact absurd hb List.not_mem_nil
    · exact .frame (.behind hb)

/-- Only in scopes that exist, a name can be bound. -/
theorem Formed.lt_of_bind {s : Store} {frames : List Frame} (hf : ∀ f ∈ frames, f.Formed s)
    (hi : i < s.scopes.size) (hb : Frame.Bind name k i frames) : k < s.scopes.size := by
  induction hb with
  | here => exact hi
  | @behind i f fs _ ih =>
    obtain ⟨hf, hfs⟩ := List.forall_mem_cons.mp hf
    refine ih hfs ?_
    cases f with
    | leave outer => exact hf.scopes outer (List.mem_singleton.mpr rfl)
    | _ => exact hi

theorem Formed.lt_of_mayBind (hσ : σ.Formed) (hb : σ.MayBind name k) :
    k < σ.machine.store.scopes.size := by
  rcases hb with hb | ⟨hc, -⟩ | hb | hb
  · refine Nat.lt_of_not_le fun hle => ?_
    rw [Store.names_of_size_le hle] at hb
    exact absurd hb List.not_mem_nil
  · exact hσ.machine.store.scopes _ _ hc
  · have hscopes := hσ.task.scopes
    cases hs : σ.task.scopes with
    | nil => exact hσ.machine.current
    | cons j _ => exact hscopes j (hs ▸ List.mem_cons_self)
  · exact Formed.lt_of_bind hσ.frames hσ.machine.current hb

/-! ## Free names -/

/-- In the scope `i` and in those inside it, the name is not bound, and no code binds it. -/
def Free (σ : Moment) (name : String) (i : ScopeId) : Prop :=
  ∀ k, i ∈ σ.machine.store.chain k → ¬ σ.MayBind name k

/-- **Step.** What is free stays free: a scope that is made inside `i` is made in a scope in which
the name is free. -/
theorem Free.next (h : σ.Free name i) (hσ : σ.Formed) (hi : i < σ.machine.store.scopes.size)
    (hstep : σ.next? config = some τ) : τ.Free name i := by
  intro k hk hb
  rcases (transition_of_next? hstep).mayBind hb with hold | ⟨rfl, j, hchain, hj⟩
  · rw [(hσ.next hstep).continues.chain (hσ.lt_of_mayBind hold)] at hk
    exact h k hk hold
  · rw [hchain] at hk
    exact h j ((List.mem_cons.mp hk).resolve_left (Nat.ne_of_lt hi)) hj

/-- What the first step of a call does. -/
theorem enter_of_callFunction {f : FunctionRef} {vs : List Value}
    (ht : σ.task = .callFunction f vs) (hstep : σ.next? config = some τ)
    (hτ : τ.task.scopes = [i]) :
    ∃ c calls ws, σ.machine.store.closures[f.id]? = some c ∧ i = σ.machine.store.scopes.size ∧
      τ = ⟨.enter i c.body, .called (calls + 1) :: σ.frames, calls,
        { σ.machine with store := σ.machine.store.newCall c vs, log := ws ++ σ.machine.log }⟩ := by
  have h := transition_of_next? hstep
  cases h with
  | @call _ _ c _ calls _ ws hc =>
    cases ht
    cases hτ
    exact ⟨c, calls, ws, hc, rfl, rfl⟩
  | work _ hu => cases hu.symm.trans hτ
  | leave _ hs => cases hs.symm.trans hτ
  | ret _ _ hu => cases hu.symm.trans hτ
  | _ => cases ht

/-- In the scope of a call, the names are free that the function does not bind. -/
theorem free_of_call (hσ : σ.Formed) {f : FunctionRef} {vs : List Value} {c : Closure}
    (ht : σ.task = .callFunction f vs) (hstep : σ.next? config = some τ)
    (hτ : τ.task.scopes = [i]) (hc : σ.machine.store.closures[f.id]? = some c)
    (hname : name ∉ c.binders) : τ.Free name i := by
  obtain ⟨c', calls, ws, hc', rfl, rfl⟩ := enter_of_callFunction ht hstep hτ
  obtain rfl : c = c' := Option.some.inj (hc.symm.trans hc')
  intro k hk hb
  have hnew : ¬ k < σ.machine.store.scopes.size := fun hlt => by
    have hk' : σ.machine.store.scopes.size ∈ (σ.machine.store.newCall c vs).chain k := hk
    rw [Store.chain_newCall c vs hlt] at hk'
    exact Nat.lt_irrefl _ (hσ.machine.store.tree.lt_of_mem_chain hlt hk')
  rcases hb with hb | ⟨hc', -⟩ | hb | hb
  · rcases Store.mem_names_newCall hb with hb' | ⟨-, hb'⟩
    · rw [Store.names_of_size_le (Nat.le_of_not_lt hnew)] at hb'
      exact absurd hb' List.not_mem_nil
    · exact hname (List.mem_append_left _ hb')
  · rw [Store.closures_newCall] at hc'
    exact hnew (hσ.machine.store.scopes _ _ hc')
  · exact hname (List.mem_append_right _ hb)
  · rcases hb with hb | hb
    · exact absurd hb List.not_mem_nil
    · exact hnew (Formed.lt_of_bind hσ.frames hσ.machine.current hb)

end Moment

end Lox
