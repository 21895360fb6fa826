import Lox.Proofs.Store.Padding

/-!
# Chains of scopes

A chain goes on from each of its scopes as the chain of that scope does. So the scope to which a
name belongs can be looked for in parts: as long as the name is not bound, it is the one to which
the name belongs further outside.

A name may belong to another scope later. As names are only ever bound, and chains do not change,
the other scope lies inside the one to which the name belonged before, and has bound the name since.

## Main definitions

* `Store.newCall s c vs`: the store with a scope for a call

## Main results

* `Store.IsTree.chain_induction`: induction from the global scope inwards
* `Store.IsTree.mem_chain_owner?`: the scope to which a name belongs is the innermost one
* `Store.IsTree.owner?_inside`: the scope to which a name belongs that is not bound inside a scope
* `Store.IsTree.owner?_later`: the scope to which a name belongs in a later store
-/

namespace Lox

namespace Store

variable {s s' : Store} {i j k : ScopeId} {name : String}

/-! ## Scopes of calls -/

/-- The store with a scope for a call of the function: inside the scope of the function, with the
parameters bound to the arguments. -/
def newCall (s : Store) (c : Closure) (vs : List Value) : Store :=
  (c.params.zip vs).foldl (fun t (param, v) => t.define s.scopes.size param.lexeme v)
    (s.newScope (some c.scope)).1

theorem newCall_continues (s : Store) (c : Closure) (vs : List Value) :
    (s.newScope (some c.scope)).1.Continues (s.newCall c vs) :=
  continues_defineAll _ _

theorem chain_newCall (c : Closure) (vs : List Value) (h : i < s.scopes.size) :
    (s.newCall c vs).chain i = s.chain i := by
  have hlt : i < (s.newScope (some c.scope)).1.scopes.size := by
    rw [size_newScope]
    exact Nat.lt_succ_of_lt h
  rw [(s.newCall_continues c vs).chain hlt, chain_newScope h]

theorem chain_newCall_self (s : Store) (c : Closure) (vs : List Value) :
    (s.newCall c vs).chain s.scopes.size = s.scopes.size :: s.chain c.scope := by
  have hlt : s.scopes.size < (s.newScope (some c.scope)).1.scopes.size := by
    rw [size_newScope]
    exact Nat.lt_succ_self _
  rw [(s.newCall_continues c vs).chain hlt, chain_newScope_self]

theorem names_newScope (s : Store) (parent : Option ScopeId) (i : ScopeId) :
    (s.newScope parent).1.names i = s.names i := by
  rcases Nat.lt_trichotomy i s.scopes.size with h | rfl | h
  · rw [names, bindings_newScope h, names]
  · rw [names, bindings_newScope_self, names_of_size_le (Nat.le_refl _), Bindings.names,
      List.map_nil]
  · rw [names_of_size_le (Nat.le_of_lt h), names_of_size_le]
    rw [size_newScope]
    exact h

/-- The only names that are bound are those of the parameters, in the new scope. -/
theorem mem_names_newCall {c : Closure} {vs : List Value} (h : name ∈ (s.newCall c vs).names i) :
    name ∈ s.names i ∨ i = s.scopes.size ∧ name ∈ c.params.map Token.lexeme := by
  rw [← names_newScope s (some c.scope)]
  have hps : ∀ p ∈ c.params.zip vs, p.1.lexeme ∈ c.params.map Token.lexeme := fun p hp =>
    List.mem_map_of_mem (List.of_mem_zip hp).1
  revert h hps
  unfold newCall
  generalize (s.newScope (some c.scope)).1 = t
  generalize c.params.zip vs = ps
  -- by induction on the parameters: each of them is bound in the new scope
  induction ps generalizing t with
  | nil => exact fun h _ => .inl h
  | cons p ps ih =>
    intro h hps
    rw [List.forall_mem_cons] at hps
    rcases ih _ h hps.2 with h | h
    · rcases mem_names_define h with h | ⟨rfl, rfl⟩
      · exact .inl h
      · exact .inr ⟨rfl, hps.1⟩
    · exact .inr h

theorem closures_newCall (s : Store) (c : Closure) (vs : List Value) :
    (s.newCall c vs).closures = s.closures := by
  have hall : ∀ (ps : List (Token × Value)) (t : Store),
      (ps.foldl (fun t (param, v) => t.define s.scopes.size param.lexeme v) t).closures =
        t.closures := by
    intro ps
    induction ps with
    | nil => exact fun _ => rfl
    | cons p ps ih => exact fun t => ih _
  exact hall _ _

/-! ## Names in chains -/

/-- The chain of a scope is that of the global one, or goes on as the chain of an older scope. -/
theorem IsTree.chain_cases (h : s.IsTree) (hi : i < s.scopes.size) :
    i = globalScope ∧ s.chain i = [i] ∨ ∃ j < i, s.chain i = i :: s.chain j := by
  obtain ⟨outer, ho, hc⟩ := chain_of_lt hi
  by_cases hne : i = globalScope
  · subst hne
    obtain rfl : outer = [] := Option.some.inj (ho.symm.trans h.global)
    exact .inl ⟨rfl, hc⟩
  · obtain ⟨j, hj, ho'⟩ := h.inner i hi hne
    obtain rfl : outer = s.chain j := Option.some.inj (ho.symm.trans ho')
    exact .inr ⟨j, hj, hc⟩

/-- Induction from the global scope inwards. -/
@[elab_as_elim]
theorem IsTree.chain_induction (h : s.IsTree) {motive : (i : ScopeId) → i < s.scopes.size → Prop}
    (global : ∀ i hi, s.chain i = [i] → motive i hi)
    (inner : ∀ i hi j hj, s.chain i = i :: s.chain j → motive j hj → motive i hi)
    (i : ScopeId) (hi : i < s.scopes.size) : motive i hi := by
  induction i using Nat.strongRecOn with
  | _ i ih =>
    rcases h.chain_cases hi with ⟨-, hc⟩ | ⟨j, hj, hc⟩
    · exact global i hi hc
    · exact inner i hi j (Nat.lt_trans hj hi) hc (ih j hj _)

theorem mem_chain_self (hi : i < s.scopes.size) : i ∈ s.chain i := by
  obtain ⟨outer, -, hc⟩ := chain_of_lt hi
  rw [hc]
  exact List.mem_cons_self

theorem IsTree.mem_chain_trans (h : s.IsTree) (hk : k < s.scopes.size) (hi : i ∈ s.chain j)
    (hj : j ∈ s.chain k) : i ∈ s.chain k := by
  induction k, hk using h.chain_induction with
  | global k hk hc =>
    rw [hc] at hj
    exact List.mem_singleton.mp hj ▸ hi
  | inner k hk l hl hc ih =>
    rw [hc] at hj
    rcases List.mem_cons.mp hj with rfl | hj
    · exact hi
    · exact hc ▸ List.mem_cons_of_mem k (ih hj)

/-- What lies inside a scope lies inside it later on. -/
theorem Continues.mem_chain (hc : s.Continues s') (h : j ∈ s.chain i) : j ∈ s'.chain i := by
  have hi : i < s.scopes.size := by
    refine Nat.lt_of_not_le fun hle => ?_
    rw [Store.chain, Array.getElem?_eq_none hle] at h
    cases h
  rwa [hc.chain hi]

theorem mem_chain_of_owner? (h : s.owner? i name = some j) : j ∈ s.chain i :=
  List.mem_of_find?_eq_some h

/-- The scope to which a name belongs is the innermost one of a chain that binds it. -/
theorem IsTree.mem_chain_owner? (h : s.IsTree) (hi : i < s.scopes.size)
    (hj : s.owner? i name = some j) (hk : k ∈ s.chain i) (hn : name ∈ s.names k) :
    k ∈ s.chain j := by
  induction i, hi using h.chain_induction with
  | global i hi hc =>
    have hmem := mem_chain_of_owner? hj
    rw [hc, List.mem_singleton] at hk hmem
    subst hk hmem
    exact mem_chain_self hi
  | inner i hi l hl hc ih =>
    by_cases hb : name ∈ s.names i
    · obtain rfl : i = j := Option.some.inj ((owner?_of_mem hi hb).symm.trans hj)
      exact hk
    · rw [hc] at hk
      refine ih (by rwa [owner?_of_not_mem hc hb] at hj) ((List.mem_cons.mp hk).resolve_left ?_)
      rintro rfl
      exact hb hn

/-- A name that is bound nowhere inside a scope belongs to what it belongs to in that scope. -/
theorem IsTree.owner?_inside (h : s.IsTree) (hk : k < s.scopes.size) (hi : i ∈ s.chain k)
    (hn : ∀ l, i ∈ s.chain l → name ∉ s.names l) : s.owner? k name = s.owner? i name := by
  induction k, hk using h.chain_induction with
  | global k hk hc =>
    rw [hc] at hi
    rw [List.mem_singleton.mp hi]
  | inner k hk j hj hc ih =>
    have hfree := hn k hi
    rw [hc] at hi
    rcases List.mem_cons.mp hi with rfl | hi
    · rfl
    · rw [owner?_of_not_mem hc hfree, ih hi]

/-- A name that belongs to some scope belongs to some scope in a later store. If it is another one
then it lies inside the first one, and has bound the name since. -/
theorem IsTree.owner?_later (h : s.IsTree) (hc : s.Continues s') (hi : i < s.scopes.size)
    (hj : s.owner? i name = some j) :
    ∃ k, s'.owner? i name = some k ∧ (k = j ∨
      k ∈ s.chain i ∧ j ∈ s.chain k ∧ k ≠ j ∧ name ∉ s.names k ∧ name ∈ s'.names k) := by
  have hlt : ∀ {k : ScopeId}, k < s.scopes.size → k < s'.scopes.size := fun hk =>
    Nat.lt_of_lt_of_le hk hc.size
  induction i, hi using h.chain_induction with
  | global i hi hchain =>
    have hmem := mem_chain_of_owner? hj
    rw [hchain] at hmem
    obtain rfl := List.mem_singleton.mp hmem
    exact ⟨j, owner?_of_mem (hlt hi) ((hc.names j).subset (mem_names_of_owner? hj)), .inl rfl⟩
  | inner i hi k hk hchain ih =>
    by_cases hb : name ∈ s.names i
    · obtain rfl : i = j := Option.some.inj ((owner?_of_mem hi hb).symm.trans hj)
      exact ⟨i, owner?_of_mem (hlt hi) ((hc.names i).subset hb), .inl rfl⟩
    by_cases hb' : name ∈ s'.names i
    · have hij : i ≠ j := fun e => hb (e ▸ mem_names_of_owner? hj)
      exact ⟨i, owner?_of_mem (hlt hi) hb',
        .inr ⟨mem_chain_self hi, mem_chain_of_owner? hj, hij, hb, hb'⟩⟩
    have hchain' : s'.chain i = i :: s'.chain k := by rw [hc.chain hi, hchain, hc.chain hk]
    rw [owner?_of_not_mem hchain hb] at hj
    rw [owner?_of_not_mem hchain' hb']
    obtain ⟨l, hl, hlater⟩ := ih hj
    refine ⟨l, hl, hlater.imp id fun ⟨hmem, hrest⟩ => ⟨?_, hrest⟩⟩
    rw [hchain]
    exact List.mem_cons_of_mem i hmem

end Store

end Lox
