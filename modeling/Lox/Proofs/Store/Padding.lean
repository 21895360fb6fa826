import Lox.Proofs.Store.Tree

/-!
# Stores with spare scopes

A store may have scopes that another one does not have. As long as they bind nothing they make no
difference: what is read and what is changed is the same in both stores, though the scopes have
other numbers.

## Main definitions

* `Padding`: where the scopes of one store are in another one, and which scopes are spare there
* `Padding.Matches p is ks`: two chains that are the same but for spare scopes
* `Store.Padded p s s'`: the store `s'` is the store `s` with spare scopes

## Main results

* `Store.Padded.owner?`, `Store.Padded.get?`: names belong to the same scopes and have the same
  values
* `Store.Padded.define`, `Store.Padded.newScope`, `Store.Padded.newClosure`: what is done in both
* `Store.Padded.newSpare`: a scope that is made in one of the stores only
-/

namespace Lox

/-- Where the scopes of a store are in another one, and the scopes there that are none of them. -/
structure Padding where
  kept : List ScopeId
  spare : List ScopeId

namespace Padding

variable {p q r : Padding} {i k : ScopeId} {is ks : List ScopeId}

/-- The scopes stay where they are, and spare ones stay spare. -/
structure Extends (p q : Padding) : Prop where
  kept : p.kept <+: q.kept
  spare : p.spare ⊆ q.spare

theorem Extends.refl (p : Padding) : p.Extends p :=
  ⟨List.prefix_refl _, List.Subset.refl _⟩

theorem Extends.trans (h : p.Extends q) (h' : q.Extends r) : p.Extends r :=
  ⟨h.kept.trans h'.kept, List.Subset.trans h.spare h'.spare⟩

theorem Extends.place (h : p.Extends q) (hi : p.kept[i]? = some k) : q.kept[i]? = some k := by
  obtain ⟨added, hq⟩ := h.kept
  rw [← hq, List.getElem?_append_left (List.getElem?_eq_some_iff.mp hi).1, hi]

/-- The second chain is the first one with spare scopes in it. -/
inductive Matches (p : Padding) : List ScopeId → List ScopeId → Prop
  | nil : Matches p [] []
  | kept {i k : ScopeId} {is ks : List ScopeId} :
      p.kept[i]? = some k → Matches p is ks → Matches p (i :: is) (k :: ks)
  | spare {k : ScopeId} {is ks : List ScopeId} :
      k ∈ p.spare → Matches p is ks → Matches p is (k :: ks)

theorem Matches.mono (h : p.Matches is ks) (hq : p.Extends q) : q.Matches is ks := by
  induction h with
  | nil => exact .nil
  | kept hi _ ih => exact .kept (hq.place hi) ih
  | spare hk _ ih => exact .spare (hq.spare hk) ih

/-- A chain of scopes that have stayed where they were. -/
theorem Matches.self (h : ∀ i ∈ is, p.kept[i]? = some i) : p.Matches is is := by
  induction is with
  | nil => exact .nil
  | cons i is ih =>
    exact .kept (h i List.mem_cons_self) (ih fun j hj => h j (List.mem_cons_of_mem _ hj))

/-- All scopes of a store are where they were, and none is spare. -/
def none (s : Store) : Padding :=
  ⟨List.range s.scopes.size, []⟩

theorem place_none {s : Store} (h : i < s.scopes.size) : (none s).kept[i]? = some i := by
  simp [none, h]

end Padding

namespace Store

variable {p q : Padding} {s s' t t' : Store} {i k : ScopeId}

/-! ## Chains -/

/-- A chain consists of scopes that exist. -/
theorem IsTree.lt_of_mem_chain (h : s.IsTree) {j : ScopeId} (hi : i < s.scopes.size)
    (hj : j ∈ s.chain i) : j < s.scopes.size := by
  induction i using Nat.strongRecOn with
  | _ i ih =>
    obtain ⟨outer, ho, hc⟩ := chain_of_lt hi
    rw [hc] at hj
    rcases List.mem_cons.mp hj with rfl | hmem
    · exact hi
    by_cases hne : i = globalScope
    · subst hne
      obtain rfl : outer = [] := Option.some.inj (ho.symm.trans h.global)
      exact absurd hmem List.not_mem_nil
    · obtain ⟨k, hk, ho'⟩ := h.inner i hi hne
      obtain rfl : outer = s.chain k := Option.some.inj (ho.symm.trans ho')
      exact ih k hk (Nat.lt_trans hk hi) hmem

theorem chain_define (s : Store) (i j : ScopeId) (name : String) (v : Value) :
    (s.define i name v).chain j = s.chain j := by
  rw [chain_eq, chain_eq, outer?_define]

theorem chain_newScope (h : i < s.scopes.size) (parent : Option ScopeId) :
    (s.newScope parent).1.chain i = s.chain i := by
  rw [chain_eq, chain_eq, outer?_newScope h]

theorem chain_newScope_self (s : Store) (i : ScopeId) :
    (s.newScope (some i)).1.chain s.scopes.size = s.scopes.size :: s.chain i := by
  simp [chain, newScope]

theorem size_newScope (s : Store) (parent : Option ScopeId) :
    (s.newScope parent).1.scopes.size = s.scopes.size + 1 := by
  simp [newScope]

theorem bindings_newScope_self (s : Store) (parent : Option ScopeId) :
    (s.newScope parent).1.bindings s.scopes.size = [] := by
  simp [bindings, newScope]

theorem Continues.chain (h : s.Continues t) (hi : i < s.scopes.size) : t.chain i = s.chain i := by
  rw [chain_eq, chain_eq, h.outer i hi]

/-- From both scopes the same is found, as far as there is something to be found. -/
structure Links (p : Padding) (s s' : Store) (i k : ScopeId) : Prop where
  left : i < s.scopes.size
  right : k < s'.scopes.size
  chains : p.Matches (s.chain i) (s'.chain k)

theorem Links.mono (h : Links p s s' i k) (hq : p.Extends q) (hs : s.Continues t)
    (hs' : s'.Continues t') : Links q t t' i k where
  left := Nat.lt_of_lt_of_le h.left hs.size
  right := Nat.lt_of_lt_of_le h.right hs'.size
  chains := by
    rw [hs.chain h.left, hs'.chain h.right]
    exact h.chains.mono hq

end Store

/-! ## Stores -/

open Store

/-- One declaration, in scopes from which the same is found. -/
structure Closure.Padded (p : Padding) (s s' : Store) (c c' : Closure) : Prop where
  name : c'.name = c.name
  params : c'.params = c.params
  body : c'.body = c.body
  scope : Links p s s' c.scope c'.scope

namespace Store

variable {p q : Padding} {s s' t t' : Store} {i k : ScopeId} {name : String} {v : Value}

/-- The second store has the scopes of the first one, in other places, and its other scopes bind
nothing. The functions are the same. -/
structure Padded (p : Padding) (s s' : Store) : Prop where
  size : p.kept.length = s.scopes.size
  scopes (k : ScopeId) : k < s'.scopes.size ↔ k ∈ p.kept ∨ k ∈ p.spare
  nodup : p.kept.Nodup
  spare : ∀ k ∈ p.spare, k ∉ p.kept ∧ s'.bindings k = []
  bindings (i k : ScopeId) : p.kept[i]? = some k → s'.bindings k = s.bindings i
  chains (i k : ScopeId) : p.kept[i]? = some k → p.Matches (s.chain i) (s'.chain k)
  closures (id : Nat) :
    Option.Rel (Closure.Padded p s s') s.closures[id]? s'.closures[id]?
  count : s'.closures.size = s.closures.size

namespace Padded

/-! ## What is found -/

theorem link (h : Padded p s s') (hi : p.kept[i]? = some k) : Links p s s' i k where
  left := h.size ▸ (List.getElem?_eq_some_iff.mp hi).1
  right := (h.scopes k).mpr (.inl (List.mem_of_getElem? hi))
  chains := h.chains i k hi

/-- Each place belongs to one scope. -/
theorem place_inj (h : Padded p s s') {j : ScopeId} (hi : p.kept[i]? = some k)
    (hj : p.kept[j]? = some k) : i = j :=
  (List.getElem?_inj (List.getElem?_eq_some_iff.mp hi).1 h.nodup).mp (hi.trans hj.symm)

/-- Spare scopes are passed over. -/
theorem find? (h : Padded p s s') {is ks : List ScopeId} (hm : p.Matches is ks) (name : String) :
    Option.Rel (fun i k => p.kept[i]? = some k)
      (is.find? fun j => ((s.bindings j).lookup name).isSome)
      (ks.find? fun j => ((s'.bindings j).lookup name).isSome) := by
  induction hm with
  | nil => exact .none
  | @kept i k is ks hi _ ih =>
    rw [List.find?_cons, List.find?_cons, h.bindings i k hi]
    split
    · exact .some hi
    · exact ih
  | @spare k is ks hk _ ih =>
    rw [List.find?_cons_of_neg (by simp [(h.spare k hk).2])]
    exact ih

/-- A name belongs to the same scope in both stores. -/
theorem owner? (h : Padded p s s') (hl : Links p s s' i k) (name : String) :
    Option.Rel (fun i k => p.kept[i]? = some k) (s.owner? i name) (s'.owner? k name) :=
  h.find? hl.chains name

/-- A name has the same value in both stores. -/
theorem get? (h : Padded p s s') (hl : Links p s s' i k) (name : String) :
    s'.get? k name = s.get? i name := by
  have ho := h.owner? hl name
  unfold Store.get?
  generalize s.owner? i name = o, s'.owner? k name = o' at ho
  cases ho with
  | none => rfl
  | @some i k hi =>
    show List.lookup name (s'.bindings k) = List.lookup name (s.bindings i)
    rw [h.bindings i k hi]

/-! ## What is done in both stores -/

/-- Functions stay what they are in later stores. -/
theorem closures_later (h : Padded p s s') (hq : p.Extends q) (hs : s.Continues t)
    (hs' : s'.Continues t') (hc : t.closures = s.closures) (hc' : t'.closures = s'.closures)
    (id : Nat) : Option.Rel (Closure.Padded q t t') t.closures[id]? t'.closures[id]? := by
  have hrel := h.closures id
  rw [hc, hc']
  generalize s.closures[id]? = c, s'.closures[id]? = c' at hrel
  cases hrel with
  | none => exact .none
  | some hcc => exact .some ⟨hcc.name, hcc.params, hcc.body, hcc.scope.mono hq hs hs'⟩

theorem define (h : Padded p s s') (hi : p.kept[i]? = some k) (name : String) (v : Value) :
    Padded p (s.define i name v) (s'.define k name v) where
  size := h.size.trans (size_define s i name v).symm
  scopes j := by rw [size_define, h.scopes]
  nodup := h.nodup
  spare j hj := by
    obtain ⟨hne, hnil⟩ := h.spare j hj
    have hjk : k ≠ j := fun e => hne (e ▸ List.mem_of_getElem? hi)
    exact ⟨hne, by rw [bindings_define, if_neg fun e => hjk e.1, hnil]⟩
  bindings j l hj := by
    rw [bindings_define, bindings_define, h.bindings j l hj]
    by_cases hij : i = j
    · subst hij
      obtain rfl : k = l := Option.some.inj (hi.symm.trans hj)
      have hl := h.link hi
      simp only [hl.left, hl.right, and_self, if_true]
    · have hkl : k ≠ l := fun e => hij (h.place_inj hi (e ▸ hj))
      rw [if_neg fun e => hkl e.1, if_neg fun e => hij e.1]
  chains j l hj := by
    rw [chain_define, chain_define]
    exact h.chains j l hj
  closures := h.closures_later (.refl p) (continues_define i name v) (continues_define k name v)
    rfl rfl
  count := h.count

/-- Names that are bound to values in both stores. -/
theorem defineAll (h : Padded p s s') (hi : p.kept[i]? = some k) (ps : List (Token × Value)) :
    Padded p (ps.foldl (fun s (param, v) => s.define i param.lexeme v) s)
      (ps.foldl (fun s (param, v) => s.define k param.lexeme v) s') := by
  induction ps generalizing s s' with
  | nil => exact h
  | cons q ps ih => exact ih (h.define hi q.1.lexeme q.2)

/-- The places with one more scope. -/
theorem place_append {n : ScopeId} {l : List ScopeId} (h : (l ++ [n])[i]? = some k) :
    l[i]? = some k ∨ i = l.length ∧ k = n := by
  rcases Nat.lt_trichotomy i l.length with hi | hi | hi
  · rw [List.getElem?_append_left hi] at h
    exact .inl h
  · subst hi
    rw [List.getElem?_concat_length] at h
    exact .inr ⟨rfl, (Option.some.inj h).symm⟩
  · rw [List.getElem?_eq_none (by simpa using Nat.succ_le_of_lt hi)] at h
    cases h

/-- A scope that is made in both stores, where the same is found. -/
theorem newScope (h : Padded p s s') (hl : Links p s s' i k) :
    Padded { p with kept := p.kept ++ [s'.scopes.size] } (s.newScope (some i)).1
      (s'.newScope (some k)).1 := by
  have hq : p.Extends { p with kept := p.kept ++ [s'.scopes.size] } :=
    ⟨List.prefix_append _ _, List.Subset.refl _⟩
  have hlt : ∀ j, j ∈ p.kept ∨ j ∈ p.spare → j < s'.scopes.size := fun j => (h.scopes j).mpr
  have hnew : s'.scopes.size ∉ p.kept := fun hm => Nat.lt_irrefl _ (hlt _ (.inl hm))
  refine ⟨?_, fun j => ?_, ?_, fun j hj => ?_, fun j l hj => ?_, fun j l hj => ?_, ?_, h.count⟩
  · simp [h.size, size_newScope]
  · rw [size_newScope, Nat.lt_succ_iff, Nat.le_iff_lt_or_eq, h.scopes, List.mem_append,
      List.mem_singleton]
    exact or_right_comm
  · exact List.nodup_append.mpr ⟨h.nodup, List.pairwise_singleton _ _,
      fun a ha b hb e => hnew (List.mem_singleton.mp hb ▸ e ▸ ha)⟩
  · obtain ⟨hne, hnil⟩ := h.spare j hj
    have hj' := hlt j (.inr hj)
    refine ⟨fun hm => ?_, by rw [bindings_newScope hj', hnil]⟩
    rcases List.mem_append.mp hm with hm | hm
    · exact hne hm
    · exact Nat.ne_of_lt hj' (List.mem_singleton.mp hm)
  · rcases place_append hj with hj | ⟨rfl, rfl⟩
    · rw [bindings_newScope (h.link hj).right, bindings_newScope (h.link hj).left]
      exact h.bindings j l hj
    · rw [h.size, bindings_newScope_self, bindings_newScope_self]
  · rcases place_append hj with hj | ⟨rfl, rfl⟩
    · rw [chain_newScope (h.link hj).left, chain_newScope (h.link hj).right]
      exact (h.chains j l hj).mono hq
    · rw [h.size, chain_newScope_self, chain_newScope_self]
      exact .kept (by rw [← h.size, List.getElem?_concat_length]) (hl.chains.mono hq)
  · exact h.closures_later hq (continues_newScope _) (continues_newScope _) rfl rfl

/-- A scope that is made in the second store only. -/
theorem newSpare (h : Padded p s s') (k : ScopeId) :
    Padded { p with spare := p.spare ++ [s'.scopes.size] } s (s'.newScope (some k)).1 := by
  have hq : p.Extends { p with spare := p.spare ++ [s'.scopes.size] } :=
    ⟨List.prefix_refl _, List.subset_append_left _ _⟩
  have hlt : ∀ j, j ∈ p.kept ∨ j ∈ p.spare → j < s'.scopes.size := fun j => (h.scopes j).mpr
  refine ⟨h.size, fun j => ?_, h.nodup, fun j hj => ?_, fun j l hj => ?_, fun j l hj => ?_, ?_,
    h.count⟩
  · rw [size_newScope, Nat.lt_succ_iff, Nat.le_iff_lt_or_eq, h.scopes, List.mem_append,
      List.mem_singleton, or_assoc]
  · rcases List.mem_append.mp hj with hj | hj
    · obtain ⟨hne, hnil⟩ := h.spare j hj
      exact ⟨hne, by rw [bindings_newScope (hlt j (.inr hj)), hnil]⟩
    · obtain rfl := List.mem_singleton.mp hj
      exact ⟨fun hm => Nat.lt_irrefl _ (hlt _ (.inl hm)), bindings_newScope_self _ _⟩
  · rw [bindings_newScope (h.link hj).right]
    exact h.bindings j l hj
  · rw [chain_newScope (h.link hj).right]
    exact (h.chains j l hj).mono hq
  · exact h.closures_later hq (.refl s) (continues_newScope _) rfl rfl

/-- A declaration makes functions with one number. -/
theorem newClosure (h : Padded p s s') {c c' : Closure} (hc : c.Padded p s s' c') :
    Padded p (s.newClosure c).1 (s'.newClosure c').1 where
  size := h.size
  scopes := h.scopes
  nodup := h.nodup
  spare := h.spare
  bindings := h.bindings
  chains := h.chains
  closures id := by
    have hlater : ∀ {d d' : Closure}, Closure.Padded p s s' d d' →
        Closure.Padded p (s.newClosure c).1 (s'.newClosure c').1 d d' := fun hd =>
      ⟨hd.name, hd.params, hd.body,
        hd.scope.mono (.refl p) (continues_newClosure c) (continues_newClosure c')⟩
    have hrel := h.closures id
    simp only [Store.newClosure, Array.getElem?_push, h.count]
    split
    · exact .some (hlater hc)
    · generalize s.closures[id]? = d, s'.closures[id]? = d' at hrel
      cases hrel with
      | none => exact .none
      | some hd => exact .some (hlater hd)
  count := by simp only [Store.newClosure, Array.size_push, h.count]

end Padded

/-- Each store is itself, without spare scopes. -/
theorem IsTree.padded (h : s.IsTree)
    (hscopes : ∀ i : Nat, ∀ c ∈ s.closures[i]?, c.scope < s.scopes.size) :
    Padded (.none s) s s := by
  have hplace : ∀ i k, (Padding.none s).kept[i]? = some k → k = i ∧ i < s.scopes.size := by
    intro i k hi
    obtain ⟨hlt, hk⟩ := List.getElem?_eq_some_iff.mp hi
    simp only [Padding.none, List.length_range, List.getElem_range] at hlt hk
    exact ⟨hk.symm, hlt⟩
  have hlink : ∀ i < s.scopes.size, Links (.none s) s s i i := fun i hi =>
    ⟨hi, hi, .self fun j hj => Padding.place_none (h.lt_of_mem_chain hi hj)⟩
  refine ⟨by simp [Padding.none], fun k => by simp [Padding.none], List.nodup_range,
    fun k hk => absurd hk List.not_mem_nil, fun i k hi => ?_, fun i k hi => ?_, fun id => ?_, rfl⟩
  · rw [(hplace i k hi).1]
  · obtain ⟨rfl, hlt⟩ := hplace i k hi
    exact (hlink _ hlt).chains
  · cases hc : s.closures[id]? with
    | none => exact .none
    | some c => exact .some ⟨rfl, rfl, rfl, hlink _ (hscopes id c hc)⟩

end Store

end Lox
