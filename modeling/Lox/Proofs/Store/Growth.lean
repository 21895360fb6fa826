import Lox.Store
import Mathlib.Tactic.Common

/-!
# How stores grow

A program changes a store in a few ways only: it makes scopes and functions, which come after those
that exist, it binds names, and it changes values. No scope is taken out of the chain of another
one, no function is changed, and no name is unbound.

## Main definitions

* `Bindings.names`, `Store.names s i`: the names that are bound, in order
* `Store.Grows n i gained s s'`: what may have happened to the first `n` scopes and to the functions
  when a program has run in the scope `i`, and has bound none but the names in `gained` there

## Main results

* `Bindings.names_put`: writing a name keeps the order of the names
* `Store.Grows.trans`, `Store.grows_define`, `Store.grows_assign`, `Store.grows_newScope`,
  `Store.grows_newClosure`: the steps
-/

namespace Lox

namespace Bindings

/-- The names that are bound, in the order in which they were first bound. -/
def names (bs : Bindings) : List String :=
  bs.map Prod.fst

/-- Writing a name that is bound changes no name, and another one comes last. -/
theorem names_put (name : String) (v : Value) (bs : Bindings) :
    (put name v bs).names = if name ∈ bs.names then bs.names else bs.names ++ [name] := by
  induction bs with
  | nil => simp [put, names]
  | cons b bs ih =>
    obtain ⟨n, w⟩ := b
    by_cases h : n = name
    · simp [put, names, h]
    · have hn : name ≠ n := fun e => h e.symm
      simp only [names] at ih
      by_cases hb : name ∈ List.map Prod.fst bs <;> simp [put, names, h, hn, hb, ih]

theorem mem_names_of_lookup {name : String} {v : Value} {bs : Bindings}
    (h : bs.lookup name = some v) : name ∈ bs.names := by
  induction bs with
  | nil => simp at h
  | cons b bs ih =>
    obtain ⟨n, w⟩ := b
    rw [lookup_cons] at h
    split at h
    · rename_i he
      simp [names, he]
    · exact List.mem_cons_of_mem _ (ih h)

end Bindings

namespace Store

/-- The names that a scope binds, in order. -/
def names (s : Store) (i : ScopeId) : List String :=
  (s.bindings i).names

/-- What the scopes say that are around a scope. -/
def outer? (s : Store) (i : ScopeId) : Option (List ScopeId) :=
  (s.scopes[i]?).map Scope.outer

/-! ## What the operations do -/

theorem size_define (s : Store) (i : ScopeId) (name : String) (v : Value) :
    (s.define i name v).scopes.size = s.scopes.size := by
  simp [define]

theorem outer?_define (s : Store) (i j : ScopeId) (name : String) (v : Value) :
    (s.define i name v).outer? j = s.outer? j := by
  simp only [outer?, define, Array.getElem?_modify]
  split
  · subst_vars
    cases s.scopes[j]? <;> rfl
  · rfl

/-- Only one scope is bound a name in, if it exists. -/
theorem bindings_define (s : Store) (i j : ScopeId) (name : String) (v : Value) :
    (s.define i name v).bindings j =
      if i = j ∧ j < s.scopes.size then (s.bindings j).put name v else s.bindings j := by
  simp only [bindings, define, Array.getElem?_modify]
  by_cases hij : i = j
  · subst hij
    by_cases hi : i < s.scopes.size
    · simp [hi]
    · simp [hi]
  · simp [hij]

theorem names_define_ne {s : Store} {i j : ScopeId} {name : String} {v : Value} (h : i ≠ j) :
    (s.define i name v).names j = s.names j := by
  rw [names, names, bindings_define, if_neg fun hj => h hj.1]

/-- A scope that binds a name binds the same names when the name is written. -/
theorem names_define_of_mem {s : Store} {i j : ScopeId} {name : String} {v : Value}
    (h : name ∈ s.names i) : (s.define i name v).names j = s.names j := by
  by_cases hij : i = j
  · subst hij
    rw [names, names, bindings_define]
    split
    · exact (Bindings.names_put ..).trans (if_pos h)
    · rfl
  · exact names_define_ne hij

/-- No other name is bound when a name is written. -/
theorem mem_names_define {s : Store} {i j : ScopeId} {name x : String} {v : Value}
    (h : x ∈ (s.define i name v).names j) : x ∈ s.names j ∨ i = j ∧ x = name := by
  simp only [names, bindings_define] at h
  split at h
  · rename_i hc
    rw [Bindings.names_put] at h
    split at h
    · exact .inl h
    · rcases List.mem_append.mp h with h | h
      · exact .inl h
      · exact .inr ⟨hc.1, List.mem_singleton.mp h⟩
  · exact .inl h

/-- A name belongs to a scope that binds it. -/
theorem mem_names_of_owner? {s : Store} {i j : ScopeId} {name : String}
    (h : s.owner? i name = some j) : name ∈ s.names j := by
  have hj := List.find?_some h
  obtain ⟨v, hv⟩ := Option.isSome_iff_exists.mp hj
  exact Bindings.mem_names_of_lookup hv

theorem bindings_newScope {s : Store} {parent : Option ScopeId} {i : ScopeId}
    (h : i < s.scopes.size) : (s.newScope parent).1.bindings i = s.bindings i := by
  simp [bindings, newScope, Array.getElem?_push, Nat.ne_of_lt h]

theorem outer?_newScope {s : Store} {parent : Option ScopeId} {i : ScopeId}
    (h : i < s.scopes.size) : (s.newScope parent).1.outer? i = s.outer? i := by
  simp [outer?, newScope, Array.getElem?_push, Nat.ne_of_lt h]

/-! ## Growth -/

/-- What may have happened to a store when a program has run in the scope `i`: of the first `n`
scopes, none lies inside others than before, and only `i` binds other names than before, namely some
of `gained` after those that it bound. -/
structure Grows (n : Nat) (i : ScopeId) (gained : List String) (s s' : Store) : Prop where
  size : s.scopes.size ≤ s'.scopes.size
  outer : ∀ j < n, s'.outer? j = s.outer? j
  names : ∀ j < n, j ≠ i → s'.names j = s.names j
  current : i < n → ∃ added ⊆ gained, s'.names i = s.names i ++ added
  closures : s.closures.toList <+: s'.closures.toList

variable {n : Nat} {i : ScopeId} {gained gained' : List String} {s s' s'' : Store}

theorem Grows.refl (s : Store) : Grows n i gained s s where
  size := Nat.le_refl _
  outer _ _ := rfl
  names _ _ _ := rfl
  current _ := ⟨[], List.nil_subset _, by simp⟩
  closures := List.prefix_refl _

theorem Grows.trans (h : Grows n i gained s s') (h' : Grows n i gained s' s'') :
    Grows n i gained s s'' where
  size := Nat.le_trans h.size h'.size
  outer j hj := (h'.outer j hj).trans (h.outer j hj)
  names j hj hne := (h'.names j hj hne).trans (h.names j hj hne)
  current hi := by
    obtain ⟨a, ha, he⟩ := h.current hi
    obtain ⟨b, hb, he'⟩ := h'.current hi
    exact ⟨a ++ b, List.append_subset.mpr ⟨ha, hb⟩, by rw [he', he, List.append_assoc]⟩
  closures := h.closures.trans h'.closures

/-- What happens in a scope that is none of the first ones changes the names of none of them. -/
theorem Grows.of_le {k : ScopeId} (h : Grows n k gained' s s') (hk : n ≤ k) :
    Grows n i gained s s' :=
  { h with
    names := fun j hj _ => h.names j hj (by omega)
    current := fun hi => by
      have hne : i ≠ k := Nat.ne_of_lt (Nat.lt_of_lt_of_le hi hk)
      exact ⟨[], List.nil_subset _, by simp [h.names i hi hne]⟩ }

/-- Only the names of the first scopes count, and nothing was bound in them. -/
theorem grows_of_names (hsize : s.scopes.size ≤ s'.scopes.size)
    (houter : ∀ j < n, s'.outer? j = s.outer? j) (hnames : ∀ j < n, s'.names j = s.names j)
    (hc : s.closures.toList <+: s'.closures.toList) : Grows n i gained s s' where
  size := hsize
  outer := houter
  names j hj _ := hnames j hj
  current hi := ⟨[], List.nil_subset _, by simp [hnames i hi]⟩
  closures := hc

theorem grows_define {name : String} {v : Value} (hg : name ∈ gained) :
    Grows n i gained s (s.define i name v) where
  size := Nat.le_of_eq (size_define s i name v).symm
  outer j _ := outer?_define s i j name v
  names j _ hne := names_define_ne hne.symm
  current _ := by
    by_cases hi : i < s.scopes.size
    · rw [Store.names, bindings_define, if_pos ⟨rfl, hi⟩, Bindings.names_put]
      split
      · exact ⟨[], List.nil_subset _, by simp [Store.names]⟩
      · exact ⟨[name], by simpa using hg, rfl⟩
    · refine ⟨[], List.nil_subset _, ?_⟩
      rw [Store.names, bindings_define, if_neg fun h => hi h.2, List.append_nil]
      rfl
  closures := List.prefix_refl _

/-- Names that are bound in a scope that is none of the first ones. -/
theorem grows_defineAll {k : ScopeId} (ps : List (Token × Value)) (hk : n ≤ k) :
    Grows n i gained s (ps.foldl (fun s (param, v) => s.define k param.lexeme v) s) := by
  induction ps generalizing s with
  | nil => exact .refl s
  | cons p ps ih =>
    have h : Grows n k [p.1.lexeme] s (s.define k p.1.lexeme p.2) :=
      grows_define (List.mem_singleton.mpr rfl)
    exact (h.of_le hk).trans ih

/-- A name that belongs to a scope is bound there already. -/
theorem grows_assign {j k : ScopeId} {name : String} {v : Value}
    (h : s.owner? k name = some j) : Grows n i gained s (s.define j name v) :=
  grows_of_names (Nat.le_of_eq (size_define s j name v).symm)
    (fun k _ => outer?_define s j k name v)
    (fun _ _ => names_define_of_mem (mem_names_of_owner? h)) (List.prefix_refl _)

theorem grows_newScope {parent : Option ScopeId} (h : n ≤ s.scopes.size) :
    Grows n i gained s (s.newScope parent).1 := by
  refine grows_of_names (by simp [newScope]) (fun j hj => outer?_newScope (Nat.lt_of_lt_of_le hj h))
    (fun j hj => ?_) (List.prefix_refl _)
  exact congrArg Bindings.names (bindings_newScope (Nat.lt_of_lt_of_le hj h))

theorem grows_newClosure {c : Closure} : Grows n i gained s (s.newClosure c).1 :=
  grows_of_names (Nat.le_refl _) (fun _ _ => rfl) (fun _ _ => rfl) (by simp [newClosure])

end Store

end Lox
