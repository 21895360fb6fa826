import Lox.Proofs.Store.Soundness
import Mathlib.Logic.Relation

/-!
# The tree of scopes

Each scope but the first one lies in a scope that is older, so the scopes form a tree with the
global one as its root. A store keeps for each scope the whole list of the scopes around it; in a
tree this is the list of the scopes that are met on the way to the root.

The functions are part of it: each of them was declared in a scope of the tree, and a value that is
a function says of itself what its declaration says.

## Main definitions

* `Store.enclosing? s i`: the scope that the scope `i` lies in
* `Store.Finds s name i r`: a walk from the scope `i` to the root, in search of a name, ends with
  `r`
* `Store.IsForest s`: each scope lies in none or in an older one
* `Store.Continues s s'`: what holds between a store and every later one
* `Store.Formed s`: the scopes are a tree, and all functions that are bound are declared in it

## Main results

* `Store.IsForest.finds`: every walk ends
* `Store.Formed.define`, `Store.Formed.newScope`, `Store.Formed.newClosure`: what is kept
-/

namespace Lox

/-- What a value says of a function with this number. -/
def Closure.ref (c : Closure) (id : Nat) : FunctionRef :=
  ⟨id, c.name.lexeme, c.params.length⟩

/-- A value of the language and, if it is a function, one of which there is a declaration that says
what the value says. -/
def Value.IsDeclared (s : Store) : Value → Prop
  | .function f => ∃ c, s.closures[f.id]? = some c ∧ c.ref f.id = f
  | .foreign _ => False
  | _ => True

namespace Store

variable {s s' s'' : Store} {i j : ScopeId} {name : String} {v : Value}

/-! ## Links -/

/-- The scope that a scope lies in. -/
def enclosing? (s : Store) (i : ScopeId) : Option ScopeId :=
  (s.outer? i).bind List.head?

/-- The way from the scope along the links ends in the global scope. -/
def Rooted (s : Store) (i : ScopeId) : Prop :=
  Relation.ReflTransGen (fun i j => s.enclosing? i = some j) i globalScope

/-- A walk from the scope `i` along the links, which ends at the first scope that binds the name, or
at one that lies in no other. -/
inductive Finds (s : Store) (name : String) : ScopeId → Option ScopeId → Prop
  | here {i : ScopeId} : name ∈ s.names i → Finds s name i (some i)
  | outside {i j : ScopeId} {r : Option ScopeId} :
      name ∉ s.names i → s.enclosing? i = some j → Finds s name j r → Finds s name i r
  | nowhere {i : ScopeId} : name ∉ s.names i → s.enclosing? i = none → Finds s name i none

/-- Each scope lies in no other one or in an older one, and around it are then that scope and what
is around that one. -/
def IsForest (s : Store) : Prop :=
  ∀ i < s.scopes.size, s.outer? i = some [] ∨ ∃ j < i, s.outer? i = some (s.chain j)

/-- The first scope lies in no other one. Each other scope lies in an older one, and around it are
that scope and what is around that one. -/
structure IsTree (s : Store) : Prop where
  global : s.outer? globalScope = some []
  inner (i : ScopeId) : i < s.scopes.size → i ≠ globalScope →
    ∃ j < i, s.outer? i = some (s.chain j)

theorem chain_eq (s : Store) (i : ScopeId) : s.chain i = ((s.outer? i).map (i :: ·)).getD [] := by
  unfold chain outer?
  cases s.scopes[i]? <;> rfl

theorem outer?_eq_none_iff : s.outer? i = none ↔ s.scopes.size ≤ i := by
  simp [outer?]

theorem chain_of_lt (h : i < s.scopes.size) : ∃ outer, s.outer? i = some outer ∧
    s.chain i = i :: outer := by
  cases ho : s.outer? i with
  | none => exact absurd (outer?_eq_none_iff.mp ho) (Nat.not_le_of_lt h)
  | some outer => exact ⟨outer, rfl, by rw [chain_eq, ho]; rfl⟩

theorem isSome_lookup_iff {bs : Bindings} : (bs.lookup name).isSome ↔ name ∈ bs.names := by
  constructor
  · intro h
    obtain ⟨v, hv⟩ := Option.isSome_iff_exists.mp h
    exact Bindings.mem_names_of_lookup hv
  · intro h
    induction bs with
    | nil => simp [Bindings.names] at h
    | cons b bs ih =>
      obtain ⟨n, w⟩ := b
      rw [Bindings.lookup_cons]
      split
      · rfl
      · rename_i hne
        exact ih (by simpa [Bindings.names, hne] using h)

/-- A scope that does not exist binds nothing. -/
theorem names_of_size_le (h : s.scopes.size ≤ i) : s.names i = [] := by
  simp [names, bindings, Bindings.names, Array.getElem?_eq_none h]

theorem owner?_of_mem (hi : i < s.scopes.size) (h : name ∈ s.names i) :
    s.owner? i name = some i := by
  obtain ⟨outer, -, hc⟩ := chain_of_lt hi
  rw [owner?, hc]
  exact List.find?_cons_of_pos (isSome_lookup_iff.mpr h)

theorem owner?_of_not_mem (hc : s.chain i = i :: s.chain j) (h : name ∉ s.names i) :
    s.owner? i name = s.owner? j name := by
  rw [owner?, hc]
  exact List.find?_cons_of_neg (mt isSome_lookup_iff.mp h)

/-- Every walk ends, and where it ends is what the operations on names go by. -/
theorem IsForest.finds (h : s.IsForest) (name : String) (i : ScopeId) :
    s.Finds name i (s.owner? i name) := by
  induction i using Nat.strongRecOn with
  | _ i ih =>
    by_cases hb : name ∈ s.names i
    · have hi : i < s.scopes.size := by
        refine Nat.lt_of_not_le fun hle => ?_
        rw [names_of_size_le hle] at hb
        cases hb
      rw [owner?_of_mem hi hb]
      exact .here hb
    by_cases hi : i < s.scopes.size
    · obtain ⟨outer, ho, hc⟩ := chain_of_lt hi
      rcases h i hi with ho' | ⟨j, hj, ho'⟩
      · obtain rfl : outer = [] := Option.some.inj (ho.symm.trans ho')
        have hown : s.owner? i name = none := by
          rw [owner?, hc]
          exact List.find?_cons_of_neg (mt isSome_lookup_iff.mp hb)
        rw [hown]
        exact .nowhere hb (by simp [enclosing?, ho])
      · obtain rfl : outer = s.chain j := Option.some.inj (ho.symm.trans ho')
        obtain ⟨outer', -, hc'⟩ := chain_of_lt (Nat.lt_trans hj hi)
        rw [owner?_of_not_mem hc hb]
        exact .outside hb (by simp [enclosing?, ho, hc']) (ih j hj)
    · have hnone := outer?_eq_none_iff.mpr (Nat.le_of_not_lt hi)
      have hown : s.owner? i name = none := by
        rw [owner?, chain_eq, hnone]
        rfl
      rw [hown]
      exact .nowhere hb (by simp [enclosing?, hnone])

namespace IsTree

theorem isForest (h : s.IsTree) : s.IsForest := by
  intro i hi
  by_cases hne : i = globalScope
  · exact .inl (hne ▸ h.global)
  · exact .inr (h.inner i hi hne)

theorem lt_size (h : s.IsTree) : globalScope < s.scopes.size := by
  have hne : s.outer? globalScope ≠ none := by simp [h.global]
  exact Nat.lt_of_not_le (mt outer?_eq_none_iff.mpr hne)

theorem enclosing?_global (h : s.IsTree) : s.enclosing? globalScope = none := by
  simp [enclosing?, h.global]

/-- A scope lies in an older one, unless it is the global one. -/
theorem enclosing?_of_ne (h : s.IsTree) (hi : i < s.scopes.size) (hne : i ≠ globalScope) :
    ∃ j < i, s.enclosing? i = some j ∧ s.outer? i = some (s.chain j) := by
  obtain ⟨j, hj, ho⟩ := h.inner i hi hne
  obtain ⟨outer, -, hc⟩ := chain_of_lt (Nat.lt_trans hj hi)
  exact ⟨j, hj, by simp [enclosing?, ho, hc], ho⟩

/-- From every scope the way leads to the global one. -/
theorem rooted (h : s.IsTree) (hi : i < s.scopes.size) : s.Rooted i := by
  induction i using Nat.strongRecOn with
  | _ i ih =>
    by_cases hne : i = globalScope
    · subst hne
      exact .refl
    · obtain ⟨j, hj, hl, -⟩ := h.enclosing?_of_ne hi hne
      exact .head hl (ih j hj (Nat.lt_trans hj hi))

/-- Only the links of the scopes matter. -/
theorem congr (h : s.IsTree) (hsize : s'.scopes.size = s.scopes.size)
    (houter : ∀ i, s'.outer? i = s.outer? i) : s'.IsTree where
  global := (houter _).trans h.global
  inner i hi hne := by
    obtain ⟨j, hj, ho⟩ := h.inner i (hsize ▸ hi) hne
    exact ⟨j, hj, by rw [houter, ho, chain_eq, chain_eq, houter]⟩

/-- A scope that is made lies in one that exists. -/
theorem newScope (h : s.IsTree) (hi : i < s.scopes.size) : (s.newScope (some i)).1.IsTree := by
  have hchain : ∀ j < s.scopes.size, (s.newScope (some i)).1.chain j = s.chain j := fun j hj => by
    rw [chain_eq, chain_eq, outer?_newScope hj]
  refine ⟨(outer?_newScope h.lt_size).trans h.global, fun k hk hne => ?_⟩
  by_cases hold : k < s.scopes.size
  · obtain ⟨j, hj, ho⟩ := h.inner k hold hne
    exact ⟨j, hj, by rw [outer?_newScope hold, ho, hchain j (Nat.lt_trans hj hold)]⟩
  · have hk : k < s.scopes.size + 1 := by simpa [Store.newScope] using hk
    obtain rfl : k = s.scopes.size := Nat.le_antisymm (Nat.le_of_lt_succ hk) (Nat.le_of_not_lt hold)
    refine ⟨i, hi, ?_⟩
    rw [hchain i hi]
    simp [outer?, Store.newScope]

end IsTree

/-! ## Later stores -/

/-- The second store is a later one: no scope has moved or lost a name, and no function has
changed. -/
structure Continues (s s' : Store) : Prop where
  size : s.scopes.size ≤ s'.scopes.size
  outer : ∀ i < s.scopes.size, s'.outer? i = s.outer? i
  names : ∀ i, s.names i <+: s'.names i
  closures : s.closures.toList <+: s'.closures.toList

theorem Continues.refl (s : Store) : s.Continues s :=
  ⟨Nat.le_refl _, fun _ _ => rfl, fun _ => List.prefix_refl _, List.prefix_refl _⟩

theorem Continues.trans (h : s.Continues s') (h' : s'.Continues s'') : s.Continues s'' where
  size := Nat.le_trans h.size h'.size
  outer i hi := (h'.outer i (Nat.lt_of_lt_of_le hi h.size)).trans (h.outer i hi)
  names i := (h.names i).trans (h'.names i)
  closures := h.closures.trans h'.closures

theorem Grows.continues {gained : List String} (h : Grows s.scopes.size j gained s s') :
    s.Continues s' where
  size := h.size
  outer := h.outer
  names i := by
    by_cases hi : i < s.scopes.size
    · by_cases hij : i = j
      · subst hij
        obtain ⟨added, -, he⟩ := h.current hi
        exact ⟨added, he.symm⟩
      · exact (h.names i hi hij).symm ▸ List.prefix_refl _
    · rw [names_of_size_le (Nat.le_of_not_lt hi)]
      exact List.nil_prefix
  closures := h.closures

theorem continues_define (i : ScopeId) (name : String) (v : Value) :
    s.Continues (s.define i name v) :=
  (grows_define (List.mem_singleton.mpr rfl)).continues

theorem continues_defineAll (i : ScopeId) (ps : List (Token × Value)) :
    s.Continues (ps.foldl (fun s (param, v) => s.define i param.lexeme v) s) := by
  induction ps generalizing s with
  | nil => exact .refl s
  | cons p ps ih => exact (continues_define i p.1.lexeme p.2).trans ih

theorem continues_newScope (parent : Option ScopeId) : s.Continues (s.newScope parent).1 :=
  have h : Grows s.scopes.size globalScope [] s (s.newScope parent).1 :=
    grows_newScope (Nat.le_refl _)
  h.continues

theorem continues_newClosure (c : Closure) : s.Continues (s.newClosure c).1 :=
  have h : Grows s.scopes.size globalScope [] s (s.newClosure c).1 := grows_newClosure
  h.continues

/-- A link is fixed when its scope is made. -/
theorem Continues.enclosing? (h : s.Continues s') (hi : i < s.scopes.size) :
    s'.enclosing? i = s.enclosing? i := by
  rw [Store.enclosing?, Store.enclosing?, h.outer i hi]

/-- A function is what it was when it was declared. -/
theorem Continues.closure (h : s.Continues s') {id : Nat} {c : Closure}
    (hc : s.closures[id]? = some c) : s'.closures[id]? = some c := by
  rw [← Array.getElem?_toList] at hc ⊢
  obtain ⟨later, hl⟩ := h.closures
  rw [← hl, List.getElem?_append_left (List.getElem?_eq_some_iff.mp hc).1, hc]

end Store

open Store in
/-- What is declared stays declared. -/
theorem Value.IsDeclared.mono {s s' : Store} {v : Value} (hv : v.IsDeclared s)
    (h : s.Continues s') : v.IsDeclared s' := by
  cases v with
  | function f =>
    obtain ⟨c, hc, hf⟩ := hv
    exact ⟨c, h.closure hc, hf⟩
  | _ => exact hv

theorem Value.IsDeclared.isLox {s : Store} {v : Value} (hv : v.IsDeclared s) :
    v.IsLox s.closures.size := by
  cases v with
  | function f =>
    obtain ⟨c, hc, -⟩ := hv
    exact (Array.getElem?_eq_some_iff.mp hc).1
  | _ => exact hv

/-- A value that a literal can have is no function. -/
theorem Value.IsPlain.isDeclared {s : Store} {v : Value} (hv : v.IsPlain) : v.IsDeclared s := by
  cases v with
  | function | native | foreign => exact hv.elim
  | _ => trivial

namespace Store

/-- The value is bound to a name in some scope. -/
def Binds (s : Store) (v : Value) : Prop :=
  ∃ i, ∃ b ∈ s.bindings i, b.2 = v

/-! ## Well-formed stores -/

/-- The scopes are a tree, the values that are bound are declared, the functions were declared in
scopes of the tree, and their bodies are well-formed. -/
structure Formed (s : Store) : Prop where
  tree : s.IsTree
  values (i : ScopeId) : ∀ b ∈ s.bindings i, b.2.IsDeclared s
  scopes (i : Nat) : ∀ c ∈ s.closures[i]?, c.scope < s.scopes.size
  bodies (i : Nat) : ∀ c ∈ s.closures[i]?, Node.AllStatements (fun _ => True) c.body

namespace Formed

variable {s : Store} {i : ScopeId} {name : String} {v : Value}

theorem sound (h : s.Formed) : s.Sound fun _ => True :=
  ⟨fun i b hb => (h.values i b hb).isLox, h.bodies⟩

theorem isDeclared (h : s.Formed) (hv : s.Binds v) : v.IsDeclared s := by
  obtain ⟨i, b, hb, rfl⟩ := hv
  exact h.values i b hb

theorem get? (h : s.Formed) (hv : s.get? i name = some v) : v.IsDeclared s := by
  obtain ⟨j, -, hj⟩ := Option.bind_eq_some_iff.mp hv
  obtain ⟨n, hn⟩ := Bindings.mem_of_lookup hj
  exact h.values j _ hn

theorem define (h : s.Formed) (hv : v.IsDeclared s) : (s.define i name v).Formed where
  tree := h.tree.congr (size_define s i name v) fun j => outer?_define s i j name v
  values j b hb := by
    rw [bindings_define] at hb
    split at hb
    · rcases Bindings.mem_of_mem_put hb with rfl | hb
      · exact hv
      · exact h.values j b hb
    · exact h.values j b hb
  scopes k c hc := Nat.lt_of_lt_of_eq (h.scopes k c hc) (size_define s i name v).symm
  bodies := h.bodies

theorem newScope (h : s.Formed) (hi : i < s.scopes.size) : (s.newScope (some i)).1.Formed where
  tree := h.tree.newScope hi
  values j b hb := h.values j b (bindings_newScope_subset (some i) j hb)
  scopes k c hc := Nat.lt_of_lt_of_le (h.scopes k c hc) (by simp [Store.newScope])
  bodies := h.bodies

theorem newClosure (h : s.Formed) {c : Closure} (hscope : c.scope < s.scopes.size)
    (hbody : Node.AllStatements (fun _ => True) c.body) : (s.newClosure c).1.Formed where
  tree := h.tree.congr rfl fun _ => rfl
  values i b hb := (h.values i b hb).mono (continues_newClosure c)
  scopes k c' hc' := by
    simp only [Store.newClosure, Array.getElem?_push, Option.mem_def] at hc'
    split at hc'
    · obtain rfl := Option.some.inj hc'
      exact hscope
    · exact h.scopes k c' hc'
  bodies k c' hc' := by
    simp only [Store.newClosure, Array.getElem?_push, Option.mem_def] at hc'
    split at hc'
    · obtain rfl := Option.some.inj hc'
      exact hbody
    · exact h.bodies k c' hc'

end Formed

end Store

end Lox
