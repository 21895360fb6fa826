import Lox.Machine
import Lox.Proofs.Store.Chain

/-!
# Laws of the store

Scopes that are made by themselves or inside one another form a forest. What the operations on names
do in it can be said in terms of the links alone: a name belongs to the first scope that binds it on
the way out. Reading, assigning and asking for a name go by the scope that it belongs to; an
assignment is seen from where the name belongs to the same scope, and a definition from where
nothing on the way to its scope binds the name.

## Main definitions

* `Store.Built s`: the store has been made by new scopes, definitions and assignments
* `Store.Unshadowed s name j i`: nothing on the way from the scope `i` to the scope `j` binds the
  name
* `Store.Assigned s i name v s'`, `Store.Defined s i name v s'`: what `s'` is after an assignment
  or a definition in `s`

## Main results

* `Store.IsForest.owner?_eq_iff`: the scope that a name belongs to is the one that is found
* `Store.IsForest.assigned`, `Store.IsForest.defined`: what an assignment and a definition do
* `Store.Built.store_laws`: all laws together
-/

namespace Lox.Store

variable {s s' : Store} {i j k o : ScopeId} {name x : String} {v : Value}

/-- A store that new scopes, definitions and assignments have made. -/
inductive Built : Store → Prop
  | empty : Built Store.empty
  /-- a scope inside one that exists, or inside none -/
  | newScope {s : Store} {parent : Option ScopeId} (h : Built s)
      (hp : ∀ i ∈ parent, i < s.scopes.size) : Built (s.newScope parent).1
  | define {s : Store} {i : ScopeId} (h : Built s) (hi : i < s.scopes.size) (name : String)
      (v : Value) : Built (s.define i name v)
  | assign {s s' : Store} {i : ScopeId} {name : String} {v : Value} (h : Built s)
      (ha : s.assign? i name v = some s') : Built s'

/-- The scope `j` is met on the way out from the scope `i`, and no scope before it binds the
name. -/
inductive Unshadowed (s : Store) (name : String) (j : ScopeId) : ScopeId → Prop
  | here : Unshadowed s name j j
  | outside {i k : ScopeId} :
      name ∉ s.names i → s.enclosing? i = some k → Unshadowed s name j k → Unshadowed s name j i

/-! ## Forests -/

namespace IsForest

/-- Only the links of the scopes matter. -/
theorem congr (h : s.IsForest) (hsize : s'.scopes.size = s.scopes.size)
    (houter : ∀ i, s'.outer? i = s.outer? i) : s'.IsForest := by
  intro i hi
  rw [houter]
  rcases h i (hsize ▸ hi) with ho | ⟨j, hj, ho⟩
  · exact .inl ho
  · exact .inr ⟨j, hj, by rw [ho, chain_eq, chain_eq, houter]⟩

theorem define (h : s.IsForest) (i : ScopeId) (name : String) (v : Value) :
    (s.define i name v).IsForest :=
  h.congr (size_define s i name v) fun j => outer?_define s i j name v

theorem newScope (h : s.IsForest) {parent : Option ScopeId}
    (hp : ∀ i ∈ parent, i < s.scopes.size) : (s.newScope parent).1.IsForest := by
  intro k hk
  rw [size_newScope] at hk
  by_cases hold : k < s.scopes.size
  · rw [outer?_newScope hold]
    rcases h k hold with ho | ⟨j, hj, ho⟩
    · exact .inl ho
    · exact .inr ⟨j, hj, by rw [ho, chain_newScope (Nat.lt_trans hj hold)]⟩
  · obtain rfl : k = s.scopes.size := Nat.le_antisymm (Nat.le_of_lt_succ hk) (Nat.le_of_not_lt hold)
    cases parent with
    | none => exact .inl (by simp [outer?, Store.newScope])
    | some i =>
      have hi := hp i rfl
      exact .inr ⟨i, hi, by rw [chain_newScope hi]; simp [outer?, Store.newScope]⟩

end IsForest

/-- A walk has one end. -/
theorem Finds.unique {r r' : Option ScopeId} (h : s.Finds name i r) (h' : s.Finds name i r') :
    r = r' := by
  induction h with
  | here hb =>
    cases h' with
    | here => rfl
    | outside hn | nowhere hn => exact absurd hb hn
  | outside hn hl _ ih =>
    cases h' with
    | here hb => exact absurd hb hn
    | outside _ hl' h' =>
      obtain rfl := Option.some.inj (hl.symm.trans hl')
      exact ih h'
    | nowhere _ hl' => exact nomatch hl.symm.trans hl'
  | nowhere hn hl =>
    cases h' with
    | here hb => exact absurd hb hn
    | outside _ hl' => exact nomatch hl.symm.trans hl'
    | nowhere => rfl

/-- The scope that a name belongs to is the one that is found. -/
theorem IsForest.owner?_eq_iff (h : s.IsForest) {r : Option ScopeId} :
    s.owner? i name = r ↔ s.Finds name i r := by
  constructor
  · rintro rfl
    exact h.finds name i
  · exact (h.finds name i).unique

/-- A name is found in the first scope that binds it. -/
theorem finds_some_iff : s.Finds name i (some o) ↔ s.Unshadowed name o i ∧ name ∈ s.names o := by
  constructor
  · intro h
    generalize hr : some o = r at h
    induction h with
    | here hb =>
      obtain rfl := Option.some.inj hr
      exact ⟨.here, hb⟩
    | outside hn hl _ ih => exact ⟨.outside hn hl (ih hr).1, (ih hr).2⟩
    | nowhere => cases hr
  · rintro ⟨h, hb⟩
    induction h with
    | here => exact .here hb
    | outside hn hl _ ih => exact .outside hn hl ih

/-- What a walk meets are the names and the links. -/
theorem Finds.congr {r : Option ScopeId} (h : s.Finds name i r)
    (hnames : ∀ j, name ∈ s'.names j ↔ name ∈ s.names j)
    (hlinks : ∀ j, s'.enclosing? j = s.enclosing? j) : s'.Finds name i r := by
  induction h with
  | here hb => exact .here ((hnames _).mpr hb)
  | outside hn hl _ ih => exact .outside (mt (hnames _).mp hn) ((hlinks _).trans hl) ih
  | nowhere hn hl => exact .nowhere (mt (hnames _).mp hn) ((hlinks _).trans hl)

/-! ## Definitions -/

theorem enclosing?_define (s : Store) (i j : ScopeId) (name : String) (v : Value) :
    (s.define i name v).enclosing? j = s.enclosing? j := by
  rw [enclosing?, outer?_define, enclosing?]

theorem mem_names_define_iff (hi : i < s.scopes.size) :
    x ∈ (s.define i name v).names j ↔ x ∈ s.names j ∨ i = j ∧ x = name := by
  constructor
  · exact mem_names_define
  · rintro (h | ⟨rfl, rfl⟩)
    · exact ((continues_define i name v).names j).subset h
    · rw [names, bindings_define, if_pos ⟨rfl, hi⟩, Bindings.names_put]
      split
      · assumption
      · exact List.mem_append_right _ (List.mem_singleton_self _)

theorem get?_eq_of_owner? (h : s.owner? i name = some o) :
    s.get? i name = (s.bindings o).lookup name := by
  rw [get?, h]
  rfl

/-- The new value is found on the way on which nothing else is. -/
theorem finds_define (hi : i < s.scopes.size) (h : s.Unshadowed name i j) :
    (s.define i name v).Finds name j (some i) := by
  induction h with
  | here => exact .here ((mem_names_define_iff hi).mpr (.inr ⟨rfl, rfl⟩))
  | @outside k l hn hl _ ih =>
    by_cases hk : i = k
    · subst hk
      exact .here ((mem_names_define_iff hi).mpr (.inr ⟨rfl, rfl⟩))
    · refine .outside ?_ ((enclosing?_define ..).trans hl) ih
      rw [mem_names_define_iff hi]
      exact fun hor => hor.elim hn fun h => hk h.1

/-- On other ways, what was found before is found. -/
theorem Finds.define {r : Option ScopeId} (h : s.Finds name j r) (hi : i < s.scopes.size)
    (hu : ¬s.Unshadowed name i j) : (s.define i name v).Finds name j r := by
  have hmiss {k : ScopeId} (hn : name ∉ s.names k) (hk : ¬s.Unshadowed name i k) :
      name ∉ (s.define i name v).names k := by
    rw [mem_names_define_iff hi]
    rintro (hb | ⟨rfl, -⟩)
    · exact hn hb
    · exact hk .here
  induction h with
  | here hb => exact .here ((mem_names_define_iff hi).mpr (.inl hb))
  | outside hn hl _ ih =>
    exact .outside (hmiss hn hu) ((enclosing?_define ..).trans hl)
      (ih fun h => hu (.outside hn hl h))
  | nowhere hn hl => exact .nowhere (hmiss hn hu) ((enclosing?_define ..).trans hl)

/-- What a store is after a definition in the scope `i` of another one. -/
structure Defined (s : Store) (i : ScopeId) (name : String) (v : Value) (s' : Store) : Prop where
  /-- the value is seen where nothing on the way to the scope binds the name -/
  seen (j : ScopeId) : s.Unshadowed name i j → s'.get? j name = some v
  other (j : ScopeId) (x : String) :
    ¬(x = name ∧ s.Unshadowed name i j) → s'.get? j x = s.get? j x
  /-- no other scope binds anything else -/
  elsewhere (j : ScopeId) : j ≠ i → s'.bindings j = s.bindings j
  own (x : String) :
    (s'.bindings i).lookup x = if x = name then some v else (s.bindings i).lookup x
  /-- a name that is bound keeps its place, and another one comes last -/
  names : s'.names i = if name ∈ s.names i then s.names i else s.names i ++ [name]

/-- What a definition does. -/
theorem IsForest.defined (h : s.IsForest) (hi : i < s.scopes.size) (name : String) (v : Value) :
    s.Defined i name v (s.define i name v) := by
  have hforest := h.define i name v
  have hown (x : String) : ((s.define i name v).bindings i).lookup x =
      if x = name then some v else (s.bindings i).lookup x := by
    rw [bindings_define, if_pos ⟨rfl, hi⟩, Bindings.lookup_put]
  have helse {j : ScopeId} (hj : j ≠ i) : (s.define i name v).bindings j = s.bindings j := by
    rw [bindings_define, if_neg fun hc => hj hc.1.symm]
  refine ⟨fun j hu => ?_, fun j x hx => ?_, fun j => helse, hown, ?_⟩
  · rw [get?_eq_of_owner? (hforest.owner?_eq_iff.mpr (finds_define hi hu)), hown, if_pos rfl]
  · have hfinds : (s.define i name v).Finds x j (s.owner? j x) := by
      by_cases hname : x = name
      · subst hname
        exact (h.finds x j).define hi fun hu => hx ⟨rfl, hu⟩
      · refine (h.finds x j).congr (fun k => ?_) fun k => enclosing?_define ..
        rw [mem_names_define_iff hi]
        exact or_iff_left fun hc => hname hc.2
    have howner := hforest.owner?_eq_iff.mpr hfinds
    rw [get?, get?, howner]
    cases ho : s.owner? j x with
    | none => rfl
    | some o =>
      show List.lookup x ((s.define i name v).bindings o) = List.lookup x (s.bindings o)
      by_cases hoi : o = i
      · subst hoi
        have hne : x ≠ name := by
          rintro rfl
          exact hx ⟨rfl, (finds_some_iff.mp (h.owner?_eq_iff.mp ho)).1⟩
        rw [hown, if_neg hne]
      · rw [helse hoi]
  · rw [Store.names, bindings_define, if_pos ⟨rfl, hi⟩, Bindings.names_put]
    rfl

/-! ## Assignments -/

/-- What a store is after an assignment in the scope `i` of another one. -/
structure Assigned (s : Store) (i : ScopeId) (name : String) (v : Value) (s' : Store) : Prop where
  /-- the value is seen where the name belongs to the same scope -/
  seen (j o : ScopeId) :
    s.Finds name i (some o) → s.Finds name j (some o) → s'.get? j name = some v
  other (j : ScopeId) (x : String) :
    ¬(x = name ∧ ∃ o, s.Finds name i (some o) ∧ s.Finds name j (some o)) →
      s'.get? j x = s.get? j x
  owners (j : ScopeId) (x : String) (r : Option ScopeId) : s'.Finds x j r ↔ s.Finds x j r
  names (j : ScopeId) : s'.names j = s.names j

/-- What an assignment does: it writes a name where it is bound. -/
theorem IsForest.assigned (h : s.IsForest) (ho : s.Finds name i (some o)) (v : Value) :
    s.Assigned i name v (s.define o name v) := by
  obtain ⟨-, hb⟩ := finds_some_iff.mp ho
  have hlt : o < s.scopes.size := by
    refine Nat.lt_of_not_le fun hle => ?_
    rw [names_of_size_le hle] at hb
    cases hb
  have hdefined := h.defined hlt name v
  have hnames (j : ScopeId) : (s.define o name v).names j = s.names j := names_define_of_mem hb
  refine ⟨fun j o' ho' hj => ?_, fun j x hx => ?_, fun j x r => ⟨fun hr => ?_, fun hr => ?_⟩,
    hnames⟩
  · obtain rfl := Option.some.inj (ho.unique ho')
    exact hdefined.seen j (finds_some_iff.mp hj).1
  · refine hdefined.other j x ?_
    rintro ⟨rfl, hu⟩
    exact hx ⟨rfl, o, ho, finds_some_iff.mpr ⟨hu, hb⟩⟩
  · exact hr.congr (fun k => by rw [hnames]) fun k => (enclosing?_define ..).symm
  · exact hr.congr (fun k => by rw [hnames]) fun k => enclosing?_define ..

/-! ## The laws -/

theorem Built.isForest (h : s.Built) : s.IsForest := by
  induction h with
  | empty => exact fun i hi => absurd hi (Nat.not_lt_zero i)
  | newScope _ hp ih => exact ih.newScope hp
  | define _ _ name v ih => exact ih.define _ name v
  | assign _ ha ih =>
    obtain ⟨o, -, rfl⟩ := Option.map_eq_some_iff.mp ha
    exact ih.define o _ _

/-- A new scope lies in the one that it was made in. -/
theorem enclosing?_newScope_self (hi : i < s.scopes.size) :
    (s.newScope (some i)).1.enclosing? s.scopes.size = some i := by
  obtain ⟨outer, -, hc⟩ := chain_of_lt hi
  simp [enclosing?, outer?, Store.newScope, hc]

/-- **The laws of the store.** In a forest of scopes, reading a name, assigning to it and asking for
it succeed together, namely if the name is found on the way out. An assignment is then seen from the
scopes in which the name belongs to the same scope, and a definition from those from which no nearer
scope binds the name; everything else stays as it was. If the name is not found then a run that
reads it or assigns to it fails, and leaves its state alone. -/
theorem Built.store_laws (hs : s.Built) (hi : i < s.scopes.size) (name : String) (v : Value) :
    (∀ o, s.Finds name i (some o) →
      s.contains i name = true ∧
      (∃ w, (s.bindings o).lookup name = some w ∧ s.get? i name = some w) ∧
      ∃ s', s.assign? i name v = some s' ∧ s.Assigned i name v s') ∧
    ((∀ o, ¬s.Finds name i (some o)) →
      s.contains i name = false ∧ s.get? i name = none ∧ s.assign? i name v = none ∧
      ∀ (t : Token) (config : Config) (m : Machine),
        t.lexeme = name → m.store = s → m.current = i →
        Eval.lookup t config m = .failed (.runtime ⟨.undefinedVariable name, t⟩) m ∧
        Eval.assign t v config m = .failed (.runtime ⟨.undefinedVariable name, t⟩) m) ∧
    s.Defined i name v (s.define i name v) := by
  have h := hs.isForest
  refine ⟨fun o ho => ?_, fun hnone => ?_, h.defined hi name v⟩
  · have howner := h.owner?_eq_iff.mpr ho
    obtain ⟨w, hw⟩ := Option.isSome_iff_exists.mp
      (isSome_lookup_iff.mpr (finds_some_iff.mp ho).2)
    refine ⟨by rw [contains, howner]; rfl, ⟨w, hw, (get?_eq_of_owner? howner).trans hw⟩, ?_⟩
    exact ⟨_, by rw [assign?, howner]; rfl, h.assigned ho v⟩
  · have howner : s.owner? i name = none := by
      cases ho : s.owner? i name with
      | none => rfl
      | some o => exact absurd (h.owner?_eq_iff.mp ho) (hnone o)
    have hget : s.get? i name = none := by rw [get?, howner]; rfl
    refine ⟨by rw [contains, howner]; rfl, hget, by rw [assign?, howner]; rfl, ?_⟩
    rintro t config m rfl rfl rfl
    constructor
    · rw [Eval.lookup, hget]
    · rw [Eval.assign, howner]

/-- A scope inside the global one, both of which see a name that only the global one binds. -/
theorem Built.store_laws_nested :
    let s := (((Store.empty.newScope none).1.define 0 "a" .nil).newScope (some 0)).1
    (s.Built ∧ 1 < s.scopes.size ∧ s.Finds "a" 1 (some 0)) ∧
      (∃ s', s.assign? 1 "a" (.bool true) = some s' ∧ s.Assigned 1 "a" (.bool true) s') ∧
      s.Defined 1 "a" (.bool true) (s.define 1 "a" (.bool true)) := by
  intro s
  have hs : s.Built := by
    refine .newScope (.define (.newScope .empty (by simp)) (by decide) "a" .nil) ?_
    rintro i ⟨⟩
    decide
  have ho : s.Finds "a" 1 (some 0) := by
    refine .outside (by decide) ?_ (.here (by decide))
    exact enclosing?_newScope_self (by decide)
  obtain ⟨hfound, -, hdefined⟩ :=
    Built.store_laws hs (show 1 < s.scopes.size by decide) "a" (.bool true)
  obtain ⟨-, -, hassigned⟩ := hfound 0 ho
  exact ⟨⟨hs, by decide, ho⟩, hassigned, hdefined⟩

end Lox.Store
