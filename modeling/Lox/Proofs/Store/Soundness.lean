import Lox.Proofs.Node.WellFormed
import Lox.Proofs.Store.Growth

/-!
# Sound stores

In a sound store every name is bound to a value of the language, and every function has a body that
is well-formed. Functions refer to their declarations by number, so what a value is depends on how
many functions there are.

## Main definitions

* `Value.IsLox n v`: a value of the language, if there are `n` functions
* `Store.Sound P s`: the values and functions are as they should be

## Main results

* `Store.Sound.define`, `Store.Sound.newScope`, `Store.Sound.newClosure`: soundness is kept
-/

namespace Lox

/-- A value of the language and, if it is a function, one of the first `n`. -/
def Value.IsLox (n : Nat) : Value → Prop
  | .function f => f.id < n
  | .foreign _ => False
  | _ => True

theorem Value.IsLox.mono {n k : Nat} {v : Value} (h : v.IsLox n) (hk : n ≤ k) : v.IsLox k := by
  cases v with
  | function f => exact Nat.lt_of_lt_of_le h hk
  | _ => exact h

theorem Value.IsPlain.isLox {n : Nat} {v : Value} (h : v.IsPlain) : v.IsLox n := by
  cases v <;> trivial

/-- Values of the language can be displayed. -/
theorem Value.IsLox.display {n : Nat} {v : Value} (h : v.IsLox n) : ∃ s, v.display = .ok s := by
  cases v with
  | foreign => exact h.elim
  | bool b => cases b <;> exact ⟨_, rfl⟩
  | _ => exact ⟨_, rfl⟩

namespace Bindings

theorem mem_of_mem_put {name : String} {v : Value} {bs : Bindings} {b : String × Value}
    (h : b ∈ put name v bs) : b.2 = v ∨ b ∈ bs := by
  induction bs with
  | nil =>
    simp only [put, List.mem_singleton] at h
    simp [h]
  | cons c bs ih =>
    obtain ⟨n, w⟩ := c
    rw [put] at h
    split at h
    · rcases List.mem_cons.mp h with rfl | h
      · exact .inl rfl
      · exact .inr (List.mem_cons_of_mem _ h)
    · rcases List.mem_cons.mp h with rfl | h
      · exact .inr List.mem_cons_self
      · exact (ih h).imp_right (List.mem_cons_of_mem _)

theorem mem_of_lookup {name : String} {v : Value} {bs : Bindings}
    (h : bs.lookup name = some v) : ∃ n, (n, v) ∈ bs := by
  induction bs with
  | nil => simp at h
  | cons b bs ih =>
    obtain ⟨n, w⟩ := b
    rw [lookup_cons] at h
    split at h
    · obtain rfl := Option.some.inj h
      exact ⟨n, List.mem_cons_self⟩
    · obtain ⟨m, hm⟩ := ih h
      exact ⟨m, List.mem_cons_of_mem _ hm⟩

end Bindings

namespace Store

/-- All names are bound to values of the language, and the bodies of all functions are well-formed,
with tokens that satisfy `P`. -/
structure Sound (P : Token → Prop) (s : Store) : Prop where
  values (i : ScopeId) : ∀ b ∈ s.bindings i, b.2.IsLox s.closures.size
  bodies (i : Nat) : ∀ c ∈ s.closures[i]?, Node.AllStatements P c.body

variable {P : Token → Prop} {s : Store}

/-- Less may be asked of the tokens. -/
theorem Sound.mono {Q : Token → Prop} (h : s.Sound P) (hPQ : ∀ t, P t → Q t) : s.Sound Q where
  values := h.values
  bodies i c hc := Node.allStatements_iff.mpr fun n hn =>
    (Node.allStatements_iff.mp (h.bodies i c hc) n hn).mono hPQ

theorem Sound.get? (h : s.Sound P) {i : ScopeId} {name : String} {v : Value}
    (hv : s.get? i name = some v) : v.IsLox s.closures.size := by
  obtain ⟨j, -, hj⟩ := Option.bind_eq_some_iff.mp hv
  obtain ⟨n, hn⟩ := Bindings.mem_of_lookup hj
  exact h.values j _ hn

theorem Sound.define (h : s.Sound P) {i : ScopeId} {name : String} {v : Value}
    (hv : v.IsLox s.closures.size) : (s.define i name v).Sound P where
  values j b hb := by
    rw [bindings_define] at hb
    split at hb
    · rcases Bindings.mem_of_mem_put hb with rfl | hb
      · exact hv
      · exact h.values j b hb
    · exact h.values j b hb
  bodies := h.bodies

/-- A scope that is made binds nothing. -/
theorem bindings_newScope_subset (parent : Option ScopeId) (i : ScopeId) :
    (s.newScope parent).1.bindings i ⊆ s.bindings i := by
  by_cases hi : i < s.scopes.size
  · rw [bindings_newScope hi]
    exact List.Subset.refl _
  · have hnil : (s.newScope parent).1.bindings i = [] := by
      by_cases he : i = s.scopes.size
      · simp [bindings, newScope, he]
      · simp [bindings, newScope, Array.getElem?_push, he, hi]
    rw [hnil]
    exact List.nil_subset _

theorem Sound.newScope (h : s.Sound P) (parent : Option ScopeId) :
    (s.newScope parent).1.Sound P where
  values i b hb := h.values i b (bindings_newScope_subset parent i hb)
  bodies := h.bodies

theorem Sound.newClosure (h : s.Sound P) {c : Closure} (hc : Node.AllStatements P c.body) :
    (s.newClosure c).1.Sound P where
  values i b hb := by
    have hb' : b ∈ s.bindings i := hb
    refine (h.values i b hb').mono ?_
    simp [Store.newClosure]
  bodies i c' hc' := by
    simp only [Store.newClosure, Array.getElem?_push, Option.mem_def] at hc'
    split at hc'
    · obtain rfl := Option.some.inj hc'
      exact hc
    · exact h.bodies i c' hc'

/-- The arguments of a call are bound in the scope of the call. -/
theorem Sound.defineAll (h : s.Sound P) (i : ScopeId) {ps : List (Token × Value)}
    (hps : ∀ p ∈ ps, p.2.IsLox s.closures.size) :
    (ps.foldl (fun s (param, v) => s.define i param.lexeme v) s).Sound P ∧
      (ps.foldl (fun s (param, v) => s.define i param.lexeme v) s).closures = s.closures := by
  induction ps generalizing s with
  | nil => exact ⟨h, rfl⟩
  | cons p ps ih =>
    have hp := hps p List.mem_cons_self
    exact ih (h.define hp) fun q hq => hps q (List.mem_cons_of_mem _ hq)

end Store

end Lox
