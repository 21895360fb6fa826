import Lox.Node.Basic

/-!
# Scopes and functions

The store of a program: the scopes, which bind names to values, and the functions that were made.

A scope lies inside those of its chain. The chain is fixed when the scope is made, and consists of
scopes that are older, the nearest one first. A name belongs to the nearest scope of a chain that
binds it.

## Main definitions

* `Bindings`: names and their values, in the order in which the names were first bound
* `Store`: all scopes and all functions
* `Store.chain s i`: the scope `i` and those around it, from the inside out
* `Store.owner? s i name`: the scope that `name` belongs to in scope `i`
* `Store.get?`, `Store.assign?`, `Store.define`, `Store.contains`: what a program does with names

## Main results

* `Bindings.lookup_put`: writing a name changes what is read under that name only
-/

namespace Lox

/-- Names and their values, in the order in which the names were first bound. -/
abbrev Bindings := List (String × Value)

namespace Bindings

/-- Binds a name. A name that is bound already keeps its place. -/
def put (name : String) (v : Value) : Bindings → Bindings
  | [] => [(name, v)]
  | (n, w) :: bs => if n = name then (n, v) :: bs else (n, w) :: put name v bs

theorem lookup_cons (n other : String) (w : Value) (bs : Bindings) :
    List.lookup other ((n, w) :: bs) = if other = n then some w else bs.lookup other := by
  by_cases h : other = n
  · simp [h]
  · simp [List.lookup_cons, beq_eq_false_iff_ne.mpr h, h]

/-- Writing a name changes what is read under that name only. -/
theorem lookup_put (name other : String) (v : Value) (bs : Bindings) :
    (put name v bs).lookup other = if other = name then some v else bs.lookup other := by
  induction bs with
  | nil => simp [put, lookup_cons]
  | cons b bs ih =>
    obtain ⟨n, w⟩ := b
    by_cases hn : n = name
    · by_cases h : other = name <;> simp [put, lookup_cons, hn, h]
    · by_cases ho : other = n
      · have : ¬other = name := fun e => hn (ho ▸ e)
        simp [put, hn, ho]
      · simp [put, lookup_cons, hn, ho, ih]

end Bindings

/-- The number of a scope: how many scopes were made before it. -/
abbrev ScopeId := Nat

/-- The scope that is made first. -/
def globalScope : ScopeId := 0

/-- A scope: the scopes around it, the nearest one first, and what it binds. -/
structure Scope where
  outer : List ScopeId
  bindings : Bindings

/-- A function: its declaration, and the scope in which that was run. -/
structure Closure where
  name : Token
  params : List Token
  body : List Node
  scope : ScopeId

/-- All scopes and all functions, in the order in which they were made. -/
structure Store where
  scopes : Array Scope
  closures : Array Closure

namespace Store

/-- The store without a scope. -/
def empty : Store :=
  ⟨#[], #[]⟩

/-- What a scope binds. -/
def bindings (s : Store) (i : ScopeId) : Bindings :=
  match s.scopes[i]? with
  | some scope => scope.bindings
  | none => []

/-- The scope and those around it, from the inside out. -/
def chain (s : Store) (i : ScopeId) : List ScopeId :=
  match s.scopes[i]? with
  | some scope => i :: scope.outer
  | none => []

/-- The scope that a name belongs to: the nearest one of the chain that binds it. -/
def owner? (s : Store) (i : ScopeId) (name : String) : Option ScopeId :=
  (s.chain i).find? fun j => ((s.bindings j).lookup name).isSome

/-- Whether a name belongs to any scope of the chain. -/
def contains (s : Store) (i : ScopeId) (name : String) : Bool :=
  (s.owner? i name).isSome

/-- The value of a name. -/
def get? (s : Store) (i : ScopeId) (name : String) : Option Value :=
  (s.owner? i name).bind fun j => (s.bindings j).lookup name

/-- Binds a name in a scope, whatever the scopes around it bind. -/
def define (s : Store) (i : ScopeId) (name : String) (v : Value) : Store :=
  { s with scopes := s.scopes.modify i fun scope =>
      { scope with bindings := scope.bindings.put name v } }

/-- Changes the value of a name in the scope that it belongs to. -/
def assign? (s : Store) (i : ScopeId) (name : String) (v : Value) : Option Store :=
  (s.owner? i name).map fun j => s.define j name v

/-- Makes a scope that binds nothing, inside another one if there is one. -/
def newScope (s : Store) (parent : Option ScopeId) : Store × ScopeId :=
  let id := s.scopes.size
  let outer := match parent with
    | some i => s.chain i
    | none => []
  ({ s with scopes := s.scopes.push ⟨outer, []⟩ }, id)

/-- Makes a function. -/
def newClosure (s : Store) (c : Closure) : Store × FunctionRef :=
  let id := s.closures.size
  ({ s with closures := s.closures.push c }, ⟨id, c.name.lexeme, c.params.length⟩)

end Store

end Lox
