import Lox.Evaluation
import Lox.Proofs.Node.Relabel
import Lox.Proofs.Store.Soundness

/-!
# Programs with other tokens run alike

Where its tokens stand makes no difference for what a program does, only for what its runtime errors
say. Two programs whose trees differ in no more than that run alike: from states that are alike,
they end alike and leave states that are alike. The states may hold functions that were declared by
either program, so what differs between the two tokens of a place is given by a relation.

What is written apart from the output of the program is not compared.

## Main definitions

* `Closure.Alike R`, `Machine.Alike R`, `Outcome.Alike R Q`: functions, states and endings that are
  alike, if `R` relates the tokens
* `Eval.Alike R Q x x'`: the two runs lead from states that are alike to endings that are

## Main results

* `alikeRules`: the rules run alike
* `alike_interpret`: so do programs
-/

namespace Lox

variable {R : Token → Token → Prop} {f : Token → Token}

/-- The functions have the same declaration, but for where its tokens stand. -/
def Closure.Alike (R : Token → Token → Prop) (c c' : Closure) : Prop :=
  ∃ f, Relabels f ∧ Node.AllStatements (fun t => R t (f t)) c.body ∧
    c' = ⟨f c.name, c.params.map f, Node.relabelAll f c.body, c.scope⟩

/-- What the program has printed, the newest line first. -/
def Machine.printed (m : Machine) : List Write :=
  m.log.filter fun w => w.channel = .out

/-- The states bind the same names to the same values, have functions that are alike, and have
printed the same. -/
structure Machine.Alike (R : Token → Token → Prop) (m m' : Machine) : Prop where
  scopes : m'.store.scopes = m.store.scopes
  size : m'.store.closures.size = m.store.closures.size
  closures (i : Nat) : Option.Rel (Closure.Alike R) m.store.closures[i]? m'.store.closures[i]?
  current : m'.current = m.current
  printed : m'.printed = m.printed
  clockReads : m'.clockReads = m.clockReads

/-- Functions that are alike stay so if more tokens are related. -/
theorem Closure.Alike.mono {R' : Token → Token → Prop} {c c' : Closure} (h : c.Alike R c')
    (hR : ∀ t t', R t t' → R' t t') : c.Alike R' c' := by
  obtain ⟨f, hf, hbody, rfl⟩ := h
  refine ⟨f, hf, Node.allStatements_iff.mpr fun s hs => ?_, rfl⟩
  exact (Node.allStatements_iff.mp hbody s hs).mono fun t => hR t (f t)

/-- A function is like itself if the tokens of its body are related to themselves. -/
theorem Closure.alike_self {P : Token → Prop} {c : Closure} (h : Node.AllStatements P c.body)
    (hR : ∀ t, P t → R t t) : c.Alike R c := by
  refine ⟨id, relabels_id, Node.allStatements_iff.mpr fun s hs => ?_, ?_⟩
  · exact (Node.allStatements_iff.mp h s hs).mono hR
  · rw [Node.relabelAll_eq_map, Node.map_relabel_id, List.map_id]
    rfl

theorem Store.get?_congr {s s' : Store} (h : s'.scopes = s.scopes) (i : ScopeId) (name : String) :
    s'.get? i name = s.get? i name := by
  obtain ⟨scopes, closures⟩ := s
  obtain rfl := h
  rfl

theorem Store.owner?_congr {s s' : Store} (h : s'.scopes = s.scopes) (i : ScopeId)
    (name : String) : s'.owner? i name = s.owner? i name := by
  obtain ⟨scopes, closures⟩ := s
  obtain rfl := h
  rfl

/-- A state is like itself if its store is sound and the tokens there are related to themselves. -/
theorem Machine.alike_self {P : Token → Prop} {m : Machine} (h : m.store.Sound P)
    (hR : ∀ t, P t → R t t) : m.Alike R m where
  scopes := rfl
  size := rfl
  closures i := by
    cases hc : m.store.closures[i]? with
    | none => exact .none
    | some c => exact .some (Closure.alike_self (h.bodies i c hc) hR)
  current := rfl
  printed := rfl
  clockReads := rfl

namespace Machine.Alike

variable {m m' : Machine}

theorem mono {R' : Token → Token → Prop} (hm : m.Alike R m') (hR : ∀ t t', R t t' → R' t t') :
    m.Alike R' m' where
  scopes := hm.scopes
  size := hm.size
  closures i := by
    have h := hm.closures i
    generalize m.store.closures[i]? = c, m'.store.closures[i]? = c' at h ⊢
    cases h with
    | none => exact .none
    | some h => exact .some (h.mono hR)
  current := hm.current
  printed := hm.printed
  clockReads := hm.clockReads


theorem define (hm : m.Alike R m') (i : ScopeId) (name : String) (v : Value) :
    Alike R { m with store := m.store.define i name v }
      { m' with store := m'.store.define i name v } :=
  { hm with scopes := by simp only [Store.define, hm.scopes] }

theorem defineAll (hm : m.Alike R m') (i : ScopeId) (ps : List (Token × Value)) :
    Alike R { m with store := ps.foldl (fun s p => s.define i p.1.lexeme p.2) m.store }
      { m' with store := ps.foldl (fun s p => s.define i p.1.lexeme p.2) m'.store } := by
  induction ps generalizing m m' with
  | nil => exact hm
  | cons p ps ih => exact ih (hm.define i p.1.lexeme p.2)

theorem newScope (hm : m.Alike R m') (parent : Option ScopeId) :
    Alike R { m with store := (m.store.newScope parent).1 }
      { m' with store := (m'.store.newScope parent).1 } :=
  { hm with scopes := by simp only [Store.newScope, Store.chain, hm.scopes] }

theorem newClosure (hm : m.Alike R m') {c c' : Closure} (h : c.Alike R c') :
    Alike R { m with store := (m.store.newClosure c).1 }
      { m' with store := (m'.store.newClosure c').1 } where
  scopes := hm.scopes
  size := by simp only [Store.newClosure, Array.size_push, hm.size]
  closures i := by
    simp only [Store.newClosure, Array.getElem?_push, hm.size]
    split
    · exact .some h
    · exact hm.closures i
  current := hm.current
  printed := hm.printed
  clockReads := hm.clockReads

end Machine.Alike

/-- The runtime errors have the same cause. -/
def RuntimeError.Alike (R : Token → Token → Prop) (e e' : RuntimeError) : Prop :=
  e'.cause = e.cause ∧ R e.token e'.token

/-- The failures are the same, but for the tokens. -/
def Failure.Alike (R : Token → Token → Prop) : Failure → Failure → Prop
  | .runtime e, .runtime e' => e.Alike R e'
  | .fault x, .fault x' => x' = x
  | .tooDeep, .tooDeep => True
  | _, _ => False

/-- Both runs end in the same way, with results that are related by `Q`. -/
def Outcome.Alike {α β : Type} (R : Token → Token → Prop) (Q : α → β → Prop) :
    Outcome α → Outcome β → Prop
  | .done a m, .done b m' => Q a b ∧ m.Alike R m'
  | .failed x m, .failed x' m' => x.Alike R x' ∧ m.Alike R m'
  | .unfinished, .unfinished => True
  | _, _ => False

namespace Eval

variable {α β γ δ : Type}

/-- From states that are alike, the runs end alike. -/
def Alike (R : Token → Token → Prop) (Q : α → β → Prop) (x : Eval α) (x' : Eval β) : Prop :=
  ∀ config m m', m.Alike R m' → (x config m).Alike R Q (x' config m')

/-- One run after another. -/
theorem Alike.bind {Q : α → β → Prop} {Q' : γ → δ → Prop} {x : Eval α} {x' : Eval β}
    {next : α → Eval γ} {next' : β → Eval δ} (h : Alike R Q x x')
    (hk : ∀ a b, Q a b → Alike R Q' (next a) (next' b)) :
    Alike R Q' (x >>= next) (x' >>= next') := by
  intro config m m' hm
  have hx := h config m m' hm
  rw [bind_apply, bind_apply]
  cases hr : x config m <;> cases hr' : x' config m' <;> rw [hr, hr'] at hx
  case done.done a n b n' => exact hk a b hx.1 config n n' hx.2
  case failed.failed => exact hx
  case unfinished.unfinished => trivial
  all_goals exact hx.elim

/-- One run after another, the first of which has the same result in both cases. -/
theorem Alike.bindEq {Q : γ → δ → Prop} {x x' : Eval α} {next : α → Eval γ} {next' : α → Eval δ}
    (h : Alike R Eq x x') (hk : ∀ a, Alike R Q (next a) (next' a)) :
    Alike R Q (x >>= next) (x' >>= next') :=
  h.bind fun a _ hab => hab ▸ hk a

/-! ## Steps -/

theorem alike_pure {Q : α → β → Prop} {a : α} {b : β} (h : Q a b) :
    Alike R Q (pure a) (pure b) :=
  fun _ _ _ hm => ⟨h, hm⟩

theorem alike_unfinished {Q : α → β → Prop} :
    Alike R Q (unfinished : Eval α) (unfinished : Eval β) :=
  fun _ _ _ _ => trivial

theorem alike_fail {Q : α → β → Prop} {x x' : Failure} (h : x.Alike R x') :
    Alike R Q (fail x : Eval α) (fail x' : Eval β) :=
  fun _ _ _ hm => ⟨h, hm⟩

theorem alike_raise {Q : α → β → Prop} {cause : RuntimeCause} {t t' : Token} (h : R t t') :
    Alike R Q (raise cause t : Eval α) (raise cause t' : Eval β) :=
  alike_fail ⟨rfl, h⟩

theorem alike_debug : Alike R Eq debug debug :=
  fun _ _ _ hm => ⟨rfl, hm⟩

theorem alike_write (w : Write) : Alike R Eq (write w) (write w) := by
  intro config m m' hm
  have h : m'.log.filter (fun w => w.channel = .out) = m.log.filter fun w => w.channel = .out :=
    hm.printed
  have hp : (w :: m'.log).filter (fun w => w.channel = .out) =
      (w :: m.log).filter fun w => w.channel = .out := by
    rw [List.filter_cons, List.filter_cons, h]
  exact ⟨rfl, { hm with printed := hp }⟩

theorem alike_trace (w : Write) : Alike R Eq (trace w) (trace w) := by
  unfold trace
  refine alike_debug.bindEq fun b => ?_
  split
  · exact alike_write w
  · exact alike_pure rfl

theorem alike_readClock : Alike R Eq readClock readClock := by
  intro config m m' hm
  exact ⟨by rw [hm.clockReads], { hm with clockReads := by rw [hm.clockReads] }⟩

theorem alike_ofExcept {ε : Type} (failure : ε → Failure) (r : Except ε α)
    (h : ∀ e, r = .error e → (failure e).Alike R (failure e)) :
    Alike R Eq (ofExcept failure r) (ofExcept failure r) := by
  cases r with
  | ok a => exact alike_pure rfl
  | error e => exact alike_fail (h e rfl)

/-- Variables that are spelled in the same way have the same value. -/
theorem alike_lookup {name : Token} (hf : Relabels f) (h : R name (f name)) :
    Alike R Eq (lookup name) (lookup (f name)) := by
  intro config m m' hm
  unfold lookup
  rw [hf.lexeme, hm.current, Store.get?_congr hm.scopes]
  cases m.store.get? m.current name.lexeme with
  | some v => exact ⟨rfl, hm⟩
  | none => exact ⟨⟨rfl, h⟩, hm⟩

theorem alike_assign {name : Token} (hf : Relabels f) (h : R name (f name)) (v : Value) :
    Alike R Eq (assign name v) (assign (f name) v) := by
  intro config m m' hm
  unfold assign
  rw [hf.lexeme, hm.current, Store.owner?_congr hm.scopes]
  cases m.store.owner? m.current name.lexeme with
  | some i =>
    have hd := hm.define i name.lexeme v
    rw [hm.current] at hd
    exact ⟨rfl, hd⟩
  | none => exact ⟨⟨rfl, h⟩, hm⟩

theorem alike_define (name : String) (v : Value) :
    Alike R Eq (define name v) (define name v) := by
  intro config m m' hm
  have hd := hm.define m.current name v
  unfold define
  rw [hm.current] at hd ⊢
  exact ⟨rfl, hd⟩

/-- Declarations that read the same make the same function. -/
theorem alike_newFunction {name : Token} {params : List Token} {body : List Node}
    (hf : Relabels f) (h : Node.AllStatements (fun t => R t (f t)) body) :
    Alike R Eq (newFunction name params body)
      (newFunction (f name) (params.map f) (Node.relabelAll f body)) := by
  intro config m m' hm
  have hc : Closure.Alike R ⟨name, params, body, m.current⟩
      ⟨f name, params.map f, Node.relabelAll f body, m.current⟩ := ⟨f, hf, h, rfl⟩
  have hn := hm.newClosure hc
  -- the functions are known by the same number, as there are as many of them
  unfold newFunction
  rw [hm.current] at hn ⊢
  exact ⟨by simp only [hm.size, hf.lexeme, List.length_map], hn⟩

theorem alike_closure (g : FunctionRef) : Alike R (Closure.Alike R) (closure g) (closure g) := by
  intro config m m' hm
  unfold closure
  have hc := hm.closures g.id
  cases hx : m.store.closures[g.id]? <;> cases hy : m'.store.closures[g.id]? <;> rw [hx, hy] at hc
  · exact ⟨rfl, hm⟩
  · exact nomatch hc
  · exact nomatch hc
  · cases hc with
    | some hc => exact ⟨hc, hm⟩

theorem alike_newBlockScope : Alike R Eq newBlockScope newBlockScope := by
  intro config m m' hm
  have hn := hm.newScope (some m.current)
  unfold newBlockScope
  rw [hm.current] at hn ⊢
  exact ⟨congrArg Array.size hm.scopes.symm, hn⟩

/-- Parameters that are spelled in the same way are bound to the same arguments. -/
theorem alike_newCallScope {c c' : Closure} (h : c.Alike R c') (vs : List Value) :
    Alike R Eq (newCallScope c vs) (newCallScope c' vs) := by
  intro config m m' hm
  obtain ⟨f, hf, -, rfl⟩ := h
  have hsize : m'.store.scopes.size = m.store.scopes.size := congrArg Array.size hm.scopes
  refine ⟨hsize.symm, ?_⟩
  rw [List.zip_map_left, List.foldl_map]
  simp only [Prod.map_fst, Prod.map_snd, id_eq, hf.lexeme, hsize]
  exact (hm.newScope (some c.scope)).defineAll m.store.scopes.size (c.params.zip vs)

theorem alike_within {Q : α → β → Prop} {i : ScopeId} {x : Eval α} {x' : Eval β}
    (h : Alike R Q x x') : Alike R Q (within i x) (within i x') := by
  intro config m m' hm
  have hx := h config { m with current := i } { m' with current := i } { hm with current := rfl }
  unfold within
  cases hr : x config { m with current := i } <;>
    cases hr' : x' config { m' with current := i } <;> rw [hr, hr'] at hx
  case done.done => exact ⟨hx.1, { hx.2 with current := hm.current }⟩
  case failed.failed => exact ⟨hx.1, { hx.2 with current := hm.current }⟩
  case unfinished.unfinished => trivial
  all_goals exact hx.elim

theorem alike_callNative (g : Native) : Alike R Eq (callNative g) (callNative g) := by
  cases g with
  | clock => exact alike_readClock.bindEq fun x => alike_pure rfl
  | silent => exact alike_pure rfl

/-- Operators that are spelled in the same way do the same. -/
theorem alike_ofOperator {op : Token} (h : R op (f op)) (r : Except OperatorError α) :
    Alike R Eq (ofOperator op r) (ofOperator (f op) r) := by
  rcases r with (cause | fault) | v
  · exact alike_fail ⟨rfl, h⟩
  · exact alike_fail rfl
  · exact alike_pure rfl

theorem unary_relabel {op : Token} (hf : Relabels f) (v : Value) :
    v.unary (f op) = v.unary op := by
  unfold Value.unary
  rw [hf.kind, hf.lexeme]

theorem binary_relabel {op : Token} (hf : Relabels f) (v w : Value) :
    v.binary (f op) w = v.binary op w := by
  unfold Value.binary
  rw [hf.kind, hf.lexeme]

theorem decides_relabel {op : Token} (hf : Relabels f) (v : Value) :
    decides (f op) v = decides op v := by
  unfold decides
  rw [hf.kind]

end Eval

/-! ## The rules -/

open Eval

/-- The rules with this much fuel run alike in front of well-formed trees whose tokens `R` relates
to those in their places. -/
structure AlikeRules (R : Token → Token → Prop) (fuel : Nat) : Prop where
  evaluate {calls : Nat} {e : Node} {f : Token → Token} : Relabels f →
    e.IsExpression (fun t => R t (f t)) →
    Alike R Eq (evaluate fuel calls e) (evaluate fuel calls (e.relabel f))
  evaluateAll {calls : Nat} {es : List Node} {f : Token → Token} : Relabels f →
    Node.AllExpressions (fun t => R t (f t)) es →
    Alike R Eq (evaluateAll fuel calls es) (evaluateAll fuel calls (Node.relabelAll f es))
  call {calls : Nat} {paren paren' : Token} (v : Value) (vs : List Value) : R paren paren' →
    Alike R Eq (call fuel calls paren v vs) (call fuel calls paren' v vs)
  callFunction {calls : Nat} (g : FunctionRef) (vs : List Value) :
    Alike R Eq (callFunction fuel calls g vs) (callFunction fuel calls g vs)
  execute {calls : Nat} {s : Node} {f : Token → Token} : Relabels f →
    s.IsStatement (fun t => R t (f t)) →
    Alike R Eq (execute fuel calls s) (execute fuel calls (s.relabel f))
  executeAll {calls : Nat} {ss : List Node} {f : Token → Token} : Relabels f →
    Node.AllStatements (fun t => R t (f t)) ss →
    Alike R Eq (executeAll fuel calls ss) (executeAll fuel calls (Node.relabelAll f ss))
  loop {calls : Nat} {c b : Node} {f : Token → Token} : Relabels f →
    c.IsExpression (fun t => R t (f t)) → b.IsStatement (fun t => R t (f t)) →
    Alike R Eq (loop fuel calls c b) (loop fuel calls (c.relabel f) (b.relabel f))

namespace AlikeRules

variable {fuel calls : Nat}

theorem evaluate_succ (ih : AlikeRules R fuel) {e : Node} (hf : Relabels f)
    (h : e.IsExpression fun t => R t (f t)) :
    Alike R Eq (Lox.evaluate (fuel + 1) calls e)
      (Lox.evaluate (fuel + 1) calls (e.relabel f)) := by
  unfold Lox.evaluate
  cases e with
  | lit v => exact alike_pure rfl
  | group e => exact ih.evaluate hf h
  | unary operator right =>
    obtain ⟨hR, -, h⟩ := h
    refine (ih.evaluate hf h).bindEq fun v => ?_
    rw [unary_relabel hf]
    exact alike_ofOperator hR _
  | binary left operator right =>
    obtain ⟨hR, -, hl, hr⟩ := h
    refine (ih.evaluate hf hl).bindEq fun v => ?_
    refine (ih.evaluate hf hr).bindEq fun w => ?_
    rw [binary_relabel hf]
    exact alike_ofOperator hR _
  | logical left operator right =>
    obtain ⟨-, -, hl, hr⟩ := h
    refine (ih.evaluate hf hl).bindEq fun v => ?_
    rw [decides_relabel hf]
    split
    · exact alike_pure rfl
    · exact ih.evaluate hf hr
  | ident name => exact alike_lookup hf h
  | assign name e =>
    obtain ⟨hR, h⟩ := h
    refine (ih.evaluate hf h).bindEq fun v => ?_
    exact (alike_assign hf hR v).bindEq fun _ => alike_pure rfl
  | call callee paren arguments =>
    obtain ⟨hR, hc, has⟩ := h
    refine (ih.evaluate hf hc).bindEq fun v => ?_
    exact (ih.evaluateAll hf has).bindEq fun vs => ih.call v vs hR
  | _ => exact h.elim

theorem evaluateAll_succ (ih : AlikeRules R fuel) {es : List Node} (hf : Relabels f)
    (h : Node.AllExpressions (fun t => R t (f t)) es) :
    Alike R Eq (Lox.evaluateAll (fuel + 1) calls es)
      (Lox.evaluateAll (fuel + 1) calls (Node.relabelAll f es)) := by
  unfold Lox.evaluateAll
  cases es with
  | nil => exact alike_pure rfl
  | cons e es =>
    refine (ih.evaluate hf h.1).bindEq fun v => ?_
    exact (ih.evaluateAll hf h.2).bindEq fun vs => alike_pure rfl

theorem call_succ (ih : AlikeRules R fuel) {paren paren' : Token} (v : Value) (vs : List Value)
    (hR : R paren paren') :
    Alike R Eq (Lox.call (fuel + 1) calls paren v vs)
      (Lox.call (fuel + 1) calls paren' v vs) := by
  unfold Lox.call
  split
  · exact alike_raise hR
  split
  · exact alike_raise hR
  cases v with
  | function g => exact ih.callFunction g vs
  | native g => exact alike_callNative g
  | _ => exact alike_raise hR

/-- Functions that are alike have bodies that run alike. -/
theorem callFunction_succ (ih : AlikeRules R fuel) (g : FunctionRef) (vs : List Value) :
    Alike R Eq (Lox.callFunction (fuel + 1) calls g vs)
      (Lox.callFunction (fuel + 1) calls g vs) := by
  unfold Lox.callFunction
  cases calls with
  | zero => exact alike_fail trivial
  | succ calls =>
    refine (alike_closure g).bind fun c c' hc => ?_
    refine (alike_newCallScope hc vs).bindEq fun i => ?_
    obtain ⟨f, hf, hbody, rfl⟩ := hc
    simp only [hf.lexeme]
    refine (alike_trace _).bindEq fun _ => ?_
    refine (alike_within (ih.executeAll hf hbody)).bindEq fun r => ?_
    cases r <;> exact alike_pure rfl

theorem execute_succ (ih : AlikeRules R fuel) {s : Node} (hf : Relabels f)
    (h : s.IsStatement fun t => R t (f t)) :
    Alike R Eq (Lox.execute (fuel + 1) calls s)
      (Lox.execute (fuel + 1) calls (s.relabel f)) := by
  unfold Lox.execute
  cases s with
  | exprStmt e =>
    refine (alike_trace _).bindEq fun _ => ?_
    exact (ih.evaluate hf h).bindEq fun _ => alike_pure rfl
  | printStmt e =>
    refine (alike_trace _).bindEq fun _ => (ih.evaluate hf h).bindEq fun v => ?_
    refine (alike_ofExcept .fault v.display fun e _ => rfl).bindEq fun line => ?_
    exact (alike_write _).bindEq fun _ => alike_pure rfl
  | varDecl name initializer =>
    have hdefine : ∀ v, Alike R Eq (do
        define name.lexeme v
        return Completion.normal) (do
        define (f name).lexeme v
        return Completion.normal) := fun v => by
      rw [hf.lexeme]
      exact (alike_define name.lexeme v).bindEq fun _ => alike_pure rfl
    cases initializer with
    | some e =>
      refine (alike_trace _).bindEq fun _ => ?_
      exact (ih.evaluate hf h.2).bindEq hdefine
    | none => exact (alike_trace _).bindEq fun _ => hdefine .nil
  | block ss =>
    rw [Node.IsStatement] at h
    refine (alike_trace _).bindEq fun _ => ?_
    exact alike_newBlockScope.bindEq fun i => alike_within (ih.executeAll hf h)
  | ifStmt c t e =>
    cases e with
    | some e =>
      refine (alike_trace _).bindEq fun _ => (ih.evaluate hf h.1).bindEq fun v => ?_
      split
      · exact ih.execute hf h.2.1
      · exact ih.execute hf h.2.2
    | none =>
      refine (alike_trace _).bindEq fun _ => (ih.evaluate hf h.1).bindEq fun v => ?_
      split
      · exact ih.execute hf h.2
      · exact alike_pure rfl
  | whileStmt c b => exact (alike_trace _).bindEq fun _ => ih.loop hf h.1 h.2
  | funcDecl name params body =>
    refine (alike_trace _).bindEq fun _ => ?_
    refine (alike_newFunction hf h.2.2).bindEq fun g => ?_
    rw [hf.lexeme]
    exact (alike_define name.lexeme _).bindEq fun _ => alike_pure rfl
  | returnStmt keyword value =>
    cases value with
    | some e =>
      refine (alike_trace _).bindEq fun _ => ?_
      exact (ih.evaluate hf h.2).bindEq fun v => alike_pure rfl
    | none => exact (alike_trace _).bindEq fun _ => alike_pure rfl
  | _ => exact h.elim

theorem executeAll_succ (ih : AlikeRules R fuel) {ss : List Node} (hf : Relabels f)
    (h : Node.AllStatements (fun t => R t (f t)) ss) :
    Alike R Eq (Lox.executeAll (fuel + 1) calls ss)
      (Lox.executeAll (fuel + 1) calls (Node.relabelAll f ss)) := by
  unfold Lox.executeAll
  cases ss with
  | nil => exact alike_pure rfl
  | cons s ss =>
    refine (ih.execute hf h.1).bindEq fun r => ?_
    cases r with
    | returned v => exact alike_pure rfl
    | normal => exact ih.executeAll hf h.2

theorem loop_succ (ih : AlikeRules R fuel) {c b : Node} (hf : Relabels f)
    (hc : c.IsExpression fun t => R t (f t)) (hb : b.IsStatement fun t => R t (f t)) :
    Alike R Eq (Lox.loop (fuel + 1) calls c b)
      (Lox.loop (fuel + 1) calls (c.relabel f) (b.relabel f)) := by
  unfold Lox.loop
  refine (ih.evaluate hf hc).bindEq fun v => ?_
  split
  · refine (ih.execute hf hb).bindEq fun r => ?_
    cases r with
    | returned v => exact alike_pure rfl
    | normal => exact ih.loop hf hc hb
  · exact alike_pure rfl

end AlikeRules

/-- All rules run alike in front of trees that read the same. -/
theorem alikeRules (R : Token → Token → Prop) (fuel : Nat) : AlikeRules R fuel := by
  induction fuel with
  | zero =>
    constructor <;> intros <;>
      simp only [evaluate, evaluateAll, call, callFunction, execute, executeAll, loop] <;>
      exact alike_unfinished
  | succ fuel ih =>
    exact {
      evaluate := ih.evaluate_succ
      evaluateAll := ih.evaluateAll_succ
      call := ih.call_succ
      callFunction := ih.callFunction_succ
      execute := ih.execute_succ
      executeAll := ih.executeAll_succ
      loop := ih.loop_succ }

/-! ## Programs -/

theorem alike_executeProgram (b : Budget) (hf : Relabels f) {ss : List Node}
    (h : Node.AllStatements (fun t => R t (f t)) ss) :
    Alike R Eq (executeProgram b ss) (executeProgram b (ss.map (Node.relabel f))) := by
  induction ss with
  | nil => exact alike_pure rfl
  | cons s ss ih =>
    rw [List.map_cons, executeProgram, executeProgram]
    exact ((alikeRules R b.fuel).execute hf h.1).bindEq fun _ => ih h.2

/-- Programs that read the same end with runtime errors that are alike, or with none. -/
theorem alike_interpret (b : Budget) (hf : Relabels f) {ss : List Node}
    (h : Node.AllStatements (fun t => R t (f t)) ss) :
    Alike R (Option.Rel (RuntimeError.Alike R)) (interpret b ss)
      (interpret b (ss.map (Node.relabel f))) := by
  intro config m m' hm
  have hx := alike_executeProgram b hf h config m m' hm
  unfold interpret reportRuntimeError
  cases hr : executeProgram b ss config m <;>
    cases hr' : executeProgram b (ss.map (Node.relabel f)) config m' <;> rw [hr, hr'] at hx
  case done.done => exact ⟨.none, hx.2⟩
  case unfinished.unfinished => trivial
  case failed.failed x n x' n' =>
    cases x <;> cases x'
    case runtime.runtime => exact ⟨.some hx.1, { hx.2 with printed := hx.2.printed }⟩
    case fault.fault | tooDeep.tooDeep => exact hx
    all_goals exact hx.1.elim
  all_goals exact hx.elim

end Lox
