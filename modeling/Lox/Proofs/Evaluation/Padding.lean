import Lox.Proofs.Evaluation.Formation
import Lox.Proofs.Evaluation.Frame
import Lox.Proofs.Evaluation.Fuel
import Lox.Proofs.Evaluation.Simulation
import Lox.Proofs.Store.Padding

/-!
# Spare scopes make no difference

What is run in two states that differ by spare scopes ends in the same way, and the states that it
leaves differ by spare scopes again. It may even be run in a spare scope, if it declares nothing
there.

Two runs that are compared need not be of one program, and need not use up the same fuel.

## Main definitions

* `Machine.Padded p m m'`: the state `m'` is the state `m` with spare scopes
* `Eval.Agrees d p m m' Q x x'`: from these states the runs end in the same way, or one of them runs
  out of fuel

## Main results

* `paddedRules`: all rules of evaluation agree with themselves
* `agrees_interpret`: so do programs
-/

namespace Lox

/-- The stores differ by spare scopes, from the current ones the same is found, and the same was
printed. -/
structure Machine.Padded (p : Padding) (m m' : Machine) : Prop where
  store : m.store.Padded p m'.store
  current : Store.Links p m.store m'.store m.current m'.current
  printed : m'.printed = m.printed
  clockReads : m'.clockReads = m.clockReads

/-- The current scope is the same one in both states, and no spare one. -/
def Machine.Exact (p : Padding) (m m' : Machine) : Prop :=
  p.kept[m.current]? = some m'.current

/-- A later state in the same scope. -/
structure Machine.Later (m n : Machine) : Prop where
  store : m.store.Continues n.store
  current : n.current = m.current

/-- Later states that differ by spare scopes. -/
structure Machine.StillPadded (p : Padding) (m m' : Machine) (q : Padding) (n n' : Machine) :
    Prop where
  grown : p.Extends q
  padded : n.Padded q n'
  left : m.Later n
  right : m'.Later n'

namespace Machine

variable {p q r : Padding} {m m' n n' o o' : Machine} {i k : ScopeId}

theorem Later.refl (m : Machine) : m.Later m :=
  ⟨.refl _, rfl⟩

theorem Later.trans (h : m.Later n) (h' : n.Later o) : m.Later o :=
  ⟨h.store.trans h'.store, h'.current.trans h.current⟩

theorem Padded.still (h : m.Padded p m') : StillPadded p m m' p m m' :=
  ⟨.refl p, h, .refl m, .refl m'⟩

theorem StillPadded.trans (h : StillPadded p m m' q n n') (h' : StillPadded q n n' r o o') :
    StillPadded p m m' r o o' :=
  ⟨h.grown.trans h'.grown, h'.padded, h.left.trans h'.left, h.right.trans h'.right⟩

theorem StillPadded.links (h : StillPadded p m m' q n n')
    (hl : Store.Links p m.store m'.store i k) : Store.Links q n.store n'.store i k :=
  hl.mono h.grown h.left.store h.right.store

theorem StillPadded.exact (h : StillPadded p m m' q n n') (he : Exact p m m') : Exact q n n' := by
  unfold Exact
  rw [h.left.current, h.right.current]
  exact h.grown.place he

/-- The stores are changed, and nothing else. -/
theorem Padded.later (h : m.Padded p m') (hq : p.Extends q) {s s' : Store}
    (hs : m.store.Continues s) (hs' : m'.store.Continues s') (hpad : s.Padded q s') :
    StillPadded p m m' q { m with store := s } { m' with store := s' } :=
  ⟨hq, ⟨hpad, h.current.mono hq hs hs', h.printed, h.clockReads⟩, ⟨hs, rfl⟩, ⟨hs', rfl⟩⟩

/-- The same is done in other scopes. -/
theorem Padded.enter (h : m.Padded p m') (hi : p.kept[i]? = some k) :
    Padded p { m with current := i } { m' with current := k } :=
  { h with current := h.store.link hi }

/-- The scopes are left again in which something was done. -/
theorem StillPadded.leave
    (h : StillPadded p { m with current := i } { m' with current := k } q n n')
    (hm : m.Padded p m') :
    StillPadded p m m' q { n with current := m.current } { n' with current := m'.current } where
  grown := h.grown
  padded := { h.padded with current := hm.current.mono h.grown h.left.store h.right.store }
  left := ⟨h.left.store, rfl⟩
  right := ⟨h.right.store, rfl⟩

end Machine

open Machine

/-- Which of two runs may run out of fuel when the other one does not. -/
inductive Slack where
  | none | left | right
  deriving DecidableEq

/-- After states that differ by spare scopes, the outcomes are the same and leave states that differ
by spare scopes. If the runs end well then `Q` holds of the states and the results. -/
def Outcome.Agree {α β : Type} (d : Slack) (p : Padding) (m m' : Machine)
    (Q : Padding → Machine → Machine → α → β → Prop) : Outcome α → Outcome β → Prop
  | .done a n, .done b n' => ∃ q, StillPadded p m m' q n n' ∧ Q q n n' a b
  | .failed e n, .failed e' n' => e' = e ∧ ∃ q, StillPadded p m m' q n n'
  | .unfinished, .unfinished => True
  | .unfinished, _ => d = .left
  | _, .unfinished => d = .right
  | _, _ => False

/-- Runs that use up the same fuel may be compared with slack. -/
theorem Outcome.Agree.slack {α β : Type} {d : Slack} {p : Padding} {m m' : Machine}
    {Q : Padding → Machine → Machine → α → β → Prop} {o : Outcome α} {o' : Outcome β}
    (h : o.Agree .none p m m' Q o') : o.Agree d p m m' Q o' := by
  cases o <;> cases o' <;> first | exact h | exact nomatch h

/-- Outcomes that agree after later states agree after the earlier ones. -/
theorem Outcome.Agree.after {α β : Type} {d : Slack} {p q : Padding} {m m' n n' : Machine}
    {Q : Padding → Machine → Machine → α → β → Prop} {o : Outcome α} {o' : Outcome β}
    (h : o.Agree d q n n' Q o') (hq : StillPadded p m m' q n n') : o.Agree d p m m' Q o' := by
  cases o <;> cases o'
  case done.done =>
    obtain ⟨r, hr, hab⟩ := h
    exact ⟨r, hq.trans hr, hab⟩
  case failed.failed =>
    obtain ⟨he, r, hr⟩ := h
    exact ⟨he, r, hq.trans hr⟩
  all_goals exact h

namespace Eval

variable {α β γ δ : Type} {config : Config} {d : Slack} {p q : Padding} {m m' n n' : Machine}

/-- From states that differ by spare scopes, the runs end in the same way. -/
def Agrees (d : Slack) (config : Config) (p : Padding) (m m' : Machine)
    (Q : Padding → Machine → Machine → α → β → Prop) (x : Eval α) (x' : Eval β) : Prop :=
  (x config m).Agree d p m m' Q (x' config m')

/-- The results are equal. -/
def Same (_ : Padding) (_ _ : Machine) (a b : α) : Prop :=
  b = a

variable {Q : Padding → Machine → Machine → α → β → Prop}
  {R : Padding → Machine → Machine → γ → δ → Prop}

/-- One run after another. -/
theorem Agrees.bind {x : Eval α} {x' : Eval β} {k : α → Eval γ} {k' : β → Eval δ}
    (h : Agrees d config p m m' Q x x')
    (hk : ∀ q n n' a b, StillPadded p m m' q n n' → Q q n n' a b →
      Agrees d config q n n' R (k a) (k' b)) :
    Agrees d config p m m' R (x >>= k) (x' >>= k') := by
  unfold Agrees at h ⊢
  rw [bind_apply, bind_apply]
  cases hx : x config m <;> cases hx' : x' config m' <;> rw [hx, hx'] at h
  case done.done a n b n' =>
    obtain ⟨q, hq, hab⟩ := h
    exact Outcome.Agree.after (hk q n n' a b hq hab) hq
  case done.unfinished a n =>
    show (k a config n).Agree d p m m' R .unfinished
    cases k a config n
    case unfinished => trivial
    all_goals exact h
  case unfinished.done a n =>
    show Outcome.unfinished.Agree d p m m' R (k' a config n)
    cases k' a config n
    case unfinished => trivial
    all_goals exact h
  case done.failed | failed.done => exact h.elim
  all_goals exact h

/-- One run after another, the first of which has one result. -/
theorem Agrees.bindSame {x x' : Eval α} {k : α → Eval γ} {k' : α → Eval δ}
    (h : Agrees d config p m m' Same x x')
    (hk : ∀ q n n' a, StillPadded p m m' q n n' → Agrees d config q n n' R (k a) (k' a)) :
    Agrees d config p m m' R (x >>= k) (x' >>= k') := by
  refine h.bind fun q n n' a b hq hab => ?_
  obtain rfl : b = a := hab
  exact hk q n n' b hq

/-- The second run may be given more fuel. -/
theorem Agrees.below_right {x : Eval α} {x' y : Eval β} (h : Agrees .none config p m m' Q x x')
    (hy : Below x' y) : Agrees .left config p m m' Q x y := by
  unfold Agrees at h ⊢
  rcases hy config m' with hu | hu
  · rw [hu] at h
    cases hx : x config m <;> rw [hx] at h
    case unfinished => cases y config m' <;> first | rfl | trivial
    all_goals exact nomatch h
  · exact hu ▸ Outcome.Agree.slack h

/-- The first run may be given more fuel. -/
theorem Agrees.below_left {x y : Eval α} {x' : Eval β} (h : Agrees .none config p m m' Q x x')
    (hy : Below x y) : Agrees .right config p m m' Q y x' := by
  unfold Agrees at h ⊢
  rcases hy config m with hu | hu
  · rw [hu] at h
    cases hx : x' config m' <;> rw [hx] at h
    case unfinished => cases y config m <;> first | rfl | trivial
    all_goals exact nomatch h
  · exact hu ▸ Outcome.Agree.slack h

/-! ## Steps -/

theorem agrees_pure {a : α} {b : β} (hm : m.Padded p m') (h : Q p m m' a b) :
    Agrees d config p m m' Q (pure a) (pure b) :=
  ⟨p, hm.still, h⟩

theorem agrees_same (hm : m.Padded p m') (a : α) :
    Agrees d config p m m' Same (pure a) (pure a) :=
  agrees_pure hm rfl

theorem agrees_fail (hm : m.Padded p m') (e : Failure) :
    Agrees d config p m m' Q (fail e) (fail e) :=
  ⟨rfl, p, hm.still⟩

theorem agrees_raise (hm : m.Padded p m') (cause : RuntimeCause) (token : Token) :
    Agrees d config p m m' Q (raise cause token) (raise cause token) :=
  agrees_fail hm _

theorem agrees_unfinished : Agrees d config p m m' Q unfinished unfinished :=
  trivial

theorem agrees_ofExcept {ε : Type} (hm : m.Padded p m') (failure : ε → Failure)
    (r : Except ε α) :
    Agrees d config p m m' Same (ofExcept failure r) (ofExcept failure r) := by
  cases r with
  | ok a => exact agrees_same hm a
  | error e => exact agrees_fail hm _

/-- Something is written. -/
theorem agrees_write (hm : m.Padded p m') (w : Write) :
    Agrees d config p m m' Same (write w) (write w) := by
  have h : m'.log.filter (fun w => w.channel = .out) = m.log.filter fun w => w.channel = .out :=
    hm.printed
  have hp : (w :: m'.log).filter (fun w => w.channel = .out) =
      (w :: m.log).filter fun w => w.channel = .out := by
    rw [List.filter_cons, List.filter_cons, h]
  exact ⟨p, ⟨.refl p, { hm with printed := hp }, ⟨.refl _, rfl⟩, ⟨.refl _, rfl⟩⟩, rfl⟩

theorem agrees_debug (hm : m.Padded p m') : Agrees d config p m m' Same debug debug :=
  ⟨p, hm.still, rfl⟩

theorem agrees_trace (hm : m.Padded p m') (w : Write) :
    Agrees d config p m m' Same (trace w) (trace w) := by
  unfold trace
  refine (agrees_debug hm).bindSame fun q n n' b hq => ?_
  split
  · exact agrees_write hq.padded w
  · exact agrees_same hq.padded ()

/-- A trace is written by the second run only. It is nothing that the program prints. -/
theorem agrees_traceRight (hm : m.Padded p m') {w : Write} (hw : w.channel ≠ .out) :
    Agrees d config p m m' Same (pure ()) (trace w) := by
  have hp : Machine.printed { m' with log := w :: m'.log } = m.printed := by
    rw [← hm.printed]
    exact List.filter_cons_of_neg (by simpa using hw)
  unfold trace
  show Outcome.Agree d p m m' Same (.done () m)
    ((if config.debug = true then write w else pure ()) config m')
  split
  · exact ⟨p, ⟨.refl p, { hm with printed := hp }, ⟨.refl _, rfl⟩, ⟨.refl _, rfl⟩⟩, rfl⟩
  · exact ⟨p, hm.still, rfl⟩

theorem agrees_readClock (hm : m.Padded p m') :
    Agrees d config p m m' Same readClock readClock := by
  refine ⟨p, ⟨.refl p, { hm with clockReads := ?_ }, ⟨.refl _, rfl⟩, ⟨.refl _, rfl⟩⟩, ?_⟩
  · exact congrArg (· + 1) hm.clockReads
  · exact congrArg config.clock hm.clockReads

theorem agrees_lookup (hm : m.Padded p m') (name : Token) :
    Agrees d config p m m' Same (lookup name) (lookup name) := by
  unfold Agrees lookup
  rw [hm.store.get? hm.current]
  cases m.store.get? m.current name.lexeme with
  | some v => exact ⟨p, hm.still, rfl⟩
  | none => exact ⟨rfl, p, hm.still⟩

/-- The scope that a name belongs to is no spare one. -/
theorem agrees_assign (hm : m.Padded p m') (name : Token) (v : Value) :
    Agrees d config p m m' Same (assign name v) (assign name v) := by
  have ho := hm.store.owner? hm.current name.lexeme
  unfold Agrees assign
  generalize m.store.owner? m.current name.lexeme = o,
    m'.store.owner? m'.current name.lexeme = o' at ho
  cases ho with
  | none => exact ⟨rfl, p, hm.still⟩
  | @some i k hi =>
    exact ⟨p, hm.later (.refl p) (Store.continues_define ..) (Store.continues_define ..)
      (hm.store.define hi name.lexeme v), rfl⟩

/-- A name is bound in a scope that is no spare one. -/
theorem agrees_define (hm : m.Padded p m') (he : Exact p m m') (name : String) (v : Value) :
    Agrees d config p m m' Same (define name v) (define name v) :=
  ⟨p, hm.later (.refl p) (Store.continues_define ..) (Store.continues_define ..)
    (hm.store.define he name v), rfl⟩

theorem agrees_newFunction (hm : m.Padded p m') (name : Token) (params : List Token)
    (body : List Node) :
    Agrees d config p m m' Same (newFunction name params body) (newFunction name params body) := by
  have hc : Closure.Padded p m.store m'.store ⟨name, params, body, m.current⟩
      ⟨name, params, body, m'.current⟩ := ⟨rfl, rfl, rfl, hm.current⟩
  refine ⟨p, hm.later (.refl p) (Store.continues_newClosure _) (Store.continues_newClosure _)
    (hm.store.newClosure hc), ?_⟩
  show FunctionRef.mk m'.store.closures.size _ _ = ⟨m.store.closures.size, _, _⟩
  rw [hm.store.count]

theorem agrees_closure (hm : m.Padded p m') (f : FunctionRef) :
    Agrees d config p m m' (fun q n n' => Closure.Padded q n.store n'.store) (closure f)
      (closure f) := by
  have hc := hm.store.closures f.id
  unfold Agrees closure
  generalize m.store.closures[f.id]? = c, m'.store.closures[f.id]? = c' at hc
  cases hc with
  | none => exact ⟨rfl, p, hm.still⟩
  | some hc => exact ⟨p, hm.still, hc⟩

/-- The results are the numbers of one scope. -/
def OneScope (q : Padding) (_ _ : Machine) (i k : ScopeId) : Prop :=
  q.kept[i]? = some k

/-- A scope that is made in both states, for names that are bound to values. -/
theorem agrees_newScope (hm : m.Padded p m') {i k : ScopeId}
    (hl : Store.Links p m.store m'.store i k) (ps : List (Token × Value)) :
    ∃ q, StillPadded p m m' q
      { m with store := ps.foldl (fun s (param, v) =>
        s.define m.store.scopes.size param.lexeme v) (m.store.newScope (some i)).1 }
      { m' with store := ps.foldl (fun s (param, v) =>
        s.define m'.store.scopes.size param.lexeme v) (m'.store.newScope (some k)).1 } ∧
      q.kept[m.store.scopes.size]? = some m'.store.scopes.size := by
  have hplace : (p.kept ++ [m'.store.scopes.size])[m.store.scopes.size]? =
      some m'.store.scopes.size := by
    rw [← hm.store.size, List.getElem?_concat_length]
  have hs := (hm.store.newScope hl).defineAll hplace ps
  have hq : p.Extends { p with kept := p.kept ++ [m'.store.scopes.size] } :=
    ⟨List.prefix_append _ _, List.Subset.refl _⟩
  refine ⟨_, hm.later hq ?_ ?_ hs, hplace⟩
  · exact (Store.continues_newScope _).trans (Store.continues_defineAll _ ps)
  · exact (Store.continues_newScope _).trans (Store.continues_defineAll _ ps)

theorem agrees_newBlockScope (hm : m.Padded p m') :
    Agrees d config p m m' OneScope newBlockScope newBlockScope := by
  obtain ⟨q, hq, hplace⟩ := agrees_newScope hm hm.current []
  exact ⟨q, hq, hplace⟩

theorem agrees_newCallScope (hm : m.Padded p m') {c c' : Closure}
    (hc : c.Padded p m.store m'.store c') (vs : List Value) :
    Agrees d config p m m' OneScope (newCallScope c vs) (newCallScope c' vs) := by
  obtain ⟨q, hq, hplace⟩ := agrees_newScope hm hc.scope (c.params.zip vs)
  unfold newCallScope
  rw [hc.params]
  exact ⟨q, hq, hplace⟩

/-- Runs in other scopes. -/
theorem agrees_within (hm : m.Padded p m') {i k : ScopeId} {x x' : Eval α}
    (h : Agrees d config p { m with current := i } { m' with current := k } Same x x') :
    Agrees d config p m m' Same (within i x) (within k x') := by
  unfold Agrees at h ⊢
  unfold within
  cases hx : x config { m with current := i } <;>
    cases hx' : x' config { m' with current := k } <;> rw [hx, hx'] at h
  case done.done =>
    obtain ⟨q, hq, hab⟩ := h
    exact ⟨q, hq.leave hm, hab⟩
  case failed.failed =>
    obtain ⟨he, q, hq⟩ := h
    exact ⟨he, q, hq.leave hm⟩
  case done.failed | failed.done => exact h.elim
  all_goals exact h

theorem agrees_ofOperator (hm : m.Padded p m') (token : Token) (r : Except OperatorError α) :
    Agrees d config p m m' Same (ofOperator token r) (ofOperator token r) :=
  agrees_ofExcept hm _ r

theorem agrees_callNative (hm : m.Padded p m') (f : Native) :
    Agrees d config p m m' Same (callNative f) (callNative f) := by
  cases f with
  | clock => exact (agrees_readClock hm).bindSame fun q n n' x hq => agrees_same hq.padded _
  | silent => exact agrees_same hm _

end Eval

/-! ## The rules -/

open Eval

/-- The rules with this much fuel agree with themselves. Nothing may be declared in a spare
scope. -/
structure PaddedRules (config : Config) (fuel : Nat) : Prop where
  evaluate {p : Padding} {m m' : Machine} (hm : m.Padded p m') (calls : Nat) (e : Node) :
    Agrees .none config p m m' Same (evaluate fuel calls e) (evaluate fuel calls e)
  evaluateAll {p : Padding} {m m' : Machine} (hm : m.Padded p m') (calls : Nat) (es : List Node) :
    Agrees .none config p m m' Same (evaluateAll fuel calls es) (evaluateAll fuel calls es)
  call {p : Padding} {m m' : Machine} (hm : m.Padded p m') (calls : Nat) (paren : Token)
    (v : Value) (vs : List Value) :
    Agrees .none config p m m' Same (call fuel calls paren v vs) (call fuel calls paren v vs)
  callFunction {p : Padding} {m m' : Machine} (hm : m.Padded p m') (calls : Nat)
    (f : FunctionRef) (vs : List Value) :
    Agrees .none config p m m' Same (callFunction fuel calls f vs) (callFunction fuel calls f vs)
  execute {p : Padding} {m m' : Machine} (hm : m.Padded p m') (calls : Nat) {s : Node}
    (hs : s.declared = [] ∨ Exact p m m') :
    Agrees .none config p m m' Same (execute fuel calls s) (execute fuel calls s)
  executeAll {p : Padding} {m m' : Machine} (hm : m.Padded p m') (calls : Nat) (ss : List Node)
    (he : Exact p m m') :
    Agrees .none config p m m' Same (executeAll fuel calls ss) (executeAll fuel calls ss)
  loop {p : Padding} {m m' : Machine} (hm : m.Padded p m') (calls : Nat) (c : Node) {b : Node}
    (hb : b.declared = [] ∨ Exact p m m') :
    Agrees .none config p m m' Same (loop fuel calls c b) (loop fuel calls c b)

namespace PaddedRules

variable {config : Config} {fuel calls : Nat} {p q : Padding} {m m' n n' : Machine}

theorem evaluate_succ (ih : PaddedRules config fuel) (hm : m.Padded p m') (e : Node) :
    Agrees .none config p m m' Same (Lox.evaluate (fuel + 1) calls e)
      (Lox.evaluate (fuel + 1) calls e) := by
  unfold Lox.evaluate
  cases e with
  | lit v => exact agrees_same hm v
  | group e => exact ih.evaluate hm calls e
  | unary operator right =>
    refine (ih.evaluate hm calls right).bindSame fun q n n' v hq => ?_
    exact agrees_ofOperator hq.padded operator _
  | binary left operator right =>
    refine (ih.evaluate hm calls left).bindSame fun q n n' v hq => ?_
    refine (ih.evaluate hq.padded calls right).bindSame fun r o o' w hr => ?_
    exact agrees_ofOperator hr.padded operator _
  | logical left operator right =>
    refine (ih.evaluate hm calls left).bindSame fun q n n' v hq => ?_
    split
    · exact agrees_same hq.padded v
    · exact ih.evaluate hq.padded calls right
  | ident name => exact agrees_lookup hm name
  | assign name e =>
    refine (ih.evaluate hm calls e).bindSame fun q n n' v hq => ?_
    exact (agrees_assign hq.padded name v).bindSame fun r o o' _ hr => agrees_same hr.padded v
  | call callee paren arguments =>
    refine (ih.evaluate hm calls callee).bindSame fun q n n' v hq => ?_
    refine (ih.evaluateAll hq.padded calls arguments).bindSame fun r o o' vs hr => ?_
    exact ih.call hr.padded calls paren v vs
  | _ => exact agrees_fail hm _

theorem evaluateAll_succ (ih : PaddedRules config fuel) (hm : m.Padded p m') (es : List Node) :
    Agrees .none config p m m' Same (Lox.evaluateAll (fuel + 1) calls es)
      (Lox.evaluateAll (fuel + 1) calls es) := by
  unfold Lox.evaluateAll
  cases es with
  | nil => exact agrees_same hm []
  | cons e es =>
    refine (ih.evaluate hm calls e).bindSame fun q n n' v hq => ?_
    refine (ih.evaluateAll hq.padded calls es).bindSame fun r o o' vs hr => ?_
    exact agrees_same hr.padded _

theorem call_succ (ih : PaddedRules config fuel) (hm : m.Padded p m') (paren : Token) (v : Value)
    (vs : List Value) :
    Agrees .none config p m m' Same (Lox.call (fuel + 1) calls paren v vs)
      (Lox.call (fuel + 1) calls paren v vs) := by
  unfold Lox.call
  split
  · exact agrees_raise hm _ paren
  split
  · exact agrees_raise hm _ paren
  cases v with
  | function f => exact ih.callFunction hm calls f vs
  | native f => exact agrees_callNative hm f
  | _ => exact agrees_raise hm _ paren

/-- The scope of a call is no spare one. -/
theorem callFunction_succ (ih : PaddedRules config fuel) (hm : m.Padded p m') (f : FunctionRef)
    (vs : List Value) :
    Agrees .none config p m m' Same (Lox.callFunction (fuel + 1) calls f vs)
      (Lox.callFunction (fuel + 1) calls f vs) := by
  unfold Lox.callFunction
  cases calls with
  | zero => exact agrees_fail hm _
  | succ calls =>
    refine (agrees_closure hm f).bind fun q₁ n₁ n₁' c c' hq₁ hc => ?_
    refine (agrees_newCallScope hq₁.padded hc vs).bind fun q₂ n₂ n₂' i k hq₂ hi => ?_
    simp only [hc.name, hc.body]
    refine (agrees_trace hq₂.padded _).bindSame fun q₃ n₃ n₃' _ hq₃ => ?_
    have hplace : q₃.kept[i]? = some k := hq₃.grown.place hi
    have hbody := ih.executeAll (hq₃.padded.enter hplace) calls c.body hplace
    refine (agrees_within hq₃.padded hbody).bindSame fun q₄ n₄ n₄' r hq₄ => ?_
    cases r <;> exact agrees_same hq₄.padded _

theorem execute_succ (ih : PaddedRules config fuel) (hm : m.Padded p m') {s : Node}
    (hs : s.declared = [] ∨ Exact p m m') :
    Agrees .none config p m m' Same (Lox.execute (fuel + 1) calls s)
      (Lox.execute (fuel + 1) calls s) := by
  have hdefine : ∀ {q n n'} (name : Token) (v : Value), StillPadded p m m' q n n' →
      Exact p m m' → Agrees .none config q n n' Same (Moment.defining name v)
        (Moment.defining name v) := by
    intro q n n' name v hq he
    exact (agrees_define hq.padded (hq.exact he) name.lexeme v).bindSame fun r o o' _ hr =>
      agrees_same hr.padded _
  unfold Lox.execute
  refine (agrees_trace hm _).bindSame fun q n n' _ hq => ?_
  cases s with
  | exprStmt e =>
    exact (ih.evaluate hq.padded calls e).bindSame fun r o o' _ hr => agrees_same hr.padded _
  | printStmt e =>
    refine (ih.evaluate hq.padded calls e).bindSame fun q₁ n₁ n₁' v hq₁ => ?_
    refine (agrees_ofExcept hq₁.padded _ _).bindSame fun q₂ n₂ n₂' line hq₂ => ?_
    exact (agrees_write hq₂.padded _).bindSame fun q₃ n₃ n₃' _ hq₃ => agrees_same hq₃.padded _
  | varDecl name initializer =>
    have he : Exact p m m' := hs.resolve_left (by simp [Node.declared])
    cases initializer with
    | none => exact hdefine name .nil hq he
    | some e =>
      refine (ih.evaluate hq.padded calls e).bindSame fun r o o' v hr => ?_
      exact hdefine name v (hq.trans hr) he
  | block ss =>
    refine (agrees_newBlockScope hq.padded).bind fun r o o' i k hr hi => ?_
    exact agrees_within hr.padded (ih.executeAll (hr.padded.enter hi) calls ss hi)
  | ifStmt c t e =>
    refine (ih.evaluate hq.padded calls c).bindSame fun r o o' v hr => ?_
    have hexact := fun he => (hq.trans hr).exact he
    cases e with
    | none =>
      split
      · exact ih.execute hr.padded calls (hs.imp (by simp [Node.declared]) hexact)
      · exact agrees_same hr.padded _
    | some e =>
      have hdeclared : Node.declared t = [] ∧ Node.declared e = [] ∨ Exact p m m' :=
        hs.imp_left (by simp [Node.declared])
      split
      · exact ih.execute hr.padded calls (hdeclared.imp And.left hexact)
      · exact ih.execute hr.padded calls (hdeclared.imp And.right hexact)
  | whileStmt c b =>
    exact ih.loop hq.padded calls c (hs.imp (by simp [Node.declared]) hq.exact)
  | funcDecl name params body =>
    have he : Exact p m m' := hs.resolve_left (by simp [Node.declared])
    refine (agrees_newFunction hq.padded name params body).bindSame fun r o o' f hr => ?_
    exact hdefine name (.function f) (hq.trans hr) he
  | returnStmt keyword value =>
    cases value with
    | none => exact agrees_same hq.padded _
    | some e =>
      exact (ih.evaluate hq.padded calls e).bindSame fun r o o' v hr => agrees_same hr.padded _
  | _ => exact agrees_fail hq.padded _

theorem executeAll_succ (ih : PaddedRules config fuel) (hm : m.Padded p m') (ss : List Node)
    (he : Exact p m m') :
    Agrees .none config p m m' Same (Lox.executeAll (fuel + 1) calls ss)
      (Lox.executeAll (fuel + 1) calls ss) := by
  unfold Lox.executeAll
  cases ss with
  | nil => exact agrees_same hm _
  | cons s ss =>
    refine (ih.execute hm calls (.inr he)).bindSame fun q n n' r hq => ?_
    cases r with
    | returned v => exact agrees_same hq.padded _
    | normal => exact ih.executeAll hq.padded calls ss (hq.exact he)

theorem loop_succ (ih : PaddedRules config fuel) (hm : m.Padded p m') (c : Node) {b : Node}
    (hb : b.declared = [] ∨ Exact p m m') :
    Agrees .none config p m m' Same (Lox.loop (fuel + 1) calls c b)
      (Lox.loop (fuel + 1) calls c b) := by
  unfold Lox.loop
  refine (ih.evaluate hm calls c).bindSame fun q n n' v hq => ?_
  split
  · refine (ih.execute hq.padded calls (hb.imp_right hq.exact)).bindSame fun r o o' k hr => ?_
    cases k with
    | returned v => exact agrees_same hr.padded _
    | normal => exact ih.loop hr.padded calls c (hb.imp_right (hq.trans hr).exact)
  · exact agrees_same hq.padded _

end PaddedRules

/-- All rules agree with themselves. -/
theorem paddedRules (config : Config) (fuel : Nat) : PaddedRules config fuel := by
  induction fuel with
  | zero =>
    constructor <;> intros <;>
      simp only [evaluate, evaluateAll, call, callFunction, execute, executeAll, loop] <;>
      exact agrees_unfinished
  | succ fuel ih =>
    exact {
      evaluate := fun hm _ => ih.evaluate_succ hm
      evaluateAll := fun hm _ => ih.evaluateAll_succ hm
      call := fun hm _ => ih.call_succ hm
      callFunction := fun hm _ => ih.callFunction_succ hm
      execute := fun hm _ => ih.execute_succ hm
      executeAll := fun hm _ => ih.executeAll_succ hm
      loop := fun hm _ => ih.loop_succ hm }

/-! ## Programs -/

variable {config : Config} {p : Padding} {m m' : Machine}

theorem agrees_executeProgram (config : Config) (hm : m.Padded p m') (he : Exact p m m')
    (b : Budget) (ss : List Node) :
    Agrees .none config p m m' Same (executeProgram b ss) (executeProgram b ss) := by
  induction ss generalizing p m m' with
  | nil => exact agrees_same hm ()
  | cons s ss ih =>
    rw [executeProgram]
    refine ((paddedRules config b.fuel).execute hm b.calls (.inr he)).bindSame
      fun q n n' _ hq => ?_
    exact ih hq.padded (hq.exact he)

/-- A program ends with one runtime error, or with none. -/
theorem agrees_interpret (hm : m.Padded p m') (he : Exact p m m') (b : Budget) (ss : List Node) :
    Agrees .none config p m m' Same (interpret b ss) (interpret b ss) := by
  have hx := agrees_executeProgram config hm he b ss
  unfold Agrees at hx ⊢
  unfold interpret reportRuntimeError
  cases hr : executeProgram b ss config m <;>
    cases hr' : executeProgram b ss config m' <;> rw [hr, hr'] at hx
  case done.done =>
    obtain ⟨q, hq, -⟩ := hx
    exact ⟨q, hq, rfl⟩
  case failed.failed x n x' n' =>
    obtain ⟨rfl, q, hq⟩ := hx
    cases x' with
    | runtime error =>
      exact ⟨q, ⟨hq.grown, { hq.padded with printed := hq.padded.printed },
        ⟨hq.left.store, hq.left.current⟩, ⟨hq.right.store, hq.right.current⟩⟩, rfl⟩
    | fault | tooDeep => exact ⟨rfl, q, hq⟩
  case done.failed | failed.done => exact hx.elim
  case unfinished.unfinished => trivial
  all_goals exact nomatch hx

end Lox
