import Lox.Proofs.Evaluation.Padding
import Lox.Proofs.Grammar.Fuel
import Lox.Proofs.Grammar.StatementCompleteness
import Lox.Proofs.Grammar.StatementRules
import Lox.Text.Place

/-!
# The meaning of `for`

A `for` loop is read as a tree of blocks and a `while` loop. What it means can be said without
these: its clauses and its body are run in one scope, which is a new one if there is a first clause.
The tree does just that, apart from a scope that it makes for each round and that binds nothing.

## Main definitions

* `runFor fuel calls i c e b`: the loop with these clauses and this body, without trees
* `DerivesFor ts i c e b`: the tokens after `for` are these clauses and this body
* `SameEnd m o o'`: two runs from the state `m` end in the same way

## Main results

* `agrees_rounds`: the rounds of a loop, with and without trees
* `for_runs_as_its_clauses`: what a `for` loop that is read without an error means
-/

namespace Lox

open Eval Machine

/-! ## Loops without trees -/

/-- Whether the condition of a loop holds. One that is missing does. -/
def holds (fuel calls : Nat) : Option Node → Eval Bool
  | some c => do return (← evaluate fuel calls c).isTruthy
  | none => return true

/-- A round of a loop: the body and, if that does not return, the increment. -/
def round (fuel calls : Nat) (increment : Option Node) (body : Node) : Eval Completion :=
  match increment with
  | none => execute fuel calls body
  | some e => do
    match ← execute fuel calls body with
    | .returned v => return .returned v
    | .normal =>
      let _ ← evaluate fuel calls e
      return .normal

/-- The rounds of a loop, as long as its condition holds and up to a `return`. -/
def rounds : (fuel calls : Nat) → (condition increment : Option Node) → (body : Node) →
    Eval Completion
  | 0, _, _, _, _ => unfinished
  | fuel + 1, calls, condition, increment, body => do
    if ← holds fuel calls condition then
      match ← round fuel calls increment body with
      | .returned v => return .returned v
      | .normal => rounds fuel calls condition increment body
    else return .normal

/-- A loop. With an initializer it runs in a scope inside the current one, and otherwise in the
current one. -/
def runFor (fuel calls : Nat) (initializer condition increment : Option Node) (body : Node) :
    Eval Completion :=
  match initializer with
  | none => rounds fuel calls condition increment body
  | some s => do
    let scope ← newBlockScope
    within scope do
      let _ ← execute fuel calls s
      rounds fuel calls condition increment body

/-! ## Fuel for trees -/

/-- The second run is given more fuel than the first one by so much, or no more than it. -/
def Slack.Enough (d : Slack) (extra fuel fuel' : Nat) : Prop :=
  match d with
  | .none => False
  | .left => fuel + extra ≤ fuel'
  | .right => fuel' ≤ fuel

variable {d : Slack} {extra fuel fuel' calls : Nat} {config : Config} {p : Padding} {m m' : Machine}

/-- A step of the second run that the first one does not make. -/
theorem Slack.Enough.pred (h : d.Enough (extra + 1) fuel fuel') :
    d = .right ∧ fuel' = 0 ∨ ∃ k, fuel' = k + 1 ∧ d.Enough extra fuel k := by
  cases d with
  | none => exact h.elim
  | left =>
    have h : fuel + (extra + 1) ≤ fuel' := h
    exact .inr ⟨fuel' - 1, by omega, show fuel + extra ≤ fuel' - 1 by omega⟩
  | right =>
    have h : fuel' ≤ fuel := h
    cases fuel' with
    | zero => exact .inl ⟨rfl, rfl⟩
    | succ k => exact .inr ⟨k, rfl, Nat.le_of_succ_le h⟩

/-- A step that both runs make. -/
theorem Slack.Enough.step (h : d.Enough (extra + 1) (fuel + 1) fuel') :
    d = .right ∧ fuel' = 0 ∨ ∃ k, fuel' = k + 1 ∧ d.Enough (extra + 1) fuel k := by
  cases d with
  | none => exact h.elim
  | left =>
    have h : fuel + 1 + (extra + 1) ≤ fuel' := h
    exact .inr ⟨fuel' - 1, by omega, show fuel + (extra + 1) ≤ fuel' - 1 by omega⟩
  | right =>
    have h : fuel' ≤ fuel + 1 := h
    cases fuel' with
    | zero => exact .inl ⟨rfl, rfl⟩
    | succ k => exact .inr ⟨k, rfl, Nat.le_of_succ_le_succ h⟩

namespace Eval

variable {α β γ : Type} {Q : Padding → Machine → Machine → α → β → Prop}

/-- A run that may run out of fuel has done so. -/
theorem agrees_exhausted (hd : d = .right) {x : Eval α} :
    Agrees d config p m m' Q x unfinished := by
  subst hd
  show Outcome.Agree .right p m m' Q (x config m) .unfinished
  cases x config m <;> first | rfl | trivial

theorem agrees_exhaustedLeft (hd : d = .left) {x' : Eval β} :
    Agrees d config p m m' Q (unfinished : Eval α) x' := by
  subst hd
  show Outcome.Agree .left p m m' Q .unfinished (x' config m')
  cases x' config m' <;> first | rfl | trivial

/-- What agrees with the same fuel agrees with enough fuel. -/
theorem Agrees.enough {x : Nat → Eval α} (h : d.Enough extra fuel fuel')
    (hx : ∀ k, Agrees .none config p m m' Same (x k) (x k))
    (hmore : ∀ {k l}, k ≤ l → Below (x k) (x l)) :
    Agrees d config p m m' Same (x fuel) (x fuel') := by
  cases d with
  | none => exact h.elim
  | left => exact (hx fuel).below_right (hmore (Nat.le_trans (Nat.le_add_right ..) h))
  | right => exact (hx fuel').below_left (hmore h)

theorem bind_pure_eq (x : Eval α) : (x >>= fun a => pure a) = x := by
  funext config m
  rw [bind_apply]
  cases x config m <;> rfl

/-- The first run goes on without doing anything. -/
theorem Agrees.bindLeft {R : Padding → Machine → Machine → γ → β → Prop} {x : Eval α} {x' : Eval β}
    {k : α → Eval γ} (h : Agrees d config p m m' Q x x')
    (hk : ∀ q n n' a b, StillPadded p m m' q n n' → Q q n n' a b →
      Agrees d config q n n' R (k a) (pure b)) :
    Agrees d config p m m' R (x >>= k) x' :=
  bind_pure_eq x' ▸ h.bind hk

/-- The second run goes on without doing anything. -/
theorem Agrees.bindRight {R : Padding → Machine → Machine → α → γ → Prop} {x : Eval α} {x' : Eval β}
    {k : β → Eval γ} (h : Agrees d config p m m' Q x x')
    (hk : ∀ q n n' a b, StillPadded p m m' q n n' → Q q n n' a b →
      Agrees d config q n n' R (pure a) (k b)) :
    Agrees d config p m m' R x (x' >>= k) :=
  bind_pure_eq x ▸ h.bind hk

/-- A trace that the second run writes before all else. -/
theorem Agrees.traceRight (hm : m.Padded p m') {w : Write} (hw : w.channel ≠ .out) {x : Eval α}
    {x' : Eval β}
    (h : ∀ q n n', StillPadded p m m' q n n' → Agrees d config q n n' Q x x') :
    Agrees d config p m m' Q x (trace w >>= fun _ => x') := by
  show Agrees d config p m m' Q (pure () >>= fun _ => x) _
  exact (agrees_traceRight hm hw).bindSame fun q n n' _ hq => h q n n' hq

/-- The second run takes place in a scope that it makes and that the first one does not have. -/
theorem Agrees.inSpare (hm : m.Padded p m') {x x' : Eval α}
    (h : ∀ q n', m.Padded q n' → Agrees d config q m n' Same x x') :
    Agrees d config p m m' Same x (newBlockScope >>= fun k => within k x') := by
  let k := m'.store.scopes.size
  let q : Padding := { p with spare := p.spare ++ [k] }
  let s := (m'.store.newScope (some m'.current)).1
  have hq : p.Extends q := ⟨List.prefix_refl _, List.subset_append_left _ _⟩
  have hs : m'.store.Continues s := Store.continues_newScope _
  have hlink : Store.Links q m.store s m.current k := by
    refine ⟨hm.current.left, by simp [s, k, Store.size_newScope], ?_⟩
    rw [Store.chain_newScope_self]
    exact .spare (List.mem_append_right _ (List.mem_singleton.mpr rfl)) (hm.current.chains.mono hq)
  have hx := h q { m' with store := s, current := k }
    ⟨hm.store.newSpare _, hlink, hm.printed, hm.clockReads⟩
  have hleave : ∀ {r o o'}, StillPadded q m { m' with store := s, current := k } r o o' →
      StillPadded p m m' r o { o' with current := m'.current } := fun hr =>
    { grown := hq.trans hr.grown
      padded := { hr.padded with
        current := by
          rw [hr.left.current]
          exact hm.current.mono (hq.trans hr.grown) hr.left.store (hs.trans hr.right.store) }
      left := hr.left
      right := ⟨hs.trans hr.right.store, rfl⟩ }
  unfold Agrees at hx ⊢
  show Outcome.Agree d p m m' Same (x config m) (within k x' config { m' with store := s })
  unfold Eval.within
  dsimp only
  cases hr : x config m <;>
    cases hr' : x' config { m' with store := s, current := k } <;> rw [hr, hr'] at hx
  case done.done =>
    obtain ⟨r, hr, hab⟩ := hx
    exact ⟨r, hleave hr, hab⟩
  case failed.failed =>
    obtain ⟨he, r, hr⟩ := hx
    exact ⟨he, r, hleave hr⟩
  case done.failed | failed.done => exact hx.elim
  all_goals exact hx

end Eval

/-! ## Rounds -/

theorem agrees_evaluate (h : d.Enough extra fuel fuel') (hm : m.Padded p m') (e : Node) :
    Agrees d config p m m' Same (evaluate fuel calls e) (evaluate fuel' calls e) :=
  Agrees.enough h (fun k => (paddedRules config k).evaluate hm calls e)
    fun hkl => (moreFuel hkl).evaluate calls e

theorem agrees_execute (h : d.Enough extra fuel fuel') (hm : m.Padded p m') {s : Node}
    (hs : s.declared = [] ∨ Exact p m m') :
    Agrees d config p m m' Same (execute fuel calls s) (execute fuel' calls s) :=
  Agrees.enough h (fun k => (paddedRules config k).execute hm calls hs)
    fun hkl => (moreFuel hkl).execute calls s

/-- A condition that is missing is the literal `true`. -/
theorem agrees_holds (h : d.Enough (extra + 1) fuel fuel') (hm : m.Padded p m')
    (c : Option Node) :
    Agrees d config p m m' (fun _ _ _ t v => t = v.isTruthy) (holds fuel calls c)
      (evaluate fuel' calls (c.getD (.lit (.bool true)))) := by
  cases c with
  | some c =>
    refine (agrees_evaluate h hm c).bindLeft fun q n n' v w hq hvw => ?_
    obtain rfl : w = v := hvw
    exact agrees_pure hq.padded rfl
  | none =>
    rw [Option.getD_none]
    rcases h.pred with ⟨hd, rfl⟩ | ⟨k, rfl, -⟩ <;> rw [evaluate]
    · exact agrees_exhausted hd
    · exact agrees_pure hm rfl

/-- Nothing, as statements. -/
theorem agrees_nil (h : d.Enough (extra + 1) fuel fuel') (hm : m.Padded p m') :
    Agrees d config p m m' Same (pure .normal) (executeAll fuel' calls []) := by
  rcases h.pred with ⟨hd, rfl⟩ | ⟨k, rfl, -⟩ <;> rw [executeAll]
  · exact agrees_exhausted hd
  · exact agrees_same hm _

/-- An expression as a statement. -/
theorem agrees_exprStmt (h : d.Enough (extra + 1) fuel fuel') (hm : m.Padded p m') (e : Node) :
    Agrees d config p m m' (fun _ _ _ a b => a = .normal ∧ b = .normal) (do
        let _ ← evaluate fuel calls e
        return Completion.normal)
      (execute fuel' calls (.exprStmt e)) := by
  rcases h.pred with ⟨hd, rfl⟩ | ⟨k, rfl, hk⟩ <;> rw [execute]
  · exact agrees_exhausted hd
  refine .traceRight hm (by simp [Write.channel]) fun q n n' hq => ?_
  exact (agrees_evaluate hk hq.padded e).bindSame fun r o o' _ hr =>
    agrees_pure hr.padded ⟨rfl, rfl⟩

/-- An increment, as the last one of some statements. -/
theorem agrees_increment (h : d.Enough (extra + 2) fuel fuel') (hm : m.Padded p m') (e : Node) :
    Agrees d config p m m' Same (do
        let _ ← evaluate fuel calls e
        return Completion.normal)
      (executeAll fuel' calls [.exprStmt e]) := by
  rcases h.pred with ⟨hd, rfl⟩ | ⟨k, rfl, hk⟩ <;> rw [executeAll]
  · exact agrees_exhausted hd
  refine (agrees_exprStmt hk hm e).bindRight ?_
  rintro q n n' - - hq ⟨rfl, rfl⟩
  exact agrees_nil hk hq.padded

/-- The body of a loop, with its increment. -/
def forBody (increment : Option Node) (body : Node) : Node :=
  match increment with
  | some e => .block [body, .exprStmt e]
  | none => body

theorem agrees_round (h : d.Enough (extra + 4) fuel fuel') (hm : m.Padded p m')
    (e : Option Node) {b : Node} (hb : b.declared = []) :
    Agrees d config p m m' Same (round fuel calls e b) (execute fuel' calls (forBody e b)) := by
  cases e with
  | none => exact agrees_execute h hm (.inl hb)
  | some e =>
    unfold round forBody
    rcases h.pred with ⟨hd, rfl⟩ | ⟨k, rfl, hk⟩ <;> rw [execute]
    · exact agrees_exhausted hd
    refine .traceRight hm (by simp [Write.channel]) fun q₁ n₁ n₁' hq₁ => ?_
    -- the body declares nothing, so it makes no difference that it runs in a spare scope
    refine .inSpare hq₁.padded fun q₂ n₂' hq₂ => ?_
    rcases hk.pred with ⟨hd, rfl⟩ | ⟨l, rfl, hl⟩ <;> rw [executeAll]
    · exact agrees_exhausted hd
    refine (agrees_execute hl hq₂ (.inl hb)).bindSame fun q₃ n₃ n₃' r hq₃ => ?_
    cases r with
    | returned v => exact agrees_same hq₃.padded _
    | normal => exact agrees_increment hl hq₃.padded e

/-- **Rounds.** The rounds of a loop are those of a `while` loop. -/
theorem agrees_rounds (h : d.Enough (extra + 4) fuel fuel') (hm : m.Padded p m')
    (c e : Option Node) {b : Node} (hb : b.declared = []) :
    Agrees d config p m m' Same (rounds fuel calls c e b)
      (loop fuel' calls (c.getD (.lit (.bool true))) (forBody e b)) := by
  -- by induction on the fuel: a round agrees, and what comes after it
  induction fuel generalizing fuel' p m m' with
  | zero =>
    rw [rounds]
    cases d with
    | none => exact h.elim
    | left => exact agrees_exhaustedLeft rfl
    | right =>
      obtain rfl : fuel' = 0 := Nat.le_zero.mp h
      rw [loop]
      exact agrees_unfinished
  | succ fuel ih =>
    rcases h.step with ⟨hd, rfl⟩ | ⟨k, rfl, hk⟩ <;> rw [loop]
    · exact agrees_exhausted hd
    rw [rounds]
    refine (agrees_holds hk hm c).bind fun q₁ n₁ n₁' t v hq₁ htv => ?_
    subst htv
    split
    · refine (agrees_round hk hq₁.padded e hb).bindSame fun q₂ n₂ n₂' r hq₂ => ?_
      cases r with
      | returned v => exact agrees_same hq₂.padded _
      | normal => exact ih hk hq₂.padded
    · exact agrees_same hq₁.padded _

/-! ## Loops -/

/-- The first clause of a loop is a declaration of a variable, or an expression. -/
def Node.IsInitializer : Node → Prop
  | varDecl .. | exprStmt _ => True
  | _ => False

/-- The first clause of a loop does not return. -/
theorem execute_initializer {s : Node} (hs : s.IsInitializer) {r : Completion} {n : Machine}
    (h : execute fuel calls s config m = .done r n) : r = .normal := by
  cases fuel with
  | zero =>
    unfold execute at h
    cases h
  | succ fuel =>
    unfold execute at h
    obtain ⟨_, _, -, h⟩ := bind_eq_done_iff.mp h
    cases s with
    | exprStmt e =>
      obtain ⟨_, _, -, h⟩ := bind_eq_done_iff.mp h
      cases h
      rfl
    | varDecl name initializer =>
      cases initializer with
      | none =>
        cases h
        rfl
      | some e =>
        obtain ⟨_, _, -, h⟩ := bind_eq_done_iff.mp h
        cases h
        rfl
    | _ => exact hs.elim

theorem agrees_initializer (h : d.Enough extra fuel fuel') (hm : m.Padded p m')
    (he : Exact p m m') {s : Node} (hs : s.IsInitializer) :
    Agrees d config p m m' (fun _ _ _ _ r => r = .normal) (execute fuel calls s)
      (execute fuel' calls s) := by
  have hx : Agrees d config p m m' Same (execute fuel calls s) (execute fuel' calls s) :=
    agrees_execute h hm (.inr he)
  unfold Agrees at hx ⊢
  cases hr : execute fuel calls s config m <;>
    cases hr' : execute fuel' calls s config m' <;> rw [hr, hr'] at hx
  case done.done =>
    obtain ⟨q, hq, -⟩ := hx
    exact ⟨q, hq, execute_initializer hs hr'⟩
  all_goals exact hx

theorem agrees_while (h : d.Enough (extra + 5) fuel fuel') (hm : m.Padded p m')
    (c e : Option Node) {b : Node} (hb : b.declared = []) :
    Agrees d config p m m' Same (rounds fuel calls c e b)
      (execute fuel' calls (.whileStmt (c.getD (.lit (.bool true))) (forBody e b))) := by
  rcases h.pred with ⟨hd, rfl⟩ | ⟨k, rfl, hk⟩ <;> rw [execute]
  · exact agrees_exhausted hd
  refine .traceRight hm (by simp [Write.channel]) fun q n n' hq => ?_
  exact agrees_rounds hk hq.padded c e hb

/-- **Loops.** The tree of a loop does what its clauses say. -/
theorem agrees_forLoop (h : d.Enough (extra + 8) fuel fuel') (hm : m.Padded p m')
    {i : Option Node} (hi : ∀ s ∈ i, s.IsInitializer) (c e : Option Node) {b : Node}
    (hb : b.declared = []) :
    Agrees d config p m m' Same (runFor fuel calls i c e b)
      (execute fuel' calls (.forLoop i c e b)) := by
  cases i with
  | none => exact agrees_while h hm c e hb
  | some s =>
    show Agrees d config p m m' Same _ (execute fuel' calls
      (.block [s, .whileStmt (c.getD (.lit (.bool true))) (forBody e b)]))
    unfold runFor
    rcases h.pred with ⟨hd, rfl⟩ | ⟨k, rfl, hk⟩ <;> rw [execute]
    · exact agrees_exhausted hd
    refine .traceRight hm (by simp [Write.channel]) fun q₁ n₁ n₁' hq₁ => ?_
    refine (agrees_newBlockScope hq₁.padded).bind fun q₂ n₂ n₂' i k' hq₂ hplace => ?_
    refine agrees_within hq₂.padded ?_
    have henter := hq₂.padded.enter hplace
    rcases hk.pred with ⟨hd, rfl⟩ | ⟨l, rfl, hl⟩ <;> rw [executeAll]
    · exact agrees_exhausted hd
    refine (agrees_initializer hl henter hplace (hi s rfl)).bind fun q₃ n₃ n₃' _ r hq₃ hr => ?_
    obtain rfl : r = .normal := hr
    rcases hl.pred with ⟨hd, rfl⟩ | ⟨j, rfl, hj⟩ <;> simp only [executeAll]
    · exact agrees_exhausted hd
    refine (agrees_while hj hq₃.padded c e hb).bindRight fun q₄ n₄ n₄' r r' hq₄ hrr => ?_
    obtain rfl : r' = r := hrr
    cases r' with
    | returned v => exact agrees_same hq₄.padded _
    | normal => exact agrees_nil hj hq₄.padded

/-! ## Loops that are read -/

namespace Grammar

/-- The tokens, which follow a `for`, are its clauses and its body. -/
def DerivesFor (ts : List Token) (initializer condition increment : Option Node) (body : Node) :
    Prop :=
  ∃ lp semi rp ts₁ ts₂ ts₃ ts₄ dangling,
    ts = lp :: (ts₁ ++ (ts₂ ++ semi :: (ts₃ ++ rp :: ts₄))) ∧ lp.kind = .leftParen ∧
    Derives .initializer ts₁ initializer.toList ∧ Derives .optional ts₂ condition.toList ∧
    semi.kind = .semicolon ∧ Derives .optional ts₃ increment.toList ∧ rp.kind = .rightParen ∧
    Derives (.statement dangling) ts₄ [body]

theorem Derives.of_forKw {kw : Token} {ts : List Token} {n : Node} {dangling : Bool}
    (h : Derives (.statement dangling) (kw :: ts) [n]) (hk : kw.kind = .forKw) :
    ∃ i c e b, n = .forLoop i c e b ∧ DerivesFor ts i c e b := by
  cases h with
  | forLoop _ hlp hi hc hs he hrp hb =>
    refine ⟨_, _, _, _, rfl, _, _, _, _, _, _, _, _, rfl, hlp, ?_, ?_, hs, ?_, hrp, hb⟩
    · exact hi.toList_head?_initializer.symm ▸ hi
    · exact hc.toList_head?_optional.symm ▸ hc
    · exact he.toList_head?_optional.symm ▸ he
  | ifThen hk' | ifElse hk' | printStmt hk' | returnStmt hk' | whileStmt hk' =>
    simp [hk] at hk'
  | blockStmt h =>
    rcases h.head with ⟨hnil, -⟩ | ⟨t, us, hcons, ht⟩
    · cases hnil
    · cases hcons
      simp [hk, StatementSymbol.starts] at ht
  | exprStmt h =>
    rcases h.head with ⟨hnil, -⟩ | ⟨t, us, hcons, ht⟩
    · cases hnil
    · cases hcons
      simp [hk, StatementSymbol.starts, ExpressionSymbol.starts, primaryStarts] at ht

/-- A first clause is a declaration of a variable, or an expression. -/
theorem Derives.isInitializer {ts : List Token} {i : Option Node}
    (h : Derives .initializer ts i.toList) : ∀ s ∈ i, s.IsInitializer := by
  rintro s rfl
  cases h with
  | initializerVar _ h => cases h <;> trivial
  | initializerExpr h =>
    cases h
    trivial

/-- A statement that is no declaration declares nothing in the scope in which it is executed. -/
theorem Derives.declared_eq_nil {dangling : Bool} {ts : List Token} {s : Node}
    (h : Derives (.statement dangling) ts [s]) : s.declared = [] := by
  generalize hsym : StatementSymbol.statement dangling = sym, hns : [s] = ns at h
  -- by induction on the derivation: what a statement consists of are statements again
  induction h generalizing dangling s with
  | @forLoop _ _ _ _ _ _ _ _ i c e n _ _ _ _ _ _ _ _ _ _ _ _ ihb =>
    obtain rfl : s = _ := List.singleton_inj.mp hns
    have hb : n.declared = [] := ihb rfl rfl
    cases i.head? <;> cases e.head? <;> simp [Node.forLoop, Node.declared, hb]
  | ifThen _ _ _ _ _ ih =>
    obtain rfl : s = _ := List.singleton_inj.mp hns
    simpa [Node.declared] using ih rfl rfl
  | ifElse _ _ _ _ _ _ _ iht ihe =>
    obtain rfl : s = _ := List.singleton_inj.mp hns
    simp [Node.declared, iht rfl rfl, ihe rfl rfl]
  | whileStmt _ _ _ _ _ ih =>
    obtain rfl : s = _ := List.singleton_inj.mp hns
    simpa [Node.declared] using ih rfl rfl
  | printStmt | returnStmt | blockStmt =>
    obtain rfl : s = _ := List.singleton_inj.mp hns
    simp [Node.declared]
  | exprStmt h =>
    obtain rfl : s = _ := List.singleton_inj.mp hns
    cases h
    simp [Node.declared]
  | _ => cases hsym

/-- A loop that is read without an error is derived from its tokens. -/
theorem derivesFor_of_forStatement {eof : Token} {c c' : Cursor} {n : Node}
    (hread : forStatement fuel eof c = .done n c') (hclean : c'.errors = c.errors) :
    ∃ ts i cond e b, c.rest = ts ++ c'.rest ∧ DerivesFor ts i cond e b ∧
      n = .forLoop i cond e b := by
  have hmore := (moreStatementFuel (Nat.le_max_left fuel (20 * c.rest.length + 1))).forStatement
  have hread' := hmore.eq (by rw [hread]; simp) |>.trans hread
  have hmeets := (statementRules (fun _ => True) (max fuel (20 * c.rest.length + 1))).forStatement
    (Nat.le_max_right ..) eof c ⟨Nat.le_refl _, fun _ _ => trivial⟩ rfl
  rw [hread'] at hmeets
  obtain ⟨ts, hadv, -, hderives⟩ := hmeets
  obtain ⟨dangling, hd, -⟩ := (hderives hclean).1 ⟨.forKw, "for", none, 0, 0⟩ rfl
  obtain ⟨i, cond, e, b, hn, hfor⟩ := hd.of_forKw rfl
  exact ⟨ts, i, cond, e, b, hadv.rest, hfor, hn⟩

end Grammar

/-! ## What a loop means -/

/-- The scopes are a tree, and the current scope and those of the functions are among them. -/
structure Machine.Scoped (m : Machine) : Prop where
  tree : m.store.IsTree
  scopes (i : Nat) : ∀ c ∈ m.store.closures[i]?, c.scope < m.store.scopes.size
  current : m.current < m.store.scopes.size

theorem Machine.Formed.scoped {m : Machine} (h : m.Formed) : m.Scoped :=
  ⟨h.store.tree, h.store.scopes, h.current⟩

/-- Two states that are left by runs from the state `m` differ by spare scopes only, which programs
that are run later on cannot tell. -/
structure Machine.Indistinct (m n n' : Machine) : Prop where
  printed : n'.printed = n.printed
  /-- The scopes that there were before bind the same. -/
  bindings : ∀ i < m.store.scopes.size, n'.store.bindings i = n.store.bindings i
  /-- The other scopes are the same but for their numbers, or spare, and stay so. -/
  padded : ∃ p, n.Padded p n' ∧ (∀ i < m.store.scopes.size, p.kept[i]? = some i) ∧
    ∀ config b ss, Agrees .none config p n n' Same (interpret b ss) (interpret b ss)

/-- The runs end with one result, or fail in one way, and leave states that cannot be told apart. -/
def SameEnd {α : Type} (m : Machine) : Outcome α → Outcome α → Prop
  | .done a n, .done b n' => b = a ∧ m.Indistinct n n'
  | .failed e n, .failed e' n' => e' = e ∧ m.Indistinct n n'
  | _, _ => False

/-- Runs after which nothing but spare scopes is different. -/
theorem Machine.StillPadded.indistinct {q : Padding} {n n' : Machine}
    (hm : m.current < m.store.scopes.size)
    (h : StillPadded (.none m.store) m m q n n') : m.Indistinct n n' := by
  have hplace : ∀ i < m.store.scopes.size, q.kept[i]? = some i := fun i hi =>
    h.grown.place (Padding.place_none hi)
  have hexact : Exact q n n' := h.exact (Padding.place_none hm)
  exact ⟨h.padded.printed, fun i hi => h.padded.store.bindings i i (hplace i hi),
    q, h.padded, hplace, fun config b ss => agrees_interpret h.padded hexact b ss⟩

/-- The run that may run out of fuel has not done so. -/
theorem sameEnd_of_agree {α : Type} {m : Machine} (hm : m.current < m.store.scopes.size)
    {o o' : Outcome α}
    (h : o.Agree d (.none m.store) m m Same o')
    (hd : d = .left ∧ o ≠ .unfinished ∨ d = .right ∧ o' ≠ .unfinished) : SameEnd m o o' := by
  cases o <;> cases o'
  case done.done =>
    obtain ⟨q, hq, hab⟩ := h
    exact ⟨hab, hq.indistinct hm⟩
  case failed.failed =>
    obtain ⟨he, q, hq⟩ := h
    exact ⟨he, hq.indistinct hm⟩
  case done.failed | failed.done => exact h.elim
  case done.unfinished | failed.unfinished =>
    obtain rfl : d = .right := h
    simp at hd
  case unfinished.done | unfinished.failed =>
    obtain rfl : d = .left := h
    simp at hd
  case unfinished.unfinished => simp at hd

/-- **The meaning of `for`.** A `for` loop that is read without an error is made of its clauses and
its body. In every state in which the scopes are a tree, its tree ends if and only if the clauses
and the body end that are run in one scope, and both end in the same way: they print the same,
return the same or fail in the same way, and leave states that no program can tell apart, in which
the scopes that there were before bind the same. -/
theorem for_runs_as_its_clauses {fuel : Nat} {eof : Token} {c c' : Grammar.Cursor} {n : Node}
    (hread : Grammar.forStatement fuel eof c = .done n c') (hclean : c'.errors = c.errors) :
    ∃ ts i cond e b, c.rest = ts ++ c'.rest ∧ Grammar.DerivesFor ts i cond e b ∧
      n = .forLoop i cond e b ∧ ∀ config calls m, m.Scoped →
        (∀ k, runFor k calls i cond e b config m ≠ .unfinished →
          ∃ l, SameEnd m (runFor k calls i cond e b config m) (execute l calls n config m)) ∧
        ∀ l, execute l calls n config m ≠ .unfinished →
          ∃ k, SameEnd m (runFor k calls i cond e b config m) (execute l calls n config m) := by
  obtain ⟨ts, i, cond, e, b, hts, hfor, rfl⟩ := Grammar.derivesFor_of_forStatement hread hclean
  refine ⟨ts, i, cond, e, b, hts, hfor, rfl, fun config calls m hm => ?_⟩
  obtain ⟨_, _, _, _, _, _, _, _, -, -, hi, -, -, -, -, hb⟩ := hfor
  have hself := hm.tree.padded hm.scopes
  have hpad : m.Padded (.none m.store) m :=
    ⟨hself, hself.link (Padding.place_none hm.current), rfl, rfl⟩
  have hagree : ∀ {d k l}, Slack.Enough d (0 + 8) k l → Agrees d config (.none m.store) m m Same
      (runFor k calls i cond e b) (execute l calls (.forLoop i cond e b)) := fun h =>
    agrees_forLoop h hpad hi.isInitializer cond e hb.declared_eq_nil
  refine ⟨fun k hk => ⟨k + 8, ?_⟩, fun l hl => ⟨l, ?_⟩⟩
  · exact sameEnd_of_agree hm.current (hagree (d := .left) (Nat.le_refl _)) (.inl ⟨rfl, hk⟩)
  · exact sameEnd_of_agree hm.current (hagree (d := .right) (Nat.le_refl _)) (.inr ⟨rfl, hl⟩)

/-- A loop of one round, in a session that has not run anything. -/
theorem for_runs_as_its_clauses_one_round :
    ∃ n m i cond e b k, execute 20 5 n ⟨false, fun _ => 0⟩ .initial = .done .normal m ∧
      m.printed.map Write.text = ["true\n"] ∧ n = .forLoop i cond e b ∧
      SameEnd .initial (runFor k 5 i cond e b ⟨false, fun _ => 0⟩ .initial) (.done .normal m) := by
  let s := (scan "(var b = true; b; b = false) print b;").stream
  have hrun : (match Grammar.forStatement 300 s.eof (Grammar.start s.tokens) with
      | .done n c =>
        (c.errors.length, match execute 20 5 n ⟨false, fun _ => 0⟩ .initial with
          | .done .normal m => m.printed.map Write.text
          | .done (.returned _) _ | .failed _ _ | .unfinished => [])
      | _ => (1, [])) = (0, ["true\n"]) := by
    decide +kernel
  split at hrun
  · rename_i n c hread
    obtain ⟨herrors, hprinted⟩ := Prod.mk.inj hrun
    split at hprinted
    · rename_i m hdone
      have hclean : c.errors = (Grammar.start s.tokens).errors :=
        List.length_eq_zero_iff.mp herrors
      obtain ⟨_, i, cond, e, b, -, -, hn, hsame⟩ := for_runs_as_its_clauses hread hclean
      obtain ⟨k, hk⟩ := (hsame ⟨false, fun _ => 0⟩ 5 .initial
        Machine.formed_initial.scoped).2 20 (by rw [hdone]; simp)
      exact ⟨n, m, i, cond, e, b, k, hdone, hprinted, hn, hdone ▸ hk⟩
    all_goals cases hprinted
  all_goals cases hrun

end Lox
