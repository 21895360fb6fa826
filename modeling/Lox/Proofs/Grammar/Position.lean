import Lox.Grammar.Program

/-!
# Readers with a position

A reader of the grammar has the tokens that are left. Here is another one, which has all tokens in
a list, with the one that ends the source at its end, and a position in that list: it looks at the
token at its position, or at the one before it, and moves on by one. An index may be out of range,
in which case there is no token, or negative, in which case it counts from the end of the list.

Each access is kept with the position at which it was made, and so is each position at which an
error was raised.

## Main definitions

* `Pointer`: the state of a reader with a position
* `IndexReader α`: what such a reader does
* `peek`, `previous`, `advance`, `synchronize`: its accesses and its moves
* `indexSteps`: the steps that rules are made of, for such readers
* `IndexReader.declarations`, `IndexReader.wholeExpression`: the rules that are made of these steps
* `Pointer.Sound s p`: what such a reader has done so far is as it should be
* `Pointer.Leads s p p'`: the reader goes from `p` to `p'`, not backwards, and soundness is kept

## Main results

* `Pointer.leads_saw`, `Pointer.leads_next`, `Pointer.leads_note`: looks and moves keep it
* `Pointer.Sound.raise`: an error keeps it too, if no other one was raised at the same place
-/

namespace Lox.Grammar

/-- The token at an index; a negative one counts from the end. -/
def tokenAt? (ts : List Token) (index : Int) : Option Token :=
  if 0 ≤ index then ts[index.toNat]?
  else if 0 ≤ ts.length + index then ts[(ts.length + index).toNat]?
  else none

/-- A look at the token at an index, from a position. -/
structure Access where
  position : Nat
  index : Int

/-- The state of a reader with a position: the number of function bodies around it, the errors so
far, the accesses, and the positions at which errors were raised. The newest ones come first. -/
structure Pointer where
  current : Nat
  functionDepth : Nat
  errors : List SyntaxError
  accesses : List Access
  raised : List Nat

namespace Pointer

/-- The beginning of a source. -/
def start : Pointer :=
  ⟨0, 0, [], [], []⟩

/-- After a look at the token at the index. -/
def saw (p : Pointer) (index : Int) : Pointer :=
  { p with accesses := ⟨p.current, index⟩ :: p.accesses }

/-- One token further on. -/
def next (p : Pointer) : Pointer :=
  { p with current := p.current + 1 }

/-- With one error more. -/
def note (p : Pointer) (e : SyntaxError) : Pointer :=
  { p with errors := e :: p.errors }

/-- With one error more, which is raised here. -/
def raise (p : Pointer) (e : SyntaxError) : Pointer :=
  { p with errors := e :: p.errors, raised := p.current :: p.raised }

/-- Inside of so many functions. -/
def within (p : Pointer) (depth : Nat) : Pointer :=
  { p with functionDepth := depth }

end Pointer

/-- What a reader with a position ends with: a result, an error that was raised, an index for which
there is no token, or neither of these when its fuel did not suffice. -/
inductive IndexReply (α : Type) where
  | done (result : α) (pointer : Pointer)
  | failed (error : SyntaxError) (pointer : Pointer)
  | outOfRange
  | unfinished

/-- A reader with a position in a list of tokens. -/
def IndexReader (α : Type) : Type :=
  List Token → Pointer → IndexReply α

namespace IndexReader

variable {α β : Type}

/-- The reader that looks at nothing. -/
@[inline] protected def pure (a : α) : IndexReader α :=
  fun _ p => .done a p

/-- One reader after another. -/
@[inline] protected def bind (r : IndexReader α) (next : α → IndexReader β) : IndexReader β :=
  fun ts p =>
    match r ts p with
    | .done a p => next a ts p
    | .failed e p => .failed e p
    | .outOfRange => .outOfRange
    | .unfinished => .unfinished

instance : Monad IndexReader where
  pure := IndexReader.pure
  bind := IndexReader.bind

@[simp] theorem pure_apply (a : α) (ts : List Token) (p : Pointer) :
    (pure a : IndexReader α) ts p = .done a p := rfl

theorem bind_apply (r : IndexReader α) (next : α → IndexReader β) (ts : List Token) (p : Pointer) :
    (r >>= next) ts p =
      match r ts p with
      | .done a p => next a ts p
      | .failed e p => .failed e p
      | .outOfRange => .outOfRange
      | .unfinished => .unfinished := rfl

/-- One reader after another that has succeeded. -/
theorem bind_of_done {r : IndexReader α} {ts : List Token} {p p' : Pointer} {a : α}
    (h : r ts p = .done a p') (next : α → IndexReader β) : (r >>= next) ts p = next a ts p' := by
  rw [bind_apply, h]

/-! ## Accesses and moves -/

/-- The token at the index. -/
def look (index : Int) : IndexReader Token :=
  fun ts p =>
    match tokenAt? ts index with
    | some t => .done t (p.saw index)
    | none => .outOfRange

/-- The token at the position. -/
def peek : IndexReader Token :=
  fun ts p => look p.current ts p

/-- The token before the position. -/
def previous : IndexReader Token :=
  fun ts p => look (p.current - 1) ts p

/-- Whether the token at the position is the one that ends the source. -/
def isAtEnd : IndexReader Bool :=
  return (← peek).kind == .eof

/-- Moves on by one. -/
def move : IndexReader Unit :=
  fun _ p => .done () p.next

/-- The token that is passed, or at the end the one before it. -/
def advance : IndexReader Token := do
  if !(← isAtEnd) then move
  previous

/-- The kind of the token at the position, if that is not the end. -/
def nextKind? : IndexReader (Option Kind) := do
  if ← isAtEnd then return none else return some (← peek).kind

/-- Passes a token if its kind is as wanted. -/
def acceptIf? (wanted : Kind → Bool) : IndexReader (Option Token) := do
  if ← isAtEnd then return none
  else if wanted (← peek).kind then return some (← advance)
  else return none

/-! ## Errors -/

/-- Records an error at a token and goes on. -/
def recordAt (fault : SyntaxFault) (token : Token) : IndexReader Unit :=
  fun _ p => .done () (p.note ⟨fault, token⟩)

/-- Records an error at the token at the position and goes on. -/
def record (fault : SyntaxFault) : IndexReader Unit := do
  recordAt fault (← peek)

/-- Raises an error at a token. -/
def raiseAt (fault : SyntaxFault) (token : Token) : IndexReader α :=
  fun _ p => .failed ⟨fault, token⟩ (p.raise ⟨fault, token⟩)

/-- Raises an error at the token at the position. -/
def fail (fault : SyntaxFault) : IndexReader α := do
  raiseAt fault (← peek)

/-- Reads a function body. However that ends, the depth is then what it was. -/
def inFunction (r : IndexReader α) : IndexReader α :=
  fun ts p =>
    match r ts (p.within (p.functionDepth + 1)) with
    | .done a p => .done a (p.within (p.functionDepth - 1))
    | .failed e p => .failed e (p.within (p.functionDepth - 1))
    | .outOfRange => .outOfRange
    | .unfinished => .unfinished

/-! ## Recovery -/

/-- Passes tokens up to one that comes after a semicolon, or begins a statement. -/
def skip : (fuel : Nat) → IndexReader Unit
  | 0 => fun _ _ => .unfinished
  | fuel + 1 => do
    if ← isAtEnd then return
    else if (← previous).kind == .semicolon then return
    else if startsStatement (← peek).kind then return
    else
      let _ ← advance
      skip fuel

/-- Passes one token, and then others up to the next statement. -/
def synchronize : IndexReader Unit :=
  fun ts p => (advance >>= fun _ => skip ts.length) ts p

/-- Reads something that may be missing: an error that is raised ends here, and the tokens up to the
next statement are passed. -/
def recover (r : IndexReader α) : IndexReader (Option α) :=
  fun ts p =>
    match r ts p with
    | .done a p => .done (some a) p
    | .failed _ p => (synchronize >>= fun _ => pure none) ts p
    | .outOfRange => .outOfRange
    | .unfinished => .unfinished

end IndexReader

/-- The steps of a reader with a position. They are no instance, so that a rule is one for the
readers of lists where no steps are named. -/
@[reducible] def indexSteps : Steps IndexReader where
  unfinished := fun _ _ => .unfinished
  nextKind? := .nextKind?
  acceptIf? := .acceptIf?
  recordAt := .recordAt
  record := .record
  fail := .fail
  functionDepth := fun _ p => .done p.functionDepth p
  inFunction := .inFunction
  recover := .recover

namespace IndexReader

/-- The rule for a declaration, made of these steps. -/
def declaration (fuel : Nat) : IndexReader (Option Node) :=
  @Grammar.declaration IndexReader _ indexSteps fuel

/-- The rule for a program, made of these steps. -/
def declarations (fuel : Nat) : IndexReader (List Node) :=
  @Grammar.declarations IndexReader _ indexSteps fuel

/-- The rule for a source that is one expression, made of these steps. -/
def wholeExpression (fuel : Nat) : IndexReader Node :=
  @Grammar.wholeExpression IndexReader _ indexSteps fuel

end IndexReader

/-! ## What is kept along a run -/

/-- What a reader with a position has done so far: it has looked at tokens of the list only, and
moved forward only; and it has raised errors at tokens, no two of them at the same one, but for the
one that ends the source. -/
structure Pointer.Sound (s : TokenStream) (p : Pointer) : Prop where
  inRange : ∀ a ∈ p.accesses, 0 ≤ a.index ∧ a.index < s.toList.length
  ordered : p.accesses.Pairwise fun later earlier => earlier.position ≤ later.position
  behind : ∀ a ∈ p.accesses, a.position ≤ p.current
  once : p.raised.Pairwise fun later earlier => earlier = later → later = s.tokens.length
  fatal : (p.errors.filter (·.fault.isFatal)).map (fun e => some e.token) =
    p.raised.map fun i => s.toList[i]?

/-- The errors that were raised are behind, but for those at the end. -/
def Pointer.Settled (s : TokenStream) (p : Pointer) : Prop :=
  ∀ i ∈ p.raised, i < p.current ∨ i = s.tokens.length

/-- One state comes after another. -/
structure Pointer.Leads (s : TokenStream) (p p' : Pointer) : Prop where
  forward : p.current ≤ p'.current
  sound : p.Sound s ∧ p.Settled s → p'.Sound s ∧ p'.Settled s

variable {s : TokenStream} {p p' q : Pointer}

namespace Pointer

theorem Sound.saw (h : p.Sound s) {i : Int} (hi : 0 ≤ i ∧ i < s.toList.length) :
    (p.saw i).Sound s where
  inRange := List.forall_mem_cons.mpr ⟨hi, h.inRange⟩
  ordered := List.pairwise_cons.mpr ⟨h.behind, h.ordered⟩
  behind := List.forall_mem_cons.mpr ⟨Nat.le_refl _, h.behind⟩
  once := h.once
  fatal := h.fatal

theorem Sound.next (h : p.Sound s) : p.next.Sound s where
  inRange := h.inRange
  ordered := h.ordered
  behind a ha := Nat.le_succ_of_le (h.behind a ha)
  once := h.once
  fatal := h.fatal

theorem Sound.note (h : p.Sound s) {e : SyntaxError} (he : e.fault.isFatal = false) :
    (p.note e).Sound s where
  inRange := h.inRange
  ordered := h.ordered
  behind := h.behind
  once := h.once
  fatal := by
    rw [← show p.raised = (p.note e).raised from rfl, ← h.fatal]
    simp [Pointer.note, he]

theorem Sound.raise (h : p.Sound s) (hs : p.Settled s) {e : SyntaxError}
    (he : e.fault.isFatal = true) (ht : s.toList[p.current]? = some e.token) :
    (p.raise e).Sound s where
  inRange := h.inRange
  ordered := h.ordered
  behind := h.behind
  once := by
    refine List.pairwise_cons.mpr ⟨fun i hi heq => ?_, h.once⟩
    obtain hlt | heq' := hs i hi
    · exact absurd heq (Nat.ne_of_lt hlt)
    · exact heq ▸ heq'
  fatal := by
    simp [Pointer.raise, he, ht, h.fatal]

theorem Settled.next (h : p.Settled s) : p.next.Settled s :=
  fun i hi => (h i hi).imp_left Nat.lt_succ_of_lt

/-- An error that is raised here is behind one token further on. -/
theorem Settled.raise_next (h : p.Settled s) (e : SyntaxError) : (p.raise e).next.Settled s :=
  List.forall_mem_cons.mpr ⟨.inl (Nat.lt_succ_self _), h.next⟩

theorem Settled.raise_end (h : p.Settled s) (e : SyntaxError) (hp : p.current = s.tokens.length) :
    (p.raise e).Settled s :=
  List.forall_mem_cons.mpr ⟨.inr hp, h⟩

theorem Leads.refl (p : Pointer) : p.Leads s p :=
  ⟨Nat.le_refl _, id⟩

theorem Leads.trans (h : p.Leads s q) (h' : q.Leads s p') : p.Leads s p' :=
  ⟨Nat.le_trans h.forward h'.forward, fun hp => h'.sound (h.sound hp)⟩

theorem leads_saw {i : Int} (hi : 0 ≤ i ∧ i < s.toList.length) : p.Leads s (p.saw i) :=
  ⟨Nat.le_refl _, fun h => ⟨h.1.saw hi, h.2⟩⟩

theorem leads_next : p.Leads s p.next :=
  ⟨Nat.le_succ _, fun h => ⟨h.1.next, h.2.next⟩⟩

theorem leads_note {e : SyntaxError} (he : e.fault.isFatal = false) : p.Leads s (p.note e) :=
  ⟨Nat.le_refl _, fun h => ⟨h.1.note he, h.2⟩⟩

theorem leads_within (depth : Nat) : p.Leads s (p.within depth) :=
  ⟨Nat.le_refl _, fun h => ⟨⟨h.1.inRange, h.1.ordered, h.1.behind, h.1.once, h.1.fatal⟩, h.2⟩⟩

end Pointer

end Lox.Grammar
