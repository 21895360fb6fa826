import Lox.Grammar.Program

/-!
# Readers in front of a semicolon

A semicolon is the last token of most statements and no part of an expression. So in front of tokens
without a semicolon and then one, a rule either reads the statement that the semicolon ends, or it
does not reach the semicolon, and then what comes after it makes no difference.

## Main definitions

* `Inert ts`: the tokens `ts` neither hold a semicolon nor lead to another kind of end
* `Confined semi r`: the reader `r` does not read the semicolon `semi` after inert tokens
* `Guarded semi r`: it does not read the semicolon, or it ends with it

## Main results

* `confinedExpressionRules`: the rules for expressions do not read the semicolon
* `guardedRules`: the rules for statements do not read on after it
-/

namespace Lox.Grammar

/-- The tokens hold no semicolon, and they begin neither a block nor a `for` loop, in which there
are semicolons that end no statement. -/
def Inert (ts : List Token) : Prop :=
  ∀ t ∈ ts, t.kind ≠ .semicolon ∧ t.kind ≠ .leftBrace ∧ t.kind ≠ .forKw

theorem Inert.of_suffix {ts us : List Token} (h : Inert ts) (hs : us <:+ ts) : Inert us :=
  fun t ht => h t (hs.subset ht)

variable {α β : Type}

/-- The same end, with more tokens left over. -/
def Reply.before (us : List Token) : Reply α → Reply α
  | .done a c => .done a { c with rest := c.rest ++ us }
  | .failed e c => .failed e { c with rest := c.rest ++ us }
  | .unfinished => .unfinished

/-- In the end the last ones of the tokens `ts` are left, and the depth is `d`. -/
def Reply.Leaves (ts : List Token) (d : Nat) : Reply α → Prop
  | .done _ c => c.rest <:+ ts ∧ c.functionDepth = d
  | .failed _ c => c.rest <:+ ts ∧ c.functionDepth = d
  | .unfinished => True

theorem Reply.Leaves.mono {ts us : List Token} {d : Nat} {reply : Reply α}
    (h : reply.Leaves us d) (hs : us <:+ ts) : reply.Leaves ts d := by
  cases reply with
  | done a c => exact ⟨h.1.trans hs, h.2⟩
  | failed e c => exact ⟨h.1.trans hs, h.2⟩
  | unfinished => trivial

namespace Reader

variable {semi : Token} {ts : List Token} {d : Nat} {errors : List SyntaxError}

/-- In front of the tokens `ts` and a semicolon, the reader ends without having read the semicolon,
and in the same way whatever comes after it. -/
def StaysIn (semi : Token) (ts : List Token) (d : Nat) (errors : List SyntaxError)
    (r : Reader α) : Prop :=
  ∃ reply : Reply α, reply.Leaves ts d ∧
    ∀ eof rest, r eof ⟨ts ++ semi :: rest, d, errors⟩ = reply.before (semi :: rest)

/-- The reader reads all of the tokens `ts` and the semicolon, if nothing comes after it. -/
def Exhausts (semi : Token) (ts : List Token) (d : Nat) (errors : List SyntaxError)
    (r : Reader α) : Prop :=
  ∀ eof, ∃ a c, r eof ⟨ts ++ [semi], d, errors⟩ = .done a c ∧ c.rest = []

/-- The reader never reads the semicolon after inert tokens. -/
def Confined (semi : Token) (r : Reader α) : Prop :=
  ∀ ts d errors, Inert ts → r.StaysIn semi ts d errors

/-- After inert tokens, the reader does not read the semicolon or ends with it. -/
def Guarded (semi : Token) (r : Reader α) : Prop :=
  ∀ ts d errors, Inert ts → r.Exhausts semi ts d errors ∨ r.StaysIn semi ts d errors

/-- At the end of the source, the reader reads nothing and finds no error. -/
def Concludes (r : Reader α) : Prop :=
  ∀ eof c, c.rest = [] → ∃ a c', r eof c = .done a c' ∧ c'.rest = []

variable {r r' : Reader α} {k : α → Reader β}

theorem Confined.guarded (h : Confined semi r) : Guarded semi r :=
  fun ts d errors hts => .inr (h ts d errors hts)

/-- A reader that stays in front of the semicolon has a result there, or it ends there whatever is
to be done next. -/
theorem StaysIn.cases (h : r.StaysIn semi ts d errors) (k : α → Reader β) :
    (∃ a us errors', us <:+ ts ∧ ∀ eof rest, r eof ⟨ts ++ semi :: rest, d, errors⟩ =
        .done a ⟨us ++ semi :: rest, d, errors'⟩) ∨
      (r >>= k).StaysIn semi ts d errors := by
  obtain ⟨reply, hl, hr⟩ := h
  cases reply with
  | done a c =>
    obtain ⟨us, d', errors'⟩ := c
    obtain ⟨hs, rfl⟩ := hl
    exact .inl ⟨a, us, errors', hs, hr⟩
  | failed e c => exact .inr ⟨.failed e c, hl, fun eof rest => by rw [bind_apply, hr]; rfl⟩
  | unfinished => exact .inr ⟨.unfinished, trivial, fun eof rest => by rw [bind_apply, hr]; rfl⟩

section

variable {a : α} {us : List Token} {errors' : List SyntaxError}
  (hr : ∀ eof rest, r eof ⟨ts ++ semi :: rest, d, errors⟩ =
    .done a ⟨us ++ semi :: rest, d, errors'⟩)

include hr

theorem StaysIn.bind (hs : us <:+ ts) (hk : (k a).StaysIn semi us d errors') :
    (r >>= k).StaysIn semi ts d errors := by
  obtain ⟨reply, hl, hk⟩ := hk
  refine ⟨reply, hl.mono hs, fun eof rest => ?_⟩
  rw [bind_apply, hr]
  exact hk eof rest

theorem Exhausts.bind (hk : (k a).Exhausts semi us d errors') :
    (r >>= k).Exhausts semi ts d errors := by
  intro eof
  rw [bind_apply, hr]
  exact hk eof

end

theorem Confined.bind (h : Confined semi r) (hk : ∀ a, Confined semi (k a)) :
    Confined semi (r >>= k) := by
  intro ts d errors hts
  rcases (h ts d errors hts).cases k with ⟨a, us, errors', hs, hr⟩ | hb
  · exact .bind hr hs (hk a us d errors' (hts.of_suffix hs))
  · exact hb

/-- The semicolon may be left to the second reader. -/
theorem Confined.bind_guarded (h : Confined semi r) (hk : ∀ a, Guarded semi (k a)) :
    Guarded semi (r >>= k) := by
  intro ts d errors hts
  rcases (h ts d errors hts).cases k with ⟨a, us, errors', hs, hr⟩ | hb
  · exact (hk a us d errors' (hts.of_suffix hs)).imp (.bind hr) (.bind hr hs)
  · exact .inr hb

/-- After a reader that ends with the semicolon, there may be one that has nothing more to read. -/
theorem Guarded.bind (h : Guarded semi r) (hk : ∀ a, Guarded semi (k a))
    (hc : ∀ a, Concludes (k a)) : Guarded semi (r >>= k) := by
  intro ts d errors hts
  rcases h ts d errors hts with hx | hs
  · refine .inl fun eof => ?_
    obtain ⟨a, c, hr, hrest⟩ := hx eof
    rw [bind_apply, hr]
    exact hc a eof c hrest
  · rcases hs.cases k with ⟨a, us, errors', hs, hr⟩ | hb
    · exact (hk a us d errors' (hts.of_suffix hs)).imp (.bind hr) (.bind hr hs)
    · exact .inr hb

theorem Confined.ite {b : Prop} [Decidable b] (h : Confined semi r) (h' : Confined semi r') :
    Confined semi (if b then r else r') := by
  split
  · exact h
  · exact h'

theorem Guarded.ite {b : Prop} [Decidable b] (h : Guarded semi r) (h' : Guarded semi r') :
    Guarded semi (if b then r else r') := by
  split
  · exact h
  · exact h'

end Reader

/-! ## Steps -/

open Reader

variable {semi : Token} {r r' : Reader α}

theorem confined_pure (a : α) : Confined semi (pure a : Reader α) :=
  fun ts d errors _ => ⟨.done a ⟨ts, d, errors⟩, ⟨List.suffix_refl ts, rfl⟩, fun _ _ => rfl⟩

theorem concludes_pure (a : α) : Concludes (pure a : Reader α) :=
  fun _ c hc => ⟨a, c, rfl, hc⟩

/-- At the end of the source there is no token to accept. -/
theorem concludes_ifAccept {kind : Kind} (h : Concludes r') :
    Concludes (do if ← accept kind then r else r') := by
  intro eof c hc
  have ha : accept kind eof c = .done false c := by
    simp [accept, bind_apply, accept?, acceptIf?_apply, hc]
  rw [bind_apply, ha]
  exact h eof c hc

/-- A value does not have to be kept as it is. -/
theorem Reader.Guarded.bind_pure {f : α → β} (h : Guarded semi r) :
    Guarded semi (r >>= fun a => pure (f a)) :=
  h.bind (fun _ => (confined_pure _).guarded) fun _ => concludes_pure _

theorem confined_unfinished : Confined semi (unfinished : Reader α) :=
  fun _ _ _ _ => ⟨.unfinished, trivial, fun _ _ => rfl⟩

/-- There always is a next token to blame: the semicolon, if no other one is left. -/
theorem confined_fail (fault : SyntaxFault) : Confined semi (fail fault : Reader α) := by
  intro ts d errors _
  let e : SyntaxError := ⟨fault, ts.head?.getD semi⟩
  refine ⟨.failed e ⟨ts, d, e :: errors⟩, ⟨List.suffix_refl ts, rfl⟩, fun eof rest => ?_⟩
  simp [Reply.before, e]

theorem confined_recordAt (fault : SyntaxFault) (token : Token) :
    Confined semi (recordAt fault token) :=
  fun ts d errors _ =>
    ⟨.done () ⟨ts, d, ⟨fault, token⟩ :: errors⟩, ⟨List.suffix_refl ts, rfl⟩, fun _ _ => rfl⟩

theorem confined_record (fault : SyntaxFault) : Confined semi (record fault) := by
  intro ts d errors _
  refine ⟨.done () ⟨ts, d, ⟨fault, ts.head?.getD semi⟩ :: errors⟩, ⟨List.suffix_refl ts, rfl⟩, ?_⟩
  intro eof rest
  simp [Reply.before]

theorem confined_functionDepth : Confined semi functionDepth :=
  fun ts d errors _ => ⟨.done d ⟨ts, d, errors⟩, ⟨List.suffix_refl ts, rfl⟩, fun _ _ => rfl⟩

theorem confined_nextKind? : Confined semi nextKind? := by
  intro ts d errors _
  refine ⟨.done (some (ts.head?.getD semi).kind) ⟨ts, d, errors⟩, ⟨List.suffix_refl ts, rfl⟩, ?_⟩
  intro eof rest
  simp [nextKind?_apply, Reply.before]

section

variable (hsemi : semi.kind = .semicolon)

include hsemi

theorem confined_acceptIf? {wanted : Kind → Bool} (hw : wanted .semicolon = false) :
    Confined semi (acceptIf? wanted) := by
  intro ts d errors _
  cases ts with
  | nil =>
    refine ⟨.done none ⟨[], d, errors⟩, ⟨List.suffix_refl _, rfl⟩, fun eof rest => ?_⟩
    simp [acceptIf?_apply, hsemi, hw, Reply.before]
  | cons t ts =>
    cases ht : wanted t.kind with
    | true =>
      refine ⟨.done (some t) ⟨ts, d, errors⟩, ⟨List.suffix_cons t ts, rfl⟩, fun eof rest => ?_⟩
      simp [acceptIf?_apply, ht, Reply.before]
    | false =>
      refine ⟨.done none ⟨t :: ts, d, errors⟩, ⟨List.suffix_refl _, rfl⟩, fun eof rest => ?_⟩
      simp [acceptIf?_apply, ht, Reply.before]

variable {kind : Kind}

theorem confined_accept? (hk : kind ≠ .semicolon) : Confined semi (accept? kind) :=
  confined_acceptIf? hsemi (by simpa using hk.symm)

theorem confined_accept (hk : kind ≠ .semicolon) : Confined semi (accept kind) :=
  (confined_accept? hsemi hk).bind fun _ => confined_pure _

theorem confined_expect {fault : SyntaxFault} (hk : kind ≠ .semicolon) :
    Confined semi (expect kind fault) := by
  refine (confined_accept? hsemi hk).bind fun o => ?_
  cases o with
  | none => exact confined_fail fault
  | some t => exact confined_pure t

theorem confined_ifAccept (hk : kind ≠ .semicolon) (h : Confined semi r) (h' : Confined semi r') :
    Confined semi (do if ← accept kind then r else r') :=
  (confined_accept hsemi hk).bind fun _ => .ite h h'

theorem guarded_ifAccept (hk : kind ≠ .semicolon) (h : Guarded semi r) (h' : Guarded semi r') :
    Guarded semi (do if ← accept kind then r else r') :=
  (confined_accept hsemi hk).bind_guarded fun _ => .ite h h'

/-- Behind inert tokens, the semicolon that is expected is there or nothing is read. -/
theorem guarded_expect (fault : SyntaxFault) : Guarded semi (expect .semicolon fault) := by
  intro ts d errors hts
  cases ts with
  | nil =>
    refine .inl fun eof => ⟨semi, ⟨[], d, errors⟩, ?_, rfl⟩
    simp [expect, bind_apply, accept?, acceptIf?_apply, hsemi]
  | cons t ts =>
    have ht : t.kind ≠ .semicolon := (hts t (List.mem_cons_self ..)).1
    refine .inr ⟨.failed ⟨fault, t⟩ ⟨t :: ts, d, ⟨fault, t⟩ :: errors⟩,
      ⟨List.suffix_refl _, rfl⟩, fun eof rest => ?_⟩
    simp [expect, bind_apply, accept?, acceptIf?_apply, ht, Reply.before]

/-- Inert tokens begin neither a block nor a `for` loop. -/
theorem accept?_of_inert {ts : List Token} {d : Nat} {errors : List SyntaxError}
    (hk : kind = .leftBrace ∨ kind = .forKw) (hts : Inert ts) (eof : Token) (rest : List Token) :
    accept? kind eof ⟨ts ++ semi :: rest, d, errors⟩ =
      .done none ⟨ts ++ semi :: rest, d, errors⟩ := by
  cases ts with
  | nil => rcases hk with rfl | rfl <;> simp [accept?, acceptIf?_apply, hsemi]
  | cons t ts =>
    obtain ⟨-, hbrace, hfor⟩ := hts t (List.mem_cons_self ..)
    rcases hk with rfl | rfl <;> simp [accept?, acceptIf?_apply, hbrace, hfor]

theorem guarded_ifAbsent (hk : kind = .leftBrace ∨ kind = .forKw) (h : Guarded semi r') :
    Guarded semi (do if ← accept kind then r else r') := by
  have hr : ∀ {ts}, Inert ts → ∀ d errors eof rest,
      (do if ← accept kind then r else r' : Reader α) eof ⟨ts ++ semi :: rest, d, errors⟩ =
        r' eof ⟨ts ++ semi :: rest, d, errors⟩ := by
    intro ts hts d errors eof rest
    rw [bind_apply, accept, bind_apply, accept?_of_inert hsemi hk hts]
    rfl
  intro ts d errors hts
  refine (h ts d errors hts).imp (fun hx eof => ?_) fun ⟨reply, hl, hs⟩ => ⟨reply, hl, ?_⟩
  · rw [hr hts]
    exact hx eof
  · intro eof rest
    rw [hr hts]
    exact hs eof rest

/-- What comes after the brace that begins a block is not reached. -/
theorem confined_expect_leftBrace {k : Token → Reader β} (fault : SyntaxFault) :
    Confined semi (expect .leftBrace fault >>= k) := by
  intro ts d errors hts
  let e : SyntaxError := ⟨fault, ts.head?.getD semi⟩
  refine ⟨.failed e ⟨ts, d, e :: errors⟩, ⟨List.suffix_refl ts, rfl⟩, fun eof rest => ?_⟩
  rw [bind_apply, expect, bind_apply, accept?_of_inert hsemi (.inl rfl) hts]
  simp [Reply.before, e]

end

theorem Reader.Confined.unlessNext {kind : Kind} (h : Confined semi r) :
    Confined semi (unlessNext kind r) :=
  (confined_nextKind?.bind fun _ => confined_pure _).bind fun _ =>
    .ite (confined_pure _) (h.bind fun _ => confined_pure _)

theorem Reader.Confined.map {f : α → β} (h : Confined semi r) : Confined semi (do return f (← r)) :=
  h.bind fun _ => confined_pure _

theorem Reader.Confined.noting {b : Prop} [Decidable b] {note : Reader Unit}
    (hn : Confined semi note) (h : Confined semi r) :
    Confined semi (if b then note >>= fun _ => r else r) :=
  .ite (hn.bind fun _ => h) h

theorem Reader.Guarded.noting {b : Prop} [Decidable b] {note : Reader Unit}
    (hn : Confined semi note) (h : Guarded semi r) :
    Guarded semi (if b then note >>= fun _ => r else r) :=
  .ite (hn.bind_guarded fun _ => h) h

/-! ## Expressions -/

section

variable (hsemi : semi.kind = .semicolon)

include hsemi

theorem confined_acceptLiteral? : Confined semi acceptLiteral? := by
  refine (confined_acceptIf? hsemi rfl).bind fun o => ?_
  cases o with
  | none => exact confined_pure _
  | some t => exact confined_pure _

end

/-- The rules for expressions do not read the semicolon. -/
structure ConfinedExpressionRules (semi : Token) (fuel : Nat) : Prop where
  expression : Confined semi (expression fuel)
  operation (ls : List Level) : Confined semi (operation fuel ls)
  operands (l : Level) (ls : List Level) (e : Node) : Confined semi (operands fuel l ls e)
  prefixed : Confined semi (prefixed fuel)
  calls (e : Node) : Confined semi (calls fuel e)
  arguments (count : Nat) : Confined semi (arguments fuel count)
  primary : Confined semi (primary fuel)

namespace ConfinedExpressionRules

variable {fuel : Nat}

theorem succ (hsemi : semi.kind = .semicolon) (ih : ConfinedExpressionRules semi fuel) :
    ConfinedExpressionRules semi (fuel + 1) where
  expression := by
    rw [Grammar.expression]
    refine (ih.operation _).bind fun left => (confined_accept? hsemi (by decide)).bind fun o => ?_
    cases o with
    | none => exact confined_pure _
    | some equals =>
      refine ih.expression.bind fun value => ?_
      split
      · exact confined_pure _
      · exact (confined_recordAt _ _).bind fun _ => confined_pure _
  operation ls := by
    cases ls with
    | nil => exact ih.prefixed
    | cons l ls => exact (ih.operation ls).bind fun left => ih.operands l ls left
  operands l ls e := by
    rw [Grammar.operands]
    refine (confined_acceptIf? hsemi (by cases l <;> rfl)).bind fun o => ?_
    cases o with
    | none => exact confined_pure _
    | some operator => exact (ih.operation ls).bind fun right => ih.operands l ls _
  prefixed := by
    rw [Grammar.prefixed]
    refine (confined_acceptIf? hsemi rfl).bind fun o => ?_
    cases o with
    | some operator => exact ih.prefixed.bind fun _ => confined_pure _
    | none => exact ih.primary.bind fun callee => ih.calls callee
  calls e := by
    rw [Grammar.calls]
    refine confined_ifAccept hsemi (by decide) ?_ (confined_pure _)
    refine (ih.arguments 0).unlessNext.bind fun _ => ?_
    exact (confined_expect hsemi (by decide)).bind fun _ => ih.calls _
  arguments count := by
    rw [Grammar.arguments]
    refine .noting (confined_record _) (ih.expression.bind fun _ => ?_)
    refine confined_ifAccept hsemi (by decide) ?_ (confined_pure _)
    exact (ih.arguments _).bind fun _ => confined_pure _
  primary := by
    rw [Grammar.primary]
    refine (confined_acceptLiteral? hsemi).bind fun o => ?_
    cases o with
    | some v => exact confined_pure _
    | none =>
      refine (confined_accept? hsemi (by decide)).bind fun o => ?_
      cases o with
      | some name => exact confined_pure _
      | none =>
        refine confined_ifAccept hsemi (by decide) ?_ (confined_fail _)
        refine ih.expression.bind fun _ => ?_
        exact (confined_expect hsemi (by decide)).bind fun _ => confined_pure _

end ConfinedExpressionRules

section

variable (hsemi : semi.kind = .semicolon) (fuel : Nat)

include hsemi

theorem confinedExpressionRules : ConfinedExpressionRules semi fuel := by
  induction fuel with
  | zero =>
    constructor <;> intros <;>
      simp only [expression, operation, operands, prefixed, calls, arguments, primary] <;>
      exact confined_unfinished
  | succ fuel ih => exact ih.succ hsemi

theorem confined_expression : Confined semi (expression fuel) :=
  (confinedExpressionRules hsemi fuel).expression

/-! ## Statements -/

theorem confined_parameters (count : Nat) : Confined semi (parameters fuel count) := by
  induction fuel generalizing count with
  | zero => exact confined_unfinished
  | succ fuel ih =>
    rw [parameters]
    refine .noting (confined_record _) ((confined_expect hsemi (by decide)).bind fun _ => ?_)
    refine confined_ifAccept hsemi (by decide) ?_ (confined_pure _)
    exact (ih _).bind fun _ => confined_pure _

theorem guarded_variableDeclaration : Guarded semi (variableDeclaration fuel) := by
  refine (confined_expect hsemi (by decide)).bind_guarded fun _ => ?_
  refine guarded_ifAccept hsemi (by decide) ?_ ?_
  · refine (confined_expression hsemi fuel).map.bind_guarded fun _ => ?_
    exact (guarded_expect hsemi _).bind_pure
  · exact (confined_pure none).bind_guarded fun _ => (guarded_expect hsemi _).bind_pure

theorem guarded_expressionStatement : Guarded semi (expressionStatement fuel) :=
  (confined_expression hsemi fuel).bind_guarded fun _ => (guarded_expect hsemi _).bind_pure

theorem guarded_printStatement : Guarded semi (printStatement fuel) :=
  (confined_expression hsemi fuel).bind_guarded fun _ => (guarded_expect hsemi _).bind_pure

theorem guarded_returnStatement (keyword : Token) :
    Guarded semi (returnStatement fuel keyword) := by
  refine confined_functionDepth.bind_guarded fun _ => .noting (confined_recordAt _ _) ?_
  refine (confined_expression hsemi fuel).unlessNext.bind_guarded fun _ => ?_
  exact (guarded_expect hsemi _).bind_pure

/-- The body of a function is not reached. -/
theorem confined_functionDeclaration : Confined semi (functionDeclaration fuel) := by
  cases fuel with
  | zero =>
    simp only [functionDeclaration]
    exact confined_unfinished
  | succ fuel =>
    rw [functionDeclaration]
    refine (confined_expect hsemi (by decide)).bind fun _ => ?_
    refine (confined_expect hsemi (by decide)).bind fun _ => ?_
    refine (confined_parameters hsemi fuel 0).unlessNext.bind fun _ => ?_
    refine (confined_expect hsemi (by decide)).bind fun _ => ?_
    exact confined_expect_leftBrace hsemi _

end

/-- The rules for statements do not read on after the semicolon. -/
structure GuardedRules (semi : Token) (fuel : Nat) : Prop where
  statement : Guarded semi (statement fuel)
  ifStatement : Guarded semi (ifStatement fuel)
  whileStatement : Guarded semi (whileStatement fuel)

namespace GuardedRules

variable {fuel : Nat}

theorem succ (hsemi : semi.kind = .semicolon) (ih : GuardedRules semi fuel) :
    GuardedRules semi (fuel + 1) where
  statement := by
    rw [Grammar.statement]
    refine guarded_ifAbsent hsemi (.inr rfl) ?_
    refine guarded_ifAccept hsemi (by decide) ih.ifStatement ?_
    refine guarded_ifAccept hsemi (by decide) (guarded_printStatement hsemi fuel) ?_
    refine (confined_accept? hsemi (by decide)).bind_guarded fun o => ?_
    cases o with
    | some keyword => exact guarded_returnStatement hsemi fuel keyword
    | none =>
      refine guarded_ifAccept hsemi (by decide) ih.whileStatement ?_
      exact guarded_ifAbsent hsemi (.inl rfl) (guarded_expressionStatement hsemi fuel)
  ifStatement := by
    rw [Grammar.ifStatement]
    refine (confined_expect hsemi (by decide)).bind_guarded fun _ => ?_
    refine (confined_expression hsemi fuel).bind_guarded fun _ => ?_
    refine (confined_expect hsemi (by decide)).bind_guarded fun _ => ?_
    refine ih.statement.bind (fun _ => ?_) fun _ => concludes_ifAccept (concludes_pure _)
    refine guarded_ifAccept hsemi (by decide) ?_ ?_
    · exact (ih.statement.bind_pure).bind_pure
    · exact (confined_pure none).guarded.bind_pure
  whileStatement := by
    rw [Grammar.whileStatement]
    refine (confined_expect hsemi (by decide)).bind_guarded fun _ => ?_
    refine (confined_expression hsemi fuel).bind_guarded fun _ => ?_
    exact (confined_expect hsemi (by decide)).bind_guarded fun _ => ih.statement.bind_pure

end GuardedRules

theorem guardedRules (hsemi : semi.kind = .semicolon) (fuel : Nat) : GuardedRules semi fuel := by
  induction fuel with
  | zero =>
    constructor <;> simp only [statement, ifStatement, whileStatement] <;>
      exact confined_unfinished.guarded
  | succ fuel ih => exact ih.succ hsemi

end Lox.Grammar
