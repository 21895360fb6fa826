import Lox.Proofs.Grammar.Derivation

/-!
# What a reader makes of given tokens

Where the tokens in front of a reader are known, it can be said what becomes of it: after some of
them it goes on as another reader, or it ends there with a result, and in neither case has it found
an error. Readers look one token ahead, so this may depend on the tokens that follow.

## Main definitions

* `Avoids ks rest`: the next token is of none of these kinds
* `Reader.Passes d ts stop r r'`: behind the tokens `ts`, the reader `r` goes on as `r'`
* `Reader.Reads d ts stop r a`: the reader `r` reads the tokens `ts`, with the result `a`

## Main results

* `Reader.Passes.bind`, `Reader.Passes.trans`: one reader after another
* `reads_accept`, `reads_expect`, `reads_unlessNext`, ...: the steps
-/

namespace Lox.Grammar

/-- The next token, if there is one, is of none of these kinds. -/
def Avoids (ks : List Kind) (rest : List Token) : Prop :=
  ∀ t ∈ rest.head?, t.kind ∉ ks

@[simp] theorem avoids_cons {ks : List Kind} {t : Token} {rest : List Token} :
    Avoids ks (t :: rest) ↔ t.kind ∉ ks := by
  simp [Avoids]

@[simp] theorem avoids_nil {ks : List Kind} : Avoids ks [] := by
  simp [Avoids]

theorem Avoids.mono {ks ls : List Kind} {rest : List Token} (h : Avoids ls rest)
    (hs : ks ⊆ ls) : Avoids ks rest :=
  fun t ht hk => h t ht (hs hk)

/-- What satisfies `stop` may follow; here that is anything. -/
def Anything (_ : List Token) : Prop := True

namespace Reader

variable {α β : Type}

/-- In front of the tokens `ts`, with tokens behind them that satisfy `stop`, the reader `r` does
what `r'` does behind them. -/
def Passes (d : Nat) (ts : List Token) (stop : List Token → Prop) (r r' : Reader α) : Prop :=
  ∀ eof rest errors, stop rest → r eof ⟨ts ++ rest, d, errors⟩ = r' eof ⟨rest, d, errors⟩

/-- The reader reads exactly the tokens `ts`, if tokens that satisfy `stop` are behind them. -/
abbrev Reads (d : Nat) (ts : List Token) (stop : List Token → Prop) (r : Reader α) (a : α) : Prop :=
  Passes d ts stop r (Pure.pure a)

variable {d : Nat} {ts us : List Token} {stop stop' : List Token → Prop}

theorem Passes.refl {r : Reader α} : Passes d [] stop r r :=
  fun _ _ _ _ => rfl

theorem Passes.mono {r r' : Reader α} (h : Passes d ts stop r r')
    (hs : ∀ rest, stop' rest → stop rest) : Passes d ts stop' r r' :=
  fun eof rest errors hr => h eof rest errors (hs rest hr)

theorem Passes.trans {r r' r'' : Reader α} (h : Passes d ts stop r r')
    (hs : ∀ rest, stop' rest → stop (us ++ rest)) (h' : Passes d us stop' r' r'') :
    Passes d (ts ++ us) stop' r r'' := by
  intro eof rest errors hr
  rw [List.append_assoc, h eof _ errors (hs rest hr), h' eof rest errors hr]

/-- One reader after another. -/
theorem Passes.bind {r : Reader α} {a : α} {next : α → Reader β} {r' : Reader β}
    (h : Reads d ts stop r a) (hs : ∀ rest, stop' rest → stop (us ++ rest))
    (h' : Passes d us stop' (next a) r') : Passes d (ts ++ us) stop' (r >>= next) r' := by
  intro eof rest errors hr
  rw [List.append_assoc, bind_apply, h eof _ errors (hs rest hr)]
  exact h' eof rest errors hr

/-- What a reader goes on as may be followed by something else. -/
theorem Passes.andThen {r r' : Reader α} {next : α → Reader β} (h : Passes d ts stop r r') :
    Passes d ts stop (r >>= next) (r' >>= next) := by
  intro eof rest errors hr
  rw [bind_apply, bind_apply, h eof rest errors hr]

/-- A reader that reads what another one reads, and puts the result into another form. -/
theorem Reads.map {r : Reader α} {a : α} (f : α → β) (h : Reads d ts stop r a) :
    Reads d ts stop (do return f (← r)) (f a) := by
  intro eof rest errors hr
  rw [bind_apply, h eof rest errors hr]
  rfl

end Reader

/-! ## Steps -/

open Reader

variable {α : Type} {d : Nat} {ts : List Token} {stop : List Token → Prop} {t : Token} {k : Kind}

theorem reads_acceptIf? {wanted : Kind → Bool} (h : wanted t.kind = true) :
    Reads d [t] Anything (acceptIf? wanted) (some t) := by
  intro eof rest errors _
  simp [acceptIf?_apply, h]

/-- A token that is not wanted is left where it is. -/
theorem reads_acceptIf?_none {wanted : Kind → Bool} :
    Reads d [] (fun rest => ∀ t ∈ rest.head?, wanted t.kind = false) (acceptIf? wanted) none := by
  intro eof rest errors h
  cases rest with
  | nil => rfl
  | cons t rest => simp [acceptIf?_apply, h t rfl]

theorem reads_accept? (h : t.kind = k) : Reads d [t] Anything (accept? k) (some t) :=
  reads_acceptIf? (by simpa using h)

theorem reads_accept?_none : Reads d [] (Avoids [k]) (accept? k) none :=
  reads_acceptIf?_none.mono fun _ h t ht => by simpa using h t ht

theorem reads_accept (h : t.kind = k) : Reads d [t] Anything (accept k) true :=
  (reads_accept? h).bind (fun _ h => h) .refl

theorem reads_accept_false : Reads d [] (Avoids [k]) (accept k) false :=
  reads_accept?_none.bind (fun _ h => h) .refl

theorem reads_expect {fault : SyntaxFault} (h : t.kind = k) :
    Reads d [t] Anything (expect k fault) t :=
  (reads_accept? h).bind (fun _ h => h) .refl

theorem check_apply {eof : Token} {c : Cursor} :
    check k eof c = .done (c.rest.head?.map Token.kind == some k) c := rfl

/-- Something that may be missing is there, if the token that stands in its place is not. -/
theorem reads_unlessNext {r : Reader α} {a : α} (h : Reads d ts stop r a)
    (ht : ∀ rest, Avoids [k] (ts ++ rest)) : Reads d ts stop (unlessNext k r) (some a) := by
  intro eof rest errors hr
  have hk : ((ts ++ rest).head?.map Token.kind == some k) = false := by
    cases hh : (ts ++ rest).head? with
    | none => rfl
    | some t => simpa [hh] using ht rest t hh
  rw [unlessNext, bind_apply, check_apply]
  simp only [hk, Bool.false_eq_true, if_false]
  rw [bind_apply, h eof rest errors hr]
  rfl

theorem reads_unlessNext_none {r : Reader α} :
    Reads d [] (fun rest => rest.head?.map Token.kind = some k) (unlessNext k r) none := by
  intro eof rest errors hr
  rw [List.nil_append, unlessNext, bind_apply, check_apply]
  simp [hr]

/-- What is done next may depend on the next token. -/
theorem Reader.Passes.bind_nextKind? {us : List Token} {next : Option Kind → Reader α}
    {r' : Reader α} (h : Passes d (t :: us) stop (next (some t.kind)) r') :
    Passes d (t :: us) stop (nextKind? >>= next) r' :=
  h

theorem reads_inFunction {r : Reader α} {a : α} (h : Reads (d + 1) ts stop r a) :
    Reads d ts stop (inFunction r) a := by
  intro eof rest errors hr
  rw [inFunction_apply]
  rw [h eof rest errors hr]
  rfl

theorem reads_recover {r : Reader α} {a : α} (h : Reads d ts stop r a) :
    Reads d ts stop (recover r) (some a) := by
  intro eof rest errors hr
  rw [recover_apply]
  rw [h eof rest errors hr]
  rfl

end Lox.Grammar
