import Lox.Diagnostic.Basic
import Lox.Token.Basic

/-!
# Readers of tokens

The errors of the grammar, and the monad in which its rules read tokens.

An error is fatal if the rule that found it stops; it is then caught at the next declaration. The
other errors are recorded, and reading goes on.

A rule reads tokens in a few ways only. It looks at the kind of the next one, takes it, reports an
error, asks for the depth of function bodies, and recovers. What these steps do is one question, and
in which order a rule makes them is another, so the rules are stated for steps of any sort, in any
monad. With the steps of a reader they are what a program is read with.

The host bounds the recursion of the program, and with it the depth of the trees that it can read.
This bound is left out: however deep the tree, it is read.

## Main definitions

* `SyntaxFault`, `SyntaxError`: what a rule misses, and at which token
* `Reader α`: what a rule of the grammar does with the tokens in front of it
* `Steps m`: the steps that rules are made of, in the monad `m`
* `check`, `accept?`, `accept`, `expect`, `unlessNext`: steps that are made of others
* `synchronize ts`: the tokens from the next statement on
* `readerSteps`: the steps of a reader

## Main results

* `bind_eq_done_iff`, `bind_eq_failed_iff`: how one reader after another ends
* `length_synchronize_lt`, `synchronize_suffix`: recovery drops tokens, and at least one
-/

namespace Lox.Grammar

/-- The greatest number of arguments of a call, and of parameters of a function. -/
def maxArguments : Nat := 255

/-- What is wrong with a sequence of tokens. -/
inductive SyntaxFault where
  | functionName | parenAfterFunctionName | parameterName | parenAfterParameters | braceBeforeBody
  | variableName | semicolonAfterVariable
  | parenAfterFor | semicolonAfterLoopCondition | parenAfterForClauses
  | parenAfterIf | parenAfterIfCondition
  | parenAfterWhile | parenAfterCondition
  | semicolonAfterValue | semicolonAfterReturnValue | semicolonAfterExpression
  | braceAfterBlock
  | expression | parenAfterExpression | parenAfterArguments
  | endOfExpression
  | topLevelReturn | invalidTarget | tooManyArguments | tooManyParameters
  deriving DecidableEq, Repr

namespace SyntaxFault

/-- The wording of a fault. -/
def message : SyntaxFault → String
  | functionName => "Expect function name."
  | parenAfterFunctionName => "Expect '(' after function name."
  | parameterName => "Expect parameter name."
  | parenAfterParameters => "Expect ')' after parameters."
  | braceBeforeBody => "Expect '\x7b' before function body."
  | variableName => "Expect variable name."
  | semicolonAfterVariable => "Expect ';' after variable declaration."
  | parenAfterFor => "Expect '(' after 'for'."
  | semicolonAfterLoopCondition => "Expect ';' after loop condition."
  | parenAfterForClauses => "Expect ')' after for clauses."
  | parenAfterIf => "Expect '(' after 'if'."
  | parenAfterIfCondition => "Expect ')' after if condition."
  | parenAfterWhile => "Expect '(' after 'while'."
  | parenAfterCondition => "Expect ')' after condition."
  | semicolonAfterValue => "Expect ';' after value."
  | semicolonAfterReturnValue => "Expect ';' after return value."
  | semicolonAfterExpression => "Expect ';' after expression."
  | braceAfterBlock => "Expect '\x7d' after block."
  | expression => "Expect expression."
  | parenAfterExpression => "Expect ')' after expression."
  | parenAfterArguments => "Expect ')' after arguments."
  | endOfExpression => "Expect end of expression."
  | topLevelReturn => "Can't return from top-level code."
  | invalidTarget => "Invalid assignment target."
  | tooManyArguments => s!"Can't have more than {maxArguments} arguments."
  | tooManyParameters => s!"Can't have more than {maxArguments} parameters."

/-- Whether the rule that finds the fault stops. -/
def isFatal : SyntaxFault → Bool
  | topLevelReturn | invalidTarget | tooManyArguments | tooManyParameters => false
  | _ => true

end SyntaxFault

/-- A fault at a token. -/
structure SyntaxError where
  fault : SyntaxFault
  token : Token

/-- Where a token stands, in the words of a diagnostic. -/
def location (t : Token) : String :=
  if t.kind = .eof then "at end" else s!"at '{t.lexeme}'"

/-- The diagnostic for a syntax error. -/
def SyntaxError.diagnostic (e : SyntaxError) : Diagnostic where
  line := e.token.line
  location := location e.token
  message := e.fault.message
  offset := some e.token.offset

/-! ## Readers -/

/-- The state of a reader: the tokens that are left, the number of function bodies around them, and
the errors so far, the newest one first. -/
structure Cursor where
  rest : List Token
  functionDepth : Nat
  errors : List SyntaxError

/-- What a reader ends with: a result, a fatal error, or neither when its fuel did not suffice. -/
inductive Reply (α : Type) where
  | done (result : α) (cursor : Cursor)
  | failed (error : SyntaxError) (cursor : Cursor)
  | unfinished

/-- A reader of tokens. It knows the token that ends the source. -/
def Reader (α : Type) : Type :=
  Token → Cursor → Reply α

namespace Reader

variable {α β : Type}

/-- The reader that leaves the tokens alone. -/
@[inline] protected def pure (a : α) : Reader α :=
  fun _ c => .done a c

/-- One reader after another. -/
@[inline] protected def bind (r : Reader α) (next : α → Reader β) : Reader β :=
  fun eof c =>
    match r eof c with
    | .done a c => next a eof c
    | .failed e c => .failed e c
    | .unfinished => .unfinished

instance : Monad Reader where
  pure := Reader.pure
  bind := Reader.bind

variable {eof : Token} {c c' : Cursor}

@[simp] theorem pure_apply (a : α) : (pure a : Reader α) eof c = .done a c := rfl

theorem bind_apply (r : Reader α) (next : α → Reader β) :
    (r >>= next) eof c =
      match r eof c with
      | .done a c => next a eof c
      | .failed e c => .failed e c
      | .unfinished => .unfinished := rfl

/-- One reader after another succeeds if both do. -/
theorem bind_eq_done_iff {r : Reader α} {next : α → Reader β} {b : β} :
    (r >>= next) eof c = .done b c' ↔
      ∃ a d, r eof c = .done a d ∧ next a eof d = .done b c' := by
  rw [bind_apply]
  cases r eof c <;> simp [and_assoc]

/-- One reader after another fails if the first one does, or if that succeeds and the second one
fails. -/
theorem bind_eq_failed_iff {r : Reader α} {next : α → Reader β} {e : SyntaxError} :
    (r >>= next) eof c = .failed e c' ↔
      r eof c = .failed e c' ∨ ∃ a d, r eof c = .done a d ∧ next a eof d = .failed e c' := by
  rw [bind_apply]
  cases r eof c <;> simp [and_assoc]

end Reader

/-! ## Steps -/

/-- The steps that the rules of the grammar are made of. Where no monad is named, that of the
readers of lists is meant. -/
class Steps (m : outParam (Type → Type)) where
  /-- the fuel does not suffice -/
  unfinished {α : Type} : m α
  /-- the kind of the next token, if one is left -/
  nextKind? : m (Option Kind)
  /-- reads the next token if its kind is as wanted -/
  acceptIf? (wanted : Kind → Bool) : m (Option Token)
  /-- records an error at a token and goes on -/
  recordAt (fault : SyntaxFault) (token : Token) : m Unit
  /-- records an error at the next token and goes on -/
  record (fault : SyntaxFault) : m Unit
  /-- records an error at the next token and stops -/
  fail {α : Type} (fault : SyntaxFault) : m α
  /-- the number of function bodies around the next token -/
  functionDepth : m Nat
  /-- reads a function body; however that ends, the depth is then what it was -/
  inFunction {α : Type} (r : m α) : m α
  /-- reads something that may be missing: a fatal error ends here, and the tokens up to the next
  statement are dropped -/
  recover {α : Type} (r : m α) : m (Option α)

export Steps (unfinished nextKind? acceptIf? recordAt record fail functionDepth inFunction recover)

section

variable {m : Type → Type} [Monad m] [Steps m]

/-- Whether the next token is of this kind. -/
def check (kind : Kind) : m Bool :=
  return (← nextKind?) == some kind

/-- Reads the next token if it is of this kind. -/
def accept? (kind : Kind) : m (Option Token) :=
  acceptIf? (· == kind)

/-- Reads the next token if it is of this kind, and says whether it did. -/
def accept (kind : Kind) : m Bool :=
  return (← accept? kind).isSome

/-- Reads a token of this kind. -/
def expect (kind : Kind) (fault : SyntaxFault) : m Token := do
  match ← accept? kind with
  | some t => return t
  | none => fail fault

/-- Reads something if the next token is not of the kind that stands in its place. -/
def unlessNext {α : Type} (kind : Kind) (r : m α) : m (Option α) := do
  if ← check kind then return none else return some (← r)

end

/-! ## Recovery -/

/-- The kinds of tokens that begin a statement. -/
def startsStatement : Kind → Bool
  | .classKw | .funcKw | .varKw | .forKw | .ifKw | .whileKw | .printKw | .returnKw => true
  | _ => false

/-- Drops at least one token, and goes on until a semicolon is dropped or a token that begins a
statement comes next. -/
def synchronize : List Token → List Token
  | [] => []
  | t :: rest =>
    if t.kind = .semicolon ∨ (rest.head?.any fun u => startsStatement u.kind) then rest
    else synchronize rest

/-- Recovery drops at least one token. -/
theorem length_synchronize_lt (t : Token) (ts : List Token) :
    (synchronize (t :: ts)).length < (t :: ts).length := by
  induction ts generalizing t with
  | nil => simp [synchronize]
  | cons u us ih =>
    rw [synchronize]
    split
    · exact Nat.lt_succ_self _
    · exact Nat.lt_succ_of_lt (ih u)

/-- Recovery drops tokens from the front only. -/
theorem synchronize_suffix (ts : List Token) : synchronize ts <:+ ts := by
  induction ts with
  | nil => exact List.suffix_refl _
  | cons t ts ih =>
    rw [synchronize]
    split
    · exact List.suffix_cons t ts
    · exact ih.trans (List.suffix_cons t ts)

/-! ## Steps of readers -/

instance readerSteps : Steps Reader where
  unfinished _ _ := .unfinished
  nextKind? _ c := .done (c.rest.head?.map Token.kind) c
  acceptIf? wanted _ c :=
    match c.rest with
    | t :: rest => if wanted t.kind then .done (some t) { c with rest := rest } else .done none c
    | [] => .done none c
  recordAt fault token _ c := .done () { c with errors := ⟨fault, token⟩ :: c.errors }
  record fault eof c :=
    .done () { c with errors := ⟨fault, c.rest.head?.getD eof⟩ :: c.errors }
  fail fault eof c :=
    let e : SyntaxError := ⟨fault, c.rest.head?.getD eof⟩
    .failed e { c with errors := e :: c.errors }
  functionDepth _ c := .done c.functionDepth c
  inFunction r eof c :=
    match r eof { c with functionDepth := c.functionDepth + 1 } with
    | .done a c => .done a { c with functionDepth := c.functionDepth - 1 }
    | .failed e c => .failed e { c with functionDepth := c.functionDepth - 1 }
    | .unfinished => .unfinished
  recover r eof c :=
    match r eof c with
    | .done a c => .done (some a) c
    | .failed _ c => .done none { c with rest := synchronize c.rest }
    | .unfinished => .unfinished

section

variable {α : Type} (r : Reader α) (eof : Token) (c : Cursor) (wanted : Kind → Bool)
  (fault : SyntaxFault) (token : Token)

@[simp] theorem unfinished_apply : (unfinished : Reader α) eof c = .unfinished := rfl

@[simp] theorem nextKind?_apply : nextKind? eof c = .done (c.rest.head?.map Token.kind) c := rfl

theorem acceptIf?_apply :
    acceptIf? wanted eof c =
      match c.rest with
      | t :: rest => if wanted t.kind then .done (some t) { c with rest := rest } else .done none c
      | [] => .done none c := rfl

@[simp] theorem recordAt_apply :
    recordAt fault token eof c = .done () { c with errors := ⟨fault, token⟩ :: c.errors } := rfl

@[simp] theorem record_apply :
    record fault eof c =
      .done () { c with errors := ⟨fault, c.rest.head?.getD eof⟩ :: c.errors } := rfl

@[simp] theorem fail_apply :
    (fail fault : Reader α) eof c =
      .failed ⟨fault, c.rest.head?.getD eof⟩
        { c with errors := ⟨fault, c.rest.head?.getD eof⟩ :: c.errors } := rfl

@[simp] theorem functionDepth_apply : functionDepth eof c = .done c.functionDepth c := rfl

theorem inFunction_apply :
    inFunction r eof c =
      match r eof { c with functionDepth := c.functionDepth + 1 } with
      | .done a c => .done a { c with functionDepth := c.functionDepth - 1 }
      | .failed e c => .failed e { c with functionDepth := c.functionDepth - 1 }
      | .unfinished => .unfinished := rfl

theorem recover_apply :
    recover r eof c =
      match r eof c with
      | .done a c => .done (some a) c
      | .failed _ c => .done none { c with rest := synchronize c.rest }
      | .unfinished => .unfinished := rfl

end

end Lox.Grammar
