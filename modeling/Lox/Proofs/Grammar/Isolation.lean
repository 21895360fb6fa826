import Lox.Proofs.Grammar.Confinement
import Lox.Proofs.Grammar.Declares

/-!
# A broken statement in a program

After a fatal error, the tokens up to the next statement are dropped. A broken statement up to its
semicolon then leaves no trace but its errors: the statements before it and after it are what they
are without it.

## Main results

* `synchronize_append`: recovery stops behind the first semicolon
* `exists_declaration_eq_none`: a broken statement is dropped with its semicolon
* `parse_around_broken_statement`: it makes no difference to the statements around it
-/

namespace Lox.Grammar

open Reader

variable {eof semi : Token} {c : Cursor} {ts B : List Token}

theorem mem_tail_of_suffix {us : List Token} {t : Token} (hs : us <:+ ts) (ht : t ∈ us.tail) :
    t ∈ ts.tail := by
  obtain ⟨vs, rfl⟩ := hs
  cases vs with
  | nil => exact ht
  | cons v vs => exact List.mem_append_right vs (List.mem_of_mem_tail ht)

/-- Recovery stops behind the first semicolon, if no statement begins before it. -/
theorem synchronize_append (hsemi : semi.kind = .semicolon) (rest : List Token)
    (hts : ∀ t ∈ ts, t.kind ≠ .semicolon)
    (hstarts : ∀ t ∈ ts.tail, startsStatement t.kind = false) :
    synchronize (ts ++ semi :: rest) = rest := by
  induction ts with
  | nil => simp [synchronize, hsemi]
  | cons t ts ih =>
    have hnext : startsStatement (ts.head?.getD semi).kind = false := by
      cases ts with
      | nil => simp [hsemi, startsStatement]
      | cons u us => exact hstarts u (List.mem_cons_self ..)
    have ht := hts t (List.mem_cons_self ..)
    rw [List.cons_append, synchronize, if_neg (by simp [ht, hnext])]
    refine ih (fun u hu => hts u (List.mem_cons_of_mem t hu)) fun u hu => ?_
    exact hstarts u (List.mem_of_mem_tail hu)

/-- What a declaration is, before a fatal error in it is caught. -/
def uncaught (fuel : Nat) : Reader Node := do
  if ← accept .funcKw then functionDeclaration fuel
  else if ← accept .varKw then variableDeclaration fuel
  else statement fuel

theorem declaration_succ (fuel : Nat) : declaration (fuel + 1) = recover (uncaught fuel) := rfl

theorem guarded_uncaught (hsemi : semi.kind = .semicolon) (fuel : Nat) :
    Guarded semi (uncaught fuel) := by
  refine guarded_ifAccept hsemi (by decide) (confined_functionDeclaration hsemi fuel).guarded ?_
  refine guarded_ifAccept hsemi (by decide) (guarded_variableDeclaration hsemi fuel) ?_
  exact (guardedRules hsemi fuel).statement

/-- **Recovery.** A statement up to its semicolon that alone has a fatal error is dropped, with the
same errors, wherever it stands. -/
theorem exists_declaration_eq_none (hsemi : semi.kind = .semicolon) (hB : Inert B)
    (hstarts : ∀ t ∈ B.tail, startsStatement t.kind = false)
    (h : Declares eof (start (B ++ [semi])) [] c) :
    ∃ fuel, ∀ eof' rest, declaration fuel eof' ⟨B ++ semi :: rest, 0, []⟩ =
      .done none ⟨rest, 0, c.errors⟩ := by
  obtain ⟨t, ts, hts⟩ : ∃ t ts, B ++ [semi] = t :: ts := List.exists_cons_of_ne_nil (by simp)
  obtain ⟨o, ms, c₁, fuel, hd, hds, hnil⟩ := h.of_cons hts
  obtain ⟨rfl, rfl⟩ : o = none ∧ ms = [] := by simpa using hnil
  cases fuel with
  | zero => simp [declaration] at hd
  | succ fuel =>
    rw [declaration_succ] at hd
    rcases guarded_uncaught hsemi fuel B 0 [] hB with hx | ⟨reply, hl, hr⟩
    · obtain ⟨n, c', hn, -⟩ := hx eof
      simp [recover_apply, start, hn] at hd
    · rw [recover_apply, start, hr] at hd
      cases reply with
      | done n c' => simp [Reply.before] at hd
      | unfinished => simp [Reply.before] at hd
      | failed e c' =>
        obtain ⟨us, d, errors⟩ := c'
        obtain ⟨hs, rfl⟩ := hl
        have hsync (rest : List Token) : synchronize (us ++ semi :: rest) = rest :=
          synchronize_append hsemi rest (fun t ht => (hB t (hs.subset ht)).1)
            fun t ht => hstarts t (mem_tail_of_suffix hs ht)
        obtain rfl : ⟨[], 0, errors⟩ = c₁ := by simpa [Reply.before, hsync] using hd
        obtain ⟨-, rfl⟩ := hds.of_nil rfl
        refine ⟨fuel + 1, fun eof' rest => ?_⟩
        rw [declaration_succ, recover_apply, hr]
        simp [Reply.before, hsync]

/-- The kinds of tokens that begin a statement are those of a keyword. -/
theorem startsStatement_eq_false {k : Kind}
    (hk : k ∉ [.classKw, .funcKw, .varKw, .forKw, .ifKw, .whileKw, .printKw, .returnKw]) :
    startsStatement k = false := by
  cases k <;> first | rfl | exact absurd hk (by decide)

theorem inert_of_tail (hB : ∀ t ∈ B, t.kind ≠ .semicolon ∧ t.kind ≠ .leftBrace)
    (hhead : ∀ t ∈ B.head?, t.kind ≠ .forKw)
    (hstarts : ∀ t ∈ B.tail, startsStatement t.kind = false) : Inert B := by
  intro t ht
  obtain ⟨hs, hb⟩ := hB t ht
  refine ⟨hs, hb, fun hk => ?_⟩
  cases B with
  | nil => simp at ht
  | cons u us =>
    obtain rfl | ht := List.mem_cons.mp ht
    · exact hhead t rfl hk
    · simpa [hk, startsStatement] using hstarts t ht

/-- **Isolation of errors.** Let there be a statement up to its semicolon that is broken when it
stands alone, with no other semicolon, no block and no other statement in it. Between declarations
without errors and any other tokens, it leaves no trace but its errors: the trees are those of what
stands before it and after it, and the other errors are those of what stands after it. -/
theorem parse_around_broken_statement {A B C : List Token} {semi eofA eofB eof : Token}
    (hA : (parse ⟨A, eofA⟩).errors = []) (hsemi : semi.kind = .semicolon)
    (hB : ∀ t ∈ B, t.kind ≠ .semicolon ∧ t.kind ≠ .leftBrace)
    (hhead : ∀ t ∈ B.head?, t.kind ≠ .forKw ∧ t.kind ≠ .elseKw)
    (htail : ∀ t ∈ B.tail, t.kind ∉
      [.classKw, .funcKw, .varKw, .forKw, .ifKw, .whileKw, .printKw, .returnKw])
    (hbroken : (parse ⟨B ++ [semi], eofB⟩).program = []) :
    parse ⟨A ++ B ++ semi :: C, eof⟩ =
      ⟨(parse ⟨A, eofA⟩).program ++ (parse ⟨C, eof⟩).program,
        (parse ⟨B ++ [semi], eofB⟩).errors ++ (parse ⟨C, eof⟩).errors⟩ := by
  obtain ⟨hd, hg⟩ : Derives .program A (parse ⟨A, eofA⟩).program ∧ _ :=
    derives_of_parse (s := ⟨A, eofA⟩) (by rw [← hA])
  have hstarts : ∀ t ∈ B.tail, startsStatement t.kind = false :=
    fun t ht => startsStatement_eq_false (htail t ht)
  have hinert : Inert B := inert_of_tail hB (fun t ht => (hhead t ht).1) hstarts
  have helse : Avoids [.elseKw] (B ++ semi :: C) := by
    cases B with
    | nil => simp [hsemi]
    | cons t ts => simpa using (hhead t rfl).2
  -- the statement alone is dropped, and so it is in front of `C`
  obtain ⟨c, hdB, herrors⟩ := exists_declares (B ++ [semi]) eofB
  rw [hbroken] at hdB
  obtain ⟨fuel, hdrop⟩ := exists_declaration_eq_none hsemi hinert hstarts hdB
  -- the rest is read as it is alone, on top of the errors of the statement
  obtain ⟨c', hdC, herrorsC⟩ := exists_declares C eof
  have hrest : Declares eof ⟨B ++ semi :: C, 0, []⟩ (parse ⟨C, eof⟩).program
      { c' with errors := c'.errors ++ c.errors } := by
    obtain ⟨t, ts, hts⟩ : ∃ t ts, B ++ semi :: C = t :: ts := List.exists_cons_of_ne_nil (by simp)
    exact .cons hts (hdrop eof C) (hdC.above c.errors)
  rw [List.append_assoc, parse_of_declares (hd.declares hg helse hrest), herrors, herrorsC,
    List.reverse_append]

/-- A `print` without an operand, between two statements. -/
theorem parse_around_broken_statement_print :
    let token (kind : Kind) (lexeme : String) (offset : Nat) : Token :=
      ⟨kind, lexeme, none, 1, offset⟩
    let a := token .identifier "a" 0
    let semi := token .semicolon ";" 1
    let print := token .printKw "print" 3
    let semi' := token .semicolon ";" 8
    let b := token .identifier "b" 10
    let semi'' := token .semicolon ";" 11
    parse ⟨[a, semi, print, semi', b, semi''], token .eof "" 12⟩ =
      ⟨[.exprStmt (.ident a), .exprStmt (.ident b)], [⟨.expression, semi'⟩]⟩ := by
  intro token a semi print semi' b semi''
  let eof := token .eof "" 12
  have hA : (parse ⟨[a, semi], eof⟩).errors = [] := rfl
  have hbroken : (parse ⟨[print] ++ [semi'], eof⟩).program = [] := rfl
  exact parse_around_broken_statement (C := [b, semi'']) hA rfl (by decide) (by decide) (by decide)
    hbroken

end Lox.Grammar
