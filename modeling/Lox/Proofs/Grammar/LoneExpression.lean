import Lox.Proofs.Grammar.ExpressionEnd
import Lox.Proofs.Grammar.ExpressionStatement
import Lox.Proofs.Grammar.Progress
import Lox.Proofs.Token.Respacing

/-!
# Sources that are one expression

There are two ways to read an expression: as a source of its own, or as a statement, with a
semicolon after it. A semicolon on a line of its own is one more token of the source, whatever
stands in front of it, and the expression ends there as it ends at the end of the source. So the two
agree on what is an expression. They differ in the errors that are recorded and do not stop the
reader: these are in the result of a program, but not in the result of a lone expression, which is
only a tree, or the error that stopped the reader.

## Main results

* `scan_semicolon`: the tokens of a source with a semicolon after it
* `parse_of_parseExpression`, `parseExpression_of_parse`: tokens that are an expression are an
  expression statement with a semicolon after them, and the other way around
* `lone_expressions`: so it is for sources, up to the errors that were recorded
* `lone_expression_drops_error`: a source that is an expression, with such an error
-/

namespace Lox

/-! ## A semicolon after a source -/

theorem piece_unterminated {c : Char} {cs : List Char} (h : (piece c cs).1.IsUnterminated) :
    c = '"' ∧ '"' ∉ cs := by
  have hf := fits_piece c cs
  have ht := text_piece c cs
  generalize piece c cs = q at h hf ht
  obtain ⟨p, rest⟩ := q
  cases p with
  | unterminated body =>
    obtain ⟨hb, rfl⟩ := hf
    rw [List.append_nil] at ht
    obtain ⟨rfl, rfl⟩ := List.cons.inj ht
    exact ⟨rfl, hb⟩
  | _ => exact absurd h id

/-- A string without an end has none further on either, if there is no quote. -/
theorem exists_isUnterminated_newline {cs ds : List Char} (hd : '"' ∉ ds)
    (h : ∃ p ∈ pieces cs, p.IsUnterminated) :
    ∃ p ∈ pieces (cs ++ '\n' :: ds), p.IsUnterminated := by
  induction cs using pieces.induct with
  | case1 => simp [pieces] at h
  | case2 c cs ih =>
    rw [List.cons_append, pieces]
    by_cases hp : (piece c cs).1.IsUnterminated
    · obtain ⟨rfl, hcs⟩ := piece_unterminated hp
      have hnone : (cs ++ '\n' :: ds).dropWhile (fun c => decide (c ≠ '"')) = [] := by
        refine List.dropWhile_eq_nil_iff.mpr fun c hc => decide_eq_true ?_
        rintro rfl
        simp [hcs, hd] at hc
      refine ⟨_, List.mem_cons_self, ?_⟩
      show (stringPiece (cs ++ '\n' :: ds)).1.IsUnterminated
      rw [stringPiece, hnone]
      trivial
    · obtain ⟨p, hmem, hu⟩ := h
      rw [pieces] at hmem
      obtain rfl | hmem := List.mem_cons.mp hmem
      · exact absurd hu hp
      · rw [piece_append hp]
        obtain ⟨q, hq, hqu⟩ := ih ⟨p, hmem, hu⟩
        exact ⟨q, List.mem_cons_of_mem _ hq, hqu⟩

theorem errors_ne_unterminated {cs : List Char} (h : ∀ p ∈ pieces cs, ¬p.IsUnterminated) :
    ∀ e ∈ (scanChars cs).errors, e.fault ≠ .unterminatedString := by
  intro e he hf
  have hmem := List.mem_map_of_mem (f := ScanError.fault) he
  rw [faults_scanChars] at hmem
  obtain ⟨p, hp, hfault⟩ := List.mem_filterMap.mp hmem
  refine h p hp ?_
  rw [hf] at hfault
  cases p <;> simp_all [Piece.fault?, Piece.IsUnterminated]

theorem scanChars_semicolon : ∃ t : Token, t.kind = .semicolon ∧
    (scanChars [';']).stream.tokens = [t] ∧ (scanChars [';']).errors = [] := by
  have hpieces : pieces [';'] = [.symbol .semicolon] := by
    rw [pieces]
    show _ :: pieces [] = _
    rw [pieces]
    rfl
  simp only [scanChars, hpieces]
  exact ⟨_, rfl, rfl, rfl⟩

/-- **A semicolon after a source**, on a line of its own, is one token more. The source has scan
errors with it if it has scan errors by itself. -/
theorem scan_semicolon {text : String}
    (h : (scan text).errors = [] ∨ (scan (text ++ "\n;")).errors = []) :
    (scan text).errors = [] ∧ (scan (text ++ "\n;")).errors = [] ∧
      ∃ t, t.kind = .semicolon ∧
        (scan (text ++ "\n;")).stream.tokens = (scan text).stream.tokens ++ [t] := by
  have hjoin : scan (text ++ "\n;") = scanChars (text.toList ++ '\n' :: [';']) := by simp [scan]
  rw [hjoin] at h ⊢
  have hquote : '"' ∉ [';'] := by decide
  have hterm : ∀ e ∈ (scan text).errors, e.fault ≠ .unterminatedString := by
    obtain h | h := h
    · rw [h]
      exact fun _ he => absurd he List.not_mem_nil
    · refine errors_ne_unterminated fun p hp hu => ?_
      obtain ⟨q, hq, hqu⟩ := exists_isUnterminated_newline hquote ⟨p, hp, hu⟩
      refine not_isUnterminated_of_errors ?_ q hq hqu
      rw [h]
      exact fun _ he => absurd he List.not_mem_nil
  obtain ⟨htokens, -, herrors⟩ := scanChars_newline hterm [';']
  obtain ⟨t, ht, hsemi, hnone⟩ := scanChars_semicolon
  rw [hnone, List.map_nil, List.append_nil] at herrors
  rw [hsemi, List.map_singleton] at htokens
  have hnone : (scan text).errors = [] := h.elim id herrors.symm.trans
  exact ⟨hnone, herrors.trans hnone, t.shift _ _, ht, htokens⟩

namespace Grammar

variable {ts : List Token} {eof eof' semicolon : Token} {e : Node} {c c' : Cursor}

/-! ## An expression with a semicolon after it -/

/-- The tokens that are one expression are read by the rule for expressions. -/
theorem expression_of_parseExpression (h : parseExpression ⟨ts, eof⟩ = .ok e) :
    ∃ fuel c, expression fuel eof (start ts) = .done e c ∧ c.rest = [] := by
  unfold parseExpression wholeExpression at h
  split at h
  · rename_i e' d hr
    obtain rfl := Except.ok.inj h
    obtain ⟨e₁, c, he, hrest⟩ := Reader.bind_eq_done_iff.mp hr
    refine ⟨fuelFor ts, c, ?_⟩
    simp only [Reader.bind_apply, nextKind?_apply] at hrest
    cases hc : c.rest with
    | nil =>
      obtain ⟨rfl, rfl⟩ : e₁ = e' ∧ c = d := by simpa [hc] using hrest
      exact ⟨he, rfl⟩
    | cons t rest => simp [hc] at hrest
  · simp at h
  · simp at h

/-- Whatever the fuel is, an expression that is read up to the end is what the tokens are. -/
theorem parseExpression_of_expression {fuel : Nat}
    (h : expression fuel eof (start ts) = .done e c) (hc : c.rest = []) :
    parseExpression ⟨ts, eof⟩ = .ok e := by
  have hmore := (moreExpressionFuel (Nat.le_max_left fuel (fuelFor ts))).expression.eq
    (by rw [h]; simp)
  have hless := (moreExpressionFuel (Nat.le_max_right fuel (fuelFor ts))).expression
  have hends := wholeExpression_ends ⟨ts, eof⟩
  have hne : expression (fuelFor ts) eof (start ts) ≠ .unfinished := fun hu => by
    rw [wholeExpression, Reader.bind_apply, hu] at hends
    exact hends rfl
  have hexp : expression (fuelFor ts) eof (start ts) = .done e c := by
    rw [← hless.eq hne, hmore, h]
  simp [parseExpression, wholeExpression, Reader.bind_apply, nextKind?_apply, hexp, hc]

theorem closing_nil : Closing [] :=
  fun _ h => absurd h (by simp)

theorem closing_singleton (hs : semicolon.kind = .semicolon) : Closing [semicolon] := by
  simpa [Closing] using hs

/-- An expression statement is an expression and one token behind it. -/
theorem expression_of_expressionStatement {fuel : Nat}
    (h : expressionStatement fuel eof c = .done (.exprStmt e) c') :
    ∃ c₁, expression fuel eof c = .done e c₁ ∧ c₁.rest.length = c'.rest.length + 1 := by
  obtain ⟨e', c₁, he, h⟩ := Reader.bind_eq_done_iff.mp h
  obtain ⟨t, d, ht, h⟩ := Reader.bind_eq_done_iff.mp h
  obtain ⟨rfl, rfl⟩ : e' = e ∧ d = c' := by simpa using h
  refine ⟨c₁, he, ?_⟩
  obtain ⟨rest, depth, errors⟩ := c₁
  cases rest with
  | nil => simp [expect, accept?, acceptIf?_apply, Reader.bind_apply] at ht
  | cons u rest =>
    by_cases hu : u.kind = .semicolon
    · simp only [expect, accept?, acceptIf?_apply, Reader.bind_apply, hu] at ht
      obtain ⟨-, rfl⟩ := Reply.done.inj ht
      rfl
    · simp [expect, accept?, acceptIf?_apply, Reader.bind_apply, hu] at ht

theorem errors_suffix_of_declares {ns : List Node} (h : Declares eof c ns c') :
    c.errors <:+ c'.errors := by
  obtain ⟨fuel, h⟩ := h
  exact (additive_declarations fuel).errors_suffix.1 h

/-- Where no fatal error is, each declaration has a result. -/
theorem exists_of_declaration {fuel : Nat} {o : Option Node} {ns : List Node} {c₁ : Cursor}
    (hd : declaration fuel eof c = .done o c₁) (h : Declares eof c₁ ns c')
    (hm : ∀ error ∈ c'.errors, error.fault.isFatal = false) : ∃ n, o = some n := by
  cases o with
  | some n => exact ⟨n, rfl⟩
  | none =>
    obtain ⟨error, hmem, hf⟩ := fatal_of_declaration hd
    have := hm error ((errors_suffix_of_declares h).subset hmem)
    simp [hf] at this

/-- Without fatal errors, there are no declarations only at the end. -/
theorem rest_of_declares_nil (h : Declares eof c [] c')
    (hm : ∀ error ∈ c'.errors, error.fault.isFatal = false) : c.rest = [] := by
  cases hc : c.rest with
  | nil => rfl
  | cons t rest =>
    obtain ⟨o, ms, c₁, fuel, hd, hds, hns⟩ := h.of_cons hc
    obtain ⟨n, rfl⟩ := exists_of_declaration hd hds hm
    simp at hns

/-- **An expression is an expression statement** with a semicolon after it, with the errors that
were recorded on the way. -/
theorem parse_of_parseExpression (hs : semicolon.kind = .semicolon)
    (h : parseExpression ⟨ts, eof⟩ = .ok e) (eof' : Token) : ∃ es, Excused es ∧
      parse ⟨ts ++ [semicolon], eof'⟩ = ⟨[.exprStmt e], es⟩ := by
  obtain ⟨fuel, c, he, hc⟩ := expression_of_parseExpression h
  rw [start, ← List.append_nil ts] at he
  -- the expression ends in front of the semicolon as it ended at the end
  obtain ⟨es, hes, he'⟩ := expression_closing closing_nil (closing_singleton hs) eof' [] he
    (by rw [hc])
  have hstatement : expressionStatement fuel eof' (start (ts ++ [semicolon])) =
      .done (.exprStmt e) ⟨[], c.functionDepth, es⟩ := by
    rw [expressionStatement, start, Reader.bind_apply, he']
    simp [expect, accept?, acceptIf?_apply, Reader.bind_apply, hs]
  obtain ⟨t, rest, hne⟩ := List.exists_cons_of_ne_nil (List.concat_ne_nil semicolon ts)
  have hnil : Declares eof' ⟨[], c.functionDepth, es⟩ [] ⟨[], c.functionDepth, es⟩ :=
    ⟨1, by simp [declarations, Reader.bind_apply, nextKind?_apply]⟩
  have hd := Declares.cons (c := start (ts ++ [semicolon])) hne
    (declaration_of_expressionStatement hstatement) hnil
  exact ⟨es.reverse, fun e he => hes e (List.mem_reverse.mp he), parse_of_declares hd⟩

/-- **An expression statement is an expression** with a semicolon after it, if the source has no
fatal error. -/
theorem parseExpression_of_parse (hs : semicolon.kind = .semicolon)
    (h : (parse ⟨ts ++ [semicolon], eof'⟩).program = [.exprStmt e])
    (hm : ∀ error ∈ (parse ⟨ts ++ [semicolon], eof'⟩).errors, error.fault.isFatal = false)
    (eof : Token) : parseExpression ⟨ts, eof⟩ = .ok e := by
  obtain ⟨c, hds, herrors⟩ := exists_declares (ts ++ [semicolon]) eof'
  rw [h] at hds
  have hm : ∀ error ∈ c.errors, error.fault.isFatal = false := fun error he =>
    hm error (herrors ▸ List.mem_reverse.mpr he)
  obtain ⟨t, rest, hne⟩ := List.exists_cons_of_ne_nil (List.concat_ne_nil semicolon ts)
  obtain ⟨o, ms, c₁, fuel, hd, hds, hns⟩ := hds.of_cons (c := start (ts ++ [semicolon])) hne
  obtain ⟨n, rfl⟩ := exists_of_declaration hd hds hm
  obtain ⟨rfl, rfl⟩ : .exprStmt e = n ∧ [] = ms := List.cons.inj hns
  obtain ⟨fuel, hd⟩ := expressionStatement_of_declaration hd
  obtain ⟨c₂, he, hlen⟩ := expression_of_expressionStatement hd
  rw [rest_of_declares_nil hds hm] at hlen
  obtain ⟨es, -, he⟩ := expression_closing (closing_singleton hs) closing_nil eof [] he hlen
  rw [List.append_nil] at he
  exact parseExpression_of_expression he rfl

/-! ## Sources -/

/-- The wording of an error says whether it is excused. -/
theorem SyntaxFault.isExcused_iff {fault : SyntaxFault} : fault.isExcused = true ↔
    fault.message ∈ ["Invalid assignment target.", "Can't have more than 255 arguments."] := by
  cases fault <;> decide

theorem not_isFatal_of_isExcused {fault : SyntaxFault} (h : fault.isExcused = true) :
    fault.isFatal = false := by
  cases fault <;> first | rfl | exact absurd h (by decide)

theorem parseSourceExpression_of_errors {text : String} (h : (scan text).errors = []) :
    parseSourceExpression text = (parseExpression (scan text).stream).mapError .parse := by
  rw [parseSourceExpression, expressionOfScan, h]

/-- What is no expression has a fatal error. -/
theorem exists_failed_of_parseExpression {s : TokenStream} {error : SyntaxError}
    (h : parseExpression s = .error error) : error.fault.isFatal = true ∧
      ∃ c, wholeExpression (fuelFor s.tokens) s.eof (start s.tokens) = .failed error c := by
  have hraises := similarSteps_raises.wholeExpression relabels_id (fuelFor s.tokens)
  unfold parseExpression at h
  split at h
  · simp at h
  · rename_i error' c hr
    obtain rfl := Except.error.inj h
    exact ⟨(hraises _ _ _ _ hr).1, c, hr⟩
  · rename_i hr
    exact absurd hr (wholeExpression_ends s)

/-- An expression, with a semicolon after it, is an expression statement. -/
theorem parseSource_of_parseSourceExpression {text : String}
    (h : parseSourceExpression text = .ok e) : (scan (text ++ "\n;")).errors = [] ∧
      ∃ es, Excused es ∧ (parseSource (text ++ "\n;")).parse = ⟨[.exprStmt e], es⟩ := by
  cases herr : (scan text).errors with
  | cons first later => simp [parseSourceExpression, expressionOfScan, herr] at h
  | nil =>
    rw [parseSourceExpression_of_errors herr] at h
    have hp : parseExpression ⟨(scan text).stream.tokens, (scan text).stream.eof⟩ = .ok e := by
      cases hp : parseExpression (scan text).stream with
      | error _ => simp [hp, Except.mapError] at h
      | ok e' =>
        obtain rfl : e' = e := by simpa [hp, Except.mapError] using h
        rfl
    obtain ⟨-, hnone, semicolon, hs, htokens⟩ := scan_semicolon (.inl herr)
    obtain ⟨es, hes, hparse⟩ := parse_of_parseExpression hs hp (scan (text ++ "\n;")).stream.eof
    rw [← htokens] at hparse
    exact ⟨hnone, es, hes, hparse⟩

/-- An expression statement is an expression, if nothing stopped its reader. -/
theorem parseSourceExpression_of_parseSource {text : String}
    (hscan : (scan (text ++ "\n;")).errors = [])
    (hprogram : (parseSource (text ++ "\n;")).parse.program = [.exprStmt e])
    (hexcused : Excused (parseSource (text ++ "\n;")).parse.errors) :
    parseSourceExpression text = .ok e := by
  obtain ⟨herr, -, semicolon, hs, htokens⟩ := scan_semicolon (.inr hscan)
  have hparse : (parseSource (text ++ "\n;")).parse =
      parse ⟨(scan text).stream.tokens ++ [semicolon], (scan (text ++ "\n;")).stream.eof⟩ := by
    rw [← htokens]
    rfl
  rw [hparse] at hprogram hexcused
  have hp : parseExpression (scan text).stream = .ok e :=
    parseExpression_of_parse hs hprogram
      (fun error he => not_isFatal_of_isExcused (hexcused error he)) (scan text).stream.eof
  rw [parseSourceExpression_of_errors herr, hp]
  rfl

/-- What is no expression has a scan error, or else a fatal error. -/
theorem exists_error_of_parseSourceExpression {text : String} {error : ExpressionError}
    (h : parseSourceExpression text = .error error) :
    (∃ first later, (scan text).errors = first :: later ∧ error = .scan first) ∨
      ∃ fatal c, (scan text).errors = [] ∧ error = .parse fatal ∧ fatal.fault.isFatal = true ∧
        wholeExpression (fuelFor (scan text).stream.tokens) (scan text).stream.eof
          (start (scan text).stream.tokens) = .failed fatal c := by
  cases herr : (scan text).errors with
  | cons first later =>
    rw [parseSourceExpression, expressionOfScan, herr] at h
    exact .inl ⟨first, later, rfl, (Except.error.inj h).symm⟩
  | nil =>
    rw [parseSourceExpression_of_errors herr] at h
    cases hp : parseExpression (scan text).stream with
    | ok e => simp [hp, Except.mapError] at h
    | error fatal =>
      obtain rfl : .parse fatal = error := by simpa [hp, Except.mapError] using h
      obtain ⟨hf, c, hr⟩ := exists_failed_of_parseExpression hp
      exact .inr ⟨fatal, c, rfl, rfl, hf, hr⟩

theorem excused_iff {errors : List SyntaxError} : Excused errors ↔
    ∀ d ∈ errors.map SyntaxError.diagnostic,
      d.message ∈ ["Invalid assignment target.", "Can't have more than 255 arguments."] := by
  rw [List.forall_mem_map]
  exact forall₂_congr fun _ _ => SyntaxFault.isExcused_iff

/-- **A source that is one expression** is an expression statement with a semicolon after it, on a
line of its own. Its reader drops the errors that were recorded and did not stop it. In any other
case there is an error, which is the first scan error or, if there is none, a fatal one. -/
theorem lone_expressions (text : String) :
    (∀ e, parseSourceExpression text = .ok e ↔
      (parseSource (text ++ "\n;")).scanDiagnostics = [] ∧
        (parseSource (text ++ "\n;")).parse.program = [.exprStmt e] ∧
        ∀ d ∈ (parseSource (text ++ "\n;")).parseDiagnostics,
          d.message ∈ ["Invalid assignment target.", "Can't have more than 255 arguments."]) ∧
      ∀ error, parseSourceExpression text = .error error →
        (∃ first later, (scan text).errors = first :: later ∧ error = .scan first) ∨
          ∃ fatal c, (scan text).errors = [] ∧ error = .parse fatal ∧
            fatal.fault.isFatal = true ∧
            wholeExpression (fuelFor (scan text).stream.tokens) (scan text).stream.eof
              (start (scan text).stream.tokens) = .failed fatal c := by
  refine ⟨fun e => ⟨fun h => ?_, fun ⟨hscan, hprogram, hexcused⟩ => ?_⟩,
    fun _ => exists_error_of_parseSourceExpression⟩
  · obtain ⟨hnone, es, hes, hparse⟩ := parseSource_of_parseSourceExpression h
    refine ⟨List.map_eq_nil_iff.mpr hnone, congrArg Parse.program hparse, excused_iff.mp ?_⟩
    rw [hparse]
    exact hes
  · exact parseSourceExpression_of_parseSource (List.map_eq_nil_iff.mp hscan) hprogram
      (excused_iff.mpr hexcused)

/-- So the expression that a source is may have an error which is not reported: here the number on
the left cannot be assigned to. -/
theorem lone_expression_drops_error :
    (∃ e, parseSourceExpression "1 = 2" = .ok e) ∧
      (parseSource ("1 = 2" ++ "\n;")).diagnostics.map Diagnostic.message =
        ["Invalid assignment target."] ∧
      ¬∀ text e, parseSourceExpression text = .ok e ↔
        (parseSource (text ++ "\n;")).diagnostics = [] ∧
          (parseSource (text ++ "\n;")).parse.program = [.exprStmt e] := by
  have hdrop : (parseSource ("1 = 2" ++ "\n;")).diagnostics.map Diagnostic.message =
      ["Invalid assignment target."] := by decide +kernel
  have hok : (parseSourceExpression "1 = 2").toBool = true := by decide +kernel
  obtain ⟨e, he⟩ : ∃ e, parseSourceExpression "1 = 2" = .ok e := by
    cases h : parseSourceExpression "1 = 2" with
    | ok e => exact ⟨e, rfl⟩
    | error _ => simp [h, Except.toBool] at hok
  refine ⟨⟨e, he⟩, hdrop, fun h => ?_⟩
  rw [((h "1 = 2" e).mp he).1] at hdrop
  exact absurd hdrop (by simp)

end Grammar

end Lox
