import Mathlib.Data.List.Nodup
import Shellwright.Proofs.Parser.Blame
import Shellwright.Proofs.Program.Failure
import Shellwright.Proofs.Token.Positions

/-!
# Syntax errors blame the right token

The causes of failures are truthful in expressions, in statements and in programs. In the tokens of
a source every position is taken once, so the position of an error leads to one token, which is the
one that the cause speaks of.

## Main statements

* `Expr.parser_truthful`, `Stmt.parser_truthful`: causes and places of failures agree.
* `Program.ofTokens_error_blames`: the same of the errors that are reported for a source.
-/
namespace Shellwright

open Token (Kind Stream tokenize)
open Shellwright.Parser (Truthful Reads)

/-! ## Expressions -/

namespace Expr

theorem arguments_truthful {expr : Parser Expr} (h : expr.Truthful) :
    (arguments expr).Truthful := by
  intro ks e herror
  simp only [arguments, Parser.run_peek] at herror
  split at herror
  · exact Truthful.skip _ _ _ herror
  · exact h.commaList.seqLeft (Parser.symbol_truthful ')') _ _ herror

theorem parserWith_truthful {onCall : String → Parser Expr} (h : ∀ name, (onCall name).Truthful) :
    (parserWith onCall).Truthful := by
  intro ks e herror
  simp only [parserWith, Parser.run_peek] at herror
  split at herror
  · exact Truthful.skip _ _ _ herror
  · exact Truthful.skip _ _ _ herror
  · exact (Truthful.skip _).thenIf (fun _ => h _) _ _ herror
  · cases herror
    exact rfl

theorem parser_truthful (budget : Nat) : (parser budget).Truthful := by
  induction budget with
  | zero => exact parserWith_truthful fun _ => .fail fun _ _ => trivial
  | succ budget ih =>
    exact parserWith_truthful fun _ =>
      (Parser.symbol_truthful '(').seqRight ((arguments_truthful ih).map _)

end Expr

/-! ## Statements -/

namespace Stmt

/-- A statement that a pipe refuses shows in its first tokens what it is. -/
theorem nonRunInPipe_fits {s : Stmt} (hwell : s.wellFormed = true) (hrun : s.isRun = false)
    (rest : List Kind) :
    (SyntaxError.Cause.nonRunInPipe s.construct).Fits (Token.next (s.kinds ++ rest))
      (Token.next (s.kinds ++ rest).tail) := by
  cases s with
  | decl binding name value =>
    refine .inl ⟨binding.keyword, rfl, ?_, rfl⟩
    cases binding <;> decide
  | run command => cases hrun
  | ifThen cond body => exact .inl ⟨.if_, rfl, by decide, rfl⟩
  | forIn name iterable body => exact .inl ⟨.for_, rfl, by decide, rfl⟩
  | pipe commands => exact .inl ⟨.pipe, rfl, by decide, rfl⟩
  | expr value =>
    cases value with
    | call name args => exact .inr ⟨name, rfl, rfl, rfl⟩
    | _ => cases hwell

theorem invocation_truthful {inner : Parser Stmt} {good : Stmt → Prop}
    (hreads : inner.Reads good kinds EndsAt) (hgood : ∀ s, good s → s.wellFormed = true)
    (h : inner.Truthful) : (inner.require invocation).Truthful := by
  intro ks e herror
  obtain hinner | ⟨s, rest, cause, hs, hcause, rfl⟩ := Parser.run_require_eq_error.1 herror
  · exact h _ _ hinner
  · obtain ⟨hrun, rfl⟩ := invocation_eq_error.1 hcause
    obtain ⟨hs', rfl, -⟩ := (hreads _ _ _).1 hs
    exact nonRunInPipe_fits (hgood s hs') hrun rest

/-- A name that stands alone as a statement is blamed itself. -/
theorem ofExpr_truthful {expression : Parser Expr} {good : Expr → Prop}
    (hreads : expression.Reads good Expr.kinds Expr.EndsAt) (h : expression.Truthful)
    {ks : List Kind} {e : Failure} {name : String} (hk : Token.next ks = .ident name)
    (herror : (expression.require ofExpr).run ks = .error e) : e.Truthful := by
  obtain hexpr | ⟨value, rest, cause, hvalue, hcause, rfl⟩ := Parser.run_require_eq_error.1 herror
  · exact h _ _ hexpr
  · obtain ⟨-, rfl, hends⟩ := (hreads _ _ _).1 hvalue
    cases value with
    | string text => cases hk
    | number digits => cases hk
    | call f args => cases hcause
    | var x =>
      cases hcause
      refine ⟨rfl, fun hafter => ?_⟩
      simpa [Expr.kinds, Token.endsInName] using hends hafter

theorem declaration_truthful (binding : Binding) {value : Parser Expr} (h : value.Truthful) :
    (declaration binding value).Truthful :=
  ((Parser.keyword_truthful _).seqRight Parser.identifier_truthful).bind fun _ =>
    (Parser.symbol_truthful '=').seqRight (h.map _)

theorem parserWith_truthful {expression : Parser Expr} {good : Expr → Prop}
    (hreads : expression.Reads good Expr.kinds Expr.EndsAt) (hexpr : expression.Truthful)
    {body : Parser (List Stmt)} (hbody : body.Truthful) {commands : Parser (List Invocation)}
    (hcommands : commands.Truthful) : (parserWith expression body commands).Truthful := by
  intro ks e herror
  simp only [parserWith, Parser.run_peek] at herror
  split at herror
  · exact declaration_truthful .val hexpr _ _ herror
  · exact declaration_truthful .var hexpr _ _ herror
  · exact (Parser.keyword_truthful .run).seqRight (hexpr.commaList.map _) _ _ herror
  · exact ((Parser.keyword_truthful .if_).seqRight hexpr).bind (fun _ => hbody.map _) _ _ herror
  · refine ((Parser.keyword_truthful .for_).seqRight Parser.identifier_truthful).bind
      (fun _ => ?_) _ _ herror
    exact ((Parser.keyword_truthful .in_).seqRight hexpr).bind fun _ => hbody.map _
  · exact (Parser.keyword_truthful .pipe).seqRight (hcommands.map _) _ _ herror
  · rename_i hk
    cases herror
    exact ⟨rfl, hk⟩
  · exact ofExpr_truthful hreads hexpr ‹_› herror
  · cases herror
    exact rfl

theorem block_truthful {α : Type} {item : Parser α} (h : item.Truthful) : (block item).Truthful :=
  (Parser.symbol_truthful '\x7b').seqRight (h.untilClose '\x7d')

theorem parser_truthful (budget : Nat) : (parser budget).Truthful := by
  induction budget with
  | zero =>
    refine parserWith_truthful (Expr.parser_reads 0) (Expr.parser_truthful 0) ?_ ?_
    · exact .fail fun _ _ => trivial
    · exact .fail fun _ _ => trivial
  | succ budget ih =>
    have hcommand := invocation_truthful (parser_reads budget) (fun _ hs => hs.1) ih
    exact parserWith_truthful (Expr.parser_reads _) (Expr.parser_truthful _) (block_truthful ih)
      (block_truthful hcommand)

end Stmt

/-! ## Programs -/

namespace Program

theorem truthful_of_ofKinds {ks : List Kind} {e : Failure} (h : ofKinds ks = .error e) :
    e.Truthful := by
  fun_induction ofKinds ks with
  | case1 => cases h
  | case2 c rest ih => exact ih h
  | case3 k rest hk d hs =>
    cases h
    exact Stmt.parser_truthful maxNesting _ _ hs
  | case4 k rest hk s mid hs d hm ih =>
    cases h
    exact ih hm
  | case5 => cases h

/-- The kinds that reading sees are cut in two where the tokens of the source are. -/
theorem exists_tokens_of_append {source : String} {ts : List Token} (h : tokenize source = .ok ts)
    {ks rest : List Kind} (hks : ks ++ rest = (Stream.ofList ts).kinds) :
    ∃ before t after, ts = before ++ t :: after ∧ (∀ u ∈ before, u.kind ≠ .eof) ∧
      before.map (·.kind) = ks ∧ (Stream.ofList (t :: after)).kinds = rest ∧
      Token.next rest = t.kind ∧ Token.next rest.tail = Token.next (after.map (·.kind)) := by
  obtain ⟨xs, rfl, hxs, -⟩ := Token.exists_scan_append h
  generalize Position.start.after (Token.body source) = stop at hks ⊢
  have hkinds (us : List Token) (hus : ∀ u ∈ us, u.kind ≠ .eof) :
      (Stream.ofList (us ++ [⟨.eof, stop⟩])).kinds = us.map (·.kind) :=
    (Stream.kinds_ofList_append hus _).trans (List.append_nil _)
  rw [hkinds xs hxs] at hks
  obtain ⟨before, left, rfl, rfl, rfl⟩ := List.map_eq_append_iff.1 hks.symm
  have hleft : ∀ u ∈ left, u.kind ≠ .eof := fun u hu => hxs u (List.mem_append_right _ hu)
  have hbefore : ∀ u ∈ before, u.kind ≠ .eof := fun u hu => hxs u (List.mem_append_left _ hu)
  cases left with
  | nil => exact ⟨before, ⟨.eof, stop⟩, [], by simp, hbefore, rfl, hkinds [] hleft, rfl, rfl⟩
  | cons t left =>
    refine ⟨before, t, left ++ [(⟨.eof, stop⟩ : Token)], by simp, hbefore, rfl, hkinds _ hleft,
      rfl, ?_⟩
    cases left <;> rfl

/-- If a source has tokens and they are no program, exactly one of them stands where the error is
placed, and the cause speaks of it: what was found is this token and is not what was asked for, and
what is refused as a whole begins with it. -/
theorem ofTokens_error_blames {source : String} {ts : List Token} {e : SyntaxError}
    (hts : tokenize source = .ok ts) (he : ofTokens ts = .error e) :
    ∃ before t after, ts = before ++ t :: after ∧ t.position = e.position ∧
      (∀ u ∈ before ++ after, u.position ≠ e.position) ∧
      e.cause.Fits t.kind (Token.next (after.map (·.kind))) := by
  obtain ⟨d, hd, -⟩ := Except.mapError_eq_error.1 he
  obtain ⟨ks, hks⟩ := ofKinds_suffix hd
  obtain ⟨before, t, after, rfl, hbefore, rfl, hrest, hnext, htail⟩ :=
    exists_tokens_of_append hts hks
  have hplace : ofTokens (before ++ t :: after) = .error ⟨d.cause, t.position⟩ := by
    apply ofTokens_eq_error hbefore rfl
    rw [hrest, hks]
    exact hd
  obtain rfl := Except.error.inj (he.symm.trans hplace)
  have hnodup := Token.nodup_position_of_tokenize hts
  refine ⟨before, t, after, rfl, rfl, fun u hu hpos => ?_, ?_⟩
  · rw [List.map_append, List.map_cons, List.nodup_middle, List.nodup_cons] at hnodup
    apply hnodup.1
    rw [← List.map_append]
    exact List.mem_map.2 ⟨u, hu, hpos⟩
  · have htruthful := truthful_of_ofKinds hd
    rwa [Failure.Truthful, hnext, htail] at htruthful

/-- The call is refused after it has been read whole, and blamed at its name. -/
theorem ofTokens_error_blames_call :
    ∃ ts, tokenize "if a \x7b pipe \x7b run \"x\"\nf(1, g()) \x7d" = .ok ts ∧
      ofTokens ts = .error ⟨.nonRunInPipe "expression statement", ⟨2, 1⟩⟩ ∧
      ∃ before t after, ts = before ++ t :: after ∧ t.position = ⟨2, 1⟩ ∧
        (∀ u ∈ before ++ after, u.position ≠ ⟨2, 1⟩) ∧
        (SyntaxError.Cause.nonRunInPipe "expression statement").Fits t.kind
          (Token.next (after.map (·.kind))) := by
  have hts : tokenize "if a \x7b pipe \x7b run \"x\"\nf(1, g()) \x7d" = .ok
      [⟨.keyword .if_, ⟨1, 1⟩⟩, ⟨.ident "a", ⟨1, 4⟩⟩, ⟨.symbol '\x7b', ⟨1, 6⟩⟩,
        ⟨.keyword .pipe, ⟨1, 8⟩⟩, ⟨.symbol '\x7b', ⟨1, 13⟩⟩, ⟨.keyword .run, ⟨1, 15⟩⟩,
        ⟨.string "x", ⟨1, 19⟩⟩, ⟨.ident "f", ⟨2, 1⟩⟩, ⟨.symbol '(', ⟨2, 2⟩⟩, ⟨.number "1", ⟨2, 3⟩⟩,
        ⟨.symbol ',', ⟨2, 4⟩⟩, ⟨.ident "g", ⟨2, 6⟩⟩, ⟨.symbol '(', ⟨2, 7⟩⟩, ⟨.symbol ')', ⟨2, 8⟩⟩,
        ⟨.symbol ')', ⟨2, 9⟩⟩, ⟨.symbol '\x7d', ⟨2, 11⟩⟩, ⟨.eof, ⟨2, 12⟩⟩] := by decide +kernel
  have he := ofTokens_error_blames hts (e := ⟨.nonRunInPipe "expression statement", ⟨2, 1⟩⟩)
    (by decide +kernel)
  exact ⟨_, hts, by decide +kernel, he⟩

end Program

end Shellwright
