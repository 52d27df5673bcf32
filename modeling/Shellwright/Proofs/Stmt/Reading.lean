import Shellwright.Proofs.Expr.Reading
import Shellwright.Stmt.Parser

/-!
# Statements are read as they are written

Each construct is read from its canonical tokens; which construct it is shows in its first token.

## Main definitions

* `Stmt.MadeOf`: a form of the grammar whose parts are as given.

## Main statements

* `Stmt.parser_reads`: with budget `n`, exactly the well-formed statements nested at most `n` deep
  are read, each from its canonical tokens.
-/
namespace Shellwright.Stmt

open Token (Kind)
open Shellwright.Parser (Reads)

/-- A form that the grammar has, made of such parts. -/
def MadeOf (expression : Expr → Prop) (block : List Stmt → Prop)
    (stages : List Invocation → Prop) : Stmt → Prop
  | decl _ _ value => expression value
  | run command => command ≠ [] ∧ ∀ e ∈ command, expression e
  | ifThen cond body => expression cond ∧ block body
  | forIn _ iterable body => expression iterable ∧ block body
  | pipe commands => stages commands
  | expr value => expression value ∧ value.isCall = true

section Constructs

variable {expression : Parser Expr} {goodExpr : Expr → Prop}
  (hexpr : expression.Reads goodExpr Expr.kinds Expr.EndsAt)
include hexpr

theorem declaration_reads (binding : Binding) :
    (declaration binding expression).Reads
      (fun s => ∃ name value, s = decl binding name value ∧ goodExpr value) kinds EndsAt := by
  intro ks s rest
  simp only [declaration, Parser.run_bind_eq_ok, Parser.run_seqRight_eq_ok, Parser.run_map_eq_ok,
    Parser.run_keyword_eq_ok, Parser.run_identifier_eq_ok, Parser.run_symbol_eq_ok, exists_const]
  constructor
  · rintro ⟨name, mid, ⟨_, rfl, rfl⟩, _, rfl, value, hv, rfl⟩
    obtain ⟨hg, rfl, he⟩ := (hexpr _ _ _).1 hv
    exact ⟨⟨name, value, rfl, hg⟩, by simp [kinds], endsAt_decl_iff.2 he⟩
  · rintro ⟨⟨name, value, rfl, hg⟩, rfl, he⟩
    have hv := (hexpr _ _ rest).2 ⟨hg, rfl, endsAt_decl_iff.1 he⟩
    exact ⟨name, _, ⟨_, rfl, rfl⟩, _, rfl, value, hv, rfl⟩

theorem command_reads :
    (Parser.keyword .run *> run <$> expression.commaList).Reads
      (fun s => ∃ command, s = run command ∧ command ≠ [] ∧ ∀ e ∈ command, goodExpr e) kinds
      EndsAt := by
  have hlist := hexpr.commaList fun e => Expr.endsAt_of_ne (by simp)
  intro ks s rest
  simp only [Parser.run_seqRight_eq_ok, Parser.run_map_eq_ok, Parser.run_keyword_eq_ok,
    exists_const]
  constructor
  · rintro ⟨_, rfl, command, hc, rfl⟩
    obtain ⟨⟨hne, hg⟩, rfl, he⟩ := (hlist _ _ _).1 hc
    exact ⟨⟨command, rfl, hne, hg⟩,
      by simp [kinds, Invocation.kinds, Expr.kindsList_eq_intercalate], (endsAt_run_iff hne).2 he⟩
  · rintro ⟨⟨command, rfl, hne, hg⟩, rfl, he⟩
    have hc := (hlist _ _ rest).2 ⟨⟨hne, hg⟩, rfl, (endsAt_run_iff hne).1 he⟩
    exact ⟨_, by simp [kinds, Invocation.kinds, Expr.kindsList_eq_intercalate], command, hc, rfl⟩

/-- Before a body, an expression ends at the opening brace. -/
theorem exprThenBody_reads {body : Parser (List Stmt)} {goodBody : List Stmt → Prop}
    (hbody : body.Reads goodBody (fun ss => braced (kindsList ss)) fun _ _ => True)
    {ks : List Kind} (rest : List Kind) {e : Expr} {ss : List Stmt} :
    (∃ mid, expression.run ks = .ok (e, mid) ∧ body.run mid = .ok (ss, rest)) ↔
      goodExpr e ∧ goodBody ss ∧ ks = e.kinds ++ braced (kindsList ss) ++ rest := by
  constructor
  · rintro ⟨mid, he, hb⟩
    obtain ⟨hge, rfl, -⟩ := (hexpr _ _ _).1 he
    obtain ⟨hgb, rfl, -⟩ := (hbody _ _ _).1 hb
    exact ⟨hge, hgb, by simp⟩
  · rintro ⟨hge, hgb, rfl⟩
    refine ⟨braced (kindsList ss) ++ rest, (hexpr _ _ _).2 ⟨hge, by simp, ?_⟩, ?_⟩
    · exact Expr.endsAt_of_ne (by simp [braced, Token.next])
    · exact (hbody _ _ _).2 ⟨hgb, rfl, trivial⟩

theorem conditional_reads {body : Parser (List Stmt)} {goodBody : List Stmt → Prop}
    (hbody : body.Reads goodBody (fun ss => braced (kindsList ss)) fun _ _ => True) :
    (Parser.keyword .if_ *> expression >>= fun cond => ifThen cond <$> body).Reads
      (fun s => ∃ cond ss, s = ifThen cond ss ∧ goodExpr cond ∧ goodBody ss) kinds EndsAt := by
  intro ks s rest
  simp only [Parser.run_bind_eq_ok, Parser.run_seqRight_eq_ok, Parser.run_map_eq_ok,
    Parser.run_keyword_eq_ok, exists_const]
  constructor
  · rintro ⟨cond, mid, ⟨_, rfl, hc⟩, ss, hb, rfl⟩
    obtain ⟨hgc, hgb, rfl⟩ := (exprThenBody_reads hexpr hbody rest).1 ⟨mid, hc, hb⟩
    exact ⟨⟨cond, ss, rfl, hgc, hgb⟩, by simp [kinds], endsAt_ifThen cond ss _⟩
  · rintro ⟨⟨cond, ss, rfl, hgc, hgb⟩, rfl, -⟩
    obtain ⟨mid, hc, hb⟩ := (exprThenBody_reads hexpr hbody rest).2 ⟨hgc, hgb, rfl⟩
    exact ⟨cond, mid, ⟨_, by simp [kinds], hc⟩, ss, hb, rfl⟩

theorem loop_reads {body : Parser (List Stmt)} {goodBody : List Stmt → Prop}
    (hbody : body.Reads goodBody (fun ss => braced (kindsList ss)) fun _ _ => True) :
    (Parser.keyword .for_ *> Parser.identifier >>= fun name => Parser.keyword .in_ *> expression >>=
      fun iterable => forIn name iterable <$> body).Reads
      (fun s => ∃ name iterable ss, s = forIn name iterable ss ∧ goodExpr iterable ∧ goodBody ss)
      kinds EndsAt := by
  intro ks s rest
  simp only [Parser.run_bind_eq_ok, Parser.run_seqRight_eq_ok, Parser.run_map_eq_ok,
    Parser.run_keyword_eq_ok, Parser.run_identifier_eq_ok, exists_const]
  constructor
  · rintro ⟨name, _, ⟨_, rfl, rfl⟩, iterable, mid, ⟨_, rfl, hi⟩, ss, hb, rfl⟩
    obtain ⟨hgi, hgb, rfl⟩ := (exprThenBody_reads hexpr hbody rest).1 ⟨mid, hi, hb⟩
    exact ⟨⟨name, iterable, ss, rfl, hgi, hgb⟩, by simp [kinds], endsAt_forIn name iterable ss _⟩
  · rintro ⟨⟨name, iterable, ss, rfl, hgi, hgb⟩, rfl, -⟩
    obtain ⟨mid, hi, hb⟩ := (exprThenBody_reads hexpr hbody rest).2 ⟨hgi, hgb, rfl⟩
    exact ⟨name, _, ⟨_, by simp [kinds], rfl⟩, iterable, mid, ⟨_, rfl, hi⟩, ss, hb, rfl⟩

omit hexpr in
theorem pipe_reads {commands : Parser (List Invocation)} {goodCommands : List Invocation → Prop}
    (h : commands.Reads goodCommands (fun cs => braced (cs.flatMap Invocation.kinds))
      fun _ _ => True) :
    (Parser.keyword .pipe *> pipe <$> commands).Reads
      (fun s => ∃ cs, s = pipe cs ∧ goodCommands cs) kinds EndsAt := by
  intro ks s rest
  simp only [Parser.run_seqRight_eq_ok, Parser.run_map_eq_ok, Parser.run_keyword_eq_ok,
    exists_const]
  constructor
  · rintro ⟨_, rfl, cs, hc, rfl⟩
    obtain ⟨hg, rfl, -⟩ := (h _ _ _).1 hc
    exact ⟨⟨cs, rfl, hg⟩, by simp [kinds], endsAt_pipe cs _⟩
  · rintro ⟨⟨cs, rfl, hg⟩, rfl, -⟩
    exact ⟨_, by simp [kinds], cs, (h _ _ _).2 ⟨hg, rfl, trivial⟩, rfl⟩

theorem exprStmt_reads :
    (expression.require ofExpr).Reads
      (fun s => ∃ value, s = expr value ∧ goodExpr value ∧ value.isCall = true) kinds EndsAt := by
  intro ks s rest
  rw [Parser.run_require_eq_ok]
  constructor
  · rintro ⟨value, hv, hs⟩
    obtain ⟨hg, rfl, -⟩ := (hexpr _ _ _).1 hv
    cases value with
    | call name args =>
      cases hs
      exact ⟨⟨_, rfl, hg, rfl⟩, by simp [kinds], endsAt_call name args _⟩
    | _ => cases hs
  · rintro ⟨⟨value, rfl, hg, hcall⟩, rfl, he⟩
    cases value with
    | call name args => exact ⟨_, (hexpr _ _ _).2 ⟨hg, rfl, he.2⟩, rfl⟩
    | _ => cases hcall

end Constructs

/-! ## Any statement -/

theorem parserWith_reads {expression : Parser Expr} {goodExpr : Expr → Prop}
    (hexpr : expression.Reads goodExpr Expr.kinds Expr.EndsAt)
    {body : Parser (List Stmt)} {goodBody : List Stmt → Prop}
    (hbody : body.Reads goodBody (fun ss => braced (kindsList ss)) fun _ _ => True)
    {commands : Parser (List Invocation)} {goodCommands : List Invocation → Prop}
    (hcommands : commands.Reads goodCommands (fun cs => braced (cs.flatMap Invocation.kinds))
      fun _ _ => True) :
    (parserWith expression body commands).Reads (MadeOf goodExpr goodBody goodCommands) kinds
      EndsAt := by
  intro ks s rest
  simp only [parserWith, Parser.run_peek]
  constructor
  · intro hr
    split at hr
    · obtain ⟨⟨name, value, rfl, hg⟩, h⟩ := (declaration_reads hexpr .val _ _ _).1 hr
      exact ⟨hg, h⟩
    · obtain ⟨⟨name, value, rfl, hg⟩, h⟩ := (declaration_reads hexpr .var _ _ _).1 hr
      exact ⟨hg, h⟩
    · obtain ⟨⟨command, rfl, hg⟩, h⟩ := (command_reads hexpr _ _ _).1 hr
      exact ⟨hg, h⟩
    · obtain ⟨⟨cond, ss, rfl, hg⟩, h⟩ := (conditional_reads hexpr hbody _ _ _).1 hr
      exact ⟨hg, h⟩
    · obtain ⟨⟨name, iterable, ss, rfl, hg⟩, h⟩ := (loop_reads hexpr hbody _ _ _).1 hr
      exact ⟨hg, h⟩
    · obtain ⟨⟨cs, rfl, hg⟩, h⟩ := (pipe_reads hcommands _ _ _).1 hr
      exact ⟨hg, h⟩
    · cases hr
    · obtain ⟨⟨value, rfl, hg⟩, h⟩ := (exprStmt_reads hexpr _ _ _).1 hr
      exact ⟨hg, h⟩
    · cases hr
  · rintro ⟨hg, hks, he⟩
    cases s with
    | decl binding name value =>
      have hr := (declaration_reads hexpr binding _ _ _).2 ⟨⟨name, value, rfl, hg⟩, hks, he⟩
      cases binding <;> simpa [hks, kinds, Token.next, Binding.keyword] using hr
    | run command =>
      have hr := (command_reads hexpr _ _ _).2 ⟨⟨command, rfl, hg⟩, hks, he⟩
      simpa [hks, kinds, Invocation.kinds, Token.next] using hr
    | ifThen cond ss =>
      have hr := (conditional_reads hexpr hbody _ _ _).2 ⟨⟨cond, ss, rfl, hg⟩, hks, he⟩
      simpa [hks, kinds, Token.next] using hr
    | forIn name iterable ss =>
      have hr := (loop_reads hexpr hbody _ _ _).2 ⟨⟨name, iterable, ss, rfl, hg⟩, hks, he⟩
      simpa [hks, kinds, Token.next] using hr
    | pipe cs =>
      have hr := (pipe_reads hcommands _ _ _).2 ⟨⟨cs, rfl, hg⟩, hks, he⟩
      simpa [hks, kinds, Token.next] using hr
    | expr value =>
      have hr := (exprStmt_reads hexpr _ _ _).2 ⟨⟨value, rfl, hg⟩, hks, he⟩
      cases value with
      | call fn args => simpa [hks, kinds, Expr.kinds, Token.next] using hr
      | _ => cases hg.2

/-- Items between braces. -/
theorem block_reads {α : Type} {item : Parser α} {good : α → Prop} {tokens : α → List Kind}
    {ends : α → Kind → Prop} (h : item.Reads good tokens ends)
    (begins : ∀ a, ∃ k ks, tokens a = k :: ks ∧ k ≠ .symbol '\x7d' ∧ ∀ b, ends b k)
    (close : ∀ a, ends a (.symbol '\x7d')) :
    (block item).Reads (fun as => ∀ a ∈ as, good a) (fun as => braced (as.flatMap tokens))
      fun _ _ => True := by
  have hitems := h.untilClose begins close
  intro ks as rest
  simp only [block, Parser.run_seqRight_eq_ok, Parser.run_symbol_eq_ok, exists_const]
  constructor
  · rintro ⟨_, rfl, hr⟩
    obtain ⟨hg, rfl, -⟩ := (hitems _ _ _).1 hr
    exact ⟨hg, by simp [braced], trivial⟩
  · rintro ⟨hg, rfl, -⟩
    exact ⟨_, by simp [braced], (hitems _ _ _).2 ⟨hg, rfl, trivial⟩⟩

/-- Inside a pipe only commands are taken. -/
theorem invocation_reads {inner : Parser Stmt} {good : Stmt → Prop}
    (h : inner.Reads good kinds EndsAt) :
    (inner.require invocation).Reads (fun c => good (run c)) Invocation.kinds
      (fun c => (run c).EndsAt) := by
  intro ks c rest
  rw [Parser.run_require_eq_ok]
  constructor
  · rintro ⟨s, hs, hc⟩
    cases s with
    | run command =>
      cases hc
      exact (h _ _ _).1 hs
    | _ => cases hc
  · intro hc
    exact ⟨run c, (h _ _ _).2 hc, rfl⟩

theorem parserOver_reads {expression : Parser Expr} {goodExpr : Expr → Prop}
    (hexpr : expression.Reads goodExpr Expr.kinds Expr.EndsAt) {inner : Parser Stmt}
    {good : Stmt → Prop} (h : inner.Reads good kinds EndsAt) :
    (parserOver expression inner).Reads
      (MadeOf goodExpr (fun ss => ∀ s ∈ ss, good s) fun cs => ∀ c ∈ cs, good (run c)) kinds
      EndsAt := by
  refine parserWith_reads hexpr ?_ ?_
  · simp only [kindsList_eq_flatMap]
    exact block_reads h (exists_kinds_cons_endsAt _) fun s => ⟨by simp, by simp⟩
  · refine block_reads (invocation_reads h) (fun c => ?_) fun c => ⟨by simp, by simp⟩
    exact ⟨_, _, rfl, by simp, fun d => endsAt_of_ne (by simp)⟩

/-- Without a budget there are neither bodies nor calls. -/
theorem madeOf_zero_iff (s : Stmt) :
    MadeOf (fun e => e.nesting ≤ 0) (fun _ => False) (fun _ => False) s ↔
      s.wellFormed = true ∧ s.nesting ≤ 0 := by
  cases s with
  | run command =>
    simp only [MadeOf, wellFormed, nesting, Invocation.nesting, Expr.nestingList_le_iff]
    simp
  | expr value => simp [MadeOf, wellFormed, nesting, and_comm]
  | _ => simp [MadeOf, wellFormed, nesting]

/-- A body is one level deeper than its statement, and so is a pipe. -/
theorem madeOf_succ_iff (n : Nat) (s : Stmt) :
    MadeOf (fun e => e.nesting ≤ n + 1) (fun ss => ∀ s ∈ ss, s.wellFormed = true ∧ s.nesting ≤ n)
      (fun cs => ∀ c ∈ cs, (run c).wellFormed = true ∧ (run c).nesting ≤ n) s ↔
      s.wellFormed = true ∧ s.nesting ≤ n + 1 := by
  cases s with
  | decl binding name value => simp [MadeOf, wellFormed, nesting]
  | run command => simp [MadeOf, wellFormed, nesting, Invocation.nesting, Expr.nestingList_le_iff]
  | ifThen cond body =>
    simp only [MadeOf, wellFormed, nesting, wellFormedList_iff, Nat.max_le,
      Nat.add_le_add_iff_right, nestingList_le_iff]
    grind
  | forIn name iterable body =>
    simp only [MadeOf, wellFormed, nesting, wellFormedList_iff, Nat.max_le,
      Nat.add_le_add_iff_right, nestingList_le_iff]
    grind
  | pipe commands =>
    simp only [MadeOf, wellFormed, nesting, Invocation.nesting, Nat.add_le_add_iff_right,
      Expr.nestingList_le_iff, List.all_eq_true, List.mem_flatten]
    grind
  | expr value => simp [MadeOf, wellFormed, nesting, and_comm]

/-- The budget is what a statement may be nested. -/
theorem parser_reads (budget : Nat) :
    (parser budget).Reads (fun s => s.wellFormed = true ∧ s.nesting ≤ budget) kinds EndsAt := by
  induction budget with
  | zero =>
    refine (parserWith_reads (Expr.parser_reads 0) (Reads.fail ?_) (Reads.fail ?_)).congr
      madeOf_zero_iff fun _ _ _ => Iff.rfl
    · simp
    · simp
  | succ budget ih =>
    exact (parserOver_reads (Expr.parser_reads (budget + 1)) ih).congr (madeOf_succ_iff budget)
      fun _ _ _ => Iff.rfl

end Shellwright.Stmt
