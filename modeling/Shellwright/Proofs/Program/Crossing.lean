import Shellwright.Proofs.Parser.Crossing
import Shellwright.Proofs.Program.Reading

/-!
# Where a program goes beyond the limit of nesting

When a level too many is reported, exactly as many levels are open in the statement as there may be.
The token that is blamed stands where a level begins: it is the parenthesis of a call, or it stands
where the brace of a body or of a pipe has to be. Whether it is that brace is not looked at.

## Main definitions

* `Token.LevelDue`: a level begins behind these tokens.

## Main statements

* `Expr.parser_crosses`, `Stmt.parser_crosses`: how many levels are open behind the tokens taken.
* `Program.exists_of_ofKinds_nestingTooDeep`: the statement in which the limit is reached.
-/
namespace Shellwright

open Token (Kind Rises)
open Shellwright.Parser (Crosses)

/-- Behind the tokens a level begins, with the token `k` if it is the one that belongs there: the
arguments of a call do so with a parenthesis, which has been seen, and a body or the commands of a
pipe with a brace, which has not. -/
inductive Token.LevelDue : List Kind → Kind → Prop where
  | call (x : List Kind) (name : String) : LevelDue (x ++ [.ident name]) (.symbol '(')
  | ifThen (x : List Kind) (cond : Expr) (k : Kind) :
      LevelDue (x ++ .keyword .if_ :: cond.kinds) k
  | forIn (x : List Kind) (name : String) (iterable : Expr) (k : Kind) :
      LevelDue (x ++ .keyword .for_ :: .ident name :: .keyword .in_ :: iterable.kinds) k
  | pipe (x : List Kind) (k : Kind) : LevelDue (x ++ [.keyword .pipe]) k

open Token (LevelDue)

theorem Token.LevelDue.append {x : List Kind} {k : Kind} (y : List Kind) (h : LevelDue x k) :
    LevelDue (y ++ x) k := by
  cases h with
  | call x name => exact List.append_assoc y x _ ▸ .call (y ++ x) name
  | ifThen x cond k => exact List.append_assoc y x _ ▸ .ifThen (y ++ x) cond k
  | forIn x name iterable k => exact List.append_assoc y x _ ▸ .forIn (y ++ x) name iterable k
  | pipe x k => exact List.append_assoc y x _ ▸ .pipe (y ++ x) k

theorem Token.LevelDue.ne_nil {x : List Kind} {k : Kind} (h : LevelDue x k) : x ≠ [] := by
  cases h <;> simp

/-- A level begins behind the tokens, or there are none. -/
def Token.LevelDueOrHere (x : List Kind) (k : Kind) : Prop := x = [] ∨ LevelDue x k

open Token (LevelDueOrHere)

variable {n : Nat}

/-! ## Expressions -/

namespace Expr

mutual

theorem rises_kinds : ∀ e : Expr, Rises 0 e.kinds
  | .string _ | .number _ | .var _ => rfl
  | .call name args => by
    have hargs : Rises 1 (.symbol '(' :: kindsList args) := (rises_kindsList args).opener rfl rfl
    exact (hargs.closer (k := .symbol ')') rfl rfl).neutral rfl rfl

theorem rises_kindsList : ∀ es : List Expr, Rises 0 (kindsList es)
  | [] => rfl
  | [e] => rises_kinds e
  | e :: f :: es => (rises_kinds e).append ((rises_kindsList (f :: es)).neutral rfl rfl)

end

theorem parser_takes (budget : Nat) : (parser budget).Takes 0 :=
  (parser_reads budget).takes rises_kinds

theorem arguments_crosses {expr : Parser Expr} (h : expr.Crosses n LevelDue)
    (htakes : expr.Takes 0) : (arguments expr).Crosses n LevelDue := by
  intro ks rest herror
  simp only [arguments, Parser.run_peek] at herror
  split at herror
  · exact absurd herror (Parser.skip_shallow _ _ _)
  · exact (h.commaList LevelDue.append htakes).seqLeft (Parser.token_shallow _ _) herror

theorem parserWith_crosses {onCall : String → Parser Expr}
    (h : ∀ name, (onCall name).Crosses n LevelDueOrHere) :
    (parserWith onCall).Crosses n LevelDue := by
  intro ks rest herror
  simp only [parserWith, Parser.run_peek] at herror
  split at herror
  · exact absurd herror (Parser.skip_shallow _ _ _)
  · exact absurd herror (Parser.skip_shallow _ _ _)
  · rename_i name hname
    obtain hskip | ⟨e, mid, hok, hparen, hcall⟩ := Parser.run_thenIf_eq_error.1 herror
    · exact absurd hskip (Parser.skip_shallow _ _ _)
    · obtain ⟨-, k, rfl⟩ := Parser.run_skip_eq_ok.1 hok
      obtain rfl : k = .ident name := hname
      obtain ⟨x, rfl, hx, rfl | hdue⟩ := h name hcall
      · -- the parenthesis itself is the one too many
        rw [List.nil_append] at hparen
        exact ⟨[.ident name], rfl, hx.neutral rfl rfl, hparen ▸ .call [] name⟩
      · exact ⟨.ident name :: x, rfl, hx.neutral rfl rfl, hdue.append [.ident name]⟩
  · cases herror

theorem parser_crosses (budget : Nat) : (parser budget).Crosses budget LevelDue := by
  induction budget with
  | zero => exact parserWith_crosses fun _ => Parser.fail_crosses fun _ => .inl rfl
  | succ budget ih =>
    refine parserWith_crosses fun name => Crosses.mono ?_ fun _ _ => .inr
    exact ((arguments_crosses ih (parser_takes budget)).map _).afterToken LevelDue.append
      (Parser.token_shallow _ _) (Parser.symbol_takes '(' rfl)

end Expr

/-! ## Statements -/

namespace Stmt

theorem rises_braced {x : List Kind} (h : Rises 0 x) : Rises 0 (braced x) :=
  (h.opener (k := .symbol '\x7b') rfl rfl).closer (k := .symbol '\x7d') rfl rfl

theorem rises_commands : ∀ commands : List Invocation,
    Rises 0 (commands.flatMap Invocation.kinds)
  | [] => rfl
  | c :: commands =>
    ((Expr.rises_kindsList c).neutral (k := .keyword .run) rfl rfl).append (rises_commands commands)

mutual

theorem rises_kinds : ∀ s : Stmt, Rises 0 s.kinds
  | .decl _ _ value =>
    ((value.rises_kinds.neutral rfl rfl).neutral rfl rfl).neutral rfl rfl
  | .run command => (Expr.rises_kindsList command).neutral rfl rfl
  | .ifThen cond body =>
    (cond.rises_kinds.append (rises_braced (rises_kindsList body))).neutral rfl rfl
  | .forIn _ iterable body =>
    (((iterable.rises_kinds.append (rises_braced (rises_kindsList body))).neutral rfl rfl).neutral
      rfl rfl).neutral rfl rfl
  | .pipe commands => (rises_braced (rises_commands commands)).neutral rfl rfl
  | .expr value => value.rises_kinds

theorem rises_kindsList : ∀ ss : List Stmt, Rises 0 (kindsList ss)
  | [] => rfl
  | s :: ss => (rises_kinds s).append (rises_kindsList ss)

end

theorem parser_takes (budget : Nat) : (parser budget).Takes 0 :=
  (parser_reads budget).takes rises_kinds

theorem declaration_crosses (binding : Binding) {value : Parser Expr}
    (h : value.Crosses n LevelDue) : (declaration binding value).Crosses n LevelDue := by
  have hvalue (name : String) :
      (Parser.symbol '=' *> decl binding name <$> value).Crosses n LevelDue :=
    (h.map _).afterToken LevelDue.append (Parser.token_shallow _ _)
      (Parser.symbol_takes (n := 0) '=' rfl)
  exact Crosses.after LevelDue.append hvalue
    ((Parser.token_shallow _ _).seqRight (Parser.token_shallow _ _))
    ((Parser.keyword_takes _).seqRight Parser.identifier_takes)

theorem block_crosses {α : Type} {item : Parser α} (h : item.Crosses n LevelDue)
    (htakes : item.Takes 0) : (block item).Crosses (n + 1) LevelDue :=
  (h.untilClose LevelDue.append htakes '\x7d').afterToken LevelDue.append
    (Parser.token_shallow _ _) (Parser.symbol_takes '\x7b' rfl)

/-- An expression behind a keyword, and a body behind the expression. -/
theorem exprThenBody_crosses (w : Keyword) (f : Expr → List Stmt → Stmt) {expression : Parser Expr}
    {good : Expr → Prop} (hreads : expression.Reads good Expr.kinds Expr.EndsAt)
    (hexpr : expression.Crosses n LevelDue) {body : Parser (List Stmt)}
    (hbody : body.Crosses n LevelDueOrHere) :
    (Parser.keyword w *> expression >>= fun e => f e <$> body).Crosses n
      fun x k => (∃ e : Expr, x = .keyword w :: e.kinds) ∨ LevelDue x k := by
  intro ks rest herror
  obtain hhead | ⟨e, mid, hok, hrest⟩ := Parser.run_bind_eq_error.1 herror
  · have hkeyword : (Parser.keyword w *> expression).Crosses n LevelDue :=
      hexpr.afterToken LevelDue.append (Parser.token_shallow _ _) (Parser.keyword_takes w)
    obtain ⟨x, hks, hx, hdue⟩ := hkeyword hhead
    exact ⟨x, hks, hx, .inr hdue⟩
  · obtain ⟨_, _, hw, he⟩ := Parser.run_seqRight_eq_ok.1 hok
    obtain rfl := Parser.run_keyword_eq_ok.1 hw
    obtain ⟨-, rfl, -⟩ := (hreads _ _ _).1 he
    obtain ⟨x, rfl, hx, hdue⟩ := hbody (Parser.run_map_eq_error.1 hrest)
    refine ⟨.keyword w :: (e.kinds ++ x), by simp, (e.rises_kinds.append hx).neutral rfl rfl, ?_⟩
    obtain rfl | hdue := hdue
    · exact .inl ⟨e, by rw [List.append_nil]⟩
    · exact .inr (hdue.append (.keyword w :: e.kinds))

theorem conditional_crosses {expression : Parser Expr} {good : Expr → Prop}
    (hreads : expression.Reads good Expr.kinds Expr.EndsAt)
    (hexpr : expression.Crosses n LevelDue) {body : Parser (List Stmt)}
    (hbody : body.Crosses n LevelDueOrHere) :
    (Parser.keyword .if_ *> expression >>= fun cond => ifThen cond <$> body).Crosses n
      LevelDue := by
  refine (exprThenBody_crosses .if_ ifThen hreads hexpr hbody).mono fun x k => ?_
  rintro (⟨cond, rfl⟩ | hdue)
  · exact .ifThen [] cond k
  · exact hdue

theorem loop_crosses {expression : Parser Expr} {good : Expr → Prop}
    (hreads : expression.Reads good Expr.kinds Expr.EndsAt)
    (hexpr : expression.Crosses n LevelDue) {body : Parser (List Stmt)}
    (hbody : body.Crosses n LevelDueOrHere) :
    (Parser.keyword .for_ *> Parser.identifier >>= fun name => Parser.keyword .in_ *> expression >>=
      fun iterable => forIn name iterable <$> body).Crosses n LevelDue := by
  intro ks rest herror
  obtain hhead | ⟨name, mid, hok, hrest⟩ := Parser.run_bind_eq_error.1 herror
  · exact absurd hhead ((Parser.token_shallow _ _).seqRight (Parser.token_shallow _ _) _ _)
  · obtain ⟨_, _, hfor, hname⟩ := Parser.run_seqRight_eq_ok.1 hok
    obtain rfl := Parser.run_keyword_eq_ok.1 hfor
    obtain rfl := Parser.run_identifier_eq_ok.1 hname
    obtain ⟨x, rfl, hx, hdue⟩ := exprThenBody_crosses .in_ (forIn name) hreads hexpr hbody hrest
    refine ⟨.keyword .for_ :: .ident name :: x, rfl, (hx.neutral rfl rfl).neutral rfl rfl, ?_⟩
    obtain ⟨iterable, rfl⟩ | hdue := hdue
    · exact .forIn [] name iterable _
    · exact hdue.append [.keyword .for_, .ident name]

theorem pipe_crosses {commands : Parser (List Invocation)}
    (h : commands.Crosses n LevelDueOrHere) :
    (Parser.keyword .pipe *> pipe <$> commands).Crosses n LevelDue := by
  intro ks rest herror
  obtain hhead | ⟨_, mid, hok, hrest⟩ := Parser.run_seqRight_eq_error.1 herror
  · exact absurd hhead (Parser.token_shallow _ _ _ _)
  · obtain rfl := Parser.run_keyword_eq_ok.1 hok
    obtain ⟨x, rfl, hx, hdue⟩ := h (Parser.run_map_eq_error.1 hrest)
    refine ⟨.keyword .pipe :: x, rfl, hx.neutral rfl rfl, ?_⟩
    obtain rfl | hdue := hdue
    · exact .pipe [] _
    · exact hdue.append [.keyword .pipe]

theorem ofExpr_ne_nestingTooDeep (e : Expr) : ofExpr e ≠ .error .nestingTooDeep := by
  cases e <;> simp [ofExpr]

theorem invocation_ne_nestingTooDeep (s : Stmt) : s.invocation ≠ .error .nestingTooDeep := by
  cases s <;> simp [invocation]

theorem parserWith_crosses {expression : Parser Expr} {good : Expr → Prop}
    (hreads : expression.Reads good Expr.kinds Expr.EndsAt)
    (hexpr : expression.Crosses n LevelDue) (htakes : expression.Takes 0)
    {body : Parser (List Stmt)} (hbody : body.Crosses n LevelDueOrHere)
    {commands : Parser (List Invocation)} (hcommands : commands.Crosses n LevelDueOrHere) :
    (parserWith expression body commands).Crosses n LevelDue := by
  intro ks rest herror
  simp only [parserWith, Parser.run_peek] at herror
  split at herror
  · exact declaration_crosses .val hexpr herror
  · exact declaration_crosses .var hexpr herror
  · exact ((hexpr.commaList LevelDue.append htakes).map _).afterToken LevelDue.append
      (Parser.token_shallow _ _) (Parser.keyword_takes .run) herror
  · exact conditional_crosses hreads hexpr hbody herror
  · exact loop_crosses hreads hexpr hbody herror
  · exact pipe_crosses hcommands herror
  · cases herror
  · exact hexpr.require ofExpr_ne_nestingTooDeep herror
  · cases herror

theorem parser_crosses (budget : Nat) : (parser budget).Crosses budget LevelDue := by
  induction budget with
  | zero =>
    exact parserWith_crosses (Expr.parser_reads 0) (Expr.parser_crosses 0) (Expr.parser_takes 0)
      (Parser.fail_crosses fun _ => .inl rfl) (Parser.fail_crosses fun _ => .inl rfl)
  | succ budget ih =>
    have hinvocation := ih.require invocation_ne_nestingTooDeep
    have htakes : ((parser budget).require invocation).Takes 0 :=
      (invocation_reads (parser_reads budget)).takes fun c => rises_kinds (run c)
    exact parserWith_crosses (Expr.parser_reads _) (Expr.parser_crosses _) (Expr.parser_takes _)
      ((block_crosses ih (parser_takes budget)).mono fun _ _ => .inr)
      ((block_crosses hinvocation htakes).mono fun _ _ => .inr)

end Stmt

/-! ## Programs -/

namespace Program

/-- A level too many is found in one statement of the program, behind others that are read. -/
theorem exists_of_ofKinds_nestingTooDeep {ks rest : List Kind}
    (h : ofKinds ks = .error ⟨.nestingTooDeep, rest⟩) :
    ∃ top x p, ks = top ++ (x ++ rest) ∧ ofKinds top = .ok p ∧
      (∀ c, Token.next x ≠ .symbol c) ∧
      statement.run (x ++ rest) = .error ⟨.nestingTooDeep, rest⟩ ∧
      Rises maxNesting x ∧ LevelDue x (Token.next rest) := by
  fun_induction ofKinds ks with
  | case1 => cases h
  | case2 c ks ih =>
    obtain ⟨top, x, p, rfl, htop, hx⟩ := ih h
    exact ⟨.symbol c :: top, x, p, rfl, by rw [ofKinds]; exact htop, hx⟩
  | case3 k ks hk e hs =>
    cases h
    obtain ⟨x, hks, hrises, hdue⟩ := Stmt.parser_crosses maxNesting hs
    refine ⟨[], x, [], hks, by rw [ofKinds], fun c hc => ?_, hks ▸ hs, hrises, hdue⟩
    obtain ⟨l, x, rfl⟩ := List.exists_cons_of_ne_nil hdue.ne_nil
    obtain ⟨rfl, -⟩ := List.cons.inj hks
    exact hk c hc
  | case4 k ks hk s mid hs e hm ih =>
    cases h
    obtain ⟨top, x, p, rfl, htop, hx⟩ := ih hm
    obtain ⟨hgood, hks, hends⟩ := run_statement_eq_ok.1 hs
    have hstmt : statement.run (s.kinds ++ top) = .ok (s, top) := by
      refine run_statement_eq_ok.2 ⟨hgood, rfl, ?_⟩
      cases top with
      | nil => exact Stmt.endsAt_of_ne (by simp [Token.next])
      | cons l top => exact hends
    refine ⟨s.kinds ++ top, x, s :: p, by rw [hks, List.append_assoc], ?_, hx⟩
    rw [ofKinds_of_run_eq_ok hstmt, htop]
    rfl
  | case5 => cases h

end Program

end Shellwright
