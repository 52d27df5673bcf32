import Shellwright.Proofs.Expr.Refusal
import Shellwright.Proofs.Parser.Nesting
import Shellwright.Proofs.Stmt.Reading

/-!
# Statements that are nested too deeply

A call, a body and a pipe take one level each, and the budget of a parser is what is left of the
levels. A phrase whose nesting is within the budget leads back to the level it began at; a parser
fails on any other one at the first level too many.

## Main statements

* `Expr.leads_kinds`, `Stmt.leads_kinds`: phrases within the limit.
* `Expr.parser_tooDeep`, `Stmt.parser_tooDeep`: phrases beyond it.
-/
namespace Shellwright

open Token (Kind Leads)
open Shellwright.Parser (TooDeep Reads)

variable {limit n b : Nat}

/-! ## Expressions -/

namespace Expr

mutual

theorem leads_kinds {limit n : Nat} : ∀ e : Expr, n + e.nesting ≤ limit → Leads limit n e.kinds n
  | .string _, _ | .number _, _ | .var _, _ => Leads.nil.neutral rfl rfl
  | .call name args, h => by
    rw [nesting] at h
    have hargs : Leads limit (n + 1) (kindsList args) (n + 1) := leads_kindsList args (by omega)
    rw [kinds]
    exact ((hargs.append (.closer rfl rfl)).opener rfl (by omega)).neutral rfl rfl

theorem leads_kindsList {limit n : Nat} :
    ∀ es : List Expr, n + nestingList es ≤ limit → Leads limit n (kindsList es) n
  | [], _ => .nil
  | [e], h => by
    rw [nestingList] at h
    rw [kindsList]
    exact leads_kinds e (by omega)
  | e :: f :: es, h => by
    rw [nestingList] at h
    rw [kindsList]
    have htail : Leads limit n (kindsList (f :: es)) n := leads_kindsList (f :: es) (by omega)
    exact (leads_kinds e (by omega)).append (htail.neutral rfl rfl)

end

theorem nestingList_append (as bs : List Expr) :
    nestingList (as ++ bs) = max (nestingList as) (nestingList bs) := by
  induction as with
  | nil => simp [nestingList]
  | cons a as ih => simp [nestingList, ih, Nat.max_assoc]

section Lists

variable {expr : Parser Expr} (hreads : expr.Reads (fun e => e.nesting ≤ b) kinds EndsAt)
  (hdeep : ∀ e : Expr, b < e.nesting → expr.TooDeep limit n e.kinds) (hb : n + b ≤ limit)
include hreads hdeep hb

theorem commaList_tooDeep {es : List Expr} (h : b < nestingList es) :
    expr.commaList.TooDeep limit n (kindsList es) := by
  rw [kindsList_eq_intercalate]
  refine TooDeep.commaList hreads (fun e he => leads_kinds e (by omega))
    (fun e _ he => hdeep e (by omega)) ?_ fun e => endsAt_of_ne (by simp)
  rw [← nestingList_le_iff]
  omega

theorem arguments_tooDeep {args : List Expr} (h : b < nestingList args) :
    (arguments expr).TooDeep limit n (kindsList args) := by
  intro rest
  have hne : args ≠ [] := by
    rintro rfl
    simp [nestingList] at h
  obtain ⟨left, hleft, hrun⟩ := commaList_tooDeep hreads hdeep hb h rest
  refine ⟨left, hleft, ?_⟩
  simp only [arguments, Parser.run_peek]
  split
  · rename_i hk
    exact absurd hk (next_kindsList_ne_symbol hne rest ')')
  · exact Parser.run_seqLeft_eq_error.2 (.inl hrun)

end Lists

theorem parserWith_tooDeep {onCall : String → Parser Expr} {name : String} {args : List Expr}
    (h : (onCall name).TooDeep limit n (.symbol '(' :: (kindsList args ++ [.symbol ')']))) :
    (parserWith onCall).TooDeep limit n (call name args).kinds := by
  have hname : Leads limit n [.ident name] n := Leads.nil.neutral rfl rfl
  intro rest
  obtain ⟨left, hleft, hrun⟩ := h rest
  refine ⟨left, (hname _).trans hleft, ?_⟩
  rw [parserWith, Parser.run_peek, kinds]
  exact Parser.run_thenIf_eq_error.2 (.inr ⟨var name, _, rfl, rfl, hrun⟩)

theorem parser_tooDeep (budget : Nat) {n : Nat} (hn : n + budget = limit) {e : Expr}
    (he : budget < e.nesting) : (parser budget).TooDeep limit n e.kinds := by
  induction budget generalizing n e with
  | zero =>
    cases e with
    | call name args =>
      obtain rfl : n = limit := hn
      exact parserWith_tooDeep (TooDeep.fail rfl _)
    | _ => simp [nesting] at he
  | succ budget ih =>
    cases e with
    | call name args =>
      rw [nesting] at he
      have hargs : (arguments (parser budget)).TooDeep limit (n + 1) (kindsList args) :=
        arguments_tooDeep (parser_reads budget) (fun e he => ih (by omega) he) (by omega)
          (Nat.lt_of_succ_lt_succ he)
      exact parserWith_tooDeep (((hargs.append [.symbol ')']).map (call name)).afterToken
        (Leads.nil.opener rfl (by omega)) (by simp))
    | _ => simp [nesting] at he

end Expr

/-! ## Statements -/

namespace Stmt

theorem leads_commands : ∀ {commands : List Invocation},
    n + Expr.nestingList commands.flatten ≤ limit →
      Leads limit n (commands.flatMap Invocation.kinds) n
  | [], _ => .nil
  | c :: commands, h => by
    rw [List.flatten_cons, Expr.nestingList_append] at h
    rw [List.flatMap_cons]
    exact ((Expr.leads_kindsList c (by omega)).neutral rfl rfl).append (leads_commands (by omega))

theorem leads_braced {x : List Kind} (h : Leads limit (n + 1) x (n + 1)) (hn : n < limit) :
    Leads limit n (braced x) n := (h.append (.closer rfl rfl)).opener rfl hn

mutual

theorem leads_kinds {limit n : Nat} : ∀ s : Stmt, n + s.nesting ≤ limit → Leads limit n s.kinds n
  | .decl binding name value, h => by
    rw [nesting] at h
    exact (((value.leads_kinds h).neutral rfl rfl).neutral rfl rfl).neutral rfl rfl
  | .run command, h => (Expr.leads_kindsList command h).neutral rfl rfl
  | .ifThen cond body, h => by
    rw [nesting] at h
    have hbody : Leads limit n (braced (kindsList body)) n :=
      leads_braced (leads_kindsList body (by omega)) (by omega)
    exact ((cond.leads_kinds (by omega)).append hbody).neutral rfl rfl
  | .forIn name iterable body, h => by
    rw [nesting] at h
    have hbody : Leads limit n (braced (kindsList body)) n :=
      leads_braced (leads_kindsList body (by omega)) (by omega)
    exact ((((iterable.leads_kinds (by omega)).append hbody).neutral rfl rfl).neutral rfl
      rfl).neutral rfl rfl
  | .pipe commands, h => by
    rw [nesting] at h
    exact (leads_braced (leads_commands (n := n + 1) (by omega)) (by omega)).neutral rfl rfl
  | .expr value, h => value.leads_kinds h

theorem leads_kindsList {limit n : Nat} :
    ∀ ss : List Stmt, n + nestingList ss ≤ limit → Leads limit n (kindsList ss) n
  | [], _ => .nil
  | s :: ss, h => by
    rw [nestingList] at h
    exact (leads_kinds s (by omega)).append (leads_kindsList ss (by omega))

end

theorem block_tooDeep {α : Type} {item : Parser α} {x : List Kind}
    (h : (item.untilClose '\x7d').TooDeep limit (n + 1) x) (hn : n < limit) :
    (block item).TooDeep limit n (braced x) :=
  (h.append [.symbol '\x7d']).afterToken (Leads.nil.opener rfl hn) (by simp)

section Constructs

variable {expression : Parser Expr}
  (hreads : expression.Reads (fun e => e.nesting ≤ b) Expr.kinds Expr.EndsAt)
  (hdeep : ∀ e : Expr, b < e.nesting → expression.TooDeep limit n e.kinds)

include hdeep in
theorem declaration_tooDeep (binding : Binding) (name : String) {value : Expr}
    (h : b < value.nesting) :
    (declaration binding expression).TooDeep limit n (decl binding name value).kinds := by
  have hvalue : (Parser.symbol '=' *> decl binding name <$> expression).TooDeep limit n
      (.symbol '=' :: value.kinds) :=
    ((hdeep value h).map _).afterToken (Leads.nil.neutral rfl rfl) (by simp)
  exact TooDeep.after (x := [.keyword binding.keyword, .ident name]) hvalue
    ((Leads.nil.neutral rfl rfl).neutral rfl rfl) fun rest => by simp

include hreads hdeep

/-- An expression behind a keyword, and a body behind the expression. -/
theorem exprThenBody_tooDeep (w : Keyword) (f : Expr → List Stmt → Stmt)
    {body : Parser (List Stmt)} {ss : List Stmt}
    (hbody : b < nestingList ss + 1 → body.TooDeep limit n (braced (kindsList ss)))
    (hb : n + b ≤ limit) {e : Expr} (h : b < max e.nesting (nestingList ss + 1)) :
    (Parser.keyword w *> expression >>= fun e => f e <$> body).TooDeep limit n
      (.keyword w :: (e.kinds ++ braced (kindsList ss))) := by
  by_cases he : b < e.nesting
  · have hexpr : (Parser.keyword w *> expression).TooDeep limit n (.keyword w :: e.kinds) :=
      (hdeep e he).afterToken (Leads.nil.neutral rfl rfl) (by simp)
    exact (hexpr.append _).bind _
  · refine TooDeep.after (x := .keyword w :: e.kinds) ((hbody (by omega)).map (f e))
      ((e.leads_kinds (by omega)).neutral rfl rfl) fun rest => ?_
    have hread := (hreads _ e (braced (kindsList ss) ++ rest)).2
      ⟨by omega, rfl, Expr.endsAt_of_ne (by simp [braced, Token.next])⟩
    exact Parser.run_seqRight_eq_ok.2 ⟨(), _, Parser.run_keyword_eq_ok.2 rfl, hread⟩

theorem parserWith_tooDeep {body : Parser (List Stmt)} {commands : Parser (List Invocation)}
    (hbody : ∀ ss, wellFormedList ss = true → b < nestingList ss + 1 →
      body.TooDeep limit n (braced (kindsList ss)))
    (hcommands : ∀ cs : List Invocation, cs.all (!·.isEmpty) = true →
      b < Expr.nestingList cs.flatten + 1 →
      commands.TooDeep limit n (braced (cs.flatMap Invocation.kinds)))
    (hb : n + b ≤ limit) {s : Stmt} (hs : s.wellFormed = true) (h : b < s.nesting) :
    (parserWith expression body commands).TooDeep limit n s.kinds := by
  -- the first token of a statement is the one that its construct is chosen by
  have hpeek {k : Kind} {x : List Kind} {f : Kind → Parser Stmt}
      (hk : (f k).TooDeep limit n (k :: x)) : (Parser.peek f).TooDeep limit n (k :: x) := hk
  cases s with
  | decl binding name value =>
    have hdecl := declaration_tooDeep hdeep binding name (by simpa [nesting] using h)
    cases binding <;> exact hpeek hdecl
  | run command =>
    have hlist := Expr.commaList_tooDeep hreads hdeep hb h
    exact hpeek ((hlist.map run).afterToken (Leads.nil.neutral rfl rfl) (by simp))
  | ifThen cond ss =>
    rw [nesting] at h
    exact hpeek (exprThenBody_tooDeep hreads hdeep .if_ ifThen (hbody ss hs) hb h)
  | forIn name iterable ss =>
    rw [nesting] at h
    have hrest := exprThenBody_tooDeep hreads hdeep .in_ (forIn name) (hbody ss hs) hb h
    exact hpeek (TooDeep.after (x := [.keyword .for_, .ident name]) hrest
      ((Leads.nil.neutral rfl rfl).neutral rfl rfl) fun rest => by simp)
  | pipe cs =>
    rw [nesting] at h
    exact hpeek (((hcommands cs hs h).map pipe).afterToken (Leads.nil.neutral rfl rfl) (by simp))
  | expr value =>
    cases value with
    | call name args => exact hpeek ((hdeep _ h).require ofExpr)
    | _ => cases hs

end Constructs

/-- Whatever follows it, a statement that is nested more deeply than the budget allows is refused at
the first level too many. -/
theorem parser_tooDeep (budget : Nat) {n : Nat} (hn : n + budget = limit) {s : Stmt}
    (hs : s.wellFormed = true) (h : budget < s.nesting) :
    (parser budget).TooDeep limit n s.kinds := by
  induction budget generalizing n s with
  | zero =>
    obtain rfl : n = limit := hn
    exact parserWith_tooDeep (Expr.parser_reads 0) (fun e he => Expr.parser_tooDeep 0 rfl he)
      (fun _ _ _ => TooDeep.fail rfl _) (fun _ _ _ => TooDeep.fail rfl _) (Nat.le_refl _) hs h
  | succ budget ih =>
    have hlt : n < limit := by omega
    refine parserWith_tooDeep (Expr.parser_reads _) (fun e he => Expr.parser_tooDeep _ hn he)
      (fun ss hss hdeep => block_tooDeep ?_ hlt) (fun cs hcs hdeep => block_tooDeep ?_ hlt)
      (Nat.le_of_eq hn) hs h
    · rw [kindsList_eq_flatMap]
      refine TooDeep.untilClose (parser_reads budget) (fun s hs => leads_kinds s (by omega)) ?_ ?_
        (exists_kinds_cons_endsAt _)
      · intro s hmem hbad
        have hwell := wellFormedList_iff.1 hss s hmem
        exact ih (by omega) hwell (Nat.lt_of_not_le fun hle => hbad ⟨hwell, hle⟩)
      · intro hgood
        have := nestingList_le_iff.2 fun s hs => (hgood s hs).2
        omega
    · refine TooDeep.untilClose (invocation_reads (parser_reads budget))
        (fun c hc => leads_kinds (run c) (by omega)) ?_ ?_ fun c => ?_
      · intro c hmem hbad
        have hwell : (run c).wellFormed = true := List.all_eq_true.1 hcs c hmem
        have hlt : budget < (run c).nesting := Nat.lt_of_not_le fun hle => hbad ⟨hwell, hle⟩
        exact (ih (by omega) hwell hlt).require invocation
      · intro hgood
        have : Expr.nestingList cs.flatten ≤ budget := by
          rw [Expr.nestingList_le_iff]
          intro e he
          obtain ⟨c, hc, hec⟩ := List.mem_flatten.1 he
          exact Expr.nestingList_le_iff.1 (hgood c hc).2 e hec
        omega
      · exact ⟨_, _, rfl, by simp, fun d => endsAt_of_ne (by simp)⟩

end Stmt

end Shellwright
