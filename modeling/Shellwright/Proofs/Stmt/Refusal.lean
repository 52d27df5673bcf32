import Shellwright.Proofs.Expr.Refusal
import Shellwright.Proofs.Program.Outline

/-!
# What is refused in a statement

The budget and the rule for pipes refuse levels and statements, never a token, so what is left of a
statement's parser follows the grammar without its limits.

## Main definitions

* `Stmt.phrases`: outlines of statements, each before a token that does not go on with it.

## Main statements

* `Stmt.parser_follows`: with any budget, a token is refused where no outline goes on with it.
-/
namespace Shellwright.Stmt

open Token (Kind Neutral)
open Shellwright.Parser (Follows Verdict Accepted Refused Reads)

variable {x ks : List Kind} {k : Kind}

/-- The outline of a statement before a token that does not go on with it. -/
def phrases : Language := fun x k => Outline x ∧ Token.EndsAt x k

theorem endsAt_of_neutral (h : Neutral k) : Token.EndsAt x k :=
  ⟨fun hk => absurd hk h.2, fun hk => absurd hk h.1⟩

theorem endsAt_braced {w : Keyword} (hw : w ≠ .run) (ks ls : List Kind) (k : Kind) :
    Token.EndsAt (.keyword w :: (ks ++ braced ls)) k :=
  ⟨fun _ => by simpa using hw, fun _ => endsInName_braced (.keyword w :: ks) ls⟩

theorem Outline.ne_nil (h : Outline x) : x ≠ [] := by
  cases h <;> simp [Invocation.kinds]

theorem begins_phrases : phrases.Begins where
  first := by
    rintro x k ⟨hx, -⟩
    refine ⟨hx.ne_nil, Token.neutral_of_ne_symbol fun c => ?_⟩
    simpa using hx.next_ne_symbol [] c
  phrase := ⟨_, fun _ hk => ⟨.call "" [], endsAt_of_neutral hk⟩⟩

/-! ## Bodies -/

/-- Outlines of statements between braces. -/
def bodyPhrases : Language :=
  fun x _ => ∃ items : List (List Kind), (∀ y ∈ items, Outline y) ∧ x = braced items.flatten

theorem begins_bodyPhrases : bodyPhrases.Begins where
  first := by
    rintro _ _ ⟨items, -, rfl⟩
    exact ⟨by simp [braced], by simp [braced, Neutral]⟩
  phrase := ⟨_, fun _ _ => ⟨[], by simp, rfl⟩⟩

/-- Inside a body every statement ends where the next one begins, or at the closing brace. -/
theorem closed_phrases_iff : Language.Closed '\x7d' phrases x k ↔
    ∃ items : List (List Kind), (∀ y ∈ items, Outline y) ∧
      x = items.flatten ++ [.symbol '\x7d'] := by
  have hclosed := begins_phrases.closed (c := '\x7d') (by decide)
  constructor
  · intro h
    induction h with
    | nil => exact ⟨[], by simp, rfl⟩
    | cons h _ ih =>
      obtain ⟨items, hitems, rfl⟩ := ih
      exact ⟨_ :: items, by simpa using ⟨h.1, hitems⟩, by simp⟩
  · rintro ⟨items, hitems, rfl⟩
    induction items with
    | nil => exact .nil
    | cons y items ih =>
      have htail := ih fun z hz => hitems z (by simp [hz])
      rw [List.flatten_cons, List.append_assoc]
      have hneutral := hclosed.neutral_next_append htail [k]
      exact .cons ⟨hitems y (by simp), endsAt_of_neutral hneutral⟩ htail

theorem block_follows {α : Type} {item : Parser α} (h : item.Follows phrases) :
    (block item).Follows bodyPhrases := by
  have hclosed := begins_phrases.closed (c := '\x7d') (by decide)
  have hitems := h.untilClose (c := '\x7d') begins_phrases
    (fun hx => by simpa using hx.1.next_ne_symbol [] '\x7d') (by decide)
  have hseq := (Parser.symbol_follows '\x7b').seqRight hitems hclosed
  intro ks
  refine (hseq ks).widen ?_ ?_
  · rintro _ k ⟨_, y, rfl, ⟨_, rfl, rfl⟩, hy⟩
    obtain ⟨items, hout, rfl⟩ := closed_phrases_iff.1 hy
    exact ⟨items, hout, rfl⟩
  · rintro _ s ⟨items, hout, rfl⟩ -
    exact ⟨_, _, rfl, ⟨_, rfl, rfl⟩, closed_phrases_iff.2 ⟨items, hout, rfl⟩⟩

/-! ## Constructs -/

section Constructs

variable {expression : Parser Expr} (hexpr : expression.Follows Expr.phrases)
include hexpr

theorem declaration_verdict (binding : Binding) (hk : Token.next ks = .keyword binding.keyword) :
    Verdict phrases ks ((declaration binding expression).run ks) := by
  have hseq := ((Parser.keyword_follows binding.keyword).seqRight Parser.identifier_follows
    .name).bind (fun name => (Parser.symbol_follows '=').seqRight (hexpr.map (decl binding name))
      Expr.begins_phrases) (.andThen (.token (by decide)) Expr.begins_phrases)
  refine (hseq ks).widen ?_ ?_
  · rintro _ k ⟨_, _, rfl, ⟨_, _, rfl, ⟨_, rfl, rfl⟩, _, ⟨name, rfl⟩, rfl⟩, _, _, rfl,
      ⟨_, rfl, rfl⟩, value, rfl, he⟩
    exact ⟨.decl binding name value,
      (endsAt_iff (s := decl binding name value)).1 (endsAt_decl_iff.2 he)⟩
  · rintro _ s ⟨hy, hends⟩ hnext
    have hfirst := hnext.trans hk
    cases hy with
    | decl b name value =>
      obtain rfl : b = binding := by
        cases b <;> cases binding <;> first | rfl | cases hfirst
      have he := endsAt_decl_iff.1 ((endsAt_iff (s := decl b name value)).2 hends)
      exact ⟨_, _, rfl, ⟨_, _, rfl, ⟨_, rfl, rfl⟩, _, ⟨name, rfl⟩, rfl⟩, _, _, rfl,
        ⟨_, rfl, rfl⟩, value, rfl, he⟩
    | _ => cases binding <;> cases hfirst

theorem command_verdict (hk : Token.next ks = .keyword .run) :
    Verdict phrases ks ((Parser.keyword .run *> run <$> expression.commaList).run ks) := by
  have hseq := (Parser.keyword_follows .run).seqRight
    ((hexpr.commaList Expr.phrases_comma).map run) Expr.begins_phrases.listed
  refine (hseq ks).widen ?_ ?_
  · rintro _ k ⟨_, y, rfl, ⟨_, rfl, rfl⟩, hy⟩
    obtain ⟨es, hes, rfl, hends⟩ := Expr.listed_phrases_iff.1 hy
    exact ⟨.run hes, (endsAt_iff (s := run es)).1 ((endsAt_run_iff hes).2 hends)⟩
  · rintro _ s ⟨hy, hends⟩ hnext
    have hfirst := hnext.trans hk
    cases hy with
    | @run es hes =>
      have he := (endsAt_run_iff hes).1 ((endsAt_iff (s := run es)).2 hends)
      exact ⟨_, _, rfl, ⟨_, rfl, rfl⟩, Expr.listed_phrases_iff.2 ⟨es, hes, rfl, he⟩⟩
    | decl binding _ _ => cases binding <;> cases hfirst
    | _ => cases hfirst

section Bodies

variable {body : Parser (List Stmt)} (hbody : body.Follows bodyPhrases)
include hbody

theorem conditional_verdict (hk : Token.next ks = .keyword .if_) :
    Verdict phrases ks
      ((Parser.keyword .if_ *> expression >>= fun cond => ifThen cond <$> body).run ks) := by
  have hseq := ((Parser.keyword_follows .if_).seqRight hexpr Expr.begins_phrases).bind
    (fun cond => hbody.map (ifThen cond)) begins_bodyPhrases
  refine (hseq ks).widen ?_ ?_
  · rintro _ k ⟨_, _, rfl, ⟨_, _, rfl, ⟨_, rfl, rfl⟩, cond, rfl, -⟩, items, hitems, rfl⟩
    exact ⟨.ifThen cond hitems, endsAt_braced (by decide) _ _ _⟩
  · rintro _ s ⟨hy, hends⟩ hnext
    have hfirst := hnext.trans hk
    cases hy with
    | ifThen cond hitems =>
      exact ⟨_, _, rfl, ⟨_, _, rfl, ⟨_, rfl, rfl⟩, cond, rfl, Expr.endsAt_of_ne (by simp [braced])⟩,
        _, hitems, rfl⟩
    | decl binding _ _ => cases binding <;> cases hfirst
    | _ => cases hfirst

theorem loop_verdict (hk : Token.next ks = .keyword .for_) :
    Verdict phrases ks
      ((Parser.keyword .for_ *> Parser.identifier >>= fun name =>
        Parser.keyword .in_ *> expression >>= fun iterable =>
        forIn name iterable <$> body).run ks) := by
  have hrest (name : String) := ((Parser.keyword_follows .in_).seqRight hexpr
    Expr.begins_phrases).bind (fun iterable => hbody.map (forIn name iterable)) begins_bodyPhrases
  have hseq := ((Parser.keyword_follows .for_).seqRight Parser.identifier_follows .name).bind hrest
    (.andThen (.andThen (.token (by decide)) Expr.begins_phrases) begins_bodyPhrases)
  refine (hseq ks).widen ?_ ?_
  · rintro _ k ⟨_, _, rfl, ⟨_, _, rfl, ⟨_, rfl, rfl⟩, _, ⟨name, rfl⟩, rfl⟩, _, _, rfl,
      ⟨_, _, rfl, ⟨_, rfl, rfl⟩, iterable, rfl, -⟩, items, hitems, rfl⟩
    exact ⟨.forIn name iterable hitems,
      endsAt_braced (by decide) (.ident name :: .keyword .in_ :: _) _ _⟩
  · rintro _ s ⟨hy, hends⟩ hnext
    have hfirst := hnext.trans hk
    cases hy with
    | forIn name iterable hitems =>
      exact ⟨_, _, rfl, ⟨_, _, rfl, ⟨_, rfl, rfl⟩, _, ⟨name, rfl⟩, rfl⟩, _, _, rfl,
        ⟨_, _, rfl, ⟨_, rfl, rfl⟩, iterable, rfl, Expr.endsAt_of_ne (by simp [braced])⟩,
        _, hitems, rfl⟩
    | decl binding _ _ => cases binding <;> cases hfirst
    | _ => cases hfirst

end Bodies

omit hexpr in
theorem pipe_verdict {commands : Parser (List Invocation)} (h : commands.Follows bodyPhrases)
    (hk : Token.next ks = .keyword .pipe) :
    Verdict phrases ks ((Parser.keyword .pipe *> pipe <$> commands).run ks) := by
  have hseq := (Parser.keyword_follows .pipe).seqRight (h.map pipe) begins_bodyPhrases
  refine (hseq ks).widen ?_ ?_
  · rintro _ k ⟨_, _, rfl, ⟨_, rfl, rfl⟩, items, hitems, rfl⟩
    exact ⟨.pipe hitems, endsAt_braced (by decide) [] _ _⟩
  · rintro _ s ⟨hy, hends⟩ hnext
    have hfirst := hnext.trans hk
    cases hy with
    | pipe hitems => exact ⟨_, _, rfl, ⟨_, rfl, rfl⟩, _, hitems, rfl⟩
    | decl binding _ _ => cases binding <;> cases hfirst
    | _ => cases hfirst

omit hexpr in
theorem phrases_call (name : String) (args : List Expr) (k : Kind) :
    phrases (Expr.call name args).kinds k :=
  ⟨.call name args, (endsAt_iff (s := expr (.call name args))).1 (endsAt_call name args k)⟩

omit hexpr in
/-- A statement that begins with a name is a call. -/
theorem Outline.exists_call {y : List Kind} (h : Outline y) {s : List Kind} {name : String}
    (hnext : Token.next (y ++ s) = .ident name) : ∃ args, y = (Expr.call name args).kinds := by
  cases h with
  | call f args =>
    cases hnext
    exact ⟨args, rfl⟩
  | _ => cases hnext

theorem call_verdict {good : Expr → Prop} (hreads : expression.Reads good Expr.kinds Expr.EndsAt)
    {name : String} (hk : Token.next ks = .ident name) :
    Verdict phrases ks ((expression.require ofExpr).run ks) := by
  have hcall {y s : List Kind} (hy : phrases y (Token.next s))
      (hnext : Token.next (y ++ s) = Token.next ks) : Expr.phrases y (Token.next s) := by
    obtain ⟨args, rfl⟩ := hy.1.exists_call (hnext.trans hk)
    exact ⟨_, rfl, fun _ => Expr.endsInName_kinds_call name args⟩
  unfold Parser.require
  cases hrun : expression.run ks with
  | error e =>
    simp only [hrun]
    intro hc
    obtain ⟨before, rfl, hb⟩ := hexpr.refused hrun hc
    refine ⟨before, rfl, ?_, ?_⟩
    · obtain ⟨ls, hls⟩ := Token.exists_cons_of_next hk (by simp)
      obtain ⟨f, args, w, hw⟩ := Expr.exists_call_of_refused hb hls
      exact ⟨w, fun k _ => hw ▸ phrases_call f args k⟩
    · intro y s r hy happ hr
      have hnext : Token.next (y ++ s) = Token.next (before ++ e.rest) := by
        rw [happ, Token.next_append_congr hr]
      exact hb.stuck (hcall hy hnext) happ hr
  | ok r =>
    obtain ⟨value, rest⟩ := r
    simp only [hrun]
    cases value with
    | call f args =>
      obtain ⟨x, rfl, hx⟩ := hexpr.accepted hrun
      obtain ⟨-, happ, -⟩ := (hreads _ _ _).1 hrun
      obtain rfl := List.append_cancel_right happ
      refine ⟨_, rfl, phrases_call f args _, fun k _ => phrases_call f args k, ?_⟩
      intro y s r hy happ hr
      have hnext : Token.next (y ++ s) = Token.next ((Expr.call f args).kinds ++ rest) := by
        rw [happ, Token.next_append_congr hr]
      exact hx.unique (hcall hy hnext) happ hr
    | _ =>
      intro hc
      cases hc

end Constructs

/-! ## Any statement -/

theorem parserWith_follows {expression : Parser Expr} (hexpr : expression.Follows Expr.phrases)
    {good : Expr → Prop} (hreads : expression.Reads good Expr.kinds Expr.EndsAt)
    {body : Parser (List Stmt)} (hbody : body.Follows bodyPhrases)
    {commands : Parser (List Invocation)} (hcommands : commands.Follows bodyPhrases) :
    (parserWith expression body commands).Follows phrases := by
  intro ks
  simp only [parserWith, Parser.run_peek]
  split
  · exact declaration_verdict hexpr .val ‹_›
  · exact declaration_verdict hexpr .var ‹_›
  · exact command_verdict hexpr ‹_›
  · exact conditional_verdict hexpr hbody ‹_›
  · exact loop_verdict hexpr hbody ‹_›
  · exact pipe_verdict hcommands ‹_›
  · rename_i hk
    refine .refuse begins_phrases.phrase ?_
    rintro _ s ⟨hy, -⟩ hnext
    have hfirst := hnext.trans hk
    cases hy with
    | decl binding _ _ => cases binding <;> cases hfirst
    | _ => cases hfirst
  · exact call_verdict hexpr hreads ‹_›
  · rename_i hval hvar hrun hif hfor hpipe _ hident
    refine .refuse begins_phrases.phrase ?_
    rintro _ s ⟨hy, -⟩ hnext
    cases hy with
    | decl binding name value =>
      cases binding with
      | val => exact hval hnext.symm
      | var => exact hvar hnext.symm
    | run _ => exact hrun hnext.symm
    | ifThen _ _ => exact hif hnext.symm
    | forIn _ _ _ => exact hfor hnext.symm
    | pipe _ => exact hpipe hnext.symm
    | call name args => exact hident name hnext.symm

/-- Whatever the budget, what is refused is refused by the grammar without its limits. -/
theorem parser_follows (budget : Nat) : (parser budget).Follows phrases := by
  induction budget with
  | zero =>
    exact parserWith_follows (Expr.parser_follows 0) (Expr.parser_reads 0) (.fail fun _ => rfl)
      (.fail fun _ => rfl)
  | succ budget ih =>
    have hcommand : ((parser budget).require invocation).Follows phrases := by
      refine ih.require fun {s c} hs => ?_
      cases s <;> cases hs <;> rfl
    exact parserWith_follows (Expr.parser_follows _) (Expr.parser_reads _) (block_follows ih)
      (block_follows hcommand)

end Shellwright.Stmt
