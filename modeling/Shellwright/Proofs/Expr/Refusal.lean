import Shellwright.Proofs.Expr.Reading
import Shellwright.Proofs.Parser.Refusal

/-!
# What is refused in an expression

## Main definitions

* `Expr.phrases`: expressions of any depth, each before a token that does not go on with it.

## Main statements

* `Expr.parser_follows`: with any budget, a token is refused where no expression goes on with it.
-/
namespace Shellwright

open Token (Kind Neutral next_append_congr)

namespace Expr

open Shellwright.Parser (Follows Verdict Accepted Refused)

variable {x : List Kind} {k : Kind}

/-- The tokens of an expression before a token that does not go on with it. -/
def phrases : Language := fun x k => ∃ e : Expr, x = e.kinds ∧ e.EndsAt k

theorem begins_phrases : phrases.Begins where
  first := by
    rintro _ k ⟨e, rfl, -⟩
    obtain ⟨j, js, hj, hsym⟩ := e.exists_kinds_cons
    rw [hj]
    exact ⟨by simp, Token.neutral_of_ne_symbol hsym⟩
  phrase := ⟨_, fun k hk => ⟨.string "", rfl, endsAt_of_ne hk.1⟩⟩

theorem phrases_comma (h : phrases x k) : phrases x (.symbol ',') := by
  obtain ⟨e, rfl, -⟩ := h
  exact ⟨e, rfl, endsAt_of_ne (by simp)⟩

/-- Listed expressions end where the last of them does, but not before a comma. -/
theorem listed_phrases_iff : Language.Listed phrases x k ↔
    ∃ es, es ≠ [] ∧ x = kindsList es ∧ k ≠ .symbol ',' ∧ ∀ e ∈ es.getLast?, e.EndsAt k := by
  constructor
  · intro h
    induction h with
    | last h hk =>
      obtain ⟨e, rfl, he⟩ := h
      exact ⟨[e], by simp, by simp [kindsList], hk, by simpa using he⟩
    | cons h _ ih =>
      obtain ⟨e, rfl, -⟩ := h
      obtain ⟨es, hes, rfl, hk, hlast⟩ := ih
      obtain ⟨f, fs, rfl⟩ := List.exists_cons_of_ne_nil hes
      exact ⟨e :: f :: fs, by simp, by simp [kindsList], hk, by simpa using hlast⟩
  · rintro ⟨es, hes, rfl, hk, hlast⟩
    induction es with
    | nil => exact absurd rfl hes
    | cons e es ih =>
      cases es with
      | nil =>
        rw [kindsList]
        exact .last ⟨e, rfl, by simpa using hlast⟩ hk
      | cons f fs =>
        rw [kindsList]
        exact .cons ⟨e, rfl, endsAt_of_ne (by simp)⟩ (ih (by simp) (by simpa using hlast))

/-! ## Calls -/

/-- What stands behind the opening parenthesis of a call. -/
def argumentPhrases : Language := fun x _ => ∃ args, x = kindsList args ++ [.symbol ')']

/-- What stands behind the name of a call. -/
def callPhrases : Language :=
  fun x _ => ∃ args, x = .symbol '(' :: (kindsList args ++ [.symbol ')'])

theorem next_kindsList_ne_symbol {args : List Expr} (h : args ≠ []) (rest : List Kind) (c : Char) :
    Token.next (kindsList args ++ rest) ≠ .symbol c := by
  obtain ⟨e, es, rfl⟩ := List.exists_cons_of_ne_nil h
  obtain ⟨k, ks, hk, hsym⟩ := e.exists_kinds_cons
  cases es <;> simpa [kindsList, hk, Token.next] using hsym c

theorem begins_argumentPhrases : argumentPhrases.Begins where
  first := by
    rintro _ _ ⟨args, rfl⟩
    refine ⟨by simp, ?_⟩
    cases args with
    | nil =>
      rw [kindsList]
      decide
    | cons e es => exact Token.neutral_of_ne_symbol (next_kindsList_ne_symbol (by simp) _)
  phrase := ⟨_, fun _ _ => ⟨[], rfl⟩⟩

theorem arguments_follows {expr : Parser Expr} (h : expr.Follows phrases) :
    (arguments expr).Follows argumentPhrases := by
  have hlist := (h.commaList phrases_comma).seqLeft (Parser.symbol_follows ')')
    (.token (by decide))
  intro ks
  simp only [arguments, Parser.run_peek]
  split
  · rename_i hk
    obtain ⟨ls, rfl⟩ := Token.exists_cons_of_next hk (by simp)
    refine ⟨[.symbol ')'], rfl, ⟨[], rfl⟩, fun _ _ => ⟨[], rfl⟩, ?_⟩
    rintro _ s r ⟨args, rfl⟩ happ -
    cases args with
    | nil => rfl
    | cons e es =>
      refine absurd (congrArg Token.next happ) ?_
      rw [List.append_assoc]
      exact next_kindsList_ne_symbol (by simp) _ ')'
  · rename_i hk
    refine (hlist ks).widen ?_ ?_
    · rintro _ k ⟨x, _, rfl, hx, _, rfl, rfl⟩
      obtain ⟨args, -, rfl, -⟩ := listed_phrases_iff.1 hx
      exact ⟨args, rfl⟩
    · rintro _ s ⟨args, rfl⟩ hnext
      cases args with
      | nil => exact absurd hnext.symm hk
      | cons e es =>
        refine ⟨_, _, rfl, listed_phrases_iff.2 ⟨_, by simp, rfl, ?_, ?_⟩, _, rfl, rfl⟩
        · simp
        · exact fun f _ => endsAt_of_ne (by simp)

theorem call_follows {expr : Parser Expr} (h : expr.Follows phrases) (name : String) :
    (Parser.symbol '(' *> call name <$> arguments expr).Follows callPhrases := by
  have hseq := (Parser.symbol_follows '(').seqRight ((arguments_follows h).map (call name))
    begins_argumentPhrases
  intro ks
  refine (hseq ks).widen ?_ ?_
  · rintro _ _ ⟨_, _, rfl, ⟨_, rfl, rfl⟩, args, rfl⟩
    exact ⟨args, rfl⟩
  · rintro _ s ⟨args, rfl⟩ -
    exact ⟨_, _, rfl, ⟨_, rfl, rfl⟩, args, rfl⟩

/-! ## Any expression -/

/-- A name is an expression unless an opening parenthesis follows, and then it is the name of a
call. -/
theorem verdict_ident {onCall : Parser Expr} (h : onCall.Follows callPhrases) (name : String)
    (ks : List Kind) :
    Verdict phrases (.ident name :: ks)
      (((Parser.skip (var name)).thenIf (.symbol '(') fun _ => onCall).run
        (.ident name :: ks)) := by
  change Verdict phrases ([.ident name] ++ ks)
    (if Token.next ks = .symbol '(' then onCall.run ks else .ok (var name, ks))
  have htail : Verdict (.optional (.symbol '(') callPhrases) ks
      (if Token.next ks = .symbol '(' then onCall.run ks else .ok (var name, ks)) := by
    split
    · exact (h ks).optional ‹_›
    · refine ⟨[], rfl, Parser.accepted_optional_nil ‹_› (by decide) ?_⟩
      rintro _ _ ⟨args, rfl⟩
      rfl
  refine ((Parser.accepted_single ks).andThen (fun _ _ => ⟨_, rfl, rfl⟩) htail).widen ?_ ?_
  · rintro _ k ⟨_, y, rfl, ⟨_, rfl, rfl⟩, ⟨rfl, hk⟩ | ⟨args, rfl⟩⟩
    · exact ⟨var name, rfl, endsAt_of_ne hk⟩
    · exact ⟨call name args, rfl, fun _ => endsInName_kinds_call name args⟩
  · rintro _ s ⟨e, rfl, he⟩ hnext
    cases e with
    | string text => cases hnext
    | number digits => cases hnext
    | var other =>
      cases hnext
      refine ⟨_, [], rfl, ⟨_, rfl, rfl⟩, .inl ⟨rfl, fun hs => ?_⟩⟩
      simpa [kinds, Token.endsInName] using he hs
    | call other args =>
      cases hnext
      exact ⟨_, _, rfl, ⟨_, rfl, rfl⟩, .inr ⟨args, rfl⟩⟩

/-- A literal is an expression whatever follows. -/
theorem accepted_literal {e : Expr} (he : e.kinds = [k]) (hk : ∀ name, k ≠ .ident name)
    (rest : List Kind) : Accepted phrases [k] rest := by
  have hends (j : Kind) : phrases [k] j := by
    refine ⟨e, he.symm, fun _ => ?_⟩
    rw [he]
    cases k with
    | ident name => exact absurd rfl (hk name)
    | _ => rfl
  refine ⟨hends _, fun j _ => hends j, ?_⟩
  rintro _ s r ⟨f, rfl, -⟩ happ -
  have hfirst := congrArg Token.next happ
  cases f with
  | string text => exact congrArg ([·]) hfirst
  | number digits => exact congrArg ([·]) hfirst
  | var name => exact absurd hfirst.symm (hk name)
  | call name args => exact absurd hfirst.symm (hk name)

theorem parserWith_follows {onCall : String → Parser Expr}
    (h : ∀ name, (onCall name).Follows callPhrases) : (parserWith onCall).Follows phrases := by
  intro ks
  simp only [parserWith, Parser.run_peek]
  split
  · rename_i text hk
    obtain ⟨ls, rfl⟩ := Token.exists_cons_of_next hk (by simp)
    exact ⟨[.string text], rfl, accepted_literal (e := string text) rfl (by simp) ls⟩
  · rename_i digits hk
    obtain ⟨ls, rfl⟩ := Token.exists_cons_of_next hk (by simp)
    exact ⟨[.number digits], rfl, accepted_literal (e := number digits) rfl (by simp) ls⟩
  · rename_i name hk
    obtain ⟨ls, rfl⟩ := Token.exists_cons_of_next hk (by simp)
    exact verdict_ident (h name) name ls
  · rename_i hstring hnumber hident
    refine .refuse begins_phrases.phrase ?_
    rintro _ s ⟨e, rfl, -⟩ hnext
    cases e with
    | string text => exact hstring text hnext.symm
    | number digits => exact hnumber digits hnext.symm
    | var name => exact hident name hnext.symm
    | call name args => exact hident name hnext.symm

/-- Tokens that begin with a name and are refused begin a call: a name alone is refused nowhere. -/
theorem exists_call_of_refused {before rest ks : List Kind} {name : String}
    (h : Refused phrases before rest) (hks : before ++ rest = .ident name :: ks) :
    ∃ f args w, before ++ w = (call f args).kinds := by
  obtain ⟨w, hw⟩ := h.viable
  obtain ⟨e, he, -⟩ := hw .eof (by decide)
  have hvar (k : Kind) (hk : k ≠ .symbol '(') : phrases [.ident name] k :=
    ⟨var name, rfl, endsAt_of_ne hk⟩
  match before, hks with
  | [], hks =>
    obtain rfl : rest = .ident name :: ks := hks
    exact absurd rfl (h.stuck (s := []) (r := [.ident name]) (hvar .eof (by decide)) rfl)
  | [_], hks =>
    obtain ⟨rfl, rfl⟩ := List.cons.inj hks
    by_cases hnext : Token.next rest = .symbol '('
    · have hcall : phrases (call name []).kinds .eof := ⟨_, rfl, endsAt_of_ne (by decide)⟩
      exact absurd hnext.symm
        (h.stuck (s := []) (r := [.symbol '(', .symbol ')']) hcall (by simp [kinds, kindsList]))
    · exact absurd rfl (h.stuck (hvar _ hnext) rfl)
  | j :: k :: before, _ =>
    cases e with
    | call f args => exact ⟨f, args, w, he⟩
    | _ => simp [kinds] at he

/-- Whatever the budget, what is refused is refused by the grammar. -/
theorem parser_follows (budget : Nat) : (parser budget).Follows phrases := by
  induction budget with
  | zero => exact parserWith_follows fun _ => .fail fun _ => rfl
  | succ budget ih => exact parserWith_follows (call_follows ih)

end Expr

end Shellwright
