import Shellwright.Proofs.Parser

/-!
# What parsers refuse

A parser looks one token ahead. The tokens it has taken and the next one leave it no choice about
the phrase they belong to, so a token it refuses is one that no phrase goes on with, while the
tokens before it do begin a phrase. The combinators keep this.

Whether tokens are a phrase may depend on what comes behind them: a name is no expression before an
opening parenthesis. A language therefore relates phrases to the token behind them.

## Main definitions

* `Language`: the phrases of one sort, each before the token that comes next.
* `Parser.Accepted`, `Parser.Refused`: what is known of the tokens before the place where a parser
  stops.
* `Parser.Follows`: wherever a parser stops, that is known of the tokens it was given.

## Main statements

* `Parser.Follows.bind`, `Parser.Follows.commaList`, `Parser.Follows.untilClose`: parsers made of
  parsers that follow a language.
-/
namespace Shellwright

open Token (Kind)

/-- The causes that refuse a token where it stands; the others refuse a phrase that has been read,
or a level. -/
def SyntaxError.Cause.refusesToken : SyntaxError.Cause → Bool
  | expected _ _ | expectedExpression _ | unknownKeyword _ | unexpectedToken _ => true
  | invalidStatement _ | nonRunInPipe _ | nestingTooDeep => false

namespace Token

@[simp] theorem next_cons (k : Kind) (ks : List Kind) : next (k :: ks) = k := rfl

/-- Before the end of the input, the next token is the first one. -/
theorem exists_cons_of_next {ks : List Kind} {k : Kind} (h : next ks = k) (hk : k ≠ .eof) :
    ∃ ls, ks = k :: ls := by
  cases ks with
  | nil => exact absurd h.symm hk
  | cons j ls => exact ⟨ls, congrArg (· :: ls) h⟩

theorem next_append {ks : List Kind} (h : ks ≠ []) (ls : List Kind) :
    next (ks ++ ls) = next ks := by
  cases ks with
  | nil => exact absurd rfl h
  | cons k ks => rfl

/-- What comes next behind equal tokens. -/
theorem next_append_congr {ls ms : List Kind} (h : next ls = next ms) (ks : List Kind) :
    next (ks ++ ls) = next (ks ++ ms) := by
  cases ks with
  | nil => exact h
  | cons k ks => rfl

theorem next_append_singleton_next (ks ls : List Kind) :
    next (ks ++ [next ls]) = next (ks ++ ls) := by
  cases ks <;> rfl

/-- The token goes on with no phrase. -/
def Neutral (k : Kind) : Prop := k ≠ .symbol '(' ∧ k ≠ .symbol ','

instance : DecidablePred Neutral := fun k =>
  inferInstanceAs (Decidable (k ≠ .symbol '(' ∧ k ≠ .symbol ','))

theorem neutral_of_ne_symbol {k : Kind} (h : ∀ c, k ≠ .symbol c) : Neutral k := ⟨h _, h _⟩

end Token

open Token (Neutral next_append next_append_congr next_append_singleton_next)

/-! ## Languages -/

/-- Which tokens are a phrase when a given token comes next. -/
abbrev Language := List Kind → Kind → Prop

namespace Language

variable {L M : Language}

/-- Phrases made of one and another one behind it. -/
def andThen (L M : Language) : Language :=
  fun z k => ∃ x y, z = x ++ y ∧ L x (Token.next (y ++ [k])) ∧ M y k

/-- One token that `P` allows. -/
def single (P : Kind → Prop) : Language := fun x _ => ∃ k, P k ∧ x = [k]

/-- Phrases that begin with the token `j`, or nothing where `j` does not come next. -/
def optional (j : Kind) (L : Language) : Language := fun x k => x = [] ∧ k ≠ j ∨ L x k

/-- One or more phrases with a comma between any two. -/
inductive Listed (L : Language) : Language where
  | last {x : List Kind} {k : Kind} (h : L x k) (hk : k ≠ .symbol ',') : Listed L x k
  | cons {x y : List Kind} {k : Kind} (h : L x (.symbol ',')) (tail : Listed L y k) :
      Listed L (x ++ .symbol ',' :: y) k

/-- What stands behind the first phrase of a list that goes on. -/
def More (L : Language) : Language := (single (· = .symbol ',')).andThen (Listed L)

theorem listed_eq_andThen (L : Language) :
    Listed L = L.andThen (optional (.symbol ',') (More L)) := by
  funext z k
  refine propext ⟨?_, ?_⟩
  · rintro (⟨h, hk⟩ | ⟨h, tail⟩)
    · exact ⟨z, [], by simp, h, .inl ⟨rfl, hk⟩⟩
    · exact ⟨_, _, rfl, h, .inr ⟨_, _, rfl, ⟨_, rfl, rfl⟩, tail⟩⟩
  · rintro ⟨x, y, rfl, hx, ⟨rfl, hk⟩ | ⟨_, z, rfl, ⟨_, rfl, rfl⟩, hz⟩⟩
    · simpa using Listed.last hx hk
    · exact .cons hx hz

/-- Any number of phrases and the symbol that closes them. -/
inductive Closed (c : Char) (L : Language) : Language where
  | nil {k : Kind} : Closed c L [.symbol c] k
  | cons {x y : List Kind} {k : Kind} (h : L x (Token.next (y ++ [k]))) (tail : Closed c L y k) :
      Closed c L (x ++ y) k

/-- There are phrases, and each begins with a token that goes on with no phrase before it. -/
structure Begins (L : Language) : Prop where
  first : ∀ {x k}, L x k → x ≠ [] ∧ Neutral (Token.next x)
  phrase : ∃ x, ∀ k, Neutral k → L x k

namespace Begins

theorem neutral_next_append (h : L.Begins) {x : List Kind} {k : Kind} (hx : L x k)
    (ks : List Kind) : Neutral (Token.next (x ++ ks)) := by
  rw [next_append (h.first hx).1]
  exact (h.first hx).2

theorem first_append (h : L.Begins) {x : List Kind} {k : Kind} (hx : L x k) (ks : List Kind) :
    x ++ ks ≠ [] ∧ Neutral (Token.next (x ++ ks)) :=
  ⟨by simp [(h.first hx).1], h.neutral_next_append hx ks⟩

theorem andThen (hL : L.Begins) (hM : M.Begins) : (L.andThen M).Begins where
  first := by
    rintro _ k ⟨x, y, rfl, hx, -⟩
    exact hL.first_append hx y
  phrase := by
    obtain ⟨x, hx⟩ := hL.phrase
    obtain ⟨y, hy⟩ := hM.phrase
    exact ⟨x ++ y, fun k hk => ⟨x, y, rfl, hx _ (hM.neutral_next_append (hy k hk) _), hy k hk⟩⟩

theorem token {k : Kind} (h : Neutral k) : (single (· = k)).Begins where
  first := by
    rintro _ _ ⟨_, rfl, rfl⟩
    exact ⟨by simp, h⟩
  phrase := ⟨[k], fun _ _ => ⟨k, rfl, rfl⟩⟩

theorem name : (single fun k => ∃ name, k = .ident name).Begins where
  first := by
    rintro _ _ ⟨_, ⟨name, rfl⟩, rfl⟩
    exact ⟨by simp, Token.neutral_of_ne_symbol (by simp)⟩
  phrase := ⟨[.ident ""], fun _ _ => ⟨_, ⟨"", rfl⟩, rfl⟩⟩

theorem listed (h : L.Begins) : (Listed L).Begins where
  first := by
    rintro x k (⟨hx, -⟩ | ⟨hx, -⟩)
    · exact h.first hx
    · exact h.first_append hx _
  phrase := by
    obtain ⟨x, hx⟩ := h.phrase
    exact ⟨x, fun k hk => .last (hx k hk) hk.2⟩

theorem closed {c : Char} (h : L.Begins) (hc : Neutral (.symbol c)) : (Closed c L).Begins where
  first := by
    rintro x k (_ | ⟨hx, -⟩)
    · exact ⟨by simp, hc⟩
    · exact h.first_append hx _
  phrase := ⟨[.symbol c], fun _ _ => .nil⟩

end Begins

end Language

namespace Parser

variable {α β : Type} {L M : Language} {ks rest before x mid : List Kind}

/-- The tokens `x`, taken before `rest`, are a phrase, and no other phrase stands in front of what
begins with them and with the token behind them. -/
structure Accepted (L : Language) (x rest : List Kind) : Prop where
  here : L x (Token.next rest)
  neutral : ∀ k, Neutral k → L x k
  unique : ∀ {y s r}, L y (Token.next s) → y ++ s = x ++ r → Token.next r = Token.next rest → y = x

/-- The tokens `before` begin a phrase, and together with the first one of `rest` they do not. -/
structure Refused (L : Language) (before rest : List Kind) : Prop where
  viable : ∃ w, ∀ k, Neutral k → L (before ++ w) k
  stuck : ∀ {y s r}, L y (Token.next s) → y ++ s = before ++ r → Token.next r ≠ Token.next rest

/-- What an outcome of reading `ks` tells about the phrases of a language. -/
def Verdict (L : Language) (ks : List Kind) : Except Failure (α × List Kind) → Prop
  | .ok (_, rest) => ∃ x, ks = x ++ rest ∧ Accepted L x rest
  | .error e => e.cause.refusesToken = true →
    ∃ before, ks = before ++ e.rest ∧ Refused L before e.rest

/-- The parser reads phrases of the language and stops where there can be none. -/
def Follows (p : Parser α) (L : Language) : Prop := ∀ ks, Verdict L ks (p.run ks)

/-! ## Verdicts -/

section Verdict

variable {o : Except Failure (α × List Kind)}

theorem Verdict.map (h : Verdict L ks o) (f : α → β) :
    Verdict L ks (o.map fun (a, rest) => (f a, rest)) := by
  cases o <;> exact h

/-- A token that begins no phrase is refused at once. -/
theorem Verdict.refuse {c : SyntaxError.Cause} (hL : ∃ x, ∀ k, Neutral k → L x k)
    (h : ∀ {y s}, L y (Token.next s) → Token.next (y ++ s) ≠ Token.next ks) :
    Verdict L ks (.error ⟨c, ks⟩ : Except Failure (α × List Kind)) := by
  refine fun _ => ⟨[], rfl, hL, ?_⟩
  intro y s r hy happ
  rw [List.nil_append] at happ
  exact happ ▸ h hy

/-- A verdict on some phrases holds of more, if none of the others begins with the same token. -/
theorem Verdict.widen (h : Verdict L ks o) (hLM : ∀ {x k}, L x k → M x k)
    (hML : ∀ {y s}, M y (Token.next s) → Token.next (y ++ s) = Token.next ks →
      L y (Token.next s)) : Verdict M ks o := by
  cases o with
  | ok r =>
    obtain ⟨a, rest⟩ := r
    obtain ⟨x, rfl, hx⟩ := h
    refine ⟨x, rfl, hLM hx.here, fun k hk => hLM (hx.neutral k hk), ?_⟩
    intro y s r hy happ hr
    have hfirst : Token.next (y ++ s) = Token.next (x ++ rest) := by
      rw [happ, next_append_congr hr]
    exact hx.unique (hML hy hfirst) happ hr
  | error e =>
    intro hc
    obtain ⟨before, rfl, hb⟩ := h hc
    obtain ⟨w, hw⟩ := hb.viable
    refine ⟨before, rfl, ⟨w, fun k hk => hLM (hw k hk)⟩, ?_⟩
    intro y s r hy happ hr
    have hfirst : Token.next (y ++ s) = Token.next (before ++ e.rest) := by
      rw [happ, next_append_congr hr]
    exact hb.stuck (hML hy hfirst) happ hr

/-- A first part that is refused is refused as the beginning of the whole. -/
theorem Refused.andThen (h : Refused L before rest)
    (hM : ∃ y, ∀ k, Neutral k → M y k ∧ Neutral (Token.next (y ++ [k]))) :
    Refused (L.andThen M) before rest where
  viable := by
    obtain ⟨w, hw⟩ := h.viable
    obtain ⟨y, hy⟩ := hM
    exact ⟨w ++ y, fun k hk => ⟨before ++ w, y, by simp, hw _ (hy k hk).2, (hy k hk).1⟩⟩
  stuck := by
    rintro _ s r ⟨x, y, rfl, hx, -⟩ happ
    rw [next_append_singleton_next] at hx
    exact h.stuck hx (by rw [← happ, List.append_assoc])

/-- Behind a first part that is accepted, the second part decides. -/
theorem Accepted.andThen (hx : Accepted L x mid)
    (hM : ∀ {y k}, M y k → Neutral k → L x (Token.next (y ++ [k]))) (h : Verdict M mid o) :
    Verdict (L.andThen M) (x ++ mid) o := by
  -- a phrase of the whole that begins alike has the same first part
  have hpart {x' y s r : List Kind} (hx' : L x' (Token.next (y ++ [Token.next s])))
      (happ : x' ++ y ++ s = x ++ r) (hr : Token.next r = Token.next mid) :
      x' = x ∧ y ++ s = r := by
    rw [next_append_singleton_next] at hx'
    rw [List.append_assoc] at happ
    obtain rfl := hx.unique hx' happ hr
    exact ⟨rfl, List.append_cancel_left happ⟩
  cases o with
  | error e =>
    intro hc
    obtain ⟨before, rfl, hb⟩ := h hc
    refine ⟨x ++ before, by simp, ?_, ?_⟩
    · obtain ⟨w, hw⟩ := hb.viable
      exact ⟨w, fun k hk => ⟨x, before ++ w, by simp, hM (hw k hk) hk, hw k hk⟩⟩
    · rintro _ s r ⟨x', y, rfl, hx', hy⟩ happ hr
      rw [List.append_assoc x] at happ
      obtain ⟨-, hrest⟩ := hpart hx' happ (next_append_congr hr before)
      exact hb.stuck hy hrest hr
  | ok r =>
    obtain ⟨a, rest⟩ := r
    obtain ⟨y, rfl, hy⟩ := h
    refine ⟨x ++ y, by simp, ⟨x, y, rfl, ?_, hy.here⟩,
      fun k hk => ⟨x, y, rfl, hM (hy.neutral k hk) hk, hy.neutral k hk⟩, ?_⟩
    · rw [next_append_singleton_next]
      exact hx.here
    · rintro _ s r ⟨x', y', rfl, hx', hy'⟩ happ hr
      rw [List.append_assoc x] at happ
      obtain ⟨rfl, hrest⟩ := hpart hx' happ (next_append_congr hr y)
      rw [hy.unique hy' hrest hr]

theorem accepted_single {k : Kind} (rest : List Kind) : Accepted (.single (· = k)) [k] rest := by
  refine ⟨⟨_, rfl, rfl⟩, fun _ _ => ⟨_, rfl, rfl⟩, ?_⟩
  rintro _ s r ⟨_, rfl, rfl⟩ - -
  rfl

theorem Verdict.optional {j : Kind} (h : Verdict L ks o) (hj : Token.next ks = j) :
    Verdict (.optional j L) ks o := by
  refine h.widen .inr ?_
  rintro y s (⟨rfl, hs⟩ | hy) hnext
  · exact absurd (hnext.trans hj) hs
  · exact hy

/-- Where `j` does not come next, nothing is taken. -/
theorem accepted_optional_nil {j : Kind} (h : Token.next rest ≠ j) (hj : ¬ Neutral j)
    (hL : ∀ {x k}, L x k → Token.next (x ++ [k]) = j) : Accepted (.optional j L) [] rest := by
  refine ⟨.inl ⟨rfl, h⟩, fun k hk => .inl ⟨rfl, fun hkj => hj (hkj ▸ hk)⟩, ?_⟩
  rintro y s r (⟨rfl, -⟩ | hy) happ hr
  · rfl
  · have hnext := hL hy
    rw [next_append_singleton_next, happ] at hnext
    exact absurd (hr.symm.trans hnext) h

end Verdict

/-! ## Parsers -/

variable {p : Parser α} {a : α} {e : Failure}

theorem Follows.accepted (h : p.Follows L) (hp : p.run ks = .ok (a, rest)) :
    ∃ x, ks = x ++ rest ∧ Accepted L x rest := by
  have hks := h ks
  rwa [hp] at hks

theorem Follows.refused (h : p.Follows L) (hp : p.run ks = .error e)
    (hc : e.cause.refusesToken = true) :
    ∃ before, ks = before ++ e.rest ∧ Refused L before e.rest := by
  have hks := h ks
  rw [hp] at hks
  exact hks hc

theorem Follows.map (h : p.Follows L) (f : α → β) : (f <$> p).Follows L := by
  intro ks
  rw [run_map]
  exact (h ks).map f

/-- A failure that refuses no token says nothing about phrases. -/
theorem Follows.fail {cause : Kind → SyntaxError.Cause} (h : ∀ k, (cause k).refusesToken = false) :
    (fail cause : Parser α).Follows L := by
  intro ks hc
  rw [h] at hc
  cases hc

/-- Phrases that are refused after they have been read are phrases all the same. -/
theorem Follows.require (h : p.Follows L) {f : α → Except SyntaxError.Cause β}
    (hf : ∀ {a c}, f a = .error c → c.refusesToken = false) : (p.require f).Follows L := by
  intro ks
  have hp := h ks
  unfold Parser.require
  cases hrun : p.run ks with
  | error e =>
    simp only [hrun] at hp ⊢
    exact hp
  | ok r =>
    obtain ⟨a, rest⟩ := r
    simp only [hrun] at hp ⊢
    cases hfa : f a with
    | error c =>
      intro hc
      rw [hf hfa] at hc
      cases hc
    | ok b => exact hp

/-- A token that is picked out, or refused at once. -/
theorem Follows.token {what : Expectation} {f : Kind → Option α} {P : Kind → Prop}
    (hP : ∀ k, (f k).isSome = true ↔ P k) {k : Kind} (hk : P k) (heof : ¬ P .eof) :
    (token what f).Follows (.single P) := by
  intro ks
  have hrefuse (hnext : ¬ P (Token.next ks)) (c : SyntaxError.Cause) :
      Verdict (.single P) ks (.error ⟨c, ks⟩ : Except Failure (α × List Kind)) := by
    refine .refuse ⟨[k], fun _ _ => ⟨k, hk, rfl⟩⟩ ?_
    rintro _ s ⟨j, hj, rfl⟩ hj'
    exact hnext (hj' ▸ hj)
  cases ks with
  | nil => exact hrefuse heof _
  | cons j ks =>
    rw [run_token_cons]
    have hj := hP j
    cases hf : f j with
    | none =>
      rw [hf] at hj
      exact hrefuse (fun h => by simpa using hj.2 h) _
    | some a =>
      rw [hf] at hj
      have hpj : P j := hj.1 rfl
      refine ⟨[j], rfl, ⟨j, hpj, rfl⟩, fun _ _ => ⟨j, hpj, rfl⟩, ?_⟩
      rintro _ s r ⟨i, hi, rfl⟩ happ -
      rw [(List.cons.inj happ).1]

theorem symbol_follows (c : Char) : (symbol c).Follows (.single (· = .symbol c)) :=
  .token (by simp) rfl (by simp)

theorem keyword_follows (w : Keyword) : (keyword w).Follows (.single (· = .keyword w)) :=
  .token (by simp) rfl (by simp)

theorem identifier_follows : identifier.Follows (.single fun k => ∃ name, k = .ident name) := by
  refine .token (fun k => ?_) ⟨"", rfl⟩ (by simp)
  cases k <;> simp

theorem Follows.bind {q : α → Parser β} (hp : p.Follows L) (hq : ∀ a, (q a).Follows M)
    (hM : M.Begins) : (p >>= q).Follows (L.andThen M) := by
  intro ks
  rw [run_bind]
  cases hrun : p.run ks with
  | error e =>
    intro hc
    obtain ⟨before, rfl, hb⟩ := hp.refused hrun hc
    obtain ⟨y, hy⟩ := hM.phrase
    exact ⟨before, rfl,
      hb.andThen ⟨y, fun k hk => ⟨hy k hk, hM.neutral_next_append (hy k hk) _⟩⟩⟩
  | ok r =>
    obtain ⟨a, mid⟩ := r
    obtain ⟨x, rfl, hx⟩ := hp.accepted hrun
    exact hx.andThen (fun hy _ => hx.neutral _ (hM.neutral_next_append hy _)) (hq a mid)

theorem Follows.seqRight {q : Parser β} (hp : p.Follows L) (hq : q.Follows M) (hM : M.Begins) :
    (p *> q).Follows (L.andThen M) := hp.bind (fun _ => hq) hM

theorem Follows.seqLeft {q : Parser β} (hp : p.Follows L) (hq : q.Follows M) (hM : M.Begins) :
    (p <* q).Follows (L.andThen M) := hp.bind (fun _ => hq.map _) hM

/-! ## Repetition -/

/-- Every phrase of a list may stand before a comma. -/
theorem Follows.commaList (h : p.Follows L) (comma : ∀ {x k}, L x k → L x (.symbol ',')) :
    p.commaList.Follows (.Listed L) := by
  intro ks
  change Verdict _ ks (runCommaList p ks)
  have hmore {x mid : List Kind} (hx : Accepted L x mid) {y : List Kind} {k : Kind}
      (hy : Language.optional (.symbol ',') (.More L) y k) (hk : Neutral k) :
      L x (Token.next (y ++ [k])) := by
    obtain ⟨rfl, -⟩ | ⟨_, z, rfl, ⟨_, rfl, rfl⟩, -⟩ := hy
    · exact hx.neutral k hk
    · exact comma hx.here
  -- behind a comma the list goes on
  have hcons {mid : List Kind} {o : Except Failure (List α × List Kind)}
      (ho : Verdict (.Listed L) mid o) : Verdict (.More L) (.symbol ',' :: mid) o :=
    (accepted_single mid).andThen (fun _ _ => ⟨_, rfl, rfl⟩) ho
  fun_induction runCommaList p ks with
  | case1 ks e hp =>
    intro hc
    obtain ⟨before, rfl, hb⟩ := h.refused hp hc
    rw [Language.listed_eq_andThen]
    exact ⟨before, rfl, hb.andThen ⟨[], fun k hk => ⟨.inl ⟨rfl, hk.2⟩, hk⟩⟩⟩
  | case2 ks a mid hp e hm ih =>
    obtain ⟨x, rfl, hx⟩ := h.accepted hp
    rw [hm] at ih
    rw [Language.listed_eq_andThen]
    exact hx.andThen (hmore hx) ((hcons ih).optional rfl)
  | case3 ks a mid hp as rest hm ih =>
    obtain ⟨x, rfl, hx⟩ := h.accepted hp
    rw [hm] at ih
    rw [Language.listed_eq_andThen]
    have htail : Verdict (.More L) (.symbol ',' :: mid) (.ok (a :: as, rest)) := hcons ih
    exact hx.andThen (hmore hx) (htail.optional rfl)
  | case4 ks a rest hn hp =>
    obtain ⟨x, rfl, hx⟩ := h.accepted hp
    have hrest : Token.next rest ≠ .symbol ',' := by
      intro hk
      obtain ⟨ls, rfl⟩ := Token.exists_cons_of_next hk (by simp)
      exact hn ls rfl
    rw [Language.listed_eq_andThen]
    refine hx.andThen (hmore hx) ⟨[], rfl, accepted_optional_nil hrest (by decide) ?_⟩
    rintro _ k ⟨_, z, rfl, ⟨_, rfl, rfl⟩, -⟩
    rfl

/-- Any number of phrases up to a symbol that begins none of them. -/
theorem Follows.untilClose {c : Char} (h : p.Follows L) (hL : L.Begins)
    (hfirst : ∀ {x k}, L x k → Token.next x ≠ .symbol c) (hc : Neutral (.symbol c)) :
    (p.untilClose c).Follows (.Closed c L) := by
  intro ks
  change Verdict _ ks (runUntilClose c p ks)
  have hclosed := hL.closed hc
  -- before another token than the closing symbol, a phrase comes first
  have hwiden {ks : List Kind} (hk : Token.next ks ≠ .symbol c)
      {o : Except Failure (List α × List Kind)} (ho : Verdict (L.andThen (.Closed c L)) ks o) :
      Verdict (.Closed c L) ks o := by
    refine ho.widen ?_ ?_
    · rintro _ k ⟨x, y, rfl, hx, hy⟩
      exact .cons hx hy
    · rintro _ s (_ | ⟨hx, hy⟩) hnext
      · exact absurd hnext.symm hk
      · exact ⟨_, _, rfl, hx, hy⟩
  fun_induction runUntilClose c p ks with
  | case1 ks hk =>
    obtain ⟨ls, rfl⟩ := Token.exists_cons_of_next hk (by simp)
    refine ⟨[.symbol c], rfl, .nil, fun _ _ => .nil, ?_⟩
    rintro _ s r (_ | ⟨hx, hy⟩) happ -
    · rfl
    · refine absurd ?_ (hfirst hx)
      rw [List.append_assoc] at happ
      rw [← next_append (hL.first hx).1, happ]
      rfl
  | case2 ks hk e hp =>
    refine hwiden hk fun hc => ?_
    obtain ⟨before, rfl, hb⟩ := h.refused hp hc
    exact ⟨before, rfl, hb.andThen ⟨[.symbol c], fun k _ => ⟨.nil, ‹_›⟩⟩⟩
  | case3 ks hk a mid hp e hm ih =>
    rw [hm] at ih
    obtain ⟨x, rfl, hx⟩ := h.accepted hp
    exact hwiden hk (hx.andThen (fun hy _ => hx.neutral _ (hclosed.neutral_next_append hy _)) ih)
  | case4 ks hk a mid hp as rest hm ih =>
    rw [hm] at ih
    obtain ⟨x, rfl, hx⟩ := h.accepted hp
    have htail : Verdict (.Closed c L) mid (.ok (a :: as, rest)) := ih
    exact hwiden hk (hx.andThen (fun hy _ => hx.neutral _ (hclosed.neutral_next_append hy _)) htail)

end Parser

end Shellwright
