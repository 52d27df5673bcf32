import Shellwright.SyntaxError

/-!
# Parsers

A parser reads one phrase from the front of a list of token kinds. It knows nothing of positions: a
failure keeps the tokens that begin with the blamed one, and whoever holds the positions finds the
place by counting.

Every parser takes at least one token when it succeeds and blames a token it was given when it
fails. The first law lets the loops `commaList` and `untilClose` end by the length of the input.

## Main definitions

* `Parser`: a reader together with its two laws.
* `Parser.bind`, `Parser.map`, `Parser.peek`, `Parser.thenIf`, `Parser.require`: sequencing,
  lookahead by one token, and refusal of a phrase as a whole.
* `Parser.commaList`, `Parser.untilClose`: repetition.
-/
namespace Shellwright

open Token (Kind)
open SyntaxError (Cause)

/-- The token to read next; past the last one it is the end of the input. -/
def Token.next (ks : List Kind) : Kind := ks.headD .eof

/-- A cause and the tokens from the blamed one on. -/
structure Failure where
  cause : Cause
  rest : List Kind
deriving DecidableEq

/-- The tokens `rest` are what is left of `ks` after taking one or more. -/
def Token.Left (rest ks : List Kind) : Prop := rest <:+ ks ∧ rest.length < ks.length

structure Parser (α : Type) where
  run : List Kind → Except Failure (α × List Kind)
  consumes : ∀ {ks a rest}, run ks = .ok (a, rest) → Token.Left rest ks
  blames : ∀ {ks e}, run ks = .error e → e.rest <:+ ks

namespace Token.Left

theorem tail (k : Kind) (ks : List Kind) : Left ks (k :: ks) := ⟨List.suffix_cons k ks, by simp⟩

theorem trans {r s t : List Kind} (h : Left r s) (g : Left s t) : Left r t :=
  ⟨h.1.trans g.1, Nat.lt_trans h.2 g.2⟩

end Token.Left

namespace Parser

variable {α β : Type}

/-- Refuses whatever comes next. -/
def fail (cause : Kind → Cause) : Parser α where
  run ks := .error ⟨cause (Token.next ks), ks⟩
  consumes h := by cases h
  blames h := by cases h; exact List.suffix_rfl

/-- Takes the next token, whatever it is. -/
def skip (a : α) : Parser α where
  run
    | [] => .error ⟨.unexpectedToken .eof, []⟩
    | _ :: ks => .ok (a, ks)
  consumes {ks a rest} h := by
    split at h <;> cases h
    exact .tail _ _
  blames {ks e} h := by
    split at h <;> cases h
    exact List.suffix_rfl

/-- One token of the form that `f` picks out. -/
def token (what : Expectation) (f : Kind → Option α) : Parser α where
  run
    | [] => .error ⟨.expected what .eof, []⟩
    | k :: ks => match f k with
      | some a => .ok (a, ks)
      | none => .error ⟨.expected what k, k :: ks⟩
  consumes {ks a rest} h := by
    split at h
    · cases h
    split at h <;> cases h
    exact .tail _ _
  blames {ks e} h := by
    split at h
    · cases h
      exact List.suffix_rfl
    split at h <;> cases h
    exact List.suffix_rfl

def symbol (c : Char) : Parser Unit :=
  token (.symbol c) fun k => if k = .symbol c then some () else none

def keyword (w : Keyword) : Parser Unit :=
  token (.keyword w) fun k => if k = .keyword w then some () else none

def identifier : Parser String :=
  token .identifier fun
    | .ident name => some name
    | _ => none

def map (f : α → β) (p : Parser α) : Parser β where
  run ks := match p.run ks with
    | .ok (a, rest) => .ok (f a, rest)
    | .error e => .error e
  consumes {ks b rest} h := by
    split at h
    · cases h
      exact p.consumes ‹_›
    · cases h
  blames {ks e} h := by
    split at h
    · cases h
    · cases h
      exact p.blames ‹_›

/-- A phrase of `p`, then one of the parser it selects. -/
def bind (p : Parser α) (q : α → Parser β) : Parser β where
  run ks := match p.run ks with
    | .ok (a, rest) => (q a).run rest
    | .error e => .error e
  consumes {ks b rest} h := by
    split at h
    · rename_i hp
      exact ((q _).consumes h).trans (p.consumes hp)
    · cases h
  blames {ks e} h := by
    split at h
    · rename_i hp
      exact ((q _).blames h).trans (p.consumes hp).1
    · cases h
      exact p.blames ‹_›

/-- Chooses by the next token, which is left in place. -/
def peek (f : Kind → Parser α) : Parser α where
  run ks := (f (Token.next ks)).run ks
  consumes h := (f _).consumes h
  blames h := (f _).blames h

/-- A phrase of `p`, followed by one of `q` exactly if the token `k` comes next. -/
def thenIf (p : Parser α) (k : Kind) (q : α → Parser α) : Parser α where
  run ks := match p.run ks with
    | .ok (a, rest) => if Token.next rest = k then (q a).run rest else .ok (a, rest)
    | .error e => .error e
  consumes {ks b rest} h := by
    split at h
    · rename_i hp
      split at h
      · exact ((q _).consumes h).trans (p.consumes hp)
      · cases h
        exact p.consumes hp
    · cases h
  blames {ks e} h := by
    split at h
    · rename_i hp
      split at h
      · exact ((q _).blames h).trans (p.consumes hp).1
      · cases h
    · cases h
      exact p.blames ‹_›

/-- Reads a phrase whole and then refuses what `f` refuses, blaming its first token. -/
def require (p : Parser α) (f : α → Except Cause β) : Parser β where
  run ks := match p.run ks with
    | .ok (a, rest) => match f a with
      | .ok b => .ok (b, rest)
      | .error cause => .error ⟨cause, ks⟩
    | .error e => .error e
  consumes {ks b rest} h := by
    split at h
    · split at h
      · cases h
        exact p.consumes ‹_›
      · cases h
    · cases h
  blames {ks e} h := by
    split at h
    · split at h
      · cases h
      · cases h
        exact List.suffix_rfl
    · cases h
      exact p.blames ‹_›

instance : Functor Parser := ⟨map, fun a => map fun _ => a⟩

instance : Bind Parser := ⟨bind⟩

instance : SeqLeft Parser := ⟨fun p q => p.bind fun a => (q ()).map fun _ => a⟩

instance : SeqRight Parser := ⟨fun p q => p.bind fun _ => q ()⟩

/-! ## What each of them does -/

section Run

variable (ks : List Kind)

@[simp] theorem run_fail (cause : Kind → Cause) :
    (fail cause : Parser α).run ks = .error ⟨cause (Token.next ks), ks⟩ := rfl

@[simp] theorem run_skip_cons (a : α) (k : Kind) : (skip a).run (k :: ks) = .ok (a, ks) := rfl

@[simp] theorem run_token_cons (what : Expectation) (f : Kind → Option α) (k : Kind) :
    (token what f).run (k :: ks) = match f k with
      | some a => .ok (a, ks)
      | none => .error ⟨.expected what k, k :: ks⟩ := rfl

@[simp] theorem run_map (f : α → β) (p : Parser α) :
    (f <$> p).run ks = (p.run ks).map fun (a, rest) => (f a, rest) := by
  change (p.map f).run ks = _
  cases h : p.run ks <;> simp [map, h, Except.map]

@[simp] theorem run_bind (p : Parser α) (q : α → Parser β) :
    (p >>= q).run ks = p.run ks >>= fun (a, rest) => (q a).run rest := by
  change (p.bind q).run ks = _
  cases h : p.run ks <;> simp [bind, h, Bind.bind, Except.bind]

@[simp] theorem run_seqRight (p : Parser α) (q : Parser β) :
    (p *> q).run ks = p.run ks >>= fun (_, rest) => q.run rest := run_bind ks p fun _ => q

@[simp] theorem run_seqLeft (p : Parser α) (q : Parser β) :
    (p <* q).run ks =
      p.run ks >>= fun (a, rest) => (q.run rest).map fun (_, rest) => (a, rest) := by
  change (p >>= fun a => (fun _ => a) <$> q).run ks = _
  simp

@[simp] theorem run_peek (f : Kind → Parser α) :
    (peek f).run ks = (f (Token.next ks)).run ks := rfl

end Run

/-! ## Repetition -/

/-- One or more phrases with a comma between any two. -/
def runCommaList (p : Parser α) (ks : List Kind) : Except Failure (List α × List Kind) :=
  match _h : p.run ks with
  | .error e => .error e
  | .ok (a, .symbol ',' :: rest) => match runCommaList p rest with
    | .error e => .error e
    | .ok (as, rest) => .ok (a :: as, rest)
  | .ok (a, rest) => .ok ([a], rest)
termination_by ks.length
decreasing_by exact ((Token.Left.tail _ _).trans (p.consumes ‹_›)).2

theorem runCommaList_left {p : Parser α} {ks rest : List Kind} {as : List α}
    (h : runCommaList p ks = .ok (as, rest)) : Token.Left rest ks := by
  fun_induction runCommaList p ks generalizing as rest with
  | case1 => cases h
  | case2 => cases h
  | case3 ks a r hp bs r' hr ih =>
    cases h
    exact (ih hr).trans ((Token.Left.tail _ _).trans (p.consumes hp))
  | case4 ks a r hr hp =>
    cases h
    exact p.consumes hp

theorem runCommaList_suffix {p : Parser α} {ks : List Kind} {e : Failure}
    (h : runCommaList p ks = .error e) : e.rest <:+ ks := by
  fun_induction runCommaList p ks generalizing e with
  | case1 ks e' hp =>
    cases h
    exact p.blames hp
  | case2 ks a r hp e' hr ih =>
    cases h
    exact (ih hr).trans ((Token.Left.tail _ _).trans (p.consumes hp)).1
  | case3 => cases h
  | case4 => cases h

def commaList (p : Parser α) : Parser (List α) where
  run := runCommaList p
  consumes := runCommaList_left
  blames := runCommaList_suffix

/-- Any number of phrases up to the symbol `c`, which is taken too. -/
def runUntilClose (c : Char) (p : Parser α) (ks : List Kind) :
    Except Failure (List α × List Kind) :=
  if Token.next ks = .symbol c then .ok ([], ks.tail)
  else match _h : p.run ks with
    | .error e => .error e
    | .ok (a, rest) => match runUntilClose c p rest with
      | .error e => .error e
      | .ok (as, rest) => .ok (a :: as, rest)
termination_by ks.length
decreasing_by exact (p.consumes ‹_›).2

theorem runUntilClose_left {c : Char} {p : Parser α} {ks rest : List Kind} {as : List α}
    (h : runUntilClose c p ks = .ok (as, rest)) : Token.Left rest ks := by
  fun_induction runUntilClose c p ks generalizing as rest with
  | case1 ks hk =>
    cases h
    cases ks with
    | nil => simp [Token.next] at hk
    | cons k ks => exact .tail k ks
  | case2 => cases h
  | case3 => cases h
  | case4 ks hk a r hp bs r' hr ih =>
    cases h
    exact (ih hr).trans (p.consumes hp)

theorem runUntilClose_suffix {c : Char} {p : Parser α} {ks : List Kind} {e : Failure}
    (h : runUntilClose c p ks = .error e) : e.rest <:+ ks := by
  fun_induction runUntilClose c p ks generalizing e with
  | case1 => cases h
  | case2 ks hk e' hp =>
    cases h
    exact p.blames hp
  | case3 ks hk a r hp e' hr ih =>
    cases h
    exact (ih hr).trans (p.consumes hp).1
  | case4 => cases h

def untilClose (c : Char) (p : Parser α) : Parser (List α) where
  run := runUntilClose c p
  consumes := runUntilClose_left
  blames := runUntilClose_suffix

end Parser

end Shellwright
