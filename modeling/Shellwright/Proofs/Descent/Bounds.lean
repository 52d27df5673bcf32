import Shellwright.Proofs.Descent.Invariant

/-!
# How deep and how long reading goes

Where a phrase is entered, no more levels are open than there may be, and with them the stack is
bounded, however many tokens there are. A phrase is left at the level it was entered at and behind
at least one token more. Every step takes something from a sum of the tokens ahead and the phrases
to be left, so reading ends on every list of tokens.

## Main definitions

* `State.potential`: a bound for the number of steps that are left.
* `Stack.Called`: the enclosing phrases have been entered, with the cursors that the stack holds.

## Main statements

* `Stack.length_enclosing_le`: the stack is bounded by the levels in it.
* `potential_step_le`, `potential_run_le`: every step lowers the bound.
* `run_called`: what is left has been entered.
* `run_invariant`: depth, cursor and termination for every list of tokens.
-/
namespace Shellwright.Descent

open Token (Kind)
open Program (ofTokens)

variable {ts : List Token} {p q : Phrase} {entry k : Cursor} {outer : Stack q}
  {x : Except Failure (q.Tree × List Kind)} {o : Progress}

/-! ## The stack -/

/-- How many phrases may enclose one of this sort beyond three for each level that is open. -/
def Phrase.margin : Phrase → Nat
  | stmt => 0
  | list | block | pipe => 1
  | expr => 2
  | call => 3

theorem Phrase.margin_le (p : Phrase) : p.margin ≤ 3 := by
  cases p <;> decide

theorem Frame.margin_le (frame : Frame p q) : q.margin + 1 ≤ p.margin + 3 * q.opens.toNat := by
  cases frame <;> decide

/-- On the way from one level to the next there are at most two phrases that open none. -/
theorem Stack.length_enclosing_le (stack : Stack p) :
    stack.enclosing.length ≤ 3 * stack.enclosing.countP Phrase.opens + p.margin := by
  induction stack with
  | program done => exact Nat.zero_le _
  | @push p q frame entry outer ih =>
    have hframe := frame.margin_le
    simp only [enclosing, List.length_cons, List.countP_cons]
    cases hq : q.opens <;> simp [hq] at hframe ⊢ <;> omega

/-! ## The number of steps -/

/-- More than so many steps are not left. A token is worth six, so that the phrases and frames that
come with it are paid for, and a phrase that is left can still enter others. -/
def State.potential (ts : List Token) : State → Nat
  | ⟨k, .between _⟩ => 6 * (ts.length - k.pos) + 4
  | ⟨k, .enter p stack⟩ =>
    6 * (ts.length - k.pos) + 2 * stack.enclosing.length + 3 * p.rank
  | ⟨k, .leave _ _ _ stack⟩ => 6 * (ts.length - k.pos) + 2 * stack.enclosing.length + 5

/-- One more for the step to come, and nothing once the run has stopped. -/
def Progress.potential (ts : List Token) : Progress → Nat
  | .running s => s.potential ts + 1
  | .halted _ | .underflow => 0

theorem Phrase.rank_le (p : Phrase) : p.rank ≤ 1 := by
  cases p <;> decide

theorem Within.le_length (h : Within ts k) : k.pos ≤ ts.length :=
  Nat.le_trans h (length_kinds_le ts)

theorem Progress.potential_descend (ts : List Token) (frame : Frame p q) (entry j : Cursor)
    (outer : Stack q) : (descend entry outer frame j).potential ts =
      6 * (ts.length - j.pos) + 2 * (outer.enclosing.length + 1) + 3 * p.rank + 1 := rfl

theorem Progress.potential_ascend (ts : List Token) (tree : q.Tree) (entry j : Cursor)
    (outer : Stack q) : (ascend entry outer tree j).potential ts =
      6 * (ts.length - j.pos) + 2 * outer.enclosing.length + 6 := rfl

/-- A phrase that has just been entered takes a token or enters one of a lower rank. One that goes
on has taken a token already. -/
theorem Goes.potential_le (h : Goes ts entry k outer x o) :
    o.potential ts ≤ 6 * (ts.length - k.pos) + 2 * outer.enclosing.length +
      if entry.pos < k.pos then 7 else 3 * q.rank := by
  cases h with
  | @descend p frame j within le later depth limit meaning =>
    have hlength := within.le_length
    have hrank := p.rank_le
    -- without a token taken, the lower rank pays for the new frame
    rw [Progress.potential_descend]
    split <;> omega
  | @ascend tree j within le later depth meaning =>
    have hlength := within.le_length
    rw [Progress.potential_ascend]
    split <;> omega
  | fail cause within meaning => exact Nat.zero_le _

theorem potential_step_le {s : State} (h : s.Sound ts) :
    (step ts s).potential ts ≤ s.potential ts := by
  cases h with
  | @between k done within depth meaning =>
    cases hpeek : peek ts k with
    | eof =>
      simp only [step, hpeek]
      exact Nat.zero_le _
    | symbol c =>
      obtain ⟨hw, hpos, -⟩ := bump_of_peek within (by simp [hpeek])
      have hlength := hw.le_length
      simp only [step, hpeek, Progress.potential, State.potential]
      omega
    | ident _ | string _ | number _ | keyword _ =>
      simp only [step, hpeek]
      exact Nat.le_refl _
  | @enter k p stack sound =>
    have hgoes := (enter_goes sound.within sound.depth_le stack).potential_le
    rwa [if_neg (Nat.lt_irrefl _)] at hgoes
  | @leave k entry p tree stack sound within later depth meaning =>
    cases stack with
    | program done => exact Nat.le_refl _
    | push frame owner outer =>
      obtain ⟨hlater, hgoes⟩ := sound.resume_goes tree within later depth
      have hpotential := hgoes.potential_le
      rw [if_pos hlater] at hpotential
      exact hpotential

theorem potential_run_le (ts : List Token) (n : Nat) :
    (run ts n).potential ts ≤ 6 * ts.length + 5 - n := by
  induction n with
  | zero => exact Nat.le_refl _
  | succ n ih =>
    have hsound := run_sound ts n
    rw [run]
    cases hs : run ts n with
    | running s =>
      rw [hs] at ih hsound
      have hstep := potential_step_le hsound
      simp only [Progress.potential] at ih
      simp only
      omega
    | halted result => exact Nat.zero_le _
    | underflow => exact Nat.zero_le _

theorem run_eq_halted (ts : List Token) :
    run ts (6 * ts.length + 5) = .halted (ofTokens ts) := by
  have hsound := run_sound ts (6 * ts.length + 5)
  have hpotential := potential_run_le ts (6 * ts.length + 5)
  cases hrun : run ts (6 * ts.length + 5) with
  | running s =>
    rw [hrun, Progress.potential] at hpotential
    omega
  | halted result =>
    rw [hrun] at hsound
    exact congrArg Progress.halted hsound
  | underflow =>
    rw [hrun] at hsound
    exact hsound.elim

/-! ## What is left has been entered -/

/-- Before so many steps were done, the phrase was entered with this cursor and this stack. -/
def Entered (ts : List Token) (n : Nat) (p : Phrase) (entry : Cursor) (stack : Stack p) : Prop :=
  ∃ m < n, run ts m = .running ⟨entry, .enter p stack⟩

def Stack.Called (ts : List Token) (n : Nat) : {p : Phrase} → Stack p → Prop
  | _, .program _ => True
  | _, .push (q := q) _ entry outer => Entered ts n q entry outer ∧ outer.Called ts n

def Progress.Called (ts : List Token) (n : Nat) : Progress → Prop
  | .running ⟨_, .enter _ stack⟩ => stack.Called ts n
  | .running ⟨_, .leave p entry _ stack⟩ => Entered ts n p entry stack ∧ stack.Called ts n
  | _ => True

theorem Entered.mono {m n : Nat} (h : Entered ts m q entry outer) (hmn : m ≤ n) :
    Entered ts n q entry outer := by
  obtain ⟨i, hi, hrun⟩ := h
  exact ⟨i, Nat.lt_of_lt_of_le hi hmn, hrun⟩

theorem Stack.Called.mono {m n : Nat} (h : outer.Called ts m) (hmn : m ≤ n) :
    outer.Called ts n := by
  induction outer with
  | program done => trivial
  | push frame entry outer ih => exact ⟨h.1.mono hmn, ih h.2⟩

theorem Goes.called {n : Nat} (h : Goes ts entry k outer x o) (hentry : Entered ts n q entry outer)
    (houter : outer.Called ts n) : o.Called ts n := by
  cases h with
  | descend => exact ⟨hentry, houter⟩
  | ascend => exact ⟨hentry, houter⟩
  | fail => trivial

theorem run_called (ts : List Token) (n : Nat) : (run ts n).Called ts n := by
  induction n with
  | zero => trivial
  | succ n ih =>
    have hsound := run_sound ts n
    rw [run]
    cases hs : run ts n with
    | halted result => trivial
    | underflow => trivial
    | running s =>
      rw [hs] at ih hsound
      cases hsound with
      | @between k done within depth meaning =>
        simp only [step]
        split <;> trivial
      | @enter k p stack sound =>
        have hgoes := enter_goes sound.within sound.depth_le stack
        exact hgoes.called ⟨n, Nat.lt_succ_self n, hs⟩ (ih.mono (Nat.le_succ n))
      | @leave k entry p tree stack sound within later depth meaning =>
        cases stack with
        | program done => trivial
        | push frame owner outer =>
          obtain ⟨-, howner, houter⟩ := ih
          obtain ⟨-, hgoes⟩ := sound.resume_goes tree within later depth
          exact hgoes.called (howner.mono (Nat.le_succ n)) (houter.mono (Nat.le_succ n))

/-! ## Every list of tokens -/

/-- Let any tokens be read, with ends of input among them or without. After so many steps at most as
the bound says the machine halts with what the tokens are read as, and no level is ever closed that
is not open. Where a phrase is entered, as many levels are open as there are calls, bodies and pipes
around it, and no more than there may be; the number of phrases around it is below a constant. Where
a phrase is left, it was entered before within the same phrases; as many levels are open as then; at
least one token has been taken, and none past the last. Between the two, the parser of the phrase
reads the same tree from the same tokens. -/
theorem run_invariant (ts : List Token) :
    (∃ n ≤ 6 * ts.length + 5, run ts n = .halted (ofTokens ts)) ∧
      (∀ n, run ts n ≠ .underflow) ∧
      (∀ n k p stack, run ts n = .running ⟨k, .enter p stack⟩ →
        k.depth = stack.enclosing.countP Phrase.opens ∧ k.depth ≤ maxNesting ∧
        stack.enclosing.length ≤ 3 * maxNesting + 3 ∧ k.pos ≤ ts.length) ∧
      ∀ n k p entry tree stack, run ts n = .running ⟨k, .leave p entry tree stack⟩ →
        (∃ m < n, run ts m = .running ⟨entry, .enter p stack⟩) ∧ k.depth = entry.depth ∧
        entry.pos < k.pos ∧ k.pos ≤ ts.length ∧
        (p.parser (maxNesting - entry.depth)).run (rest ts entry) = .ok (tree, rest ts k) := by
  refine ⟨⟨_, Nat.le_refl _, run_eq_halted ts⟩, ?_, ?_, ?_⟩
  · intro n hn
    have hsound := run_sound ts n
    rw [hn] at hsound
    exact hsound
  · intro n k p stack hn
    have hsound := run_sound ts n
    rw [hn] at hsound
    cases hsound with
    | enter sound =>
      have hstack := stack.length_enclosing_le
      have hmargin := p.margin_le
      have hdepth := sound.depth_eq
      have hlimit := sound.depth_le
      exact ⟨hdepth, hlimit, by omega, sound.within.le_length⟩
  · intro n k p entry tree stack hn
    have hsound := run_sound ts n
    have hcalled := run_called ts n
    rw [hn] at hsound hcalled
    cases hsound with
    | leave sound within later depth meaning =>
      exact ⟨hcalled.1, depth, later, within.le_length, meaning⟩

/-- In `pipe { run f("x") }`, without an end of input: the argument of the call is entered at the
second level, and the pipe is left at the level it was entered at. -/
theorem run_invariant_pipe :
    let ts : List Token := [⟨.keyword .pipe, ⟨1, 1⟩⟩, ⟨.symbol '\x7b', ⟨1, 6⟩⟩,
      ⟨.keyword .run, ⟨1, 8⟩⟩, ⟨.ident "f", ⟨1, 12⟩⟩, ⟨.symbol '(', ⟨1, 13⟩⟩,
      ⟨.string "x", ⟨1, 14⟩⟩, ⟨.symbol ')', ⟨1, 17⟩⟩, ⟨.symbol '\x7d', ⟨1, 19⟩⟩]
    let pipe : Stack .pipe := .push .stages ⟨0, 0⟩ (.program [])
    let command : Stack .list := .push .command ⟨2, 1⟩ (.push (.inPipe []) ⟨0, 0⟩ pipe)
    let call : Stack .call := .push (.callee "f") ⟨3, 1⟩ (.push (.item []) ⟨3, 1⟩ command)
    let argument : Stack .expr := .push (.item []) ⟨5, 2⟩ (.push .arguments ⟨4, 1⟩ call)
    (∃ n ≤ 6 * 8 + 5, run ts n = .halted (ofTokens ts)) ∧
      run ts 8 = .running ⟨⟨5, 2⟩, .enter .expr argument⟩ ∧
      (2 = argument.enclosing.countP Phrase.opens ∧ 2 ≤ maxNesting ∧
        argument.enclosing.length ≤ 3 * maxNesting + 3 ∧ 5 ≤ 8) ∧
      run ts 15 = .running ⟨⟨8, 0⟩, .leave .pipe ⟨0, 0⟩ [[.call "f" [.string "x"]]] pipe⟩ ∧
      (∃ m < 15, run ts m = .running ⟨⟨0, 0⟩, .enter .pipe pipe⟩) ∧ 0 = 0 ∧ 0 < 8 ∧ 8 ≤ 8 ∧
      (Phrase.pipe.parser (maxNesting - 0)).run (rest ts ⟨0, 0⟩) =
        .ok ([[.call "f" [.string "x"]]], rest ts ⟨8, 0⟩) := by
  intro ts pipe command call argument
  have hentered : run ts 8 = .running ⟨⟨5, 2⟩, .enter .expr argument⟩ := rfl
  have hleft : run ts 15 =
      .running ⟨⟨8, 0⟩, .leave .pipe ⟨0, 0⟩ [[.call "f" [.string "x"]]] pipe⟩ := by cbv
  obtain ⟨hhalts, -, henter, hleave⟩ := run_invariant ts
  exact ⟨hhalts, hentered, henter _ _ _ _ hentered, hleft, hleave _ _ _ _ _ _ hleft⟩

end Shellwright.Descent
