import Shellwright.Proofs.Descent.Cursor
import Shellwright.Proofs.Parser.Unfolding

/-!
# What a step does

A frame stands for what is still to be read of a phrase once the part it waits for is there. With
that reading of frames, a step never changes what the phrase it belongs to comes to: the parser of
the phrase, given the tokens behind the cursor that the phrase was entered with, gives what the new
frame makes of the part that is entered, or the tree that is left with, or the failure that is
reported. The same statements say how the cursor moves. Nothing else looks into the steps.

## Main definitions

* `Phrase.parser`: the parser of a phrase, given how many levels there may still be.
* `Frame.complete`: what becomes of a phrase that waits, given what it waits for.
* `Goes`: what a step may do for the phrase it belongs to.

## Main statements

* `enter_goes`, `resume_goes`: every step does one of these things.
-/
namespace Shellwright

open Token (Kind)
open Shellwright.Parser (run_require run_thenIf runCommaList_eq runUntilClose_of_next
  runUntilClose_of_next_ne)

namespace Descent

/-! ## Phrases and frames as parsers -/

namespace Phrase

/-- One level more, if there may be one. -/
def nested {α : Type} (inner : Nat → Parser α) : (budget : Nat) → Parser α
  | 0 => Parser.fail fun _ => .nestingTooDeep
  | budget + 1 => inner budget

def parser (budget : Nat) : (p : Phrase) → Parser p.Tree
  | stmt => Stmt.parser budget
  | expr => Expr.parser budget
  | list => (Expr.parser budget).commaList
  | call => nested (fun n => Parser.symbol '(' *> Expr.arguments (Expr.parser n)) budget
  | block => nested (fun n => Stmt.block (Stmt.parser n)) budget
  | pipe => Parser.keyword .pipe *>
    nested (fun n => Stmt.block ((Stmt.parser n).require Stmt.invocation)) budget

/-- A phrase that takes no token itself before it enters another one has a rank above it. -/
def rank : Phrase → Nat
  | stmt | list => 1
  | expr | call | block | pipe => 0

/-- How many levels there may still be inside a phrase that is entered with `depth` of them open. -/
def budget : Phrase → (depth : Nat) → Nat
  | stmt, depth | expr, depth | list, depth => maxNesting - depth
  | call, depth | block, depth | pipe, depth => maxNesting - (depth + 1)

theorem budget_eq (p : Phrase) (depth : Nat) :
    p.budget depth = maxNesting - (depth + p.opens.toNat) := by
  cases p <;> rfl

end Phrase

/-- What a phrase that waits comes to, when a tree has been read for it from the tokens `start` and
the tokens `ks` are left. The levels that there may still be are those for the part it waits for. -/
def Frame.complete (budget : Nat) (start : List Kind) : {p q : Phrase} → Frame p q →
    p.Tree → (ks : List Kind) → Except Failure (q.Tree × List Kind)
  | _, _, .callee name, args, ks => .ok (.call name args, ks)
  | _, _, .arguments, args, ks => ((Parser.symbol ')').run ks).map fun r => (args, r.2)
  | _, _, .item done, e, ks =>
    if Token.next ks = .symbol ',' then
      ((Expr.parser budget).commaList.run ks.tail).map fun r => (done ++ e :: r.1, r.2)
    else .ok (done ++ [e], ks)
  | _, _, .value binding name, e, ks => .ok (.decl binding name e, ks)
  | _, _, .command, args, ks => .ok (.run args, ks)
  | _, _, .condition, cond, ks =>
    ((Phrase.block.parser budget).run ks).map fun r => (.ifThen cond r.1, r.2)
  | _, _, .branch cond, body, ks => .ok (.ifThen cond body, ks)
  | _, _, .iterable name, e, ks =>
    ((Phrase.block.parser budget).run ks).map fun r => (.forIn name e r.1, r.2)
  | _, _, .loop name e, body, ks => .ok (.forIn name e body, ks)
  | _, _, .stages, commands, ks => .ok (.pipe commands, ks)
  | _, _, .alone, e, ks => match Stmt.ofExpr e with
    | .ok s => .ok (s, ks)
    | .error cause => .error ⟨cause, start⟩
  | _, _, .inBlock done, s, ks =>
    (((Stmt.parser budget).untilClose '\x7d').run ks).map fun r => (done ++ s :: r.1, r.2)
  | _, _, .inPipe done, s, ks => match s.invocation with
    | .ok c => ((((Stmt.parser budget).require Stmt.invocation).untilClose '\x7d').run ks).map
      fun r => (done ++ c :: r.1, r.2)
    | .error cause => .error ⟨cause, start⟩

/-! ## Parsers by their first part -/

theorem stmtParser_eq (budget : Nat) : Stmt.parser budget =
    Stmt.parserWith (Expr.parser budget) (Phrase.block.parser budget)
      (Phrase.nested (fun n => Stmt.block ((Stmt.parser n).require Stmt.invocation)) budget) := by
  cases budget <;> rfl

theorem run_exprParser_ident (budget : Nat) (name : String) (ks : List Kind) :
    (Expr.parser budget).run (.ident name :: ks) =
      if Token.next ks = .symbol '(' then
        ((Phrase.call.parser budget).run ks).map fun r => (.call name r.1, r.2)
      else .ok (.var name, ks) := by
  cases budget with
  | zero => rfl
  | succ budget =>
    simp only [Expr.parser, Expr.parserWith, Parser.run_peek, Token.next_cons, run_thenIf,
      Parser.run_skip_cons, Except.ok_bind, Parser.run_seqRight, Parser.run_map, Phrase.parser,
      Phrase.nested, Except.map_bind]

/-- A list that goes on behind the items `done`. -/
theorem map_run_commaList (budget : Nat) (done : List Expr) (ks : List Kind) :
    ((Expr.parser budget).commaList.run ks).map (fun r => (done ++ r.1, r.2)) =
      (Expr.parser budget).run ks >>= fun r => (Frame.item done).complete budget ks r.1 r.2 := by
  change (Parser.runCommaList (Expr.parser budget) ks).map _ = _
  rw [runCommaList_eq, Except.map_bind]
  congr 1
  funext r
  simp only [Frame.complete]
  split
  · exact Except.map_map _ _ _
  · rfl

/-- Commands between braces that go on behind the commands `done`. -/
theorem bind_run_invocation (budget : Nat) (done : List Invocation) (ks : List Kind) :
    ((((Stmt.parser budget).require Stmt.invocation).run ks >>= fun r =>
      ((((Stmt.parser budget).require Stmt.invocation).untilClose '\x7d').run r.2).map fun s =>
        (done ++ r.1 :: s.1, s.2)) : Except Failure (List Invocation × List Kind)) =
      (Stmt.parser budget).run ks >>= fun r =>
        (Frame.inPipe done).complete budget ks r.1 r.2 := by
  rw [run_require, bind_assoc]
  congr 1
  funext r
  simp only [Frame.complete]
  cases r.1.invocation <;> rfl

/-! ## What a step may do -/

/-- A step for a phrase that was entered at `entry` and comes to `x`, with the cursor at `k`. It
enters a part, one level deeper if the phrase is a level; or it leaves the phrase, at the level it
was entered at and behind at least one token more; or it reports a failure. -/
inductive Goes (ts : List Token) {q : Phrase} (entry k : Cursor) (outer : Stack q)
    (x : Except Failure (q.Tree × List Kind)) : Progress → Prop where
  | descend {p : Phrase} (frame : Frame p q) {j : Cursor} (within : Within ts j)
      (le : k.pos ≤ j.pos) (later : entry.pos < j.pos ∨ p.rank < q.rank)
      (depth : j.depth = entry.depth + q.opens.toNat) (limit : j.depth ≤ maxNesting)
      (meaning : x = (p.parser (q.budget entry.depth)).run (rest ts j) >>= fun r =>
        frame.complete (q.budget entry.depth) (rest ts j) r.1 r.2) :
      Goes ts entry k outer x (descend entry outer frame j)
  | ascend (tree : q.Tree) {j : Cursor} (within : Within ts j) (le : k.pos ≤ j.pos)
      (later : entry.pos < j.pos) (depth : j.depth = entry.depth)
      (meaning : x = .ok (tree, rest ts j)) : Goes ts entry k outer x (ascend entry outer tree j)
  | fail (cause : SyntaxError.Cause) {j : Cursor} (within : Within ts j)
      (meaning : x = .error ⟨cause, rest ts j⟩) : Goes ts entry k outer x (fail ts cause j)

section Parts

variable {ts : List Token} {q : Phrase} {entry j k : Cursor} {outer : Stack q} {tree : q.Tree}
  {x : Except Failure (q.Tree × List Kind)}

theorem Goes.mono {o : Progress} (h : Goes ts entry j outer x o) (hk : k.pos ≤ j.pos) :
    Goes ts entry k outer x o := by
  cases h with
  | descend frame within le later depth limit meaning =>
    exact .descend frame within (Nat.le_trans hk le) later depth limit meaning
  | ascend tree within le later depth meaning =>
    exact .ascend tree within (Nat.le_trans hk le) later depth meaning
  | fail cause within meaning => exact .fail cause within meaning

theorem expect_goes {α : Type} {what : Expectation} {f : Kind → Option α} (hf : f .eof = none)
    {go : α → Cursor → Progress} {y : α × List Kind → Except Failure (q.Tree × List Kind)}
    (h : Within ts k)
    (hgo : ∀ a j, Within ts j → j.pos = k.pos + 1 → j.depth = k.depth →
      Goes ts entry j outer (y (a, rest ts j)) (go a j)) :
    Goes ts entry k outer ((Parser.token what f).run (rest ts k) >>= y)
      (expect ts what f k go) := by
  have hnext := peek_eq_next h
  rw [expect]
  split
  · rename_i a ha
    -- the end of the input is never expected, so there is a token to go past
    have hk : peek ts k ≠ .eof := by
      intro heof
      rw [heof, hf] at ha
      cases ha
    obtain ⟨hw, hpos, hrest⟩ := bump_of_peek h hk
    rw [hrest, Parser.run_token_cons, ha]
    exact (hgo a _ hw hpos (depth_bump ts k)).mono (by omega)
  · rename_i hnone
    refine .fail _ h ?_
    cases hr : rest ts k with
    | nil =>
      rw [hnext, hr]
      rfl
    | cons c ks =>
      rw [hr, Token.next_cons] at hnext
      rw [hnext] at hnone
      rw [Parser.run_token_cons, hnone, hnext]
      rfl

theorem expectSymbol_goes {c : Char} {go : Cursor → Progress}
    {y : Unit × List Kind → Except Failure (q.Tree × List Kind)} (h : Within ts k)
    (hgo : ∀ j, Within ts j → j.pos = k.pos + 1 → j.depth = k.depth →
      Goes ts entry j outer (y ((), rest ts j)) (go j)) :
    Goes ts entry k outer ((Parser.symbol c).run (rest ts k) >>= y) (expectSymbol ts c k go) :=
  expect_goes (by simp) h fun _ => hgo

theorem expectKeyword_goes {w : Keyword} {go : Cursor → Progress}
    {y : Unit × List Kind → Except Failure (q.Tree × List Kind)} (h : Within ts k)
    (hgo : ∀ j, Within ts j → j.pos = k.pos + 1 → j.depth = k.depth →
      Goes ts entry j outer (y ((), rest ts j)) (go j)) :
    Goes ts entry k outer ((Parser.keyword w).run (rest ts k) >>= y) (expectKeyword ts w k go) :=
  expect_goes (by simp) h fun _ => hgo

theorem expectName_goes {go : String → Cursor → Progress}
    {y : String × List Kind → Except Failure (q.Tree × List Kind)} (h : Within ts k)
    (hgo : ∀ name j, Within ts j → j.pos = k.pos + 1 → j.depth = k.depth →
      Goes ts entry j outer (y (name, rest ts j)) (go name j)) :
    Goes ts entry k outer (Parser.identifier.run (rest ts k) >>= y) (expectName ts k go) :=
  expect_goes rfl h hgo

theorem openLevel_goes {go : Cursor → Progress} {inner : Nat → Parser q.Tree} (h : Within ts k)
    (hd : k.depth ≤ maxNesting)
    (hgo : k.depth < maxNesting → Goes ts entry ⟨k.pos, k.depth + 1⟩ outer
      ((inner (maxNesting - (k.depth + 1))).run (rest ts ⟨k.pos, k.depth + 1⟩))
      (go ⟨k.pos, k.depth + 1⟩)) :
    Goes ts entry k outer ((Phrase.nested inner (maxNesting - k.depth)).run (rest ts k))
      (openLevel ts k go) := by
  rw [openLevel]
  split
  · -- the counter is at its limit just when no levels are left
    have hnone : maxNesting - k.depth = 0 := by omega
    rw [hnone]
    exact .fail _ h rfl
  · have hone : maxNesting - k.depth = maxNesting - (k.depth + 1) + 1 := by omega
    rw [hone]
    exact (hgo (by omega)).mono (Nat.le_refl _)

theorem closeLevel_goes (h : Within ts j) (hle : k.pos ≤ j.pos) (hlater : entry.pos < j.pos)
    (hdepth : j.depth = entry.depth + 1) :
    Goes ts entry k outer (.ok (tree, rest ts j)) (closeLevel entry outer tree j) := by
  have hclose : closeLevel entry outer tree j =
      ascend entry outer tree ⟨j.pos, entry.depth⟩ := by
    rw [closeLevel, hdepth]
  rw [hclose]
  exact .ascend tree h hle hlater rfl rfl

/-- Between braces. The items that are left are read as statements first; `wrap` makes the tree of
the phrase from them, and `frame` waits for the first of them. -/
theorem nextStmt_goes {α : Type} (item : Parser α) (frame : Frame .stmt q)
    (wrap : List α → q.Tree) (h : Within ts k) (hlater : entry.pos < k.pos)
    (hopens : q.opens = true) (hdepth : k.depth = entry.depth + 1) (hlimit : k.depth ≤ maxNesting)
    (hmore : (item.run (rest ts k) >>= fun r => ((item.untilClose '\x7d').run r.2).map
        fun s => (wrap (r.1 :: s.1), s.2)) =
      (Stmt.parser (q.budget entry.depth)).run (rest ts k) >>= fun r =>
        frame.complete (q.budget entry.depth) (rest ts k) r.1 r.2) :
    Goes ts entry k outer
      (((item.untilClose '\x7d').run (rest ts k)).map fun r => (wrap r.1, r.2))
      (nextStmt ts entry outer frame (wrap []) k) := by
  change Goes ts entry k outer ((Parser.runUntilClose '\x7d' item (rest ts k)).map _) _
  have hnext := peek_eq_next h
  rw [nextStmt]
  split
  · rename_i hk
    obtain ⟨hw, hpos, hrest⟩ := bump_of_peek h (by simp [hk])
    rw [runUntilClose_of_next item (hnext.symm.trans hk), hrest, List.tail_cons]
    exact closeLevel_goes hw (by omega) (by omega) (by rw [depth_bump, hdepth])
  · rename_i hk
    refine .descend frame h (Nat.le_refl _) (.inl hlater) (by simp [hdepth, hopens]) hlimit ?_
    rw [runUntilClose_of_next_ne item (fun hc => hk (hnext.trans hc)), Except.map_bind]
    refine Eq.trans ?_ hmore
    congr 1
    funext r
    exact Except.map_map _ _ _

theorem nextStmt_inBlock_goes {outer : Stack .block} {done : List Stmt}
    {x : Except Failure (List Stmt × List Kind)} (h : Within ts k) (hlater : entry.pos < k.pos)
    (hdepth : k.depth = entry.depth + 1) (hlimit : k.depth ≤ maxNesting)
    (hx : x = (((Stmt.parser (Phrase.block.budget entry.depth)).untilClose '\x7d').run
      (rest ts k)).map fun r => (done ++ r.1, r.2)) :
    Goes ts entry k outer x (nextStmt ts entry outer (.inBlock done) done k) := by
  have hgoes : Goes ts entry k outer _ _ := nextStmt_goes (Stmt.parser _) (.inBlock done)
    (done ++ ·) h hlater rfl hdepth hlimit rfl
  rwa [List.append_nil, ← hx] at hgoes

theorem nextStmt_inPipe_goes {outer : Stack .pipe} {done : List Invocation}
    {x : Except Failure (List Invocation × List Kind)} (h : Within ts k)
    (hlater : entry.pos < k.pos) (hdepth : k.depth = entry.depth + 1)
    (hlimit : k.depth ≤ maxNesting)
    (hx : x = ((((Stmt.parser (Phrase.pipe.budget entry.depth)).require
      Stmt.invocation).untilClose '\x7d').run (rest ts k)).map fun r => (done ++ r.1, r.2)) :
    Goes ts entry k outer x (nextStmt ts entry outer (.inPipe done) done k) := by
  have hgoes : Goes ts entry k outer _ _ := nextStmt_goes _ (.inPipe done) (done ++ ·) h hlater rfl
    hdepth hlimit (bind_run_invocation _ done _)
  rwa [List.append_nil, ← hx] at hgoes

end Parts

/-! ## Phrases that are entered -/

section Entering

variable {ts : List Token} {k : Cursor} (h : Within ts k) (hd : k.depth ≤ maxNesting)
include h hd

theorem enter_expr_goes (outer : Stack .expr) :
    Goes ts k k outer ((Expr.parser (maxNesting - k.depth)).run (rest ts k))
      (enter ts k .expr outer) := by
  have hnext := peek_eq_next h
  cases hk : peek ts k with
  | string _ | number _ =>
    obtain ⟨hw, hpos, hrest⟩ := bump_of_peek h (by simp [hk])
    simp only [enter, hk]
    refine .ascend _ hw (by omega) (by omega) (depth_bump ts k) ?_
    rw [hrest, hk]
    cases maxNesting - k.depth <;> rfl
  | ident name =>
    obtain ⟨hw, hpos, hrest⟩ := bump_of_peek h (by simp [hk])
    simp only [enter, hk]
    rw [hrest, hk, run_exprParser_ident, peek_eq_next hw]
    split
    · exact .descend _ hw (by omega) (.inl (by omega)) (depth_bump ts k) (by simpa using hd) rfl
    · exact .ascend _ hw (by omega) (by omega) (depth_bump ts k) rfl
  | keyword _ | symbol _ | eof =>
    rw [hk] at hnext
    simp only [enter, hk]
    refine .fail _ h ?_
    cases maxNesting - k.depth <;> simp [Expr.parser, Expr.parserWith, ← hnext]

theorem enter_list_goes (outer : Stack .list) :
    Goes ts k k outer ((Expr.parser (maxNesting - k.depth)).commaList.run (rest ts k))
      (enter ts k .list outer) := by
  refine .descend (.item []) h (Nat.le_refl _) (.inr (by decide)) rfl hd ?_
  refine Eq.trans ?_ (map_run_commaList _ [] _)
  exact (Except.map_eq_self _ fun _ => rfl).symm

theorem enter_call_goes (outer : Stack .call) :
    Goes ts k k outer ((Phrase.call.parser (maxNesting - k.depth)).run (rest ts k))
      (enter ts k .call outer) := by
  simp only [enter, Phrase.parser]
  refine openLevel_goes h hd fun hlimit => ?_
  simp only [Parser.run_seqRight]
  refine expectSymbol_goes (k := ⟨k.pos, k.depth + 1⟩) h fun j hj hpos hdepth => ?_
  simp only at hpos hdepth
  have hnext := peek_eq_next hj
  by_cases hclose : peek ts j = .symbol ')'
  · obtain ⟨hw, hbump, hrest⟩ := bump_of_peek hj (by simp [hclose])
    rw [if_pos hclose, hrest, hclose]
    exact closeLevel_goes hw (by omega) (by omega) (by rw [depth_bump, hdepth])
  · rw [if_neg hclose]
    refine .descend .arguments hj (Nat.le_refl _) (.inl (by omega)) hdepth (by omega) ?_
    simp only [Expr.arguments, Parser.run_peek, ← hnext, Parser.run_seqLeft]
    rfl

theorem enter_block_goes (outer : Stack .block) :
    Goes ts k k outer ((Phrase.block.parser (maxNesting - k.depth)).run (rest ts k))
      (enter ts k .block outer) := by
  simp only [enter, Phrase.parser]
  refine openLevel_goes h hd fun hlimit => ?_
  simp only [Stmt.block, Parser.run_seqRight]
  refine expectSymbol_goes (k := ⟨k.pos, k.depth + 1⟩) h fun j hj hpos hdepth => ?_
  simp only at hpos hdepth
  refine nextStmt_inBlock_goes hj (by omega) hdepth (by omega) ?_
  exact (Except.map_eq_self _ fun _ => rfl).symm

theorem enter_pipe_goes (outer : Stack .pipe) :
    Goes ts k k outer ((Phrase.pipe.parser (maxNesting - k.depth)).run (rest ts k))
      (enter ts k .pipe outer) := by
  simp only [enter, Phrase.parser, Parser.run_seqRight]
  refine expectKeyword_goes h fun i hi hipos hidepth => ?_
  rw [← hidepth]
  refine openLevel_goes hi (by omega) fun hlimit => ?_
  simp only [Stmt.block, Parser.run_seqRight]
  refine expectSymbol_goes (k := ⟨i.pos, i.depth + 1⟩) hi fun j hj hpos hdepth => ?_
  simp only [hidepth] at hpos hdepth hlimit
  refine nextStmt_inPipe_goes hj (by omega) hdepth (by omega) ?_
  rw [hidepth]
  exact (Except.map_eq_self _ fun _ => rfl).symm

theorem declaration_goes (outer : Stack .stmt) (binding : Binding)
    (hk : peek ts k = .keyword binding.keyword) :
    Goes ts k k outer
      ((Stmt.declaration binding (Expr.parser (maxNesting - k.depth))).run (rest ts k))
      (declaration ts binding k outer) := by
  obtain ⟨hw, hpos, hrest⟩ := bump_of_peek h (by simp [hk])
  have hrun : (Stmt.declaration binding (Expr.parser (maxNesting - k.depth))).run (rest ts k) =
      Parser.identifier.run (rest ts (bump ts k)) >>= fun r =>
        (Parser.symbol '=').run r.2 >>= fun s =>
          ((Expr.parser (maxNesting - k.depth)).run s.2).map fun t =>
            (.decl binding r.1 t.1, t.2) := by
    rw [hrest, hk]
    simp [Stmt.declaration, Parser.keyword, Except.ok_bind]
  rw [hrun, declaration]
  refine Goes.mono (j := bump ts k) ?_ (by omega)
  refine expectName_goes hw fun name i hi hipos hidepth => ?_
  refine expectSymbol_goes hi fun j hj hjpos hjdepth => ?_
  rw [depth_bump] at hidepth
  refine .descend (.value binding name) hj (Nat.le_refl _) (.inl (by omega))
    (hjdepth.trans hidepth) (by omega) ?_
  rw [Except.map_eq_bind]
  rfl

theorem forIn_goes (outer : Stack .stmt) (hk : peek ts k = .keyword .for_) :
    Goes ts k k outer ((Stmt.parser (maxNesting - k.depth)).run (rest ts k))
      (enter ts k .stmt outer) := by
  obtain ⟨hw, hpos, hrest⟩ := bump_of_peek h (by simp [hk])
  have hrun : (Stmt.parser (maxNesting - k.depth)).run (rest ts k) =
      Parser.identifier.run (rest ts (bump ts k)) >>= fun r =>
        (Parser.keyword .in_).run r.2 >>= fun s =>
          (Expr.parser (maxNesting - k.depth)).run s.2 >>= fun t =>
            ((Phrase.block.parser (maxNesting - k.depth)).run t.2).map fun u =>
              (.forIn r.1 t.1 u.1, u.2) := by
    rw [hrest, hk, stmtParser_eq]
    simp [Stmt.parserWith, Parser.keyword, Except.ok_bind]
  rw [hrun]
  simp only [enter, hk]
  refine Goes.mono (j := bump ts k) ?_ (by omega)
  refine expectName_goes hw fun name i hi hipos hidepth => ?_
  refine expectKeyword_goes hi fun j hj hjpos hjdepth => ?_
  rw [depth_bump] at hidepth
  exact .descend (.iterable name) hj (Nat.le_refl _) (.inl (by omega)) (hjdepth.trans hidepth)
    (by omega) rfl

theorem enter_stmt_goes (outer : Stack .stmt) :
    Goes ts k k outer ((Stmt.parser (maxNesting - k.depth)).run (rest ts k))
      (enter ts k .stmt outer) := by
  have hnext := peek_eq_next h
  rw [stmtParser_eq]
  cases hk : peek ts k with
  | ident name =>
    simp only [enter, hk]
    refine .descend .alone h (Nat.le_refl _) (.inr (by decide)) rfl hd ?_
    simp only [Stmt.parserWith, Parser.run_peek, ← hnext, hk, run_require, Frame.complete,
      Phrase.parser, Phrase.budget]
    congr 1
    funext r
    cases Stmt.ofExpr r.1 <;> rfl
  | keyword w =>
    obtain ⟨hw, hpos, hrest⟩ := bump_of_peek h (by simp [hk])
    rw [hk] at hrest
    cases w with
    | val =>
      have hgoes := declaration_goes h hd outer .val hk
      simp only [enter, hk]
      rw [hrest] at hgoes ⊢
      exact hgoes
    | var =>
      have hgoes := declaration_goes h hd outer .var hk
      simp only [enter, hk]
      rw [hrest] at hgoes ⊢
      exact hgoes
    | pipe =>
      simp only [enter, hk]
      refine .descend .stages h (Nat.le_refl _) (.inr (by decide)) rfl hd ?_
      simp only [Stmt.parserWith, Parser.run_peek, ← hnext, hk, Parser.run_seqRight,
        Parser.run_map, Except.map_eq_bind, Phrase.parser, Phrase.budget, bind_assoc]
      rfl
    | run =>
      simp only [enter, hk]
      refine .descend _ hw (by omega) (.inl (by omega)) (depth_bump ts k) (by simpa using hd) ?_
      simp only [hrest, Stmt.parserWith, Parser.run_peek, Token.next_cons, Parser.run_seqRight,
        Parser.run_map, Except.map_eq_bind]
      rfl
    | if_ =>
      simp only [enter, hk]
      refine .descend _ hw (by omega) (.inl (by omega)) (depth_bump ts k) (by simpa using hd) ?_
      simp only [hrest, Stmt.parserWith, Parser.run_peek, Token.next_cons, Parser.run_bind,
        Parser.run_seqRight, Parser.run_map]
      rfl
    | for_ =>
      have hgoes := forIn_goes h hd outer hk
      rwa [stmtParser_eq] at hgoes
    | in_ =>
      simp only [enter, hk]
      refine .fail _ h ?_
      rw [hrest]
      rfl
  | string _ | number _ | symbol _ | eof =>
    rw [hk] at hnext
    simp only [enter, hk]
    refine .fail _ h ?_
    simp [Stmt.parserWith, ← hnext]

/-- The first step of a phrase keeps what its parser gives. -/
theorem enter_goes : {p : Phrase} → (outer : Stack p) →
    Goes ts k k outer ((p.parser (maxNesting - k.depth)).run (rest ts k)) (enter ts k p outer)
  | .stmt, outer => enter_stmt_goes h hd outer
  | .expr, outer => enter_expr_goes h hd outer
  | .list, outer => enter_list_goes h hd outer
  | .call, outer => enter_call_goes h hd outer
  | .block, outer => enter_block_goes h hd outer
  | .pipe, outer => enter_pipe_goes h hd outer

end Entering

/-! ## Phrases that go on -/

/-- A phrase that has been given the part it waits for goes on as its frame says. -/
theorem resume_goes {ts : List Token} {start entry k : Cursor} {p q : Phrase} (frame : Frame p q)
    (tree : p.Tree) (outer : Stack q) (hstart : Within ts start) (h : Within ts k)
    (hlater : entry.pos < k.pos) (hdepth : k.depth = entry.depth + q.opens.toNat)
    (hlimit : k.depth ≤ maxNesting) :
    Goes ts entry k outer
      (frame.complete (q.budget entry.depth) (rest ts start) tree (rest ts k))
      (resume ts start k entry frame tree outer) := by
  have hnext := peek_eq_next h
  cases frame with
  | callee | value | command | branch | loop | stages =>
    exact .ascend _ h (Nat.le_refl _) hlater hdepth rfl
  | condition | iterable =>
    refine .descend _ h (Nat.le_refl _) (.inl hlater) hdepth hlimit ?_
    simp only [Frame.complete, Except.map_eq_bind]
  | arguments =>
    simp only [Frame.complete, resume, Except.map_eq_bind]
    refine expectSymbol_goes h fun j hj hpos hj' => ?_
    exact closeLevel_goes hj (by omega) (by omega) (hj'.trans hdepth)
  | item done =>
    simp only [Frame.complete, resume, ← hnext]
    split
    · rename_i hk
      obtain ⟨hw, hpos, hrest⟩ := bump_of_peek h (by simp [hk])
      refine .descend _ hw (by omega) (.inl (by omega)) (by simpa using hdepth)
        (by simpa using hlimit) ?_
      refine Eq.trans ?_ (map_run_commaList _ (done ++ [tree]) _)
      simp [hrest]
    · exact .ascend _ h (Nat.le_refl _) hlater hdepth rfl
  | alone =>
    simp only [Frame.complete, resume]
    cases Stmt.ofExpr tree with
    | ok s => exact .ascend _ h (Nat.le_refl _) hlater hdepth rfl
    | error cause => exact .fail _ hstart rfl
  | inBlock done =>
    refine nextStmt_inBlock_goes h hlater hdepth hlimit ?_
    simp [Frame.complete]
  | inPipe done =>
    simp only [Frame.complete, resume]
    cases tree.invocation with
    | ok c =>
      refine nextStmt_inPipe_goes h hlater hdepth hlimit ?_
      simp
    | error cause => exact .fail _ hstart rfl

end Descent

end Shellwright
