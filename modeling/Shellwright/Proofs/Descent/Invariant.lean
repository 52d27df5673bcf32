import Shellwright.Proofs.Descent.Meaning
import Shellwright.Proofs.Program.Reading

/-!
# What holds at every step of reading

The counter of levels always equals the number of calls, bodies and pipes that are being read, and
each phrase that waits comes to what its frame makes of the part it waits for. A step keeps this.
In such a state no level is closed that has not been opened, and a run that has stopped has given
what the tokens are read as.

## Main definitions

* `Stack.Sound`, `State.Sound`: the invariant, for the phrases that wait and for a state.
* `Progress.Sound`: the same for what has come of a run.

## Main statements

* `Stack.Sound.depth_eq`: the counter and the stack.
* `step_sound`, `run_sound`: the invariant is kept by a step and holds along every run.
-/
namespace Shellwright.Descent

open Token (Kind Stream)
open Program (ofKinds ofTokens statement)

variable {ts : List Token} {p q : Phrase} {entry k : Cursor}

/-! ## The invariant -/

/-- What is known of the phrases around one that is entered at a cursor. -/
inductive Stack.Sound (ts : List Token) : {p : Phrase} → Cursor → Stack p → Prop where
  | program {k : Cursor} {done : List Stmt} (within : Within ts k) (depth : k.depth = 0)
      (meaning : ofKinds (Stream.ofList ts).kinds = statement.run (rest ts k) >>= fun r =>
        (ofKinds r.2).map (done ++ r.1 :: ·)) : Sound ts k (.program done)
  | push {p q : Phrase} {frame : Frame p q} {entry k : Cursor} {outer : Stack q}
      (within : Within ts k) (depth : k.depth = entry.depth + q.opens.toNat)
      (limit : k.depth ≤ maxNesting)
      (meaning : (q.parser (maxNesting - entry.depth)).run (rest ts entry) =
        (p.parser (maxNesting - k.depth)).run (rest ts k) >>= fun r =>
          frame.complete (maxNesting - k.depth) (rest ts k) r.1 r.2)
      (le : entry.pos ≤ k.pos) (sound : outer.Sound ts entry) : Sound ts k (.push frame entry outer)

namespace Stack.Sound

theorem within {stack : Stack p} (h : stack.Sound ts k) : Within ts k := by
  cases h with
  | program within => exact within
  | push within => exact within

theorem depth_le {stack : Stack p} (h : stack.Sound ts k) : k.depth ≤ maxNesting := by
  cases h with
  | program _ depth => rw [depth]; exact Nat.zero_le _
  | push _ _ limit => exact limit

theorem depth_eq {stack : Stack p} (h : stack.Sound ts k) :
    k.depth = stack.enclosing.countP Phrase.opens := by
  induction h with
  | program _ depth => exact depth
  | @push p q frame entry k outer _ depth _ _ _ _ ih =>
    simp only [enclosing, List.countP_cons]
    cases hq : q.opens <;> simp [hq] at depth ⊢ <;> omega

/-- A failure of the phrase that is entered is the failure of the whole. -/
theorem ofKinds_eq_error {stack : Stack p} (h : stack.Sound ts k) {e : Failure}
    (he : (p.parser (maxNesting - k.depth)).run (rest ts k) = .error e) :
    ofKinds (Stream.ofList ts).kinds = .error e := by
  induction h with
  | program _ depth meaning =>
    rw [depth] at he
    rw [meaning]
    exact congrArg (· >>= _) he
  | push _ _ _ meaning _ _ ih =>
    rw [he] at meaning
    exact ih meaning

/-- The phrase around one that has been read can go on. -/
theorem resume_goes {frame : Frame p q} {outer : Stack q} {start : Cursor}
    (h : (Stack.push frame entry outer).Sound ts start) (tree : p.Tree) (within : Within ts k)
    (later : start.pos < k.pos) (depth : k.depth = start.depth) :
    entry.pos < k.pos ∧ Goes ts entry k outer
      (frame.complete (q.budget entry.depth) (rest ts start) tree (rest ts k))
      (resume ts start k entry frame tree outer) := by
  cases h with
  | push hstart hdepth hlimit _ hle _ =>
    have hlater : entry.pos < k.pos := by omega
    have hlimit' : k.depth ≤ maxNesting := by omega
    exact ⟨hlater, Descent.resume_goes frame tree outer hstart within hlater (depth.trans hdepth)
      hlimit'⟩

end Stack.Sound

inductive State.Sound (ts : List Token) : State → Prop where
  | between {k : Cursor} {done : List Stmt} (within : Within ts k) (depth : k.depth = 0)
      (meaning : ofKinds (Stream.ofList ts).kinds = (ofKinds (rest ts k)).map (done ++ ·)) :
      Sound ts ⟨k, .between done⟩
  | enter {k : Cursor} {p : Phrase} {stack : Stack p} (sound : stack.Sound ts k) :
      Sound ts ⟨k, .enter p stack⟩
  | leave {k entry : Cursor} {p : Phrase} {tree : p.Tree} {stack : Stack p}
      (sound : stack.Sound ts entry) (within : Within ts k) (later : entry.pos < k.pos)
      (depth : k.depth = entry.depth)
      (meaning : (p.parser (maxNesting - entry.depth)).run (rest ts entry) =
        .ok (tree, rest ts k)) : Sound ts ⟨k, .leave p entry tree stack⟩

/-- A run that has not stopped is in a state that the invariant holds of, and one that has stopped
has given what the tokens are read as. -/
def Progress.Sound (ts : List Token) : Progress → Prop
  | .running s => s.Sound ts
  | .halted result => result = ofTokens ts
  | .underflow => False

/-- A failure at a cursor is placed where its token stands. -/
theorem fail_sound {cause : SyntaxError.Cause} (h : Within ts k)
    (he : ofKinds (Stream.ofList ts).kinds = .error ⟨cause, rest ts k⟩) :
    (fail ts cause k).Sound ts := by
  have hpos : (Stream.ofList ts).kinds.length - (rest ts k).length = k.pos := by
    rw [rest, List.length_drop]
    exact Nat.sub_sub_self h
  change _ = Program.ofStream _
  rw [Program.ofStream, he, Except.mapError_error, hpos, place_eq_positionAt h]

theorem Goes.sound {outer : Stack q} {x : Except Failure (q.Tree × List Kind)} {o : Progress}
    (h : Goes ts entry k outer x o) (hle : entry.pos ≤ k.pos) (houter : outer.Sound ts entry)
    (hx : (q.parser (maxNesting - entry.depth)).run (rest ts entry) = x) : o.Sound ts := by
  cases h with
  | @descend p frame j within le later depth limit meaning =>
    refine .enter (.push within depth limit ?_ (Nat.le_trans hle le) houter)
    rw [hx, meaning, Phrase.budget_eq, ← depth]
  | ascend tree within le later depth meaning =>
    exact .leave houter within later depth (hx.trans meaning)
  | fail cause within meaning =>
    exact fail_sound within (houter.ofKinds_eq_error (hx.trans meaning))

/-! ## Steps and runs -/

theorem between_sound {done : List Stmt} (h : Within ts k) (hdepth : k.depth = 0)
    (hk : ofKinds (Stream.ofList ts).kinds = (ofKinds (rest ts k)).map (done ++ ·)) :
    (step ts ⟨k, .between done⟩).Sound ts := by
  have hnext := peek_eq_next h
  cases hpeek : peek ts k with
  | eof =>
    have hrest : rest ts k = [] := by
      cases hr : rest ts k with
      | nil => rfl
      | cons c ks =>
        rw [hpeek, hr, Token.next_cons] at hnext
        -- an end of input among the tokens is not one of those to be read
        have hmem : Kind.eof ∈ rest ts k := by simp [hr, ← hnext]
        exact absurd (List.mem_of_mem_drop hmem) (Stream.eof_notMem_kinds_ofList ts)
    have hend : ofKinds (Stream.ofList ts).kinds = .ok done := by
      rw [hk, hrest, ofKinds]
      simp [Except.map]
    simp only [step, hpeek]
    change _ = Program.ofStream _
    rw [Program.ofStream, hend, Except.mapError_ok]
  | symbol c =>
    obtain ⟨hw, -, hrest⟩ := bump_of_peek h (by simp [hpeek])
    simp only [step, hpeek]
    refine State.Sound.between hw (by simpa using hdepth) ?_
    rw [hk, hrest, hpeek, ofKinds]
  | ident _ | string _ | number _ | keyword _ =>
    obtain ⟨-, -, hrest⟩ := bump_of_peek h (by simp [hpeek])
    simp only [step, hpeek]
    refine State.Sound.enter (.program h hdepth ?_)
    rw [hk, hrest, hpeek, Program.ofKinds_cons (by simp), Except.map_bind]
    congr 1
    funext r
    exact Except.map_map _ _ _

theorem step_sound {s : State} (h : s.Sound ts) : (step ts s).Sound ts := by
  cases h with
  | between within depth meaning => exact between_sound within depth meaning
  | @enter k p stack sound =>
    exact (enter_goes sound.within sound.depth_le stack).sound (Nat.le_refl _) sound rfl
  | @leave k entry p tree stack sound within later depth meaning =>
    cases stack with
    | program done =>
      cases sound with
      | program _ hdepth hmeaning =>
        refine State.Sound.between within (depth.trans hdepth) ?_
        rw [hdepth] at meaning
        rw [hmeaning]
        refine (congrArg (· >>= _) meaning).trans ?_
        simp [Except.ok_bind]
    | @push _ q frame owner outer =>
      obtain ⟨hlater, hgoes⟩ := sound.resume_goes tree within later depth
      cases sound with
      | push _ hdepth _ hmeaning _ houter =>
        refine hgoes.sound (Nat.le_of_lt hlater) houter ?_
        rw [hmeaning, meaning, Phrase.budget_eq, ← hdepth]
        rfl

theorem run_sound (ts : List Token) (n : Nat) : (run ts n).Sound ts := by
  induction n with
  | zero =>
    refine State.Sound.between (Nat.zero_le _) rfl ?_
    exact (Except.map_eq_self _ fun _ => rfl).symm
  | succ n ih =>
    rw [run]
    split
    · rename_i s hs
      rw [hs] at ih
      exact step_sound ih
    · exact ih

end Shellwright.Descent
