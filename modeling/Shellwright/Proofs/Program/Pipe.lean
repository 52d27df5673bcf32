import Shellwright.Proofs.Program.Nesting
import Shellwright.Proofs.Program.RoundTrip

/-!
# Pipes hold commands only

A statement between the braces of a pipe that is no command is refused as soon as it has been read,
in whatever blocks the pipe stands. Neither the commands before it nor anything behind it matters.

## Main definitions

* `Stmt.Opening`: a block that has been opened, with the statements in front of it.
* `Stmt.StopsAt`: statements that are read, and then one that fails.

## Main statements

* `Stmt.run_pipe_eq_error`: the pipe itself.
* `Stmt.StopsAt.opened`: a failure inside blocks that are open.
* `Program.ofTokens_nonRunInPipe`: the error that is reported.
-/
namespace Shellwright

open Token (Kind Stream Within excess endsInName)

variable {limit n b : Nat} {ks rest : List Kind} {e : Failure}

/-! ## Phrases within the limit -/

theorem Expr.nesting_le_of_excess {x : Expr} (hb : n + b = limit)
    (h : excess limit n (x.kinds ++ rest) = none) :
    x.nesting ≤ b ∧ excess limit n rest = none := by
  have hle : x.nesting ≤ b := by
    by_contra hlt
    obtain ⟨left, hleft, -⟩ := Expr.parser_tooDeep b hb (Nat.lt_of_not_le hlt) rest
    rw [h] at hleft
    cases hleft
  exact ⟨hle, (x.leads_kinds (by omega) rest).symm.trans h⟩

namespace Stmt

theorem nesting_le_of_excess {s : Stmt} (hs : s.wellFormed = true) (hb : n + b = limit)
    (h : excess limit n (s.kinds ++ rest) = none) :
    s.nesting ≤ b ∧ excess limit n rest = none := by
  have hle : s.nesting ≤ b := by
    by_contra hlt
    obtain ⟨left, hleft, -⟩ := parser_tooDeep b hb hs (Nat.lt_of_not_le hlt) rest
    rw [h] at hleft
    cases hleft
  exact ⟨hle, (s.leads_kinds (by omega) rest).symm.trans h⟩

theorem nestingList_le_of_excess {ss : List Stmt} (hss : wellFormedList ss = true)
    (hb : n + b = limit) (h : excess limit n (kindsList ss ++ rest) = none) :
    nestingList ss ≤ b ∧ excess limit n rest = none := by
  induction ss with
  | nil => exact ⟨Nat.zero_le b, h⟩
  | cons s ss ih =>
    rw [wellFormedList, Bool.and_eq_true] at hss
    rw [kindsList, List.append_assoc] at h
    obtain ⟨hs, htail⟩ := nesting_le_of_excess hss.1 hb h
    obtain ⟨hle, hrest⟩ := ih hss.2 htail
    exact ⟨Nat.max_le.2 ⟨hs, hle⟩, hrest⟩

/-- A level that is opened within the limit. -/
theorem excess_opener {k : Kind} (hk : k.opens = true) (h : excess limit n (k :: rest) = none) :
    n ≠ limit ∧ excess limit (n + 1) rest = none := by
  rw [excess] at h
  split at h
  · cases h
  · rename_i hn
    exact ⟨fun heq => hn ⟨hk, heq⟩, by simpa [Token.levelAfter, hk] using h⟩

/-! ## The pipe -/

/-- Behind commands that are read, a statement that is none is refused at its first token. -/
theorem run_pipe_eq_error {commands : List Invocation} {s : Stmt}
    (hcommands : ∀ c ∈ commands, c ≠ [] ∧ (run c).nesting ≤ b) (hs : s.wellFormed = true)
    (hn : s.nesting ≤ b) (hrun : s.isRun = false) (hends : s.EndsAt (Token.next ks)) :
    (parser (b + 1)).run (.keyword .pipe :: .symbol '\x7b' ::
        (commands.flatMap Invocation.kinds ++ (s.kinds ++ ks))) =
      .error ⟨.nonRunInPipe s.construct, s.kinds ++ ks⟩ := by
  have hreads := invocation_reads (parser_reads b)
  obtain ⟨k, ls, hk, hsym⟩ := s.exists_kinds_cons
  have hnext : Token.next (s.kinds ++ ks) = k := by simp [hk, Token.next]
  have hlast : Parser.runUntilClose '\x7d' ((parser b).require invocation) (s.kinds ++ ks) =
      .error ⟨.nonRunInPipe s.construct, s.kinds ++ ks⟩ := by
    refine Parser.runUntilClose_eq_error.2 ⟨by rw [hnext]; exact hsym _, .inl ?_⟩
    exact Parser.run_require_eq_error.2 (.inr ⟨s, ks, _,
      (parser_reads b _ _ _).2 ⟨⟨hs, hn⟩, rfl, hends⟩, invocation_eq_error.2 ⟨hrun, rfl⟩, rfl⟩)
  have hwell : ∀ c ∈ commands, (run c).wellFormed = true ∧ (run c).nesting ≤ b := fun c hc =>
    ⟨by simpa [wellFormed] using (hcommands c hc).1, (hcommands c hc).2⟩
  have hitems := hreads.runUntilClose_append (c := '\x7d')
    (fun c => ⟨_, _, rfl, by simp, fun d => endsAt_of_ne (by simp)⟩) hwell
    (fun c => hnext ▸ endsAt_of_ne hsym) hlast
  have hblock : (block ((parser b).require invocation)).run (.symbol '\x7b' ::
      (commands.flatMap Invocation.kinds ++ (s.kinds ++ ks))) =
        .error ⟨.nonRunInPipe s.construct, s.kinds ++ ks⟩ :=
    Parser.run_seqRight_eq_error.2 (.inr ⟨(), _, by simp, hitems⟩)
  rw [parser, parserOver, parserWith, Parser.run_peek]
  exact Parser.run_seqRight_eq_error.2
    (.inr ⟨(), _, Parser.run_keyword_eq_ok.2 rfl, Parser.run_map_eq_error.2 hblock⟩)

/-! ## Open blocks -/

/-- What a block begins with. -/
inductive Head where
  | ifThen (cond : Expr)
  | forIn (name : String) (iterable : Expr)

namespace Head

/-- The tokens up to the brace that opens the block. -/
def kinds : Head → List Kind
  | ifThen cond => .keyword .if_ :: (cond.kinds ++ [.symbol '\x7b'])
  | forIn name iterable =>
    .keyword .for_ :: .ident name :: .keyword .in_ :: (iterable.kinds ++ [.symbol '\x7b'])

/-- The expression in front of the brace. -/
def subject : Head → Expr
  | ifThen cond => cond
  | forIn _ iterable => iterable

theorem exists_kinds_cons (head : Head) : ∃ k ks, head.kinds = k :: ks ∧ ∀ c, k ≠ .symbol c := by
  cases head <;> simp [kinds]

theorem excess_kinds (head : Head) (rest : List Kind) : excess limit n (head.kinds ++ rest) =
    excess limit n (head.subject.kinds ++ .symbol '\x7b' :: rest) := by
  cases head <;>
    simp [kinds, subject, excess, Token.levelAfter, Kind.opens, Kind.closes]

/-- A block fails where its body does. -/
theorem run_eq_error (head : Head) (hn : head.subject.nesting ≤ b + 1)
    (h : Parser.runUntilClose '\x7d' (parser b) ks = .error e) :
    (parser (b + 1)).run (head.kinds ++ ks) = .error e := by
  have hbody : (block (parser b)).run (.symbol '\x7b' :: ks) = .error e :=
    Parser.run_seqRight_eq_error.2 (.inr ⟨(), _, by simp, h⟩)
  have hsubject (w : Keyword) : (Parser.keyword w *> Expr.parser (b + 1)).run
      (.keyword w :: (head.subject.kinds ++ .symbol '\x7b' :: ks)) =
        .ok (head.subject, .symbol '\x7b' :: ks) := by
    refine Parser.run_seqRight_eq_ok.2 ⟨(), _, Parser.run_keyword_eq_ok.2 rfl, ?_⟩
    exact (Expr.parser_reads _ _ _ _).2 ⟨hn, rfl, Expr.endsAt_of_ne (by simp [Token.next])⟩
  rw [parser, parserOver, parserWith, Parser.run_peek]
  cases head with
  | ifThen cond =>
    rw [kinds, List.cons_append, List.append_assoc]
    exact Parser.run_bind_eq_error.2
      (.inr ⟨cond, _, hsubject .if_, Parser.run_map_eq_error.2 hbody⟩)
  | forIn name iterable =>
    rw [kinds, List.cons_append, List.cons_append, List.cons_append, List.append_assoc]
    have hname (ls : List Kind) : (Parser.keyword .for_ *> Parser.identifier).run
        (.keyword .for_ :: .ident name :: ls) = .ok (name, ls) := by simp
    refine Parser.run_bind_eq_error.2 (.inr ⟨name, _, hname _, ?_⟩)
    exact Parser.run_bind_eq_error.2
      (.inr ⟨iterable, _, hsubject .in_, Parser.run_map_eq_error.2 hbody⟩)

end Head

/-- A block that is open, behind the statements that stand before it. -/
structure Opening where
  before : List Stmt
  head : Head

def Opening.kinds (o : Opening) : List Kind := kindsList o.before ++ o.head.kinds

theorem Opening.eof_notMem_kinds (o : Opening) : .eof ∉ o.kinds := by
  obtain ⟨before, head⟩ := o
  cases head <;> simp [kinds, Head.kinds, eof_notMem_kindsList, Expr.eof_notMem_kinds]

/-- Statements that are read with budget `b`, and then one that fails. -/
def StopsAt (b : Nat) (ks : List Kind) (e : Failure) : Prop :=
  ∃ before rest k ls, ks = kindsList before ++ rest ∧ rest = k :: ls ∧ (∀ c, k ≠ .symbol c) ∧
    wellFormedList before = true ∧ nestingList before ≤ b ∧ (parser b).run rest = .error e

namespace StopsAt

theorem runUntilClose (h : StopsAt b ks e) :
    Parser.runUntilClose '\x7d' (parser b) ks = .error e := by
  obtain ⟨before, _, k, ls, rfl, rfl, hsym, hwell, hn, hrun⟩ := h
  rw [kindsList_eq_flatMap]
  refine (parser_reads b).runUntilClose_append (exists_kinds_cons_endsAt _) (fun s hs => ?_)
    (fun s => ?_) ?_
  · exact ⟨wellFormedList_iff.1 hwell s hs, nestingList_le_iff.1 hn s hs⟩
  · exact endsAt_of_ne hsym
  · exact Parser.runUntilClose_eq_error.2 ⟨hsym _, .inl hrun⟩

theorem ofKinds (h : StopsAt maxNesting ks e) : Program.ofKinds ks = .error e := by
  obtain ⟨before, _, k, ls, rfl, rfl, hsym, hwell, hn, hrun⟩ := h
  have hbefore : Program.ofKinds (kindsList before) = .ok before :=
    Program.ofKinds_kinds hwell hn
  have hends (s : Stmt) : s.EndsAt (Token.next (k :: ls)) := endsAt_of_ne hsym
  rw [Program.ofKinds_append hbefore hends, Program.ofKinds_of_run_eq_error hsym hrun]
  rfl

/-- What fails in the innermost of some open blocks fails behind all that opens them. -/
theorem opened {os : List Opening} (hos : ∀ o ∈ os, wellFormedList o.before = true)
    (hb : n + b = limit) (h : excess limit n (os.flatMap Opening.kinds ++ ks) = none)
    (hks : ∀ m d, m + d = limit → excess limit m ks = none → StopsAt d (ks ++ rest) e) :
    StopsAt b (os.flatMap Opening.kinds ++ (ks ++ rest)) e := by
  induction os generalizing n b with
  | nil => exact hks n b hb h
  | cons o os ih =>
    have hwell := hos o List.mem_cons_self
    simp only [List.flatMap_cons, Opening.kinds, List.append_assoc] at h ⊢
    obtain ⟨hbefore, hhead⟩ := nestingList_le_of_excess hwell hb h
    rw [Head.excess_kinds] at hhead
    obtain ⟨hsubject, hbrace⟩ := Expr.nesting_le_of_excess hb hhead
    obtain ⟨hne, hbody⟩ := excess_opener (by decide) hbrace
    obtain ⟨d, rfl⟩ : ∃ d, b = d + 1 := ⟨b - 1, by omega⟩
    have hinner := ih (n := n + 1) (b := d) (fun x hx => hos x (List.mem_cons_of_mem _ hx))
      (by omega) hbody
    obtain ⟨k, ls, hk, hsym⟩ := o.head.exists_kinds_cons
    exact ⟨o.before, _, k, _, rfl, by rw [hk, List.cons_append], hsym, hwell, hbefore,
      o.head.run_eq_error hsubject hinner.runUntilClose⟩

/-- A pipe behind other statements stops at the first of its statements that is no command. -/
theorem pipe {before : List Stmt} {commands : List Invocation} {s : Stmt}
    (hbefore : wellFormedList before = true) (hcommands : ∀ c ∈ commands, c ≠ [])
    (hs : s.wellFormed = true) (hrun : s.isRun = false) (hends : s.EndsAt (Token.next rest))
    (hb : n + b = limit) (h : excess limit n (kindsList before ++ .keyword .pipe ::
      .symbol '\x7b' :: (commands.flatMap Invocation.kinds ++ s.kinds)) = none) :
    StopsAt b (kindsList before ++ .keyword .pipe :: .symbol '\x7b' ::
        (commands.flatMap Invocation.kinds ++ s.kinds) ++ rest)
      ⟨.nonRunInPipe s.construct, s.kinds ++ rest⟩ := by
  obtain ⟨hnesting, hpipe⟩ := nestingList_le_of_excess hbefore hb h
  have hkeyword : Token.Leads limit n [.keyword .pipe] n := Token.Leads.nil.neutral rfl rfl
  obtain ⟨hne, hinside⟩ := excess_opener (by decide) ((hkeyword _).symm.trans hpipe)
  obtain ⟨d, rfl⟩ : ∃ d, b = d + 1 := ⟨b - 1, by omega⟩
  have hruns : wellFormedList (commands.map run) = true := by
    simpa [wellFormedList_iff, wellFormed] using hcommands
  have hkinds : commands.flatMap Invocation.kinds = kindsList (commands.map run) := by
    simp [kindsList_eq_flatMap, List.flatMap_map, kinds]
  rw [hkinds] at hinside
  obtain ⟨hle, hstmt⟩ := nestingList_le_of_excess (n := n + 1) (b := d) hruns (by omega) hinside
  rw [← List.append_nil s.kinds] at hstmt
  obtain ⟨hdepth, -⟩ := nesting_le_of_excess (n := n + 1) (b := d) hs (by omega) hstmt
  have herror := run_pipe_eq_error (b := d) (fun c hc => ⟨hcommands c hc,
    nestingList_le_iff.1 hle _ (List.mem_map_of_mem hc)⟩) hs hdepth hrun hends
  exact ⟨before, _, .keyword .pipe, _, by simp only [List.append_assoc, List.cons_append], rfl,
    by simp, hbefore, hnesting, herror⟩

end StopsAt

end Stmt

namespace Program

open Stmt (Opening kindsList wellFormedList)

variable {os : List Opening} {before : List Stmt} {commands : List Invocation} {s : Stmt}

/-- The tokens of open blocks and of a pipe that has been opened, with commands in it. -/
def openPipe (os : List Opening) (before : List Stmt) (commands : List Invocation) : List Kind :=
  os.flatMap Opening.kinds ++ (kindsList before ++
    .keyword .pipe :: .symbol '\x7b' :: commands.flatMap Invocation.kinds)

theorem eof_notMem_openPipe (os : List Opening) (before : List Stmt)
    (commands : List Invocation) : .eof ∉ openPipe os before commands := by
  simp [openPipe, Opening.eof_notMem_kinds, Stmt.eof_notMem_kindsList, Invocation.kinds,
    Expr.eof_notMem_kindsList]

theorem ofKinds_nonRunInPipe (hos : ∀ o ∈ os, wellFormedList o.before = true)
    (hbefore : wellFormedList before = true) (hcommands : ∀ c ∈ commands, c ≠ [])
    (hs : s.wellFormed = true) (hrun : s.isRun = false)
    (hn : Within maxNesting (openPipe os before commands ++ s.kinds))
    (hends : s.EndsAt (Token.next rest)) :
    ofKinds (openPipe os before commands ++ (s.kinds ++ rest)) =
      .error ⟨.nonRunInPipe s.construct, s.kinds ++ rest⟩ := by
  have hlevels := Token.excess_eq_none_of_within hn
  simp only [openPipe, List.append_assoc, List.cons_append] at hlevels ⊢
  have hstops := Stmt.StopsAt.opened hos (Nat.zero_add _) hlevels fun m d hd hm =>
    Stmt.StopsAt.pipe hbefore hcommands hs hrun hends hd hm
  simpa using hstops.ofKinds

/-- Let `ts` open any number of blocks, each behind any statements, and then a pipe with some
commands in it, and let `ss` be a statement that is no command, all of it within the limit of
nesting. Then the statement is refused at its first token, whatever tokens `us` come behind it,
unless they go on with it. -/
theorem ofTokens_nonRunInPipe {ts ss us : List Token}
    (hos : ∀ o ∈ os, wellFormedList o.before = true) (hbefore : wellFormedList before = true)
    (hcommands : ∀ c ∈ commands, c ≠ []) (hs : s.wellFormed = true) (hrun : s.isRun = false)
    (hts : ts.map (·.kind) = openPipe os before commands) (hss : ss.map (·.kind) = s.kinds)
    (hn : Within maxNesting (openPipe os before commands ++ s.kinds))
    (hus : endsInName s.kinds = true → ∀ u ∈ us.head?, u.kind ≠ .symbol '(') :
    ∃ t, ss.head? = some t ∧
      ofTokens (ts ++ ss ++ us) = .error ⟨.nonRunInPipe s.construct, t.position⟩ := by
  have hends : s.EndsAt (Token.next (Stream.ofList us).kinds) := by
    refine ⟨fun _ => hrun, fun hnext => Bool.eq_false_iff.2 fun hname => ?_⟩
    cases us with
    | nil => cases hnext
    | cons u us =>
      apply hus hname u rfl
      by_cases hu : u.kind = .eof
      · simp [Stream.ofList, Stream.kinds, hu, Token.next] at hnext
      · simpa [Stream.ofList, Stream.kinds, hu, Token.next] using hnext
  have hts' : ∀ t ∈ ts, t.kind ≠ .eof := fun t ht hk =>
    eof_notMem_openPipe os before commands (hts ▸ List.mem_map.2 ⟨t, ht, hk⟩)
  have hss' : ∀ t ∈ ss, t.kind ≠ .eof := fun t ht hk =>
    s.eof_notMem_kinds (hss ▸ List.mem_map.2 ⟨t, ht, hk⟩)
  obtain ⟨k, ks, hk, -⟩ := s.exists_kinds_cons
  obtain ⟨t, tail, rfl, -⟩ := List.map_eq_cons_iff.1 (hss.trans hk)
  refine ⟨t, rfl, ?_⟩
  rw [List.append_assoc]
  apply ofTokens_eq_error hts' rfl
  rw [Stream.kinds_ofList_append hss', hss, hts]
  exact ofKinds_nonRunInPipe hos hbefore hcommands hs hrun hn hends

/-- The declaration ends in a name, so it is read whole only before what is no parenthesis. -/
theorem ofTokens_nonRunInPipe_val :
    let os : List Opening := [⟨[.run [.string "ls"]], .ifThen (.call "exists" [.var "d"])⟩,
      ⟨[], .forIn "f" (.var "d")⟩]
    let ts := (openPipe os [.expr (.call "print" [.var "f"])] [[.string "cat", .var "f"]]).map
      fun k => (⟨k, ⟨1, 1⟩⟩ : Token)
    let ss : List Token := [⟨.keyword .val, ⟨2, 1⟩⟩, ⟨.ident "x", ⟨2, 5⟩⟩, ⟨.symbol '=', ⟨2, 7⟩⟩,
      ⟨.ident "y", ⟨2, 9⟩⟩]
    let us : List Token := [⟨.symbol ')', ⟨2, 10⟩⟩, ⟨.eof, ⟨3, 1⟩⟩, ⟨.symbol '(', ⟨3, 2⟩⟩]
    ofTokens (ts ++ ss ++ us) = .error ⟨.nonRunInPipe "val", ⟨2, 1⟩⟩ := by
  intro os ts ss us
  have hts : ts.map (·.kind) =
      openPipe os [.expr (.call "print" [.var "f"])] [[.string "cat", .var "f"]] := by
    simp [ts, Function.comp_def]
  have hss : ss.map (·.kind) = (Stmt.decl .val "x" (.var "y")).kinds := rfl
  have hus : ∀ u ∈ us.head?, u.kind ≠ .symbol '(' := by simp [us]
  obtain ⟨t, ht, herror⟩ := ofTokens_nonRunInPipe (by decide) (by decide) (by decide) rfl rfl hts
    hss (by decide) fun _ => hus
  cases ht
  exact herror

end Program

end Shellwright
