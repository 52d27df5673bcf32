import Shellwright.Program.Quoted
import Shellwright.Proofs.Program.Shaped
import Shellwright.Proofs.Script.Lowering
import Shellwright.Proofs.Script.Quoting
import Shellwright.Proofs.Token.Quotes

/-!
# Quotes in compiled sources

The strings and variables that stand where a value stands are what a compiled script has between its
quotes, and nothing else is. A source cannot bring a quote of its own into a script, since none of
its tokens holds one.

## Main definitions

* `Program.hollow`: the program with an empty string for every quoted value.

## Main statements

* `Script.Command.insides_pieces`, `Script.Command.clean_pieces`, `Script.Command.hollow_pieces`:
  what the pieces of a command are, along the lowering.
* `compile_splitOn_quote`: the segments of a script between its quotes.
-/
namespace Shellwright

open Text

/-! ## Programs without their values -/

/-- An empty string for a value that is quoted. -/
def Expr.hollow : Expr → Expr
  | string _ => string ""
  | var _ => string ""
  | number digits => number digits
  | call name args => call name args

/-- A call whose arguments are values. -/
def Expr.hollowArguments : Expr → Expr
  | call name args => call name (args.map hollow)
  | e => e

def Invocation.hollow : Invocation → Invocation
  | [] => []
  | command :: args => command :: args.map Expr.hollow

namespace Stmt

mutual

def hollow : Stmt → Stmt
  | decl binding name value => decl binding name value.hollow
  | run command => run (Invocation.hollow command)
  | ifThen cond body => ifThen cond.hollowArguments (hollowList body)
  | forIn name iterable body => forIn name iterable (hollowList body)
  | pipe commands => pipe (commands.map Invocation.hollow)
  | expr value => expr value.hollowArguments

def hollowList : List Stmt → List Stmt
  | [] => []
  | s :: ss => s.hollow :: hollowList ss

end

theorem quotedList_eq_flatMap (ss : List Stmt) : quotedList ss = ss.flatMap quoted := by
  induction ss with
  | nil => rfl
  | cons s ss ih => simp [quotedList, ih]

end Stmt

def Program.hollow (p : Program) : Program := Stmt.hollowList p

open Token.Kind

namespace Script

/-- What stands between the quotes of some pieces. -/
def insides (ws : List Word) : List String := ws.filterMap Word.inside?

@[simp] theorem insides_nil : insides [] = [] := rfl

@[simp] theorem insides_cons_bare (text : String) (ws : List Word) :
    insides (.bare text :: ws) = insides ws := rfl

@[simp] theorem insides_append (vs ws : List Word) :
    insides (vs ++ ws) = insides vs ++ insides ws := List.filterMap_append

/-- Separators are bare. -/
@[simp] theorem insides_join (separator : String) (rows : List (List Word)) :
    insides (join separator rows) = rows.flatMap insides := by
  induction rows with
  | nil => rfl
  | cons ws rows ih =>
    cases rows with
    | nil => simp [join]
    | cons vs rows =>
      rw [join, List.intercalate_cons_cons, insides_append, insides_append, ← join, ih]
      simp [insides, Word.inside?]

@[simp] theorem insides_bodyPieces (rows : List (List Word)) :
    insides (bodyPieces rows) = rows.flatMap insides := by
  cases rows with
  | nil => rfl
  | cons ws rows => exact insides_join "\n" _

theorem insides_cons (w : Word) (ws : List Word) : insides (w :: ws) = insides [w] ++ insides ws :=
  insides_append [w] ws

theorem insides_eq_flatMap (ws : List Word) : insides ws = ws.flatMap (insides [·]) := by
  induction ws with
  | nil => rfl
  | cons w ws ih => rw [insides_cons, ih, List.flatMap_cons]

@[simp] theorem insides_linePieces (ws : List Word) : insides (linePieces ws) = insides ws := by
  rw [linePieces, insides_join, List.flatMap_map, ← insides_eq_flatMap]

theorem insides_ofValue {e : Expr} {w : Word} (h : Word.ofValue e = .ok w) :
    insides [w] = e.quoted := by
  obtain ⟨text, rfl, rfl⟩ | ⟨digits, rfl, rfl⟩ | ⟨name, rfl, rfl⟩ := Word.ofValue_eq_ok.1 h <;> rfl

theorem insides_words {c : Invocation} {ws : List Word} (h : words c = .ok ws) :
    insides ws = Invocation.quoted c := by
  obtain ⟨command, args, w, vs, rfl, hw, hvs, rfl⟩ := words_eq_ok.1 h
  have hargs : insides vs = args.flatMap Expr.quoted := by
    rw [insides_eq_flatMap]
    exact (hvs.imp fun _ _ => insides_ofValue).flatMap_eq
  obtain ⟨text, -, rfl⟩ | ⟨name, -, rfl⟩ := Word.ofCommand_eq_ok.1 hw <;>
    split <;> simp [Invocation.quoted, hargs]

/-! ## No other quotes -/

theorem clean_reference {name : String} (h : (ident name).Shaped) :
    '"' ∉ (reference name).toList := by
  simpa [reference] using quote_notMem_of_shaped_ident h

theorem clean_ofValue {e : Expr} {w : Word} (h : Word.ofValue e = .ok w) (he : e.Shaped) :
    w.Clean := by
  obtain ⟨text, rfl, rfl⟩ | ⟨digits, rfl, rfl⟩ | ⟨name, rfl, rfl⟩ := Word.ofValue_eq_ok.1 h
  · exact he
  · exact quote_notMem_of_shaped_number he
  · exact clean_reference he

/-- Command words and patterns alike. -/
theorem clean_bare {e : Expr} {w : Word} (he : e.Shaped)
    (h : (∃ text, e = .string text ∧ w = .bare text) ∨
      ∃ name, e = .var name ∧ w = .bare (reference name)) : w.Clean := by
  obtain ⟨text, rfl, rfl⟩ | ⟨name, rfl, rfl⟩ := h
  · exact he
  · exact clean_reference he

theorem clean_words {c : Invocation} {ws : List Word} (h : words c = .ok ws)
    (hc : ∀ e ∈ c, e.Shaped) : ∀ w ∈ ws, w.Clean := by
  obtain ⟨command, args, w, vs, rfl, hw, hvs, rfl⟩ := words_eq_ok.1 h
  have hcommand : w.Clean := clean_bare (hc command (by simp)) (Word.ofCommand_eq_ok.1 hw)
  have hargs : ∀ v ∈ vs, v.Clean :=
    hvs.forall_mem fun e he _ hv => clean_ofValue hv (hc e (List.mem_cons_of_mem _ he))
  split
  · exact hargs
  · simpa using ⟨hcommand, hargs⟩

/-- Separators have no quote in them. -/
theorem clean_join {separator : String} {rows : List (List Word)}
    (hsep : '"' ∉ separator.toList) (h : ∀ ws ∈ rows, ∀ w ∈ ws, w.Clean) :
    ∀ w ∈ join separator rows, w.Clean := by
  induction rows with
  | nil => simp [join]
  | cons ws rows ih =>
    have htail := ih fun vs hvs => h vs (List.mem_cons_of_mem _ hvs)
    have hws := h ws List.mem_cons_self
    cases rows with
    | nil => simpa [join] using hws
    | cons vs rows =>
      rw [join, List.intercalate_cons_cons, ← join]
      intro w hw
      rw [List.mem_append, List.mem_append, List.mem_singleton] at hw
      rcases hw with (hw | rfl) | hw
      · exact hws w hw
      · exact hsep
      · exact htail w hw

theorem clean_linePieces {ws : List Word} (h : ∀ w ∈ ws, w.Clean) :
    ∀ w ∈ linePieces ws, w.Clean :=
  clean_join (by decide) (by simpa using h)

theorem clean_bodyPieces {rows : List (List Word)} (h : ∀ ws ∈ rows, ∀ w ∈ ws, w.Clean) :
    ∀ w ∈ bodyPieces rows, w.Clean := by
  cases rows with
  | nil => simp [bodyPieces, Word.Clean, noop]
  | cons ws rows => exact clean_join (by decide) h

namespace Command

theorem insides_pieces : Kept fun s c => insides c.pieces = s.quoted where
  decl h := by simp [pieces, Stmt.quoted, insides_ofValue h]
  run h := by simp [pieces, Stmt.quoted, insides_words h]
  ifThen {cond body w cs} h hbody := by
    obtain ⟨arg, rfl, hw⟩ := tested_eq_ok.1 h
    have hbody := hbody.flatMap_eq
    rw [pieces, insides_cons_bare, insides_cons, insides_ofValue hw]
    simp [List.flatMap_map, hbody, Stmt.quoted, Stmt.quotedList_eq_flatMap, Expr.quotedArguments]
  forIn {name iterable body w cs} h hbody := by
    obtain ⟨arg, rfl, hw⟩ := iterated_eq_ok.1 h
    have hbody := hbody.flatMap_eq
    have hpattern : insides [w] = [] := by
      obtain ⟨text, -, rfl⟩ | ⟨name, -, rfl⟩ := Word.ofPattern_eq_ok.1 hw <;> rfl
    rw [pieces, insides_cons_bare, insides_cons, hpattern]
    simp [List.flatMap_map, hbody, Stmt.quoted, Stmt.quotedList_eq_flatMap]
  pipe {commands stages} h := by
    have hstages := (h.imp fun _ _ => insides_words).flatMap_eq
    cases stages with
    | nil => rwa [pieces, insides_cons_bare, insides_nil, Stmt.quoted]
    | cons ws stages => simpa [pieces, List.flatMap_map, Stmt.quoted] using hstages
  expr h := by
    obtain ⟨arg, rfl, hw⟩ := printed_eq_ok.1 h
    simp [pieces, Stmt.quoted, Expr.quotedArguments, insides_ofValue hw]

theorem clean_body {body : List Stmt} {cs : List Command}
    (h : List.Forall₂ (fun s c => s.Shaped → ∀ w ∈ c.pieces, w.Clean) body cs)
    (hs : Stmt.ShapedList body) : ∀ w ∈ bodyPieces (piecesList cs), w.Clean := by
  have hrows : ∀ c ∈ cs, ∀ w ∈ c.pieces, w.Clean :=
    h.forall_mem fun s hmem _ hc => hc (Stmt.shapedList_iff.1 hs s hmem)
  refine clean_bodyPieces fun row hrow => ?_
  rw [piecesList_eq_map] at hrow
  obtain ⟨c, hc, rfl⟩ := List.mem_map.1 hrow
  exact hrows c hc

/-- A shaped statement brings no quote into a script. -/
theorem clean_pieces : Kept fun s c => s.Shaped → ∀ w ∈ c.pieces, w.Clean where
  decl {binding name value w} h hs := by
    have hname := quote_notMem_of_shaped_ident hs.1
    simpa [pieces, Word.Clean, hname] using clean_ofValue h hs.2
  run h hs := clean_linePieces (clean_words h hs)
  ifThen {cond body w cs} h hbody hs := by
    obtain ⟨arg, rfl, hw⟩ := tested_eq_ok.1 h
    have hpath : w.Clean := clean_ofValue hw hs.1.2.1
    simp only [pieces, List.forall_mem_cons, List.forall_mem_append]
    exact ⟨by decide, hpath, by decide, clean_body hbody hs.2, by decide, by simp⟩
  forIn {name iterable body w cs} h hbody hs := by
    obtain ⟨arg, rfl, hw⟩ := iterated_eq_ok.1 h
    have hname := quote_notMem_of_shaped_ident hs.1
    have hpattern : w.Clean := clean_bare hs.2.1.2.1 (Word.ofPattern_eq_ok.1 hw)
    simp only [pieces, List.forall_mem_cons, List.forall_mem_append]
    refine ⟨?_, hpattern, by decide, clean_body hbody hs.2.2, by decide, by simp⟩
    simp [Word.Clean, hname]
  pipe {commands stages} h hs := by
    have hstages : ∀ ws ∈ stages, ∀ v ∈ ws, v.Clean :=
      h.forall_mem fun c hc _ hws => clean_words hws (hs c hc)
    cases stages with
    | nil => simp [pieces, Word.Clean, noop]
    | cons ws stages =>
      refine clean_join (by decide) fun row hrow => ?_
      obtain ⟨vs, hvs, rfl⟩ := List.mem_map.1 hrow
      exact clean_linePieces (hstages vs hvs)
  expr h hs := by
    obtain ⟨arg, rfl, hw⟩ := printed_eq_ok.1 h
    have hvalue := clean_ofValue hw hs.2.1
    exact clean_linePieces (by simpa using ⟨by decide, hvalue⟩)

end Command

/-! ## Without the values -/

theorem ofValue_hollow {e : Expr} {w : Word} (h : Word.ofValue e = .ok w) :
    Word.ofValue e.hollow = .ok w.hollow := by
  obtain ⟨text, rfl, rfl⟩ | ⟨digits, rfl, rfl⟩ | ⟨name, rfl, rfl⟩ := Word.ofValue_eq_ok.1 h <;> rfl

theorem words_hollow {c : Invocation} {ws : List Word} (h : words c = .ok ws) :
    words (Invocation.hollow c) = .ok (ws.map Word.hollow) := by
  obtain ⟨command, args, w, vs, rfl, hw, hvs, rfl⟩ := words_eq_ok.1 h
  have hbare : w.hollow = w := by
    obtain ⟨text, -, rfl⟩ | ⟨name, -, rfl⟩ := Word.ofCommand_eq_ok.1 hw <;> rfl
  refine words_eq_ok.2 ⟨command, args.map Expr.hollow, w, vs.map Word.hollow, rfl, hw, ?_, ?_⟩
  · rw [List.forall₂_map_left_iff, List.forall₂_map_right_iff]
    exact hvs.imp fun _ _ => ofValue_hollow
  · split <;> simp [hbare]

theorem map_hollow_join (separator : String) (rows : List (List Word)) :
    (join separator rows).map Word.hollow = join separator (rows.map (·.map Word.hollow)) := by
  induction rows with
  | nil => rfl
  | cons ws rows ih =>
    cases rows with
    | nil => simp [join]
    | cons vs rows =>
      simp only [join, List.map_cons, List.intercalate_cons_cons] at ih ⊢
      simp [ih, Word.hollow]

theorem map_hollow_linePieces (ws : List Word) :
    (linePieces ws).map Word.hollow = linePieces (ws.map Word.hollow) := by
  simp [linePieces, map_hollow_join, Function.comp_def]

theorem map_hollow_bodyPieces (rows : List (List Word)) :
    (bodyPieces rows).map Word.hollow = bodyPieces (rows.map (·.map Word.hollow)) := by
  cases rows with
  | nil => rfl
  | cons ws rows => exact map_hollow_join "\n" _

namespace Command

theorem exists_ofStmts_hollow {ss : List Stmt} {cs : List Command}
    (h : List.Forall₂ (fun s c => ∃ d, ofStmt s.hollow = .ok d ∧
      d.pieces = c.pieces.map Word.hollow) ss cs) :
    ∃ ds, ofStmts (Stmt.hollowList ss) = .ok ds ∧
      piecesList ds = (piecesList cs).map (·.map Word.hollow) := by
  induction h with
  | nil => exact ⟨[], rfl, rfl⟩
  | cons hsc _ ih =>
    obtain ⟨d, hd, hp⟩ := hsc
    obtain ⟨ds, hds, hps⟩ := ih
    refine ⟨d :: ds, ?_, by simp only [piecesList, hp, hps, List.map_cons]⟩
    rw [Stmt.hollowList, ofStmts, hd, hds]
    rfl

theorem hollow_pieces : Kept fun s c =>
    ∃ d, ofStmt s.hollow = .ok d ∧ d.pieces = c.pieces.map Word.hollow where
  decl {binding name value w} h := by
    refine ⟨assign name w.hollow, ?_, rfl⟩
    rw [Stmt.hollow, ofStmt, ofValue_hollow h]
    rfl
  run {command ws} h := by
    refine ⟨simple (ws.map Word.hollow), ?_, (map_hollow_linePieces ws).symm⟩
    rw [Stmt.hollow, ofStmt, words_hollow h]
    rfl
  ifThen {cond body w cs} h hbody := by
    obtain ⟨arg, rfl, hw⟩ := tested_eq_ok.1 h
    obtain ⟨ds, hds, hps⟩ := exists_ofStmts_hollow hbody
    have hcond : tested (Expr.call "exists" [arg]).hollowArguments = .ok w.hollow :=
      tested_eq_ok.2 ⟨arg.hollow, rfl, ofValue_hollow hw⟩
    refine ⟨ifExists w.hollow ds, ?_, ?_⟩
    · rw [Stmt.hollow, ofStmt, hcond, hds]
      rfl
    · simp only [pieces, hps, ← map_hollow_bodyPieces, List.map_cons, List.map_append]
      rfl
  forIn {name iterable body w cs} h hbody := by
    obtain ⟨ds, hds, hps⟩ := exists_ofStmts_hollow hbody
    have hbare : w.hollow = w := by
      obtain ⟨arg, rfl, hw⟩ := iterated_eq_ok.1 h
      obtain ⟨text, -, rfl⟩ | ⟨name, -, rfl⟩ := Word.ofPattern_eq_ok.1 hw <;> rfl
    refine ⟨forEach name w ds, ?_, ?_⟩
    · rw [Stmt.hollow, ofStmt, h, hds]
      rfl
    · simp only [pieces, hps, ← map_hollow_bodyPieces, List.map_cons, List.map_append, hbare]
      rfl
  pipe {commands stages} h := by
    refine ⟨pipeline (stages.map (·.map Word.hollow)), ?_, ?_⟩
    · have hstages : (commands.map Invocation.hollow).mapM words =
          .ok (stages.map (·.map Word.hollow)) := by
        rw [Except.mapM_eq_ok, List.forall₂_map_left_iff, List.forall₂_map_right_iff]
        exact h.imp fun _ _ => words_hollow
      rw [Stmt.hollow, ofStmt, hstages]
      rfl
    · cases stages with
      | nil => rfl
      | cons ws stages =>
        simp only [List.map_cons, pieces, map_hollow_join, List.map_map, map_hollow_linePieces,
          Function.comp_def]
  expr {value w} h := by
    obtain ⟨arg, rfl, hw⟩ := printed_eq_ok.1 h
    have hvalue : printed (Expr.call "print" [arg]).hollowArguments = .ok w.hollow :=
      printed_eq_ok.2 ⟨arg.hollow, rfl, ofValue_hollow hw⟩
    refine ⟨simple [.bare "echo", w.hollow], ?_, (map_hollow_linePieces [.bare "echo", w]).symm⟩
    rw [Stmt.hollow, ofStmt, hvalue]
    rfl

end Command

/-! ## Whole programs -/

section Programs

variable {p : Program} {script : Script} (h : Command.ofStmts p = .ok script)
include h

theorem insides_pieces : insides script.pieces = p.quoted := by
  have hcommands := Command.insides_pieces.ofStmts p h
  rw [pieces, insides_join, List.flatMap_map, hcommands.flatMap_eq, Program.quoted,
    Stmt.quotedList_eq_flatMap]

theorem clean_pieces (hp : p.Shaped) : ∀ w ∈ script.pieces, w.Clean := by
  have hcommands := (Command.clean_pieces.ofStmts p h).forall_mem
    fun s hs _ hc => hc (hp s hs)
  refine clean_join (by decide) fun row hrow => ?_
  obtain ⟨c, hc, rfl⟩ := List.mem_map.1 hrow
  exact hcommands c hc

theorem exists_pieces_hollow : ∃ frame, Command.ofStmts p.hollow = .ok frame ∧
    pieces frame = script.pieces.map Word.hollow := by
  obtain ⟨frame, hframe, hps⟩ :=
    Command.exists_ofStmts_hollow (Command.hollow_pieces.ofStmts p h)
  rw [Command.piecesList_eq_map, Command.piecesList_eq_map] at hps
  exact ⟨frame, hframe, by rw [pieces, hps, pieces, map_hollow_join]⟩

end Programs

end Script

/-! ## Compiled sources -/

/-- Cut at every quote, a compiled script has an odd number of segments. Those at odd places are the
strings and variables that stand as values in the program, in their order. Those at even places stay
what they are when all these values are replaced by the empty string: what is outside the quotes
does not depend on them. -/
theorem compile_splitOn_quote {source script : String} (h : compile source = .ok script) :
    ∃ p, Program.ofSource source = .ok p ∧
      Odd (script.toList.splitOn '"').length ∧
      odds (script.toList.splitOn '"') = p.quoted.map String.toList ∧
      ∃ frame, p.hollow.emit = .ok frame ∧
        evens (script.toList.splitOn '"') = evens (frame.toList.splitOn '"') := by
  obtain ⟨p, hp, hemit⟩ := compile_eq_ok_iff.1 h
  obtain ⟨cs, hcs, rfl⟩ := Program.emit_eq_ok_iff.1 hemit
  have hclean := Script.clean_pieces hcs (Program.shaped_of_ofSource hp)
  obtain ⟨ds, hds, hpieces⟩ := Script.exists_pieces_hollow hcs
  refine ⟨p, hp, ?_, ?_, Script.text ds, Program.emit_eq_ok_iff.2 ⟨ds, hds, rfl⟩, ?_⟩
  · rw [Script.toList_text]
    exact Script.odd_length_splitOn hclean
  · rw [Script.toList_text, Script.odds_splitOn hclean]
    exact congrArg (List.map String.toList) (Script.insides_pieces hcs)
  · rw [Script.toList_text, Script.toList_text, hpieces, Script.evens_splitOn hclean]

/-- The pattern, the command word and the number are outside the quotes, the two values inside. -/
theorem compile_splitOn_quote_loop : ∃ p,
    Program.ofSource "for f in glob(\"*\") \x7b run \"cp\", f, \"a b\", 1 \x7d" = .ok p ∧
      p.quoted.map String.toList = ["$f".toList, "a b".toList] := by
  have hcompile : compile "for f in glob(\"*\") \x7b run \"cp\", f, \"a b\", 1 \x7d" =
      .ok "for f in *; do\ncp \"$f\" \"a b\" 1\ndone" := by
    decide +kernel
  obtain ⟨p, hp, -, hodds, -⟩ := compile_splitOn_quote hcompile
  refine ⟨p, hp, hodds.symm.trans ?_⟩
  decide +kernel

end Shellwright
