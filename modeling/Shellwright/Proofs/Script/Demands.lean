import Shellwright.Proofs.Script.Occurrence

/-!
# Where the shell demands a command

The body of a condition or of a loop has to have a command in it, and so has every stage of a
pipeline. A body without statements gets the colon command. That a command word is left out where it
is blank is not made up for, so a place is blank in the script if nothing but such commands stands
in it.

## Main definitions

* `Demand`: a place of a program that needs a command.
* `Demand.blank`: those that get none.

## Main statements

* `Script.Command.allBlank_text`: the statements whose command is blank.
* `Program.emit_demands`: which places of a script are blank.
-/
namespace Shellwright

open Script (Occurs)
open Text (allBlank isBlank)

/-- A place of a program for which a script has to have a command. -/
inductive Demand where
  | thenBody (body : List Stmt)
  | doBody (body : List Stmt)
  | stage (command : Invocation)

def Stmt.demands : Stmt → List Demand
  | ifThen _ body => [.thenBody body]
  | forIn _ _ body => [.doBody body]
  | pipe commands => commands.map .stage
  | decl _ _ _ | run _ | expr _ => []

def Program.demands (p : Program) : List Demand := p.statements.flatMap Stmt.demands

/-- What is written in the place. -/
def Demand.emit : Demand → Except Fault String
  | thenBody body | doBody body => do
    return Script.atLeastOne (Script.Command.texts (← Script.Command.ofStmts body))
  | stage command => return Script.line (← Script.words command)

/-- The text that is written in a place, with what opens and closes the place. -/
inductive Demand.Framed (text : String) : Demand → String → Prop where
  | thenBody {body : List Stmt} (condition : String) :
      Framed text (.thenBody body) ("if " ++ condition ++ "; then\n" ++ text ++ "\nfi")
  | doBody {body : List Stmt} (loop : String) :
      Framed text (.doBody body) ("for " ++ loop ++ "; do\n" ++ text ++ "\ndone")
  | stage {command : Invocation} : Framed text (.stage command) text

/-! ## What is blank -/

/-- No value is blank but a number, which is written as it is. -/
def Expr.blank : Expr → Bool
  | number digits => allBlank digits
  | string _ | var _ | call _ _ => false

/-- The command word is blank, so that it is left out, and there is nothing behind it. -/
def Invocation.blank : Invocation → Bool
  | .string command :: args => allBlank command && args.all Expr.blank
  | _ => false

def Stmt.blank : Stmt → Bool
  | run command | pipe [command] => Invocation.blank command
  | _ => false

def Demand.blank : Demand → Bool
  | thenBody body | doBody body => !body.isEmpty && body.all Stmt.blank
  | stage command => Invocation.blank command

namespace Text

@[simp] theorem allBlank_append (s t : String) :
    allBlank (s ++ t) = (allBlank s && allBlank t) := by
  simp [allBlank]

/-- Blank separators do not show. -/
theorem allBlank_intercalate {sep : String} (hsep : allBlank sep = true) (ts : List String) :
    allBlank (sep.intercalate ts) = ts.all allBlank := by
  induction ts with
  | nil => rfl
  | cons t ts ih =>
    cases ts with
    | nil => simp
    | cons u ts => simp [hsep, ih]

end Text

namespace Script

theorem allBlank_ofValue {e : Expr} {w : Word} (h : Word.ofValue e = .ok w) :
    allBlank w.text = e.blank := by
  have hquote : allBlank "\"" = false := by decide
  obtain ⟨text, rfl, rfl⟩ | ⟨digits, rfl, rfl⟩ | ⟨name, rfl, rfl⟩ := Word.ofValue_eq_ok.1 h
  · simp [Word.text, Expr.blank, hquote]
  · rfl
  · simp [Word.text, Expr.blank, hquote]

theorem allBlank_line {c : Invocation} {ws : List Word} (h : words c = .ok ws) :
    allBlank (line ws) = Invocation.blank c := by
  obtain ⟨command, args, w, vs, rfl, hw, hvs, rfl⟩ := words_eq_ok.1 h
  have hargs := (hvs.imp fun _ _ => allBlank_ofValue).all_eq
  rw [line, Text.allBlank_intercalate (by decide), List.all_map]
  obtain ⟨text, rfl, rfl⟩ | ⟨name, rfl, rfl⟩ := Word.ofCommand_eq_ok.1 hw
  · have hbare : (Word.bare text).text = text := rfl
    by_cases htext : allBlank text = true <;>
      simp [hbare, htext, Invocation.blank, hargs, Function.comp_def]
  · simp [Word.text, allBlank_reference, Invocation.blank]

namespace Command

/-- A pipeline of several commands has a bar in it, whatever they are. -/
theorem allBlank_pipeline {commands : List Invocation} {stages : List (List Word)}
    (h : List.Forall₂ (fun c ws => words c = .ok ws) commands stages) :
    allBlank (pipeline stages).text = (Stmt.pipe commands).blank := by
  have hbar : allBlank " | " = false := by decide
  match h with
  | .nil => decide
  | .cons hws .nil => simpa [text, Stmt.blank] using allBlank_line hws
  | .cons _ (.cons _ _) => simp [text, Stmt.blank, hbar]

theorem allBlank_text : Kept fun s c => allBlank c.text = s.blank where
  decl {binding name value w} _ := by
    have heq : allBlank "=" = false := by decide
    simp [text, Stmt.blank, heq]
  run h := allBlank_line h
  ifThen _ _ := by
    have hfi : allBlank "\nfi" = false := by decide
    simp [text, Stmt.blank, hfi]
  forIn _ _ := by
    have hdone : allBlank "\ndone" = false := by decide
    simp [text, Stmt.blank, hdone]
  pipe h := allBlank_pipeline h
  expr _ := by
    have hecho : allBlank "echo" = false := by decide
    rw [text, line, Text.allBlank_intercalate (by decide)]
    simp [Word.text, Stmt.blank, hecho]

theorem allBlank_atLeastOne {body : List Stmt} {cs : List Command} (h : ofStmts body = .ok cs) :
    allBlank (atLeastOne (texts cs)) = (!body.isEmpty && body.all Stmt.blank) := by
  have hall := (allBlank_text.ofStmts body h).all_eq
  cases allBlank_text.ofStmts body h with
  | nil => decide
  | cons _ _ =>
    rw [← hall, texts_eq_map, atLeastOne_of_ne_nil (by simp), Text.allBlank_intercalate (by decide)]
    simp [Function.comp_def]

end Command

end Script

theorem Demand.allBlank_of_emit {x : Demand} {t : String} (h : x.emit = .ok t) :
    allBlank t = x.blank := by
  cases x with
  | thenBody body | doBody body =>
    obtain ⟨cs, hcs, ht⟩ := Except.bind_eq_ok.1 h
    cases ht
    exact Script.Command.allBlank_atLeastOne hcs
  | stage command =>
    obtain ⟨ws, hws, ht⟩ := Except.bind_eq_ok.1 h
    cases ht
    exact Script.allBlank_line hws

/-! ## Where it stands in the script -/

/-- What is written in a place stands in the command of its statement. -/
theorem Stmt.exists_emit_of_mem_demands {s : Stmt} {c : Script.Command}
    (h : Script.Command.ofStmt s = .ok c) : ∀ x ∈ s.demands,
      ∃ t whole, x.emit = .ok t ∧ x.Framed t whole ∧ Occurs whole c.text := by
  intro x hx
  match s with
  | decl _ _ _ | run _ | expr _ => cases hx
  | ifThen cond body =>
    obtain rfl := List.mem_singleton.1 hx
    obtain ⟨w, -, h⟩ := Except.bind_eq_ok.1 h
    obtain ⟨cs, hcs, hc⟩ := Except.bind_eq_ok.1 h
    cases hc
    have htext : (Script.Command.ifExists w cs).text = "if " ++ ("[ -e " ++ w.text ++ " ]") ++
        "; then\n" ++ Script.atLeastOne (Script.Command.texts cs) ++ "\nfi" := by
      have hif : "if [ -e " = "if " ++ "[ -e " := by decide
      have hthen : " ]; then\n" = " ]" ++ "; then\n" := by decide
      simp only [Script.Command.text, hif, hthen, String.append_assoc]
    refine ⟨_, _, by rw [Demand.emit, hcs]; rfl, .thenBody ("[ -e " ++ w.text ++ " ]"), ?_⟩
    rw [htext]
    exact .refl _
  | forIn name iterable body =>
    obtain rfl := List.mem_singleton.1 hx
    obtain ⟨w, -, h⟩ := Except.bind_eq_ok.1 h
    obtain ⟨cs, hcs, hc⟩ := Except.bind_eq_ok.1 h
    cases hc
    refine ⟨_, _, by rw [Demand.emit, hcs]; rfl, .doBody (name ++ " in " ++ w.text), ?_⟩
    simp only [Script.Command.text, String.append_assoc]
    exact .refl _
  | pipe commands =>
    obtain ⟨stages, hstages, hc⟩ := Except.bind_eq_ok.1 h
    cases hc
    obtain ⟨command, hmem, rfl⟩ := List.mem_map.1 hx
    obtain ⟨ws, hws, hline⟩ := (Except.mapM_eq_ok.1 hstages).exists_mem hmem
    exact ⟨Script.line ws, _, by rw [Demand.emit, hline]; rfl, .stage, Script.occurs_pipeline hws⟩

/-- In the script of a program there is a text for each place that needs a command, between what
opens and what closes the place: the lines of a condition or of a loop, or for a stage the beginning
of a line or a bar and the end of a line or a bar. It is blank exactly if the place is: a stage
whose command word is blank and has nothing behind it, or a body that has such commands in it and
nothing else. -/
theorem Program.emit_demands {p : Program} {text : String} (h : p.emit = .ok text) :
    ∀ x ∈ p.demands, ∃ t whole, x.emit = .ok t ∧ x.Framed t whole ∧ Occurs whole text ∧
      (allBlank t = true ↔ x.blank = true) := by
  intro x hx
  obtain ⟨s, hs, hx⟩ := List.mem_flatMap.1 hx
  obtain ⟨c, hc, hline⟩ := exists_command_of_emit h s hs
  obtain ⟨t, whole, ht, hframed, hocc⟩ := s.exists_emit_of_mem_demands hc x hx
  exact ⟨t, whole, ht, hframed, hocc.trans hline, by rw [x.allBlank_of_emit ht]⟩

/-- The second stage of a pipe in a loop. -/
theorem Program.emit_demands_stage :
    let p : Program :=
      [.forIn "f" (.call "glob" [.string "*"]) [.pipe [[.string "ls"], [.string " "]]]]
    p.emit = .ok "for f in *; do\nls | \ndone" ∧ .stage [.string " "] ∈ p.demands ∧
      ∃ t, Demand.emit (.stage [.string " "]) = .ok t ∧
        Occurs t "for f in *; do\nls | \ndone" ∧ allBlank t = true := by
  intro p
  have hemit : p.emit = .ok "for f in *; do\nls | \ndone" := by decide +kernel
  have hmem : .stage [.string " "] ∈ p.demands := .tail _ (.tail _ (.head _))
  obtain ⟨t, whole, ht, hframed, hocc, hblank⟩ := emit_demands hemit _ hmem
  cases hframed
  exact ⟨hemit, hmem, t, ht, hocc, hblank.2 (by decide)⟩

/-- A body that holds nothing but a command without a word is blank in the script. -/
theorem Program.emit_demands_blank :
    ∃ p, ofSource "if exists(\"f\") \x7b run \"\" \x7d" = .ok p ∧
      p.emit = .ok "if [ -e \"f\" ]; then\n\nfi" ∧
      ∃ x ∈ p.demands, x.emit = .ok "" ∧ allBlank "" = true := by
  exact ⟨[.ifThen (.call "exists" [.string "f"]) [.run [.string ""]]], by decide +kernel,
    by decide +kernel, .thenBody [.run [.string ""]], .head _, by decide +kernel, by decide⟩

end Shellwright
