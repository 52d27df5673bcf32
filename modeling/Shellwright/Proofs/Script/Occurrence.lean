import Shellwright.Proofs.Compile.Joining
import Shellwright.Proofs.Script.Lowering

/-!
# Commands in scripts

Every statement of a program, at any depth, is written as its own command. The text of the command
stands in the script from the beginning of a line to the end of one. The commands of a pipeline
stand between bars.

## Main definitions

* `Program.statements`: the statements of a program with those of their bodies.
* `Script.Occurs`: a text that stands in another one where a command can stand.
* `Script.Command.head`: a command without its body.

## Main statements

* `Program.exists_command_of_emit`: the command of each statement stands in the script.
-/
namespace Shellwright

/-! ## All statements of a program -/

namespace Stmt

mutual

/-- The statement and those of its body, at any depth. -/
def subtree : Stmt → List Stmt
  | ifThen cond body => ifThen cond body :: subtreeList body
  | forIn name iterable body => forIn name iterable body :: subtreeList body
  | s => [s]

def subtreeList : List Stmt → List Stmt
  | [] => []
  | s :: ss => s.subtree ++ subtreeList ss

end

end Stmt

/-- The statements of a program with those of their bodies, in the order of the text. -/
def Program.statements (p : Program) : List Stmt := Stmt.subtreeList p

/-! ## Commands in texts -/

namespace Script

/-- What stands between two commands: the end of a line, or a bar. -/
def separators : List String := ["\n", " | "]

/-- The part stands in the text, with a separator or nothing on either side of it. -/
def Occurs (part text : String) : Prop :=
  ∃ before after, text = before ++ part ++ after ∧
    (before = "" ∨ ∃ sep ∈ separators, ∃ front, before = front ++ sep) ∧
    (after = "" ∨ ∃ sep ∈ separators, ∃ back, after = sep ++ back)

namespace Occurs

variable {a b c sep : String}

theorem refl (text : String) : Occurs text text := ⟨"", "", by simp, .inl rfl, .inl rfl⟩

theorem trans (hab : Occurs a b) (hbc : Occurs b c) : Occurs a c := by
  obtain ⟨before, after, rfl, hbefore, hafter⟩ := hab
  obtain ⟨before', after', rfl, hbefore', hafter'⟩ := hbc
  refine ⟨before' ++ before, after ++ after', by simp only [String.append_assoc], ?_, ?_⟩
  · obtain rfl | ⟨sep, hsep, front, rfl⟩ := hbefore
    · simpa using hbefore'
    · exact .inr ⟨sep, hsep, before' ++ front, (String.append_assoc ..).symm⟩
  · obtain rfl | ⟨sep, hsep, back, rfl⟩ := hafter
    · simpa using hafter'
    · exact .inr ⟨sep, hsep, back ++ after', String.append_assoc ..⟩

/-- Between separators. -/
theorem between {before after : String} {sep' : String} (hsep : sep ∈ separators)
    (hsep' : sep' ∈ separators) : Occurs a (before ++ sep ++ a ++ (sep' ++ after)) :=
  ⟨before ++ sep, sep' ++ after, rfl, .inr ⟨sep, hsep, before, rfl⟩, .inr ⟨sep', hsep', after, rfl⟩⟩

theorem intercalate (hsep : sep ∈ separators) {xs : List String} (ha : a ∈ xs) :
    Occurs a (sep.intercalate xs) := by
  induction xs with
  | nil => cases ha
  | cons x xs ih =>
    cases xs with
    | nil =>
      obtain rfl := List.mem_singleton.1 ha
      exact String.intercalate_singleton ▸ .refl a
    | cons y xs =>
      rw [String.intercalate_cons_cons]
      obtain rfl | ha := List.mem_cons.1 ha
      · refine ⟨"", sep ++ sep.intercalate (y :: xs), ?_, .inl rfl, .inr ⟨sep, hsep, _, rfl⟩⟩
        rw [String.empty_append, String.append_assoc]
      · refine (ih ha).trans ⟨x ++ sep, "", ?_, .inr ⟨sep, hsep, x, rfl⟩, .inl rfl⟩
        rw [String.append_empty]

end Occurs

theorem atLeastOne_of_ne_nil {lines : List String} (h : lines ≠ []) :
    atLeastOne lines = "\n".intercalate lines := by
  cases lines with
  | nil => exact absurd rfl h
  | cons l lines => rfl

theorem occurs_pipeline {ws : List Word} {stages : List (List Word)} (h : ws ∈ stages) :
    Occurs (line ws) (Command.pipeline stages).text := by
  cases stages with
  | nil => cases h
  | cons vs stages => exact .intercalate (by decide) (List.mem_map_of_mem h)

theorem occurs_text {c : Command} {script : Script} (h : c ∈ script) :
    Occurs c.text script.text :=
  .intercalate (by decide) (List.mem_map_of_mem h)

namespace Command

variable {c : Command} {body : List Command}

theorem occurs_atLeastOne (h : c ∈ body) : Occurs c.text (atLeastOne (texts body)) := by
  rw [texts_eq_map, atLeastOne_of_ne_nil (by simpa using List.ne_nil_of_mem h)]
  exact .intercalate (by decide) (List.mem_map_of_mem h)

/-- A command without its body. -/
def head : Command → String
  | ifExists path _ => "if [ -e " ++ path.text ++ " ]; then"
  | forEach name pattern _ => "for " ++ name ++ " in " ++ pattern.text ++ "; do"
  | c => c.text

theorem text_ifExists (path : Word) (body : List Command) : (ifExists path body).text =
    (ifExists path body).head ++ "\n" ++ atLeastOne (texts body) ++ ("\n" ++ "fi") := by
  have hthen : " ]; then\n" = " ]; then" ++ "\n" := by decide
  have hfi : "\nfi" = "\n" ++ "fi" := by decide
  simp only [text, head, hthen, hfi, String.append_assoc]

theorem text_forEach (name : String) (pattern : Word) (body : List Command) :
    (forEach name pattern body).text =
      (forEach name pattern body).head ++ "\n" ++ atLeastOne (texts body) ++ ("\n" ++ "done") := by
  have hdo : "; do\n" = "; do" ++ "\n" := by decide
  have hdone : "\ndone" = "\n" ++ "done" := by decide
  simp only [text, head, hdo, hdone, String.append_assoc]

theorem occurs_ifExists (h : c ∈ body) (path : Word) : Occurs c.text (ifExists path body).text := by
  rw [text_ifExists]
  exact (occurs_atLeastOne h).trans (.between (by decide) (by decide))

theorem occurs_forEach (h : c ∈ body) (name : String) (pattern : Word) :
    Occurs c.text (forEach name pattern body).text := by
  rw [text_forEach]
  exact (occurs_atLeastOne h).trans (.between (by decide) (by decide))

mutual

/-- The command of a statement stands in the command of any statement around it. -/
theorem exists_of_mem_subtree : ∀ (s : Stmt) {c : Command}, ofStmt s = .ok c →
    ∀ u ∈ s.subtree, ∃ d, ofStmt u = .ok d ∧ Occurs d.text c.text
  | .ifThen cond body, c, h, u, hu => by
    obtain rfl | hu := List.mem_cons.1 hu
    · exact ⟨c, h, .refl _⟩
    · obtain ⟨w, -, h⟩ := Except.bind_eq_ok.1 h
      obtain ⟨cs, hcs, hc⟩ := Except.bind_eq_ok.1 h
      cases hc
      obtain ⟨e, he, d, hd, hocc⟩ := exists_of_mem_subtreeList body hcs u hu
      exact ⟨d, hd, hocc.trans (occurs_ifExists he w)⟩
  | .forIn name iterable body, c, h, u, hu => by
    obtain rfl | hu := List.mem_cons.1 hu
    · exact ⟨c, h, .refl _⟩
    · obtain ⟨w, -, h⟩ := Except.bind_eq_ok.1 h
      obtain ⟨cs, hcs, hc⟩ := Except.bind_eq_ok.1 h
      cases hc
      obtain ⟨e, he, d, hd, hocc⟩ := exists_of_mem_subtreeList body hcs u hu
      exact ⟨d, hd, hocc.trans (occurs_forEach he name w)⟩
  | .decl _ _ _, c, h, u, hu | .run _, c, h, u, hu | .pipe _, c, h, u, hu
  | .expr _, c, h, u, hu => by
    obtain rfl := List.mem_singleton.1 hu
    exact ⟨c, h, .refl _⟩

theorem exists_of_mem_subtreeList : ∀ (ss : List Stmt) {cs : List Command},
    ofStmts ss = .ok cs → ∀ u ∈ Stmt.subtreeList ss,
      ∃ c ∈ cs, ∃ d, ofStmt u = .ok d ∧ Occurs d.text c.text
  | [], _, _, u, hu => by cases hu
  | s :: ss, cs, h, u, hu => by
    obtain ⟨c, hc, h⟩ := Except.bind_eq_ok.1 h
    obtain ⟨cs', hcs, hok⟩ := Except.bind_eq_ok.1 h
    cases hok
    obtain hu | hu := List.mem_append.1 hu
    · exact ⟨c, List.mem_cons_self, exists_of_mem_subtree s hc u hu⟩
    · obtain ⟨d, hd, hu⟩ := exists_of_mem_subtreeList ss hcs u hu
      exact ⟨d, List.mem_cons_of_mem c hd, hu⟩

end

end Command

end Script

/-- Every statement of a program, at any depth, is written as a command of its own in the script. -/
theorem Program.exists_command_of_emit {p : Program} {text : String} (h : p.emit = .ok text) :
    ∀ s ∈ p.statements, ∃ c, Script.Command.ofStmt s = .ok c ∧ Script.Occurs c.text text := by
  intro s hs
  obtain ⟨script, hscript, rfl⟩ := emit_eq_ok_iff.1 h
  obtain ⟨d, hd, c, hc, hocc⟩ := Script.Command.exists_of_mem_subtreeList p hscript s hs
  exact ⟨c, hc, hocc.trans (Script.occurs_text hd)⟩

end Shellwright
