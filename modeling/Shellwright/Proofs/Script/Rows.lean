import Shellwright.Proofs.Script.Occurrence

/-!
# Scripts row by row

A script has a row for each statement, in the order of the text, and rows that belong to no
statement: those that close a body, and the colon in an empty one. The row of a statement with a
body is what stands before the body; that of any other statement is its whole command. A row is a
line unless a string with a newline is written in it.

## Main definitions

* `Script.Row`: a row with the statement that it is written for.
* `Script.Laid`: a text that is made of rows.

## Main statements

* `Program.exists_rows`: what every construct keeps for its row holds for all rows of a script.
-/
namespace Shellwright

namespace Script

/-- A row of a script and the statement that it is written for. -/
structure Row where
  owner : Option Stmt
  text : String

/-- What is written where there is no statement. -/
def fillers : List String := [noop, "fi", "done"]

variable {Q : Stmt → String → Prop} {body : List Stmt} {cs : List Command} {text : String}

/-- The text is made of a row with the property for each of the statements, and of fillers. -/
inductive Laid (Q : Stmt → String → Prop) : List Stmt → String → Prop where
  | head {s : Stmt} {text : String} : Q s text → Laid Q [s] text
  | filler {text : String} : text ∈ fillers → Laid Q [] text
  | append {ss us : List Stmt} {t u : String} : Laid Q ss t → Laid Q us u →
      Laid Q (ss ++ us) (t ++ "\n" ++ u)

theorem Laid.exists_rows {ss : List Stmt} (h : Laid Q ss text) :
    ∃ rows : List Row, rows ≠ [] ∧ text = "\n".intercalate (rows.map Row.text) ∧
      rows.filterMap Row.owner = ss ∧
      ∀ r ∈ rows, (r.owner = none → r.text ∈ fillers) ∧ ∀ s ∈ r.owner, Q s r.text := by
  induction h with
  | @head s text h => exact ⟨[⟨some s, text⟩], by simp [h]⟩
  | @filler text h => exact ⟨[⟨none, text⟩], by simp [h]⟩
  | append _ _ iht ihu =>
    obtain ⟨rows, hrows, rfl, rfl, ht⟩ := iht
    obtain ⟨rows', hrows', rfl, rfl, hu⟩ := ihu
    refine ⟨rows ++ rows', by simp [hrows], ?_, List.filterMap_append, ?_⟩
    · rw [List.map_append, String.intercalate_append_of_ne_nil (by simpa) (by simpa)]
    · exact fun r hr => (List.mem_append.1 hr).elim (ht r) (hu r)

/-- A body is laid if its commands are. -/
theorem Laid.atLeastOne (h : List.Forall₂ (fun s c => Laid Q s.subtree c.text) body cs) :
    Laid Q (Stmt.subtreeList body) (atLeastOne (Command.texts cs)) := by
  induction h with
  | nil => exact .filler (by decide)
  | @cons s c body cs hc hcs ih =>
    cases hcs with
    | nil => simpa [Stmt.subtreeList, Command.texts_eq_map, Script.atLeastOne] using hc
    | cons _ _ =>
      have htext := hc.append ih
      rw [Command.texts_eq_map, atLeastOne_of_ne_nil (by simp), List.map_cons] at htext ⊢
      rwa [List.map_cons, String.intercalate_cons_cons]

/-- A body between the row of its statement and what closes it. -/
theorem Laid.block {s : Stmt} {closer : String} (hs : Q s text)
    (h : List.Forall₂ (fun s c => Laid Q s.subtree c.text) body cs) (hcloser : closer ∈ fillers) :
    Laid Q (s :: Stmt.subtreeList body)
      (text ++ "\n" ++ Script.atLeastOne (Command.texts cs) ++ ("\n" ++ closer)) := by
  have hlaid := (Laid.head hs).append ((Laid.atLeastOne h).append (.filler hcloser))
  simpa only [List.append_nil, List.singleton_append, String.append_assoc] using hlaid

/-- What every construct keeps for its row holds for all rows of its command. -/
theorem Command.Kept.laid (h : Kept fun s c => Q s c.head) :
    Kept fun s c => Q s c.head ∧ Laid Q s.subtree c.text where
  decl hw := ⟨h.decl hw, .head (h.decl hw)⟩
  run hws := ⟨h.run hws, .head (h.run hws)⟩
  ifThen {cond body w cs} hw hbody := by
    have hhead := h.ifThen hw (hbody.imp fun _ _ => And.left)
    rw [text_ifExists]
    exact ⟨hhead, .block hhead (hbody.imp fun _ _ => And.right) (by decide)⟩
  forIn {name iterable body w cs} hw hbody := by
    have hhead : Q (.forIn name iterable body) (forEach name w cs).head :=
      h.forIn hw (hbody.imp fun _ _ => And.left)
    rw [text_forEach]
    exact ⟨hhead, .block hhead (hbody.imp fun _ _ => And.right) (by decide)⟩
  pipe hstages := ⟨h.pipe hstages, .head (h.pipe hstages)⟩
  expr hw := ⟨h.expr hw, .head (h.expr hw)⟩

end Script

open Script

/-- A script is its rows with a newline between any two. There is one for each statement, in order;
the others are fillers. -/
theorem Program.exists_rows {Q : Stmt → String → Prop} (hQ : Command.Kept fun s c => Q s c.head)
    {p : Program} {text : String} (h : p.emit = .ok text) :
    ∃ rows : List Row, text = "\n".intercalate (rows.map Row.text) ∧
      rows.filterMap Row.owner = p.statements ∧
      ∀ r ∈ rows, (r.owner = none → r.text ∈ fillers) ∧ ∀ s ∈ r.owner, Q s r.text := by
  obtain ⟨script, hscript, rfl⟩ := emit_eq_ok_iff.1 h
  have hlaid := Laid.atLeastOne ((hQ.laid.ofStmts p hscript).imp fun _ _ => And.right)
  cases p with
  | nil =>
    cases hscript
    exact ⟨[], rfl, rfl, by simp⟩
  | cons s p =>
    have hne : Command.texts script ≠ [] := by
      have := Command.length_of_ofStmts hscript
      rw [Command.texts_eq_map]
      rintro hnil
      simp_all
    rw [atLeastOne_of_ne_nil hne, Command.texts_eq_map] at hlaid
    obtain ⟨rows, -, hrows⟩ := hlaid.exists_rows
    exact ⟨rows, hrows⟩

end Shellwright
