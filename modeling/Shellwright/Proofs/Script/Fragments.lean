import Shellwright.Proofs.Script.Rows

/-!
# Names in rows

The row of a statement is written from the names in it and from other texts. What gets a value
stands at the beginning of the row; a variable becomes a word, or the value of an assignment, so
what stands before and behind it does not run into it.

## Main definitions

* `Naming`: a name that is written into a script, by its use there.
* `Stmt.fragments`: the names in the row of a statement, with what stands between them.

## Main statements

* `Stmt.fits_fragments`: what stands before and behind a name.
* `Script.Command.head_eq_written`: a row is written as its fragments.
-/
namespace Shellwright

/-- A name that is written into a script: to give it a value, to loop over values, or to get its
value between double quotes or without them. -/
inductive Naming where
  | assigned (name : String)
  | looped (name : String)
  | quoted (name : String)
  | bare (name : String)

/-- A word, or the value of an assignment, can begin behind the text. -/
def WordBegins (before : String) : Prop :=
  before = "" ∨ ∃ mark ∈ [" ", "="], ∃ front, before = front ++ mark

/-- A word can end before the text. -/
def WordEnds (after : String) : Prop :=
  after = "" ∨ ∃ mark ∈ [" ", ";", "\n"], ∃ back, after = mark ++ back

namespace Naming

def name : Naming → String
  | assigned name | looped name | quoted name | bare name => name

/-- The name with what belongs to its use. -/
def text : Naming → String
  | assigned name => name ++ "="
  | looped name => "for " ++ name ++ " in "
  | quoted name => "\"$" ++ name ++ "\""
  | bare name => "$" ++ name

/-- What may stand before it in its row: nothing if the name gets a value. -/
def Opens : Naming → String → Prop
  | assigned _, before | looped _, before => before = ""
  | quoted _, before | bare _, before => WordBegins before

/-- What may follow: anything if the name gets a value. -/
def Closes : Naming → String → Prop
  | assigned _, _ | looped _, _ => True
  | quoted _, after | bare _, after => WordEnds after

end Naming

/-- What a row is written from: a name, or any other text. -/
inductive Fragment where
  | naming (n : Naming)
  | plain (text : String)

namespace Fragment

def text : Fragment → String
  | naming n => n.text
  | plain text => text

def written (fs : List Fragment) : String := String.join (fs.map text)

/-- Fragments that are set off by a text. -/
def joined (separator : String) (rows : List (List Fragment)) : List Fragment :=
  [.plain separator].intercalate rows

end Fragment

namespace Expr

/-- An expression that is a value. -/
def valueFragments : Expr → List Fragment
  | string text => [.plain ("\"" ++ text ++ "\"")]
  | number digits => [.plain digits]
  | var name => [.naming (.quoted name)]
  | call _ _ => []

/-- An expression that is a command or a pattern. -/
def bareFragments : Expr → List Fragment
  | string text => [.plain text]
  | var name => [.naming (.bare name)]
  | number _ | call _ _ => []

/-- What a built-in function is given. -/
def argumentFragments (fragments : Expr → List Fragment) : Expr → List Fragment
  | call _ [arg] => fragments arg
  | _ => []

end Expr

/-- A command with spaces between its words; a blank command word is left out. -/
def Invocation.fragments : Invocation → List Fragment
  | [] => []
  | command :: args =>
    let words := args.map Expr.valueFragments
    Fragment.joined " " <|
      if Text.allBlank (Fragment.written command.bareFragments) then words
      else command.bareFragments :: words

/-- The row of a statement. -/
def Stmt.fragments : Stmt → List Fragment
  | decl _ name value => .naming (.assigned name) :: value.valueFragments
  | run command => Invocation.fragments command
  | ifThen cond _ =>
    .plain "if [ -e " :: (cond.argumentFragments Expr.valueFragments ++ [.plain " ]; then"])
  | forIn name iterable _ =>
    .naming (.looped name) :: (iterable.argumentFragments Expr.bareFragments ++ [.plain "; do"])
  | pipe [] => [.plain ":"]
  | pipe commands => Fragment.joined " | " (commands.map Invocation.fragments)
  | expr value => .plain "echo " :: value.argumentFragments Expr.valueFragments

/-! ## Fragments -/

namespace Fragment

variable {fs gs : List Fragment} {rows : List (List Fragment)} {before after sep : String}

@[simp] theorem written_nil : written [] = "" := rfl

@[simp] theorem written_cons (f : Fragment) (fs : List Fragment) :
    written (f :: fs) = f.text ++ written fs := by
  simp [written]

@[simp] theorem written_append (fs gs : List Fragment) :
    written (fs ++ gs) = written fs ++ written gs := by
  simp [written]

theorem written_joined (sep : String) (rows : List (List Fragment)) :
    written (joined sep rows) = sep.intercalate (rows.map written) := by
  induction rows with
  | nil => rfl
  | cons row rows ih =>
    cases rows with
    | nil => simp [joined]
    | cons next rows =>
      simp only [joined, List.map_cons] at ih ⊢
      rw [List.intercalate_cons_cons, String.intercalate_cons_cons, written_append, written_append,
        ih]
      simp [text]

/-- Every name among the fragments stands where it may, between the two texts. -/
def Fits (before : String) (fs : List Fragment) (after : String) : Prop :=
  ∀ front n back, fs = front ++ .naming n :: back →
    n.Opens (before ++ written front) ∧ n.Closes (written back ++ after)

theorem Fits.nil : Fits before [] after := by
  intro front n back h
  simp at h

theorem Fits.plain (text : String) : Fits before [.plain text] after := by
  intro front n back h
  cases front <;> simp at h

theorem Fits.naming {n : Naming} (hopens : n.Opens before) (hcloses : n.Closes after) :
    Fits before [.naming n] after := by
  intro front m back h
  cases front with
  | nil =>
    simp only [List.nil_append, List.cons.injEq, naming.injEq] at h
    obtain ⟨rfl, rfl⟩ := h
    simpa using ⟨hopens, hcloses⟩
  | cons f front => simp at h

theorem Fits.append (hfs : Fits before fs (written gs ++ after))
    (hgs : Fits (before ++ written fs) gs after) : Fits before (fs ++ gs) after := by
  intro front n back h
  -- the name stands in the second part, at the beginning of it, or in the first part
  obtain ⟨mid, rfl, hmid⟩ | ⟨mid, rfl, hmid⟩ := List.append_eq_append_iff.1 h
  · simpa [String.append_assoc] using hgs mid n back hmid
  · obtain ⟨rfl, rfl⟩ | ⟨mid, rfl, rfl⟩ := List.cons_eq_append_iff.1 hmid
    · simpa using hgs [] n back rfl
    · simpa [String.append_assoc] using hfs front n mid rfl

theorem Fits.cons_naming {n : Naming} (hopens : n.Opens before)
    (hcloses : n.Closes (written fs ++ after)) (h : Fits (before ++ n.text) fs after) :
    Fits before (.naming n :: fs) after :=
  append (.naming hopens hcloses) (by simpa [text] using h)

theorem Fits.cons_plain {text : String} (h : Fits (before ++ text) fs after) :
    Fits before (.plain text :: fs) after :=
  append (.plain text) (by simpa [Fragment.text] using h)

/-- The fragments make words, so that they may stand wherever a word begins and ends. -/
def Worded (fs : List Fragment) : Prop :=
  ∀ before after, WordBegins before → WordEnds after → Fits before fs after

/-- Between words stands what ends a word and begins another one. -/
theorem Worded.joined (hends : ∃ back, sep = " " ++ back) (hbegins : ∃ front, sep = front ++ " ")
    (h : ∀ row ∈ rows, Worded row) : Worded (joined sep rows) := by
  induction rows with
  | nil => exact fun _ _ _ _ => .nil
  | cons row rows ih =>
    obtain ⟨hrow, hrows⟩ := List.forall_mem_cons.1 h
    cases rows with
    | nil => simpa [Fragment.joined] using hrow
    | cons next rows =>
      intro before after hbefore hafter
      have hend : WordEnds (sep ++ (written (Fragment.joined sep (next :: rows)) ++ after)) := by
        obtain ⟨back, rfl⟩ := hends
        exact .inr ⟨" ", by simp, _, String.append_assoc ..⟩
      have hbegin : WordBegins (before ++ written (row ++ [.plain sep])) := by
        obtain ⟨front, rfl⟩ := hbegins
        refine .inr ⟨" ", by simp, before ++ written row ++ front, ?_⟩
        simp [text, String.append_assoc]
      rw [Fragment.joined, List.intercalate_cons_cons]
      refine .append (.append (hrow _ _ hbefore ?_) (.plain sep)) (ih hrows _ _ hbegin hafter)
      simpa [text, Fragment.joined, String.append_assoc] using hend

end Fragment

theorem Expr.worded_valueFragments (e : Expr) : Fragment.Worded e.valueFragments := by
  intro before after hbefore hafter
  cases e with
  | string text => exact .plain _
  | number digits => exact .plain _
  | var name => exact .naming hbefore hafter
  | call _ _ => exact .nil

theorem Expr.worded_bareFragments (e : Expr) : Fragment.Worded e.bareFragments := by
  intro before after hbefore hafter
  cases e with
  | string text => exact .plain _
  | var name => exact .naming hbefore hafter
  | number _ | call _ _ => exact .nil

theorem Expr.worded_argumentFragments {fragments : Expr → List Fragment}
    (h : ∀ e, Fragment.Worded (fragments e)) (e : Expr) :
    Fragment.Worded (e.argumentFragments fragments) := by
  unfold argumentFragments
  split
  · exact h _
  · exact fun _ _ _ _ => .nil

theorem Invocation.worded_fragments (c : Invocation) :
    Fragment.Worded (Invocation.fragments c) := by
  cases c with
  | nil => exact fun _ _ _ _ => .nil
  | cons command args =>
    have hargs : ∀ row ∈ args.map Expr.valueFragments, Fragment.Worded row :=
      List.forall_mem_map.2 fun e _ => e.worded_valueFragments
    refine .joined ⟨"", rfl⟩ ⟨"", rfl⟩ ?_
    split
    · exact hargs
    · exact List.forall_mem_cons.2 ⟨command.worded_bareFragments, hargs⟩

/-- Every name of a row stands where it may, up to the end of the row. -/
theorem Stmt.fits_fragments (s : Stmt) {rest : String} (hrest : WordEnds rest) :
    Fragment.Fits "" s.fragments rest := by
  match s with
  | decl _ name value =>
    refine .cons_naming rfl trivial (value.worded_valueFragments _ _ ?_ hrest)
    exact .inr ⟨"=", by simp, name, String.empty_append⟩
  | run command => exact Invocation.worded_fragments command _ _ (.inl rfl) hrest
  | ifThen cond _ =>
    refine .cons_plain (.append ?_ (.plain _))
    refine cond.worded_argumentFragments Expr.worded_valueFragments _ _ ?_ ?_
    · exact .inr ⟨" ", by simp, "if [ -e", by decide⟩
    · exact .inr ⟨" ", by simp, "]; then" ++ rest, by simp [Fragment.text, ← String.append_assoc]⟩
  | forIn name iterable _ =>
    refine .cons_naming rfl trivial (.append ?_ (.plain _))
    refine iterable.worded_argumentFragments Expr.worded_bareFragments _ _ ?_ ?_
    · have hin : " in " = " in" ++ " " := by decide
      refine .inr ⟨" ", by simp, "for " ++ name ++ " in", ?_⟩
      simp only [Naming.text, hin, String.empty_append, String.append_assoc]
    · exact .inr ⟨";", by simp, " do" ++ rest, by simp [Fragment.text, ← String.append_assoc]⟩
  | pipe [] => exact .plain ":"
  | pipe (c :: cs) =>
    have hcommands : ∀ row ∈ (c :: cs).map Invocation.fragments, Fragment.Worded row :=
      List.forall_mem_map.2 fun c _ => Invocation.worded_fragments c
    exact Fragment.Worded.joined ⟨"| ", by decide⟩ ⟨" |", by decide⟩ hcommands _ _ (.inl rfl) hrest
  | expr value =>
    refine .cons_plain (value.worded_argumentFragments Expr.worded_valueFragments _ _ ?_ hrest)
    exact .inr ⟨" ", by simp, "echo", by decide⟩

/-! ## Rows of commands -/

namespace Script

open Fragment (written)

theorem text_ofValue {e : Expr} {w : Word} (h : Word.ofValue e = .ok w) :
    w.text = written e.valueFragments := by
  obtain ⟨text, rfl, rfl⟩ | ⟨digits, rfl, rfl⟩ | ⟨name, rfl, rfl⟩ := Word.ofValue_eq_ok.1 h
  · simp [Expr.valueFragments, Fragment.text, Word.text]
  · simp [Expr.valueFragments, Fragment.text, Word.text]
  · have hopening : "\"$" = "\"" ++ "$" := by decide
    simp only [Word.text, reference, Expr.valueFragments, Fragment.written_cons, Fragment.text,
      Naming.text, hopening, Fragment.written_nil, String.append_empty, String.append_assoc]

theorem text_bare {e : Expr} {w : Word} (h : (∃ text, e = .string text ∧ w = .bare text) ∨
    ∃ name, e = .var name ∧ w = .bare (reference name)) : w.text = written e.bareFragments := by
  obtain ⟨text, rfl, rfl⟩ | ⟨name, rfl, rfl⟩ := h <;>
    simp [Expr.bareFragments, Fragment.text, Naming.text, Word.text, reference]

theorem line_eq_written {c : Invocation} {ws : List Word} (h : words c = .ok ws) :
    line ws = written (Invocation.fragments c) := by
  obtain ⟨command, args, w, vs, rfl, hw, hvs, rfl⟩ := words_eq_ok.1 h
  have hcommand := text_bare (Word.ofCommand_eq_ok.1 hw)
  have hargs : vs.map Word.text = (args.map Expr.valueFragments).map written := by
    rw [List.map_map]
    exact (hvs.imp fun _ _ => text_ofValue).map_eq
  rw [Invocation.fragments, Fragment.written_joined, ← hcommand, line]
  split
  · rw [hargs]
  · rw [List.map_cons, List.map_cons, hargs, hcommand]

namespace Command

theorem text_pipeline_eq_written {commands : List Invocation} {stages : List (List Word)}
    (h : List.Forall₂ (fun c ws => words c = .ok ws) commands stages) :
    (pipeline stages).text = written (Stmt.pipe commands).fragments := by
  have hstages : stages.map line = (commands.map Invocation.fragments).map written := by
    rw [List.map_map]
    exact (h.imp fun _ _ => line_eq_written).map_eq
  cases h with
  | nil => rfl
  | @cons c _ commands _ _ _ =>
    have htext := Fragment.written_joined " | " ((c :: commands).map Invocation.fragments)
    exact (congrArg (" | ".intercalate ·) hstages).trans htext.symm

/-- A row is written as its fragments. -/
theorem head_eq_written : Kept fun s c => c.head = written s.fragments where
  decl {binding name value w} h := by
    simp [head, text, Stmt.fragments, Fragment.text, Naming.text, text_ofValue h]
  run h := line_eq_written h
  ifThen {cond body w cs} h _ := by
    obtain ⟨arg, rfl, hw⟩ := tested_eq_ok.1 h
    simp [head, Stmt.fragments, Expr.argumentFragments, Fragment.text, text_ofValue hw,
      String.append_assoc]
  forIn {name iterable body w cs} h _ := by
    obtain ⟨arg, rfl, hw⟩ := iterated_eq_ok.1 h
    simp [head, Stmt.fragments, Expr.argumentFragments, Fragment.text, Naming.text,
      text_bare (Word.ofPattern_eq_ok.1 hw), String.append_assoc]
  pipe h := text_pipeline_eq_written h
  expr {value w} h := by
    obtain ⟨arg, rfl, hw⟩ := printed_eq_ok.1 h
    have hecho : (Word.bare "echo").text ++ " " = "echo " := by decide
    simp [head, text, line, Stmt.fragments, Expr.argumentFragments, Fragment.text,
      text_ofValue hw, hecho]

end Command

end Script

end Shellwright
