import Shellwright.Proofs.Script.Line

/-!
# Scripts as lines

A script is its lines with a newline between any two. The lines of a command tell where it ends: a
body goes on up to the line that closes it, since no command begins with such a line, and the colon
stands for a body only if there is nothing else in it. A script of plain commands can therefore be
read back from its text.

## Main definitions

* `Script.Command.lines`: the lines of a command.
* `Script.Command.Plain`: commands that can be read back.

## Main statements

* `Script.text_eq_intercalate_lines`: a plain script is written as its lines.
* `Script.Command.Plain.delimited`: a command ends where its lines say, whatever follows them.
* `Script.text_inj`: a plain script is determined by its text.
-/
namespace Shellwright.Script

open Text

namespace Line

/-- The command that does nothing. -/
def noop : Line := words [.bare Script.noop]

/-- The first line of a condition. -/
def ifExists (path : Word) : Line :=
  words [.bare "if", .bare "[", .bare "-e", path, .bare "];", .bare "then"]

def fi : Line := words [.bare "fi"]

def done : Line := words [.bare "done"]

/-- The lines of a body, which has at least one. -/
def orNoop : List Line → List Line
  | [] => [noop]
  | ls => ls

/-- A body between the lines that open and close it. -/
def block (opening : Line) (body : List Line) (closing : Line) : List Line :=
  opening :: (orNoop body ++ [closing])

theorem orNoop_of_ne_nil {ls : List Line} (h : ls ≠ []) : orNoop ls = ls := by
  cases ls with
  | nil => exact absurd rfl h
  | cons l ls => rfl

theorem orNoop_ne_nil (ls : List Line) : orNoop ls ≠ [] := by
  cases ls <;> simp [orNoop]

variable {opening closing : Line} {body : List Line}

theorem plain_block (hopening : opening.Plain) (hbody : ∀ l ∈ body, l.Plain)
    (hclosing : closing.Plain) : ∀ l ∈ block opening body closing, l.Plain := by
  have horNoop : ∀ l ∈ orNoop body, l.Plain := by
    cases body with
    | nil =>
      have hnoop : noop.Plain := .words (by decide) (by decide) (by simp)
      simpa [orNoop] using hnoop
    | cons l ls => exact hbody
  simp only [block, List.mem_cons, List.mem_append, List.not_mem_nil, or_false]
  rintro l (rfl | hl | rfl)
  · exact hopening
  · exact horNoop l hl
  · exact hclosing

theorem intercalate_block (opening closing : Line) (body : List Line) :
    "\n".intercalate ((block opening body closing).map text) = opening.text ++ "\n" ++
      "\n".intercalate ((orNoop body).map text) ++ "\n" ++ closing.text := by
  have hne : (orNoop body).map text ≠ [] := by simpa using orNoop_ne_nil body
  rw [block, List.map_cons, List.map_append, String.intercalate_cons_of_ne_nil (by simp),
    String.intercalate_append_of_ne_nil hne (by simp)]
  simp [String.append_assoc]

end Line

/-- What stands between the commands of a pipeline. -/
def bar : Word := .bare "|"

/-- Words that do not begin a simple command. -/
def reserved : List String := ["if", "for", "fi", "done", noop, "|"]

/-- The words of a command or of a pipeline: a bare one that is not reserved, then any others. -/
inductive Simple : List Word → Prop where
  | intro {first : String} {args : List Word} (stem : isStem first = true)
      (free : first ∉ reserved) (solid : ∀ w ∈ args, w.Solid) : Simple (.bare first :: args)

namespace Command

mutual

def lines : Command → List Line
  | assign name value => [.assign name value]
  | simple words => [.words words]
  | pipeline [] => [.noop]
  | pipeline stages => [.words ([bar].intercalate stages)]
  | ifExists path body => Line.block (.ifExists path) (linesList body) .fi
  | forEach name pattern body => Line.block (.forEach name pattern) (linesList body) .done

def linesList : List Command → List Line
  | [] => []
  | c :: cs => c.lines ++ linesList cs

end

@[simp] theorem linesList_eq_flatMap (cs : List Command) : linesList cs = cs.flatMap lines := by
  induction cs with
  | nil => rfl
  | cons c cs ih => simp [linesList, ih]

theorem lines_pipeline {stages : List (List Word)} (h : stages ≠ []) :
    lines (pipeline stages) = [.words ([bar].intercalate stages)] := by
  cases stages with
  | nil => exact absurd rfl h
  | cons ws stages => rfl

theorem text_pipeline {stages : List (List Word)} (h : stages ≠ []) :
    text (pipeline stages) = " | ".intercalate (stages.map line) := by
  cases stages with
  | nil => exact absurd rfl h
  | cons ws stages => rfl

/-- A command that can be read back. -/
inductive Plain : Command → Prop where
  | assign {name : String} {value : Word} (stem : isStem name = true) (solid : value.Solid) :
      Plain (.assign name value)
  | simple {words : List Word} (simple : Simple words) (barless : bar ∉ words) :
      Plain (.simple words)
  | pipeline {stages : List (List Word)} (several : 2 ≤ stages.length)
      (simple : ∀ words ∈ stages, Simple words) (barless : ∀ words ∈ stages, bar ∉ words) :
      Plain (.pipeline stages)
  | ifExists {path : Word} {body : List Command} (solid : path.Solid)
      (plain : ∀ c ∈ body, Plain c) : Plain (.ifExists path body)
  | forEach {name pattern : String} {body : List Command} (stem : isStem name = true)
      (oneLine : '\n' ∉ pattern.toList) (plain : ∀ c ∈ body, Plain c) :
      Plain (.forEach name (.bare pattern) body)

end Command

/-! ## Pipelines -/

variable {words : List Word} {stages : List (List Word)}

namespace Simple

theorem ne_nil (h : Simple words) : words ≠ [] := by
  cases h
  simp

theorem all_solid (h : Simple words) : ∀ w ∈ words, w.Solid := by
  cases h with
  | intro stem _ solid => simpa using ⟨stem, solid⟩

theorem append {args : List Word} (h : Simple words) (solid : ∀ w ∈ args, w.Solid) :
    Simple (words ++ args) := by
  cases h with
  | intro stem free solid' =>
    refine .intro stem free fun w hw => ?_
    rcases List.mem_append.1 hw with hw | hw
    · exact solid' w hw
    · exact solid w hw

theorem plain (h : Simple words) : (Line.words words).Plain := by
  cases h with
  | intro stem free solid =>
    refine .words stem ?_ solid
    rintro rfl
    exact free (by decide)

/-- A pipeline begins as its first command does. -/
theorem intercalate (hne : stages ≠ []) (h : ∀ words ∈ stages, Simple words) :
    Simple ([bar].intercalate stages) := by
  induction stages with
  | nil => exact absurd rfl hne
  | cons ws stages ih =>
    have hws := h ws List.mem_cons_self
    cases stages with
    | nil => rwa [List.intercalate_singleton]
    | cons vs stages =>
      have htail := ih (by simp) fun words hw => h words (List.mem_cons_of_mem _ hw)
      have hbar : bar.Solid := by decide
      rw [List.intercalate_cons_cons, List.append_assoc]
      exact hws.append (by simpa using ⟨hbar, htail.all_solid⟩)

/-- A word that is reserved does not begin a command. -/
theorem words_ne {first : String} {args : List Word} (h : Simple words) (hr : first ∈ reserved) :
    Line.words words ≠ .words (.bare first :: args) := by
  cases h with
  | intro _ free =>
    intro heq
    injection heq with heq
    obtain ⟨hfirst, -⟩ := List.cons.inj heq
    injection hfirst with hfirst
    exact free (hfirst ▸ hr)

end Simple

theorem ne_nil_of_several (h : 2 ≤ stages.length) : stages ≠ [] := by
  rintro rfl
  simp at h

theorem bar_mem_intercalate (h : 2 ≤ stages.length) : bar ∈ [bar].intercalate stages := by
  cases stages with
  | nil => simp at h
  | cons ws stages =>
    cases stages with
    | nil => simp at h
    | cons vs stages => simp [List.intercalate_cons_cons]

theorem line_append {vs ws : List Word} (hvs : vs ≠ []) (hws : ws ≠ []) :
    line (vs ++ ws) = line vs ++ " " ++ line ws := by
  rw [line, List.map_append, String.intercalate_append_of_ne_nil (by simpa) (by simpa)]
  rfl

/-- The bar between two commands has a space on either side. -/
theorem intercalate_map_line (h : ∀ words ∈ stages, Simple words) :
    " | ".intercalate (stages.map line) = line ([bar].intercalate stages) := by
  induction stages with
  | nil => rfl
  | cons ws stages ih =>
    cases stages with
    | nil => simp
    | cons vs stages =>
      have htail : ∀ words ∈ vs :: stages, Simple words := fun words hw =>
        h words (List.mem_cons_of_mem _ hw)
      have hne := (Simple.intercalate (by simp) htail).ne_nil
      have hbar : " | " = " " ++ (line [bar] ++ " ") := by decide
      calc " | ".intercalate ((ws :: vs :: stages).map line)
          = line ws ++ " | " ++ " | ".intercalate ((vs :: stages).map line) :=
            String.intercalate_cons_cons
        _ = line ws ++ " | " ++ line ([bar].intercalate (vs :: stages)) := by rw [ih htail]
        _ = line ws ++ " " ++ (line [bar] ++ " " ++ line ([bar].intercalate (vs :: stages))) := by
            rw [hbar]
            simp only [String.append_assoc]
        _ = line (ws ++ ([bar] ++ [bar].intercalate (vs :: stages))) := by
            rw [line_append (h ws (by simp)).ne_nil (by simp), line_append (by simp) hne]
        _ = line ([bar].intercalate (ws :: vs :: stages)) := by
            rw [List.intercalate_cons_cons, List.append_assoc]

/-! ## Commands as lines -/

theorem intercalate_flatMap {α : Type} {f : α → List String} {as : List α} (separator : String)
    (h : ∀ a ∈ as, f a ≠ []) : separator.intercalate (as.map fun a => separator.intercalate (f a)) =
      separator.intercalate (as.flatMap f) := by
  induction as with
  | nil => rfl
  | cons a as ih =>
    cases as with
    | nil => simp
    | cons b as =>
      have htail := ih fun x hx => h x (List.mem_cons_of_mem _ hx)
      have hne : (b :: as).flatMap f ≠ [] := by simp [h b]
      rw [List.flatMap_cons, String.intercalate_append_of_ne_nil (h a (by simp)) hne, ← htail]
      exact String.intercalate_cons_cons

namespace Command

variable {c d : Command} {cs ds : List Command}

theorem lines_ne_nil (c : Command) : c.lines ≠ [] := by
  cases c with
  | pipeline stages => cases stages <;> simp [lines]
  | _ => simp [lines, Line.block]

theorem plain_lines (h : c.Plain) : ∀ l ∈ c.lines, l.Plain := by
  induction h with
  | assign stem solid => simpa [lines] using Line.Plain.assign stem solid
  | simple hsimple => simpa [lines] using hsimple.plain
  | pipeline several hsimple =>
    have hne := ne_nil_of_several several
    simpa [lines_pipeline hne] using (Simple.intercalate hne hsimple).plain
  | @ifExists path body solid _ ih =>
    have hif : (Line.ifExists path).Plain := by
      refine .words (by decide) (by decide) ?_
      simpa using ⟨by decide, by decide, solid, by decide, by decide⟩
    have hfi : Line.fi.Plain := .words (by decide) (by decide) (by simp)
    rw [lines, linesList_eq_flatMap]
    exact Line.plain_block hif (List.forall_mem_flatMap.2 ih) hfi
  | @forEach name pattern body stem oneLine _ ih =>
    have hdone : Line.done.Plain := .words (by decide) (by decide) (by simp)
    rw [lines, linesList_eq_flatMap]
    exact Line.plain_block (.forEach stem oneLine) (List.forall_mem_flatMap.2 ih) hdone

/-- The command is written as its lines. -/
def Lined (c : Command) : Prop := c.text = "\n".intercalate (c.lines.map Line.text)

theorem intercalate_text (h : ∀ c ∈ cs, c.Lined) :
    "\n".intercalate (cs.map text) = "\n".intercalate ((cs.flatMap lines).map Line.text) := by
  rw [List.map_congr_left h, intercalate_flatMap "\n" (by simp [lines_ne_nil]), List.map_flatMap]

theorem atLeastOne_text (h : ∀ c ∈ cs, c.Lined) :
    atLeastOne (texts cs) = "\n".intercalate ((Line.orNoop (linesList cs)).map Line.text) := by
  rw [texts_eq_map, linesList_eq_flatMap]
  cases cs with
  | nil => simp [atLeastOne, Line.orNoop, Line.noop, Line.text, line, Word.text]
  | cons c cs =>
    rw [Line.orNoop_of_ne_nil (by simp [lines_ne_nil])]
    exact intercalate_text h

theorem Plain.lined (h : c.Plain) : c.Lined := by
  induction h with
  | assign => simp [Lined, lines, text, Line.text]
  | simple => simp [Lined, lines, text, Line.text]
  | pipeline several hsimple =>
    have hne := ne_nil_of_several several
    simp [Lined, lines_pipeline hne, text_pipeline hne, Line.text, intercalate_map_line hsimple]
  | @ifExists path body _ _ ih =>
    rw [Lined, lines, text, Line.intercalate_block, atLeastOne_text ih]
    generalize "\n".intercalate _ = lines
    refine String.toList_inj.1 ?_
    simp [Line.text, Line.ifExists, Line.fi, line, Word.text]
  | @forEach name pattern body _ _ _ ih =>
    rw [Lined, lines, text, Line.intercalate_block, atLeastOne_text ih]
    generalize "\n".intercalate _ = lines
    refine String.toList_inj.1 ?_
    simp [Line.text, Line.done, line, Word.text]

/-! ## Reading lines back -/

/-- A command without its body. -/
def emptied : Command → Command
  | ifExists path _ => ifExists path []
  | forEach name pattern _ => forEach name pattern []
  | c => c

end Command

/-- The command that a line begins, without a body. -/
def Line.begun : Line → Command
  | .words (.bare "if" :: _ :: _ :: path :: _) => .ifExists path []
  | .words ws => if bar ∈ ws then .pipeline (ws.splitOn bar) else .simple ws
  | .assign name value => .assign name value
  | .forEach name pattern => .forEach name pattern []

theorem Simple.begun (h : Simple words) : (Line.words words).begun =
    if bar ∈ words then .pipeline (words.splitOn bar) else .simple words := by
  cases h with
  | intro _ free =>
    unfold Line.begun
    split
    · rename_i heq
      simp only [Line.words.injEq, List.cons.injEq, Word.bare.injEq] at heq
      exact absurd (heq.1 ▸ by decide) free
    · rename_i heq
      injection heq with heq
      rw [heq]
    · simp_all
    · simp_all

namespace Command

variable {c d : Command} {cs ds : List Command} {r s : List Line} {l : Line}

theorem begun_of_lines (h : c.Plain) (hl : l ∈ c.lines.head?) : l.begun = c.emptied := by
  cases h with
  | assign =>
    cases hl
    rfl
  | simple hsimple barless =>
    cases hl
    rw [hsimple.begun, if_neg barless]
    rfl
  | pipeline several hsimple barless =>
    have hne := ne_nil_of_several several
    rw [lines_pipeline hne] at hl
    cases hl
    rw [(Simple.intercalate hne hsimple).begun, if_pos (bar_mem_intercalate several),
      List.splitOn_intercalate bar barless hne]
    rfl
  | ifExists =>
    cases hl
    rfl
  | forEach =>
    cases hl
    rfl

/-- A reserved word alone on a line begins no command. -/
theorem lines_append_ne (h : c.Plain) {first : String} (hr : first ∈ reserved) :
    c.lines ++ r ≠ .words [.bare first] :: s := by
  intro heq
  cases h with
  | assign => simp [lines] at heq
  | simple hsimple => exact hsimple.words_ne hr (List.cons.inj heq).1
  | pipeline several hsimple =>
    have hne := ne_nil_of_several several
    rw [lines_pipeline hne] at heq
    exact (Simple.intercalate hne hsimple).words_ne hr (List.cons.inj heq).1
  | ifExists => simp [lines, Line.block, Line.ifExists] at heq
  | forEach => simp [lines, Line.block] at heq

/-- The lines of the command can be told from whatever follows them. -/
def Delimited (c : Command) : Prop :=
  ∀ {d : Command} {r s : List Line}, d.Plain → c.lines ++ r = d.lines ++ s → c = d ∧ r = s

/-- The end of the script, or a reserved word alone on a line: what follows the commands of a body
or of a whole script. -/
inductive Closing : List Line → Prop where
  | nil : Closing []
  | cons {first : String} (hr : first ∈ reserved) (r : List Line) :
      Closing (.words [.bare first] :: r)

/-- No command begins where commands end. -/
theorem Closing.eq_nil (hr : Closing r) (hds : ∀ d ∈ ds, d.Plain)
    (h : r = ds.flatMap lines ++ s) : ds = [] := by
  cases ds with
  | nil => rfl
  | cons d ds =>
    rw [List.flatMap_cons, List.append_assoc] at h
    cases hr with
    | nil => simp [lines_ne_nil] at h
    | cons hr r => exact absurd h.symm (lines_append_ne (hds d List.mem_cons_self) hr)

theorem flatMap_lines_append_inj (hdelim : ∀ c ∈ cs, c.Delimited) (hcs : ∀ c ∈ cs, c.Plain)
    (hds : ∀ d ∈ ds, d.Plain) (hr : Closing r) (hs : Closing s)
    (h : cs.flatMap lines ++ r = ds.flatMap lines ++ s) : cs = ds ∧ r = s := by
  induction cs generalizing ds with
  | nil =>
    obtain rfl := hr.eq_nil hds h
    exact ⟨rfl, h⟩
  | cons c cs ih =>
    cases ds with
    | nil => exact absurd (hs.eq_nil hcs h.symm) (by simp)
    | cons d ds =>
      simp only [List.flatMap_cons, List.append_assoc] at h
      obtain ⟨rfl, htail⟩ := hdelim c List.mem_cons_self (hds d List.mem_cons_self) h
      obtain ⟨rfl, hrs⟩ := ih (fun x hx => hdelim x (List.mem_cons_of_mem _ hx))
        (fun x hx => hcs x (List.mem_cons_of_mem _ hx))
        (fun x hx => hds x (List.mem_cons_of_mem _ hx)) htail
      exact ⟨rfl, hrs⟩

/-- What stands for the commands of a body that has none. -/
def filler (cs : List Command) : List Line := if cs.isEmpty then [.noop] else []

theorem orNoop_flatMap_lines (cs : List Command) :
    Line.orNoop (cs.flatMap lines) = cs.flatMap lines ++ filler cs := by
  cases cs with
  | nil => rfl
  | cons c cs => simp [Line.orNoop_of_ne_nil, lines_ne_nil, filler]

theorem closing_filler (cs : List Command) {first : String} (hr : first ∈ reserved)
    (r : List Line) : Closing (filler cs ++ .words [.bare first] :: r) := by
  cases cs with
  | nil => exact .cons (by decide) _
  | cons c cs => exact .cons hr r

theorem block_append_inj {opening opening' : Line} {last : String} (hlast : last ∈ reserved)
    (hdelim : ∀ c ∈ cs, c.Delimited) (hcs : ∀ c ∈ cs, c.Plain) (hds : ∀ d ∈ ds, d.Plain)
    (h : Line.block opening (cs.flatMap lines) (.words [.bare last]) ++ r =
      Line.block opening' (ds.flatMap lines) (.words [.bare last]) ++ s) : cs = ds ∧ r = s := by
  simp only [Line.block, orNoop_flatMap_lines, List.cons_append, List.append_assoc,
    List.cons.injEq, List.nil_append] at h
  -- a colon begins no command either, so it belongs to what closes the body
  obtain ⟨rfl, htail⟩ := flatMap_lines_append_inj hdelim hcs hds (closing_filler cs hlast r)
    (closing_filler ds hlast s) h.2
  exact ⟨rfl, (List.cons.inj (List.append_cancel_left htail)).2⟩

/-- The first line decides which command it is, but for the body. -/
theorem emptied_eq (hc : c.Plain) (hd : d.Plain) (h : c.lines ++ r = d.lines ++ s) :
    c.emptied = d.emptied := by
  obtain ⟨l, ls, hl⟩ := List.exists_cons_of_ne_nil (lines_ne_nil c)
  obtain ⟨m, ms, hm⟩ := List.exists_cons_of_ne_nil (lines_ne_nil d)
  rw [hl, hm] at h
  obtain ⟨rfl, -⟩ := List.cons.inj h
  have hc' : l.begun = c.emptied := begun_of_lines hc (by simp [hl])
  have hd' : l.begun = d.emptied := begun_of_lines hd (by simp [hm])
  exact hc'.symm.trans hd'

/-- The lines of a plain command tell where it ends. The first line leaves only the body open, and
the body goes on up to the first reserved word that stands alone. -/
theorem Plain.delimited (h : c.Plain) : c.Delimited := by
  induction h with
  | assign stem solid =>
    intro d r s hd heq
    have hempty := emptied_eq (.assign stem solid) hd heq
    cases hd <;> cases hempty
    exact ⟨rfl, List.append_cancel_left heq⟩
  | simple hsimple barless =>
    intro d r s hd heq
    have hempty := emptied_eq (.simple hsimple barless) hd heq
    cases hd <;> cases hempty
    exact ⟨rfl, List.append_cancel_left heq⟩
  | pipeline several hsimple barless =>
    intro d r s hd heq
    have hempty := emptied_eq (.pipeline several hsimple barless) hd heq
    cases hd <;> cases hempty
    exact ⟨rfl, List.append_cancel_left heq⟩
  | ifExists solid plain ih =>
    intro d r s hd heq
    have hempty := emptied_eq (.ifExists solid plain) hd heq
    cases hd with
    | ifExists _ plain' =>
      cases hempty
      simp only [lines, linesList_eq_flatMap] at heq
      have hfi : "fi" ∈ reserved := by decide
      obtain ⟨rfl, hrs⟩ := block_append_inj hfi ih plain plain' heq
      exact ⟨rfl, hrs⟩
    | _ => cases hempty
  | forEach stem oneLine plain ih =>
    intro d r s hd heq
    have hempty := emptied_eq (.forEach stem oneLine plain) hd heq
    cases hd with
    | forEach _ _ plain' =>
      cases hempty
      simp only [lines, linesList_eq_flatMap] at heq
      have hdone : "done" ∈ reserved := by decide
      obtain ⟨rfl, hrs⟩ := block_append_inj hdone ih plain plain' heq
      exact ⟨rfl, hrs⟩
    | _ => cases hempty

end Command

variable {script other : Script}

theorem text_eq_intercalate_lines (h : ∀ c ∈ script, c.Plain) :
    script.text = "\n".intercalate ((script.flatMap Command.lines).map Line.text) :=
  Command.intercalate_text fun c hc => (h c hc).lined

/-- A plain script is determined by its text. -/
theorem text_inj (hs : ∀ c ∈ script, c.Plain) (ho : ∀ c ∈ other, c.Plain)
    (h : script.text = other.text) : script = other := by
  rw [text_eq_intercalate_lines hs, text_eq_intercalate_lines ho] at h
  have hlines := Line.intercalate_text_inj
    (List.forall_mem_flatMap.2 fun c hc => Command.plain_lines (hs c hc))
    (List.forall_mem_flatMap.2 fun c hc => Command.plain_lines (ho c hc)) h
  exact (Command.flatMap_lines_append_inj (fun c hc => (hs c hc).delimited) hs ho .nil .nil
    (by rw [hlines])).1

end Shellwright.Script
