import Shellwright.Proofs.Script.Lines
import Shellwright.Proofs.Script.Lowering

/-!
# The fields of a command

A shell takes the text of a command apart again: blanks outside quotes stand between fields, what
stands between double quotes is kept as it is, and the quotes are removed; a pipeline is first cut
at the bars outside quotes. A command whose words have no other meaning to a shell comes out with
the texts it was written with, one field to an argument.

## Main definitions

* `Script.fields`, `Script.stages`: the fields of a command and the stages of a pipeline.
* `Script.Word.Literal`, `Invocation.Literal`: words and commands that a shell reads by these rules
  alone.

## Main statements

* `Script.fields_line`, `Script.map_fields_stages`: the fields of words that are written in a line,
  and of lines with bars between them.
* `Script.fields_ofStmt`: a command and a pipeline are taken apart into the texts they are written
  with.
-/
namespace Shellwright

namespace Script

/-! ## Taking a text apart -/

def isSeparator (c : Char) : Bool := c = ' ' || c = '\t'

/-- Characters that mean something to a shell, other than separators and double quotes. Between
double quotes there are fewer of them. -/
def isSpecial (quoted : Bool) (c : Char) : Bool :=
  c ∈ ['$', '\x60', '\\'] || !quoted && c ∈ ['\x27', '#', '~', '=', '*', '?', '[', '|', '&', ';',
    '<', '>', '(', ')', '\n']

/-- The fields of a text, when `field` has been begun and quotes are open or not. There are none if
the quotes are never closed, or if a character would have to be read by other rules. -/
def split (quoted : Bool) (field : Option (List Char)) : List Char → Option (List (List Char))
  | [] => if quoted then none else some field.toList
  | c :: cs =>
    if c = '"' then split (!quoted) (some (field.getD [])) cs
    else if isSpecial quoted c then none
    else if !quoted && isSeparator c then (split false none cs).map (field.toList ++ ·)
    else split quoted (some (field.getD [] ++ [c])) cs

def fields (text : String) : Option (List String) :=
  (split false none text.toList).map (·.map String.ofList)

/-- The parts of a text between the bars outside quotes. -/
def cut (quoted : Bool) : List Char → List (List Char)
  | [] => [[]]
  | c :: cs =>
    if !quoted && c = '|' then [] :: cut false cs
    else (cut (if c = '"' then !quoted else quoted) cs).modifyHead (c :: ·)

def stages (text : String) : List String := (cut false text.toList).map String.ofList

/-! ## Words -/

/-- Characters that stand for themselves. -/
def isLiteral (quoted : Bool) (c : Char) : Bool :=
  c ≠ '"' && !isSpecial quoted c && (quoted || !isSeparator c)

namespace Word

/-- A word that a shell takes for its text alone. -/
def Literal : Word → Prop
  | bare text => text ≠ "" ∧ ∀ c ∈ text.toList, isLiteral false c = true
  | quoted text => ∀ c ∈ text.toList, isLiteral true c = true

def content : Word → String
  | bare text | quoted text => text

end Word

variable {quoted : Bool} {c : Char} {w : Word} {ws : List Word} {x cs : List Char}

/-! ## The fields of a line -/

theorem split_cons (h : isLiteral quoted c = true) (field : Option (List Char)) (cs : List Char) :
    split quoted field (c :: cs) = split quoted (some (field.getD [] ++ [c])) cs := by
  simp only [isLiteral, Bool.and_eq_true, Bool.not_eq_true', decide_eq_true_eq] at h
  obtain ⟨⟨hquote, hspecial⟩, hsep⟩ := h
  have hsep' : (!quoted && isSeparator c) = false := by
    rw [← Bool.not_eq_true', Bool.not_and, Bool.not_not, hsep]
  simp [split, hquote, hspecial, hsep']

theorem split_append (h : ∀ c ∈ x, isLiteral quoted c = true) (field cs : List Char) :
    split quoted (some field) (x ++ cs) = split quoted (some (field ++ x)) cs := by
  induction x generalizing field with
  | nil => simp
  | cons c x ih =>
    rw [List.cons_append, split_cons (h c List.mem_cons_self),
      ih fun d hd => h d (List.mem_cons_of_mem _ hd)]
    simp

theorem split_word (h : w.Literal) (cs : List Char) :
    split false none (w.text.toList ++ cs) = split false (some w.content.toList) cs := by
  cases w with
  | bare text =>
    obtain ⟨hne, hall⟩ := h
    cases ht : text.toList with
    | nil => exact absurd (String.toList_eq_nil_iff.1 ht) hne
    | cons c x =>
      rw [ht] at hall
      rw [Word.text, ht, List.cons_append, split_cons (hall c List.mem_cons_self),
        split_append fun d hd => hall d (List.mem_cons_of_mem _ hd)]
      simp [Word.content, ht]
  | quoted text =>
    have happ := split_append h [] ('"' :: cs)
    simpa [Word.text, Word.content, split] using happ

@[simp] theorem split_space (field : Option (List Char)) (cs : List Char) :
    split false field (' ' :: cs) = (split false none cs).map (field.toList ++ ·) := by
  simp [split, isSpecial, isSeparator]

/-- Spaces behind the last word make no field. -/
theorem split_replicate (field : Option (List Char)) (n : Nat) :
    split false field (List.replicate n ' ') = some field.toList := by
  induction n generalizing field with
  | zero => simp [split]
  | succ n ih => simp [List.replicate_succ, ih]

theorem split_arguments (h : ∀ w ∈ ws, w.Literal) (field : List Char) (n : Nat) :
    split false (some field) (arguments ws ++ List.replicate n ' ') =
      some (field :: ws.map (·.content.toList)) := by
  induction ws generalizing field with
  | nil => simp [arguments, split_replicate]
  | cons w ws ih =>
    have hcons : arguments (w :: ws) = ' ' :: (w.text.toList ++ arguments ws) := by
      simp [arguments]
    rw [hcons, List.cons_append, split_space, List.append_assoc,
      split_word (h w List.mem_cons_self), ih fun v hv => h v (List.mem_cons_of_mem _ hv)]
    simp

theorem split_line (hne : ws ≠ []) (h : ∀ w ∈ ws, w.Literal) (n : Nat) :
    split false none ((line ws).toList ++ List.replicate n ' ') =
      some (ws.map (·.content.toList)) := by
  cases ws with
  | nil => exact absurd rfl hne
  | cons w ws =>
    rw [toList_line_cons, List.append_assoc, split_word (h w List.mem_cons_self),
      split_arguments fun v hv => h v (List.mem_cons_of_mem _ hv)]
    rfl

theorem fields_line (hne : ws ≠ []) (h : ∀ w ∈ ws, w.Literal) :
    fields (line ws) = some (ws.map Word.content) := by
  have hsplit := split_line hne h 0
  simp only [List.replicate_zero, List.append_nil] at hsplit
  simp [fields, hsplit]

/-! ## The parts of a pipeline -/

/-- A text that is not cut, whatever follows it. -/
def Uncut (x : List Char) : Prop :=
  ∀ cs, cut false (x ++ cs) = (cut false cs).modifyHead (x ++ ·)

theorem cut_append (h : ∀ c ∈ x, isLiteral quoted c = true) (cs : List Char) :
    cut quoted (x ++ cs) = (cut quoted cs).modifyHead (x ++ ·) := by
  induction x with
  | nil => exact (congrFun List.modifyHead_id _).symm
  | cons c x ih =>
    have hc := h c List.mem_cons_self
    have hquote : c ≠ '"' := by
      rintro rfl
      simp [isLiteral] at hc
    have hbar : (!quoted && c = '|') = false := by
      cases quoted with
      | false =>
        rcases eq_or_ne c '|' with rfl | hne
        · exact absurd hc (by decide)
        · simp [hne]
      | true => rfl
    rw [List.cons_append, cut, if_neg (by simp [hbar]), if_neg hquote,
      ih fun d hd => h d (List.mem_cons_of_mem _ hd), List.modifyHead_modifyHead]
    rfl

theorem Uncut.append {y : List Char} (hx : Uncut x) (hy : Uncut y) : Uncut (x ++ y) := by
  intro cs
  rw [List.append_assoc, hx, hy, List.modifyHead_modifyHead]
  simp [Function.comp_def]

theorem uncut_nil : Uncut [] := cut_append (by simp)

theorem uncut_space : Uncut [' '] := fun _ => rfl

theorem uncut_word (h : w.Literal) : Uncut w.text.toList := by
  cases w with
  | bare text => exact cut_append h.2
  | quoted text =>
    intro cs
    have happ := cut_append h ('"' :: cs)
    simp [Word.text, cut, happ, Function.comp_def]

theorem uncut_line (h : ∀ w ∈ ws, w.Literal) : Uncut (line ws).toList := by
  have harguments {vs : List Word} (hvs : ∀ v ∈ vs, v.Literal) : Uncut (arguments vs) := by
    induction vs with
    | nil => exact uncut_nil
    | cons v vs ih =>
      have hv := uncut_space.append (uncut_word (hvs v List.mem_cons_self))
      exact hv.append (ih fun u hu => hvs u (List.mem_cons_of_mem _ hu))
  cases ws with
  | nil => exact uncut_nil
  | cons w ws =>
    rw [toList_line_cons]
    exact (uncut_word (h w List.mem_cons_self)).append
      (harguments fun v hv => h v (List.mem_cons_of_mem _ hv))

/-- The parts of a pipeline have the fields that its lines have, whatever spaces stand about. -/
theorem map_split_cut {rows : List (List Word)} (hne : rows ≠ [])
    (h : ∀ ws ∈ rows, ws ≠ [] ∧ ∀ w ∈ ws, w.Literal) :
    (cut false (" | ".intercalate (rows.map line)).toList).map (split false none) =
      rows.map fun ws => some (ws.map (·.content.toList)) := by
  induction rows with
  | nil => exact absurd rfl hne
  | cons ws rows ih =>
    obtain ⟨hws, hliteral⟩ := h ws List.mem_cons_self
    cases rows with
    | nil =>
      have hcut : cut false (line ws).toList = [(line ws).toList] := by
        simpa [cut] using uncut_line hliteral []
      have hsplit := split_line hws hliteral 0
      simp only [List.replicate_zero, List.append_nil] at hsplit
      simp [hcut, hsplit]
    | cons vs rows =>
      set rest := (" | ".intercalate ((vs :: rows).map line)).toList with hrest
      have htext : (" | ".intercalate ((ws :: vs :: rows).map line)).toList =
          (line ws).toList ++ ' ' :: '|' :: ' ' :: rest := by
        simp [hrest, String.intercalate_cons_cons]
      have hcut : cut false (' ' :: '|' :: ' ' :: rest) =
          [' '] :: (cut false rest).modifyHead (' ' :: ·) := rfl
      have hhead (parts : List (List Char)) :
          (parts.modifyHead (' ' :: ·)).map (split false none) =
            parts.map (split false none) := by
        cases parts <;> simp
      rw [htext, uncut_line hliteral, hcut, List.modifyHead_cons, List.map_cons, hhead,
        ih (by simp) fun us hus => h us (List.mem_cons_of_mem _ hus)]
      exact congrArg (· :: _) (split_line hws hliteral 1)

theorem map_fields_stages {rows : List (List Word)} (hne : rows ≠ [])
    (h : ∀ ws ∈ rows, ws ≠ [] ∧ ∀ w ∈ ws, w.Literal) :
    (stages (" | ".intercalate (rows.map line))).map fields =
      rows.map fun ws => some (ws.map Word.content) := by
  have hsplit := congrArg (List.map (Option.map (List.map String.ofList))) (map_split_cut hne h)
  simpa [stages, fields, Function.comp_def] using hsplit

end Script

/-! ## Commands -/

/-- An argument that a shell takes for the text it is written with: digits, or a text in which
nothing means anything between quotes. -/
inductive Expr.Literal : Expr → String → Prop where
  | number {digits : String} (ne : digits ≠ "") (digit : digits.toList.all Char.isDigit = true) :
      Literal (.number digits) digits
  | string {text : String} (literal : text.toList.all (Script.isLiteral true) = true) :
      Literal (.string text) text

/-- A command that a shell takes for the texts it is written with. Its first word stays bare, so
there must be no blank in it, and nothing that means anything outside quotes. -/
inductive Invocation.Literal : Invocation → List String → Prop where
  | intro {command : String} {args : List Expr} {texts : List String} (ne : command ≠ "")
      (literal : command.toList.all (Script.isLiteral false) = true)
      (solid : command.toList.any Text.isBlank = false)
      (literals : List.Forall₂ Expr.Literal args texts) :
      Literal (.string command :: args) (command :: texts)

namespace Script

theorem isLiteral_of_isDigit {c : Char} (h : c.isDigit = true) : isLiteral false c = true := by
  have hne {d : Char} (hd : d.isDigit = false) : c ≠ d := by
    rintro rfl
    simp [h] at hd
  simp [isLiteral, isSpecial, isSeparator, hne]

theorem Word.exists_ofValue {e : Expr} {text : String} (h : e.Literal text) :
    ∃ w, Word.ofValue e = .ok w ∧ w.Literal ∧ w.content = text := by
  cases h with
  | number hne hdigit =>
    have hdigit := List.all_eq_true.1 hdigit
    exact ⟨.bare text, rfl, ⟨hne, fun c hc => isLiteral_of_isDigit (hdigit c hc)⟩, rfl⟩
  | string hliteral => exact ⟨.quoted text, rfl, List.all_eq_true.1 hliteral, rfl⟩

theorem exists_words {c : Invocation} {texts : List String} (h : c.Literal texts) :
    ∃ ws, words c = .ok ws ∧ (ws ≠ [] ∧ ∀ w ∈ ws, w.Literal) ∧ ws.map Word.content = texts := by
  cases h with
  | @intro command args texts hne hliteral hsolid hargs =>
    obtain ⟨ws, hws, hliterals, rfl⟩ := hargs.exists_map_eq Word.exists_ofValue
    -- the command word is not left out, since there is something in it
    have hblank : Text.allBlank command = false := by
      obtain ⟨c, hc⟩ := List.exists_mem_of_ne_nil _ (mt String.toList_eq_nil_iff.1 hne)
      exact List.all_eq_false.2 ⟨c, hc, List.any_eq_false.1 hsolid c hc⟩
    refine ⟨.bare command :: ws, words_eq_ok.2 ⟨_, _, _, _, rfl, rfl, hws, ?_⟩, ?_, rfl⟩
    · simp [Word.text, hblank]
    · simpa using ⟨⟨hne, List.all_eq_true.1 hliteral⟩, hliterals⟩

/-- A shell takes a literal command apart into the texts it is written with, and a pipeline of such
commands into as many commands with their texts. -/
theorem fields_ofStmt :
    (∀ {c : Invocation} {texts : List String}, c.Literal texts →
      ∃ command, Command.ofStmt (.run c) = .ok command ∧ fields command.text = some texts) ∧
    ∀ {cs : List Invocation} {rows : List (List String)}, cs ≠ [] →
      List.Forall₂ Invocation.Literal cs rows →
      ∃ command, Command.ofStmt (.pipe cs) = .ok command ∧
        (stages command.text).map fields = rows.map some := by
  constructor
  · intro c texts hc
    obtain ⟨ws, hws, ⟨hne, hliteral⟩, rfl⟩ := exists_words hc
    exact ⟨.simple ws, by simp [Command.ofStmt, hws], fields_line hne hliteral⟩
  · intro cs rows hne hcs
    obtain ⟨lines, hlines, hliteral, rfl⟩ := hcs.exists_map_eq exists_words
    have hmapM : cs.mapM words = .ok lines := Except.mapM_eq_ok.2 hlines
    refine ⟨.pipeline lines, by simp [Command.ofStmt, hmapM], ?_⟩
    have hlines_ne : lines ≠ [] := by
      rintro rfl
      exact hne (List.forall₂_nil_right_iff.1 hlines)
    rw [Command.text_pipeline hlines_ne, map_fields_stages hlines_ne hliteral, List.map_map]
    rfl

/-- Texts that are empty or hold bars, newlines and quotes of the other kind stay one field. -/
theorem fields_ofStmt_grep :
    (∃ command,
      Command.ofStmt (.run [.string "grep", .number "3", .string "", .string "a | *;\n 'b'"]) =
        .ok command ∧ fields command.text = some ["grep", "3", "", "a | *;\n 'b'"]) ∧
    ∃ command,
      Command.ofStmt (.pipe [[.string "echo", .string " | "], [.string "wc", .string "-l"]]) =
        .ok command ∧
      (stages command.text).map fields = [some ["echo", " | "], some ["wc", "-l"]] := by
  constructor
  · refine fields_ofStmt.1 (.intro (by decide) (by decide) (by decide) ?_)
    exact .cons (.number (by decide) (by decide)) <| .cons (.string (by decide)) <|
      .cons (.string (by decide)) .nil
  · refine fields_ofStmt.2 (by simp) (.cons (.intro (by decide) (by decide) (by decide) ?_) <|
      .cons (.intro (by decide) (by decide) (by decide) ?_) .nil)
    · exact .cons (.string (by decide)) .nil
    · exact .cons (.string (by decide)) .nil

end Script

end Shellwright
