import Mathlib.Algebra.Ring.Parity
import Shellwright.Script

/-!
# Quotes in scripts

A script is a sequence of pieces, each of them written bare or between quotes. Where no piece has a
quote in itself, cutting the text of the script at every quote gives back what the pieces hold: the
segments are outside and inside the quotes by turns.

## Main definitions

* `Script.pieces`: the pieces of a script, the separators and keywords among them.
* `Text.evens`, `Text.odds`: every second item of a list.

## Main statements

* `Script.toList_text`: a script is written as its pieces in a row.
* `Script.odd_length_splitOn`, `Script.odds_splitOn`, `Script.evens_splitOn`: the segments between
  the quotes of a row of pieces.
-/
namespace Shellwright

namespace Text

variable {α : Type}

/-- The items at even places, counted from zero. -/
def evens : List α → List α
  | a :: _ :: rest => a :: evens rest
  | rest => rest

/-- The items at odd places, counted from zero. -/
def odds : List α → List α
  | _ :: b :: rest => b :: odds rest
  | _ => []

theorem evens_modifyHead (f : α → α) (as : List α) :
    evens (as.modifyHead f) = (evens as).modifyHead f := by
  match as with
  | [] => rfl
  | [a] => rfl
  | a :: b :: rest => rfl

theorem odds_modifyHead (f : α → α) (as : List α) : odds (as.modifyHead f) = odds as := by
  match as with
  | [] => rfl
  | [a] => rfl
  | a :: b :: rest => rfl

/-- A text in front that is not cut goes to the first segment. -/
theorem splitOn_append_left {c : Char} {cs : List Char} (h : c ∉ cs) (ds : List Char) :
    (cs ++ ds).splitOn c = (ds.splitOn c).modifyHead (cs ++ ·) := by
  induction cs with
  | nil =>
    rw [List.nil_append]
    cases ds.splitOn c <;> rfl
  | cons d cs ih =>
    have hd : (d == c) = false := by
      rw [beq_eq_false_iff_ne]
      rintro rfl
      exact h List.mem_cons_self
    rw [List.cons_append, List.splitOn_cons_eq_if_modifyHead, hd,
      ih fun hc => h (List.mem_cons_of_mem _ hc)]
    cases ds.splitOn c <;> rfl

end Text

namespace Script

namespace Word

/-- What stands between the quotes of a word. -/
def inside? : Word → Option String
  | bare _ => none
  | quoted text => some text

/-- The word with nothing between its quotes. -/
def hollow : Word → Word
  | bare text => bare text
  | quoted _ => quoted ""

/-- There is no quote but those around the word. -/
def Clean : Word → Prop
  | bare text | quoted text => '"' ∉ text.toList

instance : DecidablePred Clean
  | bare text | quoted text => inferInstanceAs (Decidable ('"' ∉ text.toList))

end Word

/-! ## Pieces -/

/-- Pieces that are set off by a bare text. -/
def join (separator : String) (rows : List (List Word)) : List Word :=
  [.bare separator].intercalate rows

/-- The words of a simple command with the spaces between them. -/
def linePieces (words : List Word) : List Word := join " " (words.map ([·]))

/-- The pieces of lines, or of the command that does nothing if there are none. -/
def bodyPieces : List (List Word) → List Word
  | [] => [.bare noop]
  | rows => join "\n" rows

namespace Command

mutual

def pieces : Command → List Word
  | assign name value => [.bare (name ++ "="), value]
  | simple words => linePieces words
  | pipeline [] => [.bare noop]
  | pipeline stages => join " | " (stages.map linePieces)
  | ifExists path body =>
    .bare "if [ -e " :: path :: .bare " ]; then\n" :: (bodyPieces (piecesList body) ++
      [.bare "\nfi"])
  | forEach name pattern body =>
    .bare ("for " ++ name ++ " in ") :: pattern :: .bare "; do\n" ::
      (bodyPieces (piecesList body) ++ [.bare "\ndone"])

def piecesList : List Command → List (List Word)
  | [] => []
  | c :: cs => c.pieces :: piecesList cs

end

@[simp] theorem piecesList_eq_map (cs : List Command) : piecesList cs = cs.map pieces := by
  induction cs with
  | nil => rfl
  | cons c cs ih => simp [piecesList, ih]

end Command

def pieces (script : Script) : List Word := join "\n" (script.map Command.pieces)

/-- Pieces written in a row. -/
def row (ws : List Word) : List Char := ws.flatMap (·.text.toList)

@[simp] theorem row_nil : row [] = [] := rfl

@[simp] theorem row_cons (w : Word) (ws : List Word) : row (w :: ws) = w.text.toList ++ row ws :=
  rfl

@[simp] theorem row_append (vs ws : List Word) : row (vs ++ ws) = row vs ++ row ws :=
  List.flatMap_append

theorem toList_intercalate {α : Type} {text : α → String} {pieces : α → List Word} {as : List α}
    (separator : String) (h : ∀ a ∈ as, (text a).toList = row (pieces a)) :
    (separator.intercalate (as.map text)).toList = row (join separator (as.map pieces)) := by
  induction as with
  | nil => simp [join]
  | cons a as ih =>
    cases as with
    | nil => simpa [join] using h a (by simp)
    | cons b as =>
      have htail := ih fun x hx => h x (List.mem_cons_of_mem _ hx)
      simp only [join, List.map_cons] at htail ⊢
      rw [String.intercalate_cons_cons, List.intercalate_cons_cons]
      simp [htail, h a, Word.text]

theorem toList_line (words : List Word) : (line words).toList = row (linePieces words) :=
  toList_intercalate " " (by simp)

theorem toList_atLeastOne (cs : List Command) (h : ∀ c ∈ cs, c.text.toList = row c.pieces) :
    (atLeastOne (cs.map Command.text)).toList = row (bodyPieces (cs.map Command.pieces)) := by
  cases cs with
  | nil => simp [atLeastOne, bodyPieces, Word.text]
  | cons c cs => exact toList_intercalate "\n" h

theorem Command.toList_text (c : Command) : c.text.toList = row c.pieces := by
  match c with
  | assign name value => simp [text, pieces, Word.text]
  | simple words => exact toList_line words
  | pipeline [] => simp [text, pieces, Word.text]
  | pipeline (stage :: stages) =>
    exact toList_intercalate " | " fun words _ => toList_line words
  | ifExists path body =>
    have hbody := toList_atLeastOne body fun c _ => toList_text c
    simp [text, pieces, hbody, Word.text]
  | forEach name pattern body =>
    have hbody := toList_atLeastOne body fun c _ => toList_text c
    simp [text, pieces, hbody, Word.text]

theorem toList_text (script : Script) : script.text.toList = row script.pieces :=
  toList_intercalate "\n" fun c _ => c.toList_text

/-! ## Cutting at the quotes -/

/-- The segments that pieces in a row are cut into. -/
def segments : List Word → List (List Char)
  | [] => [[]]
  | .bare text :: ws => (segments ws).modifyHead (text.toList ++ ·)
  | .quoted text :: ws => [] :: text.toList :: segments ws

variable {ws : List Word}

theorem splitOn_row (h : ∀ w ∈ ws, w.Clean) : (row ws).splitOn '"' = segments ws := by
  induction ws with
  | nil => rfl
  | cons w ws ih =>
    have htail := ih fun v hv => h v (List.mem_cons_of_mem _ hv)
    have hw := h w List.mem_cons_self
    cases w with
    | bare text => rw [row_cons, Word.text, Text.splitOn_append_left hw, htail, segments]
    | quoted text =>
      have hrow : row (.quoted text :: ws) = [] ++ '"' :: (text.toList ++ '"' :: row ws) := by
        simp [Word.text]
      rw [hrow, List.splitOn_append_cons_self_of_not_mem List.not_mem_nil,
        List.splitOn_append_cons_self_of_not_mem hw, htail, segments]

theorem odd_length_splitOn (h : ∀ w ∈ ws, w.Clean) : Odd ((row ws).splitOn '"').length := by
  rw [splitOn_row h]
  clear h
  induction ws with
  | nil => exact odd_one
  | cons w ws ih =>
    cases w with
    | bare text => rwa [segments, List.length_modifyHead]
    | quoted text => exact ih.add_even even_two

theorem odds_splitOn (h : ∀ w ∈ ws, w.Clean) :
    Text.odds ((row ws).splitOn '"') = (ws.filterMap Word.inside?).map String.toList := by
  rw [splitOn_row h]
  clear h
  induction ws with
  | nil => rfl
  | cons w ws ih =>
    cases w with
    | bare text => rw [segments, Text.odds_modifyHead, ih, List.filterMap_cons_none rfl]
    | quoted text =>
      simp only [segments, Text.odds, ih, List.filterMap_cons, Word.inside?, List.map_cons]

/-- What stands between quotes has no part in what stands outside. -/
theorem evens_splitOn (h : ∀ w ∈ ws, w.Clean) :
    Text.evens ((row (ws.map Word.hollow)).splitOn '"') = Text.evens ((row ws).splitOn '"') := by
  have hhollow : ∀ w ∈ ws.map Word.hollow, w.Clean := by
    intro w hw
    obtain ⟨v, hv, rfl⟩ := List.mem_map.1 hw
    cases v with
    | bare text => exact h _ hv
    | quoted text => exact List.not_mem_nil
  rw [splitOn_row h, splitOn_row hhollow]
  clear h hhollow
  induction ws with
  | nil => rfl
  | cons w ws ih =>
    cases w with
    | bare text =>
      simp only [List.map_cons, Word.hollow, segments, Text.evens_modifyHead, ih]
    | quoted text => simp only [List.map_cons, Word.hollow, segments, Text.evens, ih]

end Script

end Shellwright
