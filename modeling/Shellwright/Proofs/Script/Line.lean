import Shellwright.Proofs.Token.Munch
import Shellwright.Script

/-!
# Lines of scripts

Each line of a script holds words, an assignment or the head of a loop. If its first word holds no
space, quote or equals sign, what follows that word tells which of the three it is; and if nothing
between its quotes is a quote, each word ends where the next space outside quotes is. A line can
therefore be read back.

## Main definitions

* `Script.Line`: one line.
* `Script.Word.Solid`, `Script.Line.Plain`: words and lines that can be read back.

## Main statements

* `Script.Line.text_inj`: a plain line is determined by its text.
* `Script.Line.intercalate_text_inj`: plain lines are determined by the text they make up.
-/
namespace Shellwright

namespace Text

variable {α : Type}

/-- Nonempty rows that do not hold the separator are determined by what they are joined to. -/
theorem intercalate_inj [DecidableEq α] {x : α} {ls ms : List (List α)}
    (hls : ∀ l ∈ ls, l ≠ [] ∧ x ∉ l) (hms : ∀ m ∈ ms, m ≠ [] ∧ x ∉ m)
    (h : [x].intercalate ls = [x].intercalate ms) : ls = ms := by
  have hsplit {ns : List (List α)} (hns : ∀ n ∈ ns, n ≠ [] ∧ x ∉ n) :
      (([x].intercalate ns).splitOn x).filter (· ≠ []) = ns := by
    by_cases hnil : ns = []
    · simp [hnil]
    · rw [List.splitOn_intercalate x (fun n hn => (hns n hn).2) hnil, List.filter_eq_self]
      simpa using fun n hn => (hns n hn).1
  rw [← hsplit hls, h, hsplit hms]

end Text

namespace Script

open Text

/-! ## Words -/

/-- Characters that can stand in a bare word. -/
def isStemChar (c : Char) : Bool := c ≠ ' ' && c ≠ '=' && c ≠ '"' && c ≠ '\n'

/-- A text that can be written as a bare word. -/
def isStem (text : String) : Bool := text ≠ "" && text.toList.all isStemChar

theorem isStem_iff {text : String} :
    isStem text = true ↔ text ≠ "" ∧ ∀ c ∈ text.toList, isStemChar c = true := by
  simp [isStem]

theorem notMem_of_isStem {text : String} {c : Char} (h : isStem text = true)
    (hc : isStemChar c = false) : c ∉ text.toList := by
  intro hmem
  simp [(isStem_iff.1 h).2 c hmem] at hc

namespace Word

/-- A word that is seen to be one. Between quotes anything but quotes and newlines may stand. -/
def Solid : Word → Prop
  | bare text => isStem text
  | quoted text => '"' ∉ text.toList ∧ '\n' ∉ text.toList

instance : DecidablePred Solid
  | bare text => inferInstanceAs (Decidable (isStem text = true))
  | quoted text => inferInstanceAs (Decidable ('"' ∉ text.toList ∧ '\n' ∉ text.toList))

variable {v w : Word} {xs ys : List Char}

theorem Solid.newline_notMem (h : w.Solid) : '\n' ∉ w.text.toList := by
  cases w with
  | bare text => exact notMem_of_isStem h (by decide)
  | quoted text => simpa [Word.text] using h.2

/-- A bare word does not begin with a quote. -/
theorem bare_append_ne {text : String} (h : isStem text = true) (rest : List Char) :
    text.toList ++ xs ≠ '"' :: rest := by
  obtain ⟨hne, hall⟩ := isStem_iff.1 h
  cases ht : text.toList with
  | nil => exact absurd (String.toList_eq_nil_iff.1 ht) hne
  | cons c cs =>
    intro heq
    obtain ⟨rfl, -⟩ := List.cons.inj heq
    simpa [isStemChar] using hall '"' (by simp [ht])

/-- A word ends before the next space that is outside quotes. -/
theorem text_append_inj (hv : v.Solid) (hw : w.Solid) (hxs : ∀ c ∈ xs.head?, c = ' ')
    (hys : ∀ c ∈ ys.head?, c = ' ') (h : v.text.toList ++ xs = w.text.toList ++ ys) :
    v = w ∧ xs = ys := by
  have hspace {zs : List Char} (hzs : ∀ c ∈ zs.head?, c = ' ') :
      ∀ c ∈ zs.head?, isStemChar c = false := by
    intro c hc
    rw [hzs c hc]
    decide
  cases v with
  | bare s =>
    cases w with
    | bare t =>
      obtain ⟨hst, hrest⟩ := append_inj_of_class (isStem_iff.1 hv).2 (isStem_iff.1 hw).2
        (hspace hxs) (hspace hys) h
      exact ⟨congrArg bare (String.toList_inj.1 hst), hrest⟩
    | quoted t => exact absurd (by simpa [text] using h) (bare_append_ne hv _)
  | quoted s =>
    cases w with
    | bare t => exact absurd (by simpa [text] using h.symm) (bare_append_ne hw _)
    | quoted t =>
      have hquoted : s.toList ++ '"' :: xs = t.toList ++ '"' :: ys := by simpa [text] using h
      obtain ⟨hst, hrest⟩ := append_cons_inj hv.1 hw.1 hquoted
      exact ⟨congrArg quoted (String.toList_inj.1 hst), hrest⟩

end Word

/-- Words behind another one, each behind a space. -/
def arguments (ws : List Word) : List Char := ws.flatMap fun w => ' ' :: w.text.toList

variable {vs ws : List Word}

theorem head?_arguments : ∀ c ∈ (arguments ws).head?, c = ' ' := by
  cases ws <;> simp [arguments]

theorem arguments_inj (hvs : ∀ v ∈ vs, v.Solid) (hws : ∀ w ∈ ws, w.Solid)
    (h : arguments vs = arguments ws) : vs = ws := by
  induction vs generalizing ws with
  | nil =>
    cases ws with
    | nil => rfl
    | cons w ws => simp [arguments] at h
  | cons v vs ih =>
    cases ws with
    | nil => simp [arguments] at h
    | cons w ws =>
      have happ : v.text.toList ++ arguments vs = w.text.toList ++ arguments ws := by
        simpa [arguments] using h
      obtain ⟨rfl, htail⟩ := Word.text_append_inj (hvs v List.mem_cons_self)
        (hws w List.mem_cons_self) head?_arguments head?_arguments happ
      rw [ih (fun x hx => hvs x (List.mem_cons_of_mem _ hx))
        (fun x hx => hws x (List.mem_cons_of_mem _ hx)) htail]

theorem toList_line_cons (w : Word) (ws : List Word) :
    (line (w :: ws)).toList = w.text.toList ++ arguments ws := by
  induction ws generalizing w with
  | nil => simp [line, arguments]
  | cons v ws ih =>
    have hcons : line (w :: v :: ws) = w.text ++ " " ++ line (v :: ws) :=
      String.intercalate_cons_cons
    rw [hcons]
    simp [ih, arguments]

/-! ## Lines -/

inductive Line where
  | words (ws : List Word)
  | assign (name : String) (value : Word)
  | forEach (name : String) (pattern : Word)

namespace Line

def text : Line → String
  | words ws => line ws
  | assign name value => name ++ "=" ++ value.text
  | forEach name pattern => "for " ++ name ++ " in " ++ pattern.text ++ "; do"

/-- A line that can be read back. -/
inductive Plain : Line → Prop where
  | words {first : String} {args : List Word} (stem : isStem first = true) (free : first ≠ "for")
      (solid : ∀ w ∈ args, w.Solid) : Plain (.words (.bare first :: args))
  | assign {name : String} {value : Word} (stem : isStem name = true) (solid : value.Solid) :
      Plain (.assign name value)
  | forEach {name pattern : String} (stem : isStem name = true)
      (oneLine : '\n' ∉ pattern.toList) : Plain (.forEach name (.bare pattern))

/-- The first word of a plain line. -/
def stem : Line → String
  | words (w :: _) => w.text
  | words [] => ""
  | assign name _ => name
  | forEach _ _ => "for"

/-- What a plain line has behind its first word. -/
def rest : Line → List Char
  | words ws => arguments ws.tail
  | assign _ value => '=' :: value.text.toList
  | forEach name pattern =>
    ' ' :: (name.toList ++ " in ".toList ++ pattern.text.toList ++ "; do".toList)

variable {l m : Line}

theorem toList_text (h : l.Plain) : l.text.toList = l.stem.toList ++ l.rest := by
  cases h with
  | words => exact toList_line_cons _ _
  | assign => simp [text, stem, rest]
  | forEach => simp [text, stem, rest]

theorem isStem_stem (h : l.Plain) : isStem l.stem = true := by
  cases h with
  | words hstem => exact hstem
  | assign hstem => exact hstem
  | forEach =>
    have hfor : isStem "for" = true := by decide
    exact hfor

theorem head?_rest (h : l.Plain) : ∀ c ∈ l.rest.head?, isStemChar c = false := by
  cases h with
  | words =>
    intro c hc
    rw [head?_arguments c hc]
    decide
  | assign => simp [rest, isStemChar]
  | forEach => simp [rest, isStemChar]

/-- The first word and what follows it are where the text says they are. -/
theorem stem_rest_of_text (hl : l.Plain) (hm : m.Plain) (h : l.text = m.text) :
    l.stem = m.stem ∧ l.rest = m.rest := by
  have happ : l.stem.toList ++ l.rest = m.stem.toList ++ m.rest := by
    rw [← toList_text hl, ← toList_text hm, h]
  obtain ⟨hstem, hrest⟩ := append_inj_of_class (isStem_iff.1 (isStem_stem hl)).2
    (isStem_iff.1 (isStem_stem hm)).2 (head?_rest hl) (head?_rest hm) happ
  exact ⟨String.toList_inj.1 hstem, hrest⟩

/-- A line that begins as words do is made of these words. -/
theorem eq_of_words {args : List Word} (hargs : ∀ w ∈ args, w.Solid) {first : String}
    (hfree : first ≠ "for") (hm : m.Plain) (hstem : first = m.stem)
    (hrest : arguments args = m.rest) : .words (.bare first :: args) = m := by
  cases hm with
  | words _ _ hsolid =>
    obtain rfl := arguments_inj hargs hsolid hrest
    rw [hstem]
    rfl
  | assign =>
    have hspace : '=' ∈ (arguments args).head? → '=' = ' ' := head?_arguments '='
    rw [hrest] at hspace
    simp [rest] at hspace
  | forEach => exact absurd hstem hfree

theorem text_inj (hl : l.Plain) (hm : m.Plain) (h : l.text = m.text) : l = m := by
  obtain ⟨hstem, hrest⟩ := stem_rest_of_text hl hm h
  cases hl with
  | words _ hfree hsolid => exact eq_of_words hsolid hfree hm hstem hrest
  | @assign name value hname hvalue =>
    cases hm with
    | words _ hfree hsolid =>
      exact (eq_of_words hsolid hfree (.assign hname hvalue) hstem.symm hrest.symm).symm
    | @assign _ value' _ hvalue' =>
      obtain rfl := hstem
      have htext : value.text.toList ++ [] = value'.text.toList ++ [] := by
        simpa using (List.cons.inj hrest).2
      obtain ⟨rfl, -⟩ := Word.text_append_inj hvalue hvalue' (by simp) (by simp) htext
      rfl
    | forEach => simp [rest] at hrest
  | @forEach name pattern hname hp =>
    cases hm with
    | words _ hfree hsolid =>
      exact (eq_of_words hsolid hfree (.forEach hname hp) hstem.symm hrest.symm).symm
    | assign => simp [rest] at hrest
    | @forEach name' pattern' hname' hp' =>
      -- a pattern may hold spaces, but there is none in the name before it
      have hsplit : name.toList ++ ' ' :: ("in ".toList ++ pattern.toList ++ "; do".toList) =
          name'.toList ++ ' ' :: ("in ".toList ++ pattern'.toList ++ "; do".toList) := by
        simpa [rest, Word.text] using hrest
      obtain ⟨hn, hp⟩ := append_cons_inj (notMem_of_isStem hname (by decide))
        (notMem_of_isStem hname' (by decide)) hsplit
      rw [String.toList_inj.1 hn,
        String.toList_inj.1 (List.append_cancel_left (List.append_cancel_right hp))]

theorem toList_text_ne_nil (h : l.Plain) : l.text.toList ≠ [] := by
  have hne := (isStem_iff.1 (isStem_stem h)).1
  rw [toList_text h]
  simp [hne]

theorem newline_notMem_rest (h : l.Plain) : '\n' ∉ l.rest := by
  cases h with
  | words _ _ hsolid =>
    intro hmem
    obtain ⟨w, hw, hmem⟩ := List.mem_flatMap.1 hmem
    rcases List.mem_cons.1 hmem with hspace | hmem
    · exact absurd hspace (by decide)
    · exact (hsolid w hw).newline_notMem hmem
  | assign _ hsolid => simpa [rest] using hsolid.newline_notMem
  | forEach hname hp => simpa [rest, Word.text] using ⟨notMem_of_isStem hname (by decide), hp⟩

theorem newline_notMem_text (h : l.Plain) : '\n' ∉ l.text.toList := by
  rw [toList_text h, List.mem_append, not_or]
  exact ⟨notMem_of_isStem (isStem_stem h) (by decide), newline_notMem_rest h⟩

theorem map_text_inj {ls ms : List Line} (hls : ∀ l ∈ ls, l.Plain) (hms : ∀ m ∈ ms, m.Plain)
    (h : ls.map (·.text.toList) = ms.map (·.text.toList)) : ls = ms := by
  induction ls generalizing ms with
  | nil => simpa using h.symm
  | cons l ls ih =>
    cases ms with
    | nil => simp at h
    | cons m ms =>
      obtain ⟨htext, htail⟩ := List.cons.inj h
      rw [text_inj (hls l List.mem_cons_self) (hms m List.mem_cons_self)
        (String.toList_inj.1 htext), ih (fun x hx => hls x (List.mem_cons_of_mem _ hx))
        (fun x hx => hms x (List.mem_cons_of_mem _ hx)) htail]

/-- Plain lines are determined by their texts with a newline between any two. -/
theorem intercalate_text_inj {ls ms : List Line} (hls : ∀ l ∈ ls, l.Plain)
    (hms : ∀ m ∈ ms, m.Plain)
    (h : "\n".intercalate (ls.map text) = "\n".intercalate (ms.map text)) : ls = ms := by
  have hrows {ns : List Line} (hns : ∀ n ∈ ns, n.Plain) :
      ∀ row ∈ ns.map (·.text.toList), row ≠ [] ∧ '\n' ∉ row := by
    simpa using fun n hn => ⟨by simpa using toList_text_ne_nil (hns n hn),
      newline_notMem_text (hns n hn)⟩
  have hjoin : ['\n'].intercalate (ls.map (·.text.toList)) =
      ['\n'].intercalate (ms.map (·.text.toList)) := by
    simpa [Function.comp_def] using congrArg String.toList h
  exact map_text_inj hls hms (intercalate_inj (hrows hls) (hrows hms) hjoin)

end Line

end Script

end Shellwright
