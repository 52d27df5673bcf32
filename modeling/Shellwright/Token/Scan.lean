import Shellwright.Text.Blank
import Shellwright.Text.Letter
import Shellwright.Token

/-!
# From text to tokens

Blank characters are skipped, and each token is the longest one that begins at its first character:
a word (letters and ASCII digits after a letter), a string up to the next quote, a run of ASCII
digits, or any other character alone. A byte order mark at the very front is not part of the text.

The only failure is a string that is never closed; it is reported at its opening quote.

## Main statements

* `munch_append`: a token and what follows it are the text it was taken from.
* `length_munch`: taking a token shortens the text, hence scanning ends.
-/
namespace Shellwright

inductive LexError where
  | unterminatedString (position : Position)
deriving DecidableEq

namespace LexError

def position : LexError → Position
  | unterminatedString p => p

/-- The message without its place. -/
def short : LexError → String
  | unterminatedString _ => "unterminated string literal"

def message (e : LexError) : String := e.short ++ " at " ++ e.position.phrase

end LexError

namespace Token

open Text

/-- A word is a keyword if it is spelled like one, and otherwise a name. -/
def Kind.ofWord (word : List Char) : Kind :=
  match Keyword.ofText? (String.ofList word) with
  | some k => .keyword k
  | none => .ident (String.ofList word)

@[simp] theorem Kind.lexeme_ofWord (word : List Char) :
    (Kind.ofWord word).lexeme = String.ofList word := by
  unfold Kind.ofWord
  split
  · rename_i h
    exact Keyword.ofText?_eq_some_iff.1 h
  · rfl

/-- The token that begins with the nonblank character `c`, and the text behind it. There is none
if `c` opens a string that `cs` does not close. -/
def munch (c : Char) (cs : List Char) : Option (Kind × List Char) :=
  if isLetter c then
    some (.ofWord (c :: cs.takeWhile isWordChar), cs.dropWhile isWordChar)
  else if c = '"' then
    match cs.dropWhile (· ≠ '"') with
    | [] => none
    | _ :: rest => some (.string (String.ofList (cs.takeWhile (· ≠ '"'))), rest)
  else if c.isDigit then
    some (.number (String.ofList (c :: cs.takeWhile Char.isDigit)), cs.dropWhile Char.isDigit)
  else
    some (.symbol c, cs)

theorem munch_append {c : Char} {cs rest : List Char} {k : Kind}
    (h : munch c cs = some (k, rest)) : k.lexeme.toList ++ rest = c :: cs := by
  unfold munch at h
  split at h
  · cases h
    simp
  split at h
  · split at h
    · cases h
    · rename_i hc _ d r hd
      cases h
      have hq := List.head?_dropWhile_not (fun d => decide (d ≠ '"')) cs
      have ht := List.takeWhile_append_dropWhile (p := (· ≠ '"')) (l := cs)
      rw [hd] at hq ht
      obtain rfl : d = '"' := by simpa using hq
      subst hc
      simpa [Kind.lexeme] using ht
  split at h
  · cases h
    simp [Kind.lexeme]
  · cases h
    simp [Kind.lexeme]

theorem length_munch {c : Char} {cs rest : List Char} {k : Kind}
    (h : munch c cs = some (k, rest)) : rest.length < (c :: cs).length := by
  have hl := congrArg List.length (munch_append h)
  have hk : k.lexeme.toList ≠ [] := by
    intro hn
    unfold munch at h
    split at h
    · cases h
      simp at hn
    split at h
    · split at h
      · cases h
      · cases h
        simp [Kind.lexeme] at hn
    split at h <;> cases h <;> simp [Kind.lexeme] at hn
  have := List.length_pos_iff.2 hk
  simp only [List.length_append] at hl
  omega

/-- The tokens of a text that begins at `p`, closed by the end of the input. -/
def scan (p : Position) : List Char → Except LexError (List Token)
  | [] => .ok [⟨.eof, p⟩]
  | c :: cs =>
    if isBlank c then
      scan (p.advance c) cs
    else
      match _h : munch c cs with
      | none => .error (.unterminatedString p)
      | some (k, rest) => (scan (p.after k.lexeme.toList) rest).map (⟨k, p⟩ :: ·)
termination_by cs => cs.length
decreasing_by
  · simp
  · exact length_munch ‹_›

/-- The characters of a source text, less a byte order mark at its front. -/
def body (source : String) : List Char :=
  match source.toList with
  | '\uFEFF' :: cs => cs
  | cs => cs

def tokenize (source : String) : Except LexError (List Token) := scan .start (body source)

end Token

end Shellwright
