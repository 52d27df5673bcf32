/-!
# Positions

A position is a line and a column, both counted from one. A newline begins the next line; every
other character, whatever its width, takes one column.
-/
namespace Shellwright

structure Position where
  line : Nat
  column : Nat
deriving DecidableEq

namespace Position

/-- The position of a text's first character. -/
def start : Position := ⟨1, 1⟩

instance : Inhabited Position := ⟨start⟩

/-- The position just behind `c`, when `c` stands at `p`. -/
def advance (p : Position) (c : Char) : Position :=
  if c = '\n' then ⟨p.line + 1, 1⟩ else ⟨p.line, p.column + 1⟩

/-- The position just behind a text that begins at `p`. -/
def after (p : Position) (cs : List Char) : Position := cs.foldl advance p

/-- The short form, `line:column`. -/
def text (p : Position) : String := toString p.line ++ ":" ++ toString p.column

/-- The form used inside a sentence. -/
def phrase (p : Position) : String :=
  "line " ++ toString p.line ++ ", column " ++ toString p.column

@[simp] theorem after_nil (p : Position) : p.after [] = p := rfl

@[simp] theorem after_cons (p : Position) (c : Char) (cs : List Char) :
    p.after (c :: cs) = (p.advance c).after cs := rfl

@[simp] theorem after_append (p : Position) (cs ds : List Char) :
    p.after (cs ++ ds) = (p.after cs).after ds := List.foldl_append

/-- Each newline passed adds a line. -/
theorem line_after (p : Position) (cs : List Char) :
    (p.after cs).line = p.line + cs.count '\n' := by
  induction cs generalizing p with
  | nil => simp
  | cons c cs ih =>
    by_cases h : c = '\n' <;> simp [ih, advance, h]
    omega

end Position

end Shellwright
