/-!
# Keywords

The seven reserved words. A word is a keyword exactly when it is spelled like one.
-/
namespace Shellwright

inductive Keyword where
  | run
  | if_
  | for_
  | in_
  | pipe
  | val
  | var
deriving DecidableEq

namespace Keyword

/-- The spelling in a source text. -/
def text : Keyword → String
  | run => "run"
  | if_ => "if"
  | for_ => "for"
  | in_ => "in"
  | pipe => "pipe"
  | val => "val"
  | var => "var"

def all : List Keyword := [run, if_, for_, in_, pipe, val, var]

/-- The keyword with a given spelling. -/
def ofText? (word : String) : Option Keyword := all.find? (·.text = word)

theorem mem_all (k : Keyword) : k ∈ all := by cases k <;> decide

@[simp] theorem ofText?_text (k : Keyword) : ofText? k.text = some k := by cases k <;> decide

theorem ofText?_eq_some_iff {word : String} {k : Keyword} :
    ofText? word = some k ↔ k.text = word := by
  constructor
  · intro h
    simpa using List.find?_some h
  · rintro rfl
    exact ofText?_text k

theorem text_injective {j k : Keyword} (h : j.text = k.text) : j = k := by
  have := ofText?_text j
  rw [h, ofText?_text] at this
  exact (Option.some.inj this).symm

end Keyword

end Shellwright
