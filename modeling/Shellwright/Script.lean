/-!
# Scripts

The fragment of the shell's command language that programs are lowered to. A word is written bare,
so that the shell splits and expands it, or between double quotes, so that it stays one word.
Commands stand one to a line; where the shell demands a command and there is none, the colon command
is written.
-/
namespace Shellwright

namespace Script

inductive Word where
  | bare (text : String)
  | quoted (text : String)
deriving DecidableEq

def Word.text : Word → String
  | bare text => text
  | quoted text => "\"" ++ text ++ "\""

/-- The words of a simple command with a space between any two. -/
def line (words : List Word) : String := " ".intercalate (words.map Word.text)

inductive Command where
  | assign (name : String) (value : Word)
  | simple (words : List Word)
  | pipeline (stages : List (List Word))
  | ifExists (path : Word) (body : List Command)
  | forEach (name : String) (pattern : Word) (body : List Command)

/-- The command that does nothing. -/
def noop : String := ":"

/-- Lines, or the command that does nothing if there are none. -/
def atLeastOne : List String → String
  | [] => noop
  | lines => "\n".intercalate lines

namespace Command

mutual

def text : Command → String
  | assign name value => name ++ "=" ++ value.text
  | simple words => line words
  | pipeline [] => noop
  | pipeline stages => " | ".intercalate (stages.map line)
  | ifExists path body =>
    "if [ -e " ++ path.text ++ " ]; then\n" ++ atLeastOne (texts body) ++ "\nfi"
  | forEach name pattern body =>
    "for " ++ name ++ " in " ++ pattern.text ++ "; do\n" ++ atLeastOne (texts body) ++ "\ndone"

def texts : List Command → List String
  | [] => []
  | c :: cs => c.text :: texts cs

end

@[simp] theorem texts_eq_map (cs : List Command) : texts cs = cs.map text := by
  induction cs with
  | nil => rfl
  | cons c cs ih => simp [texts, ih]

end Command

end Script

abbrev Script := List Script.Command

/-- Commands one to a line, without a newline at the end. -/
def Script.text (script : Script) : String := "\n".intercalate (script.map Command.text)

end Shellwright
