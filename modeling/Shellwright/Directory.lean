import Shellwright.Text.Octets

/-!
# File trees

The files of a machine, as a list of places and what stands there. Names are octet strings. One
directory is the one that programs work in at first; around it there are a few devices and the
programs that the machine has.
-/
namespace Shellwright

open Text (Bytes)

inductive Entry where
  | file (content : Bytes)
  | dir
  /-- The device that is always empty and takes whatever is written. -/
  | null
  /-- The device that has no room. -/
  | full
  /-- An open file of the program that asks for it, by its number. -/
  | descriptor (number : Nat)
  | program
deriving DecidableEq

/-- The names that lead from the root to an entry. -/
abbrev Place := List String

structure Directory where
  entries : List (Place × Entry)
deriving DecidableEq

namespace Directory

/-- Where programs work at first. -/
def home : Place := ["tmp", "work"]

/-- The names of the programs that there are. -/
def programNames : List String := ["cat", "dash", "echo", "false", "sh", "true"]

/-- What there is apart from the files that a program works with. -/
def system : List (Place × Entry) :=
  [["tmp"], home, ["dev"], ["dev", "fd"], ["bin"], ["usr"], ["usr", "bin"], ["etc"], ["root"],
    ["home"], ["lib"], ["opt"], ["proc"], ["sbin"], ["srv"], ["sys"], ["usr", "lib"],
    ["usr", "local"], ["usr", "sbin"], ["usr", "share"], ["var"]].map (·, .dir) ++
  [(["etc", "passwd"], .file []), (["dev", "null"], .null), (["dev", "full"], .full),
    (["dev", "stdin"], .descriptor 0), (["dev", "stdout"], .descriptor 1),
    (["dev", "stderr"], .descriptor 2)] ++
  (List.range 10).map (fun n => (["dev", "fd", toString n], .descriptor n)) ++
  programNames.flatMap fun name => [(["bin", name], .program), (["usr", "bin", name], .program)]

def empty : Directory := ⟨system⟩

/-- What stands at a place; the root is a directory. -/
def entryAt (d : Directory) : Place → Option Entry
  | [] => some .dir
  | place => (d.entries.find? (·.1 = place)).map (·.2)

/-- Puts an entry at a place, in the stead of what was there. -/
def put (d : Directory) (place : Place) (e : Entry) : Directory :=
  ⟨(place, e) :: d.entries.filter (·.1 ≠ place)⟩

/-- The names of a path; an empty name leads nowhere. -/
def components (path : String) : List String := (Text.parts '/' path).filter (· ≠ "")

/-- Why a path does not lead to what is wanted. -/
inductive Obstacle where
  | missing
  | notDirectory
  | isDirectory
  | taken
deriving DecidableEq

/-- The place that names lead to. What a name is looked up in has to be a directory. -/
def walk (d : Directory) (base : Place) : List String → Except Obstacle Place
  | [] => .ok base
  | name :: names =>
    match d.entryAt base with
    | none => .error .missing
    | some .dir =>
      if name = "." then walk d base names
      else if name = ".." then walk d base.dropLast names
      else walk d (base ++ [name]) names
    | some _ => .error .notDirectory

/-- Where a path starts if it is looked at from `base`. -/
def origin (base : Place) (path : String) : Place := if path.startsWith "/" then [] else base

/-- What a path means. With a slash at its end it means a directory only. -/
def find (d : Directory) (base : Place) (path : String) : Except Obstacle (Place × Entry) := do
  if path = "" then throw .missing
  let names := components path ++ if path.endsWith "/" then ["."] else []
  let place ← d.walk (origin base path) names
  match d.entryAt place with
  | some e => return (place, e)
  | none => throw .missing

/-- What a path means to one who would write there, which may be nothing yet. -/
def findForWriting (d : Directory) (base : Place) (path : String) :
    Except Obstacle (Place × Option Entry) := do
  if path = "" then throw .missing
  let place ← d.walk (origin base path) (components path)
  match d.entryAt place with
  | some .dir => throw .isDirectory
  | e =>
    match d.entryAt place.dropLast with
    | some .dir => if path.endsWith "/" then throw .isDirectory else return (place, e)
    | some _ => throw .notDirectory
    | none => throw .missing

/-- The content of the file at a place. -/
def contentAt (d : Directory) (place : Place) : Bytes :=
  match d.entryAt place with
  | some (.file content) => content
  | _ => []

/-- The names directly in the directory at a place. -/
def names (d : Directory) (place : Place) : List String :=
  d.entries.filterMap fun (p, _) => if p.dropLast = place then p.getLast? else none

/-- The plain files directly in the working directory. -/
def files (d : Directory) : List (String × Bytes) :=
  (d.names home).filterMap fun name =>
    match d.entryAt (home ++ [name]) with
    | some (.file content) => some (name, content)
    | _ => none

/-- The plain files of `d` that `old` has not, or has with other content. -/
def changes (old d : Directory) : List (String × Bytes) :=
  d.files.filter fun (name, content) => old.entryAt (home ++ [name]) ≠ some (.file content)

@[simp] theorem entryAt_put (d : Directory) (place : Place) (e : Entry) (h : place ≠ []) :
    (d.put place e).entryAt place = some e := by
  cases place with
  | nil => exact absurd rfl h
  | cons name names => simp [entryAt, put]

theorem entryAt_put_of_ne (d : Directory) {place other : Place} (e : Entry) (h : other ≠ place) :
    (d.put place e).entryAt other = d.entryAt other := by
  cases other with
  | nil => rfl
  | cons name names =>
    have hp : place ≠ name :: names := fun hp => h hp.symm
    simp only [entryAt, put, List.find?_cons, hp, decide_false, List.find?_filter]
    congr 2
    funext x
    by_cases hx : x.1 = name :: names
    · simp [hx, h]
    · simp [hx]

end Directory

end Shellwright
