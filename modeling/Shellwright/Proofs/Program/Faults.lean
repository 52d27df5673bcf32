import Shellwright.Program.Faults
import Shellwright.Proofs.Outcome
import Shellwright.Script.Lowering

/-!
# The first fault of a program

Lowering gives up at the first fault it meets. It meets them in the order of the text, so the fault
it reports is the first of all that the program has, in the same words, and a program without faults
has a script.

## Main definitions

* `Except.StopsAt`: a computation that is to fail with the first of some errors.

## Main statements

* `Script.Command.ofStmt_stopsAt`: lowering a statement stops at the first of its faults.
* `Program.emit_iff_faults`: so does lowering a program, and nothing else makes it fail.
-/
namespace Except

variable {ε α β : Type} {x : Except ε α} {es ds : List ε}

/-- The computation fails with the first of the errors, and gives a result if there are none. -/
def StopsAt (x : Except ε α) (es : List ε) : Prop :=
  match x with
  | .ok _ => es = []
  | .error e => es.head? = some e

theorem StopsAt.bind {f : α → Except ε β} (hx : x.StopsAt es) (hf : ∀ a, (f a).StopsAt ds) :
    (x >>= f).StopsAt (es ++ ds) := by
  cases x with
  | ok a =>
    obtain rfl : es = [] := hx
    exact hf a
  | error e =>
    have he : es.head? = some e := hx
    simp [Bind.bind, Except.bind, StopsAt, he]

theorem StopsAt.bind_pure (f : α → β) (hx : x.StopsAt es) :
    (x >>= fun a => pure (f a)).StopsAt es := by
  cases x <;> exact hx

/-- A list is worked off up to the first error of its items. -/
theorem StopsAt.mapM {f : α → Except ε β} {errors : α → List ε}
    (h : ∀ a, (f a).StopsAt (errors a)) (as : List α) :
    (as.mapM f).StopsAt (as.flatMap errors) := by
  induction as with
  | nil => rfl
  | cons a as ih =>
    rw [List.mapM_cons, List.flatMap_cons]
    exact (h a).bind fun b => ih.bind_pure (b :: ·)

theorem StopsAt.exists_ok_iff (h : x.StopsAt es) : (∃ a, x = .ok a) ↔ es = [] := by
  cases x with
  | ok a =>
    obtain rfl : es = [] := h
    simp
  | error e =>
    have he : es.head? = some e := h
    have hne : es ≠ [] := by
      rintro rfl
      simp at he
    simp [hne]

theorem StopsAt.eq_error_iff (h : x.StopsAt es) (e : ε) :
    x = .error e ↔ es.head? = some e := by
  cases x with
  | ok a =>
    obtain rfl : es = [] := h
    simp
  | error d =>
    have hd : es.head? = some d := h
    simp [hd]

end Except

namespace Shellwright

namespace Expr

variable {function place : String} {argument : Expr → List Fault}

theorem builtinFaults_singleton (arg : Expr) :
    (call function [arg]).builtinFaults function place argument = argument arg := if_pos rfl

theorem builtinFaults_of_length_ne {args : List Expr} (h : args.length ≠ 1) :
    (call function args).builtinFaults function place argument =
      [.arity function args.length] := by
  rw [builtinFaults, if_pos rfl]
  rintro arg rfl
  exact h rfl

theorem builtinFaults_of_ne {e : Expr} (h : ∀ args, e ≠ call function args) :
    e.builtinFaults function place argument = [e.unfit place] := by
  cases e with
  | call name args =>
    have hname : name ≠ function := fun hn => h args (by rw [hn])
    simp [builtinFaults, hname]
  | _ => rfl

end Expr

namespace Script

/-! ## Expressions in their places -/

/-- A part that an expression cannot play is reported in the words for its place. -/
theorem misplaced_stopsAt {α : Type} {role : Role} {place : String}
    (h : " " ++ role.phrase = " as " ++ place) (e : Expr) :
    (misplaced e role : Except Fault α).StopsAt [e.unfit place] := by
  have htext : e.text ++ " " ++ role.phrase = e.text ++ " as " ++ place := by
    rw [String.append_assoc, h, String.append_assoc]
  have hunfit : Fault.unsupported (.misplaced e role) = e.unfit place :=
    congrArg (Fault.unsupported ⟨·⟩) htext
  exact congrArg some hunfit.symm

theorem Word.ofValue_stopsAt (e : Expr) : (ofValue e).StopsAt e.valueFaults := by
  cases e with
  | call _ _ => exact misplaced_stopsAt (by decide) _
  | string _ | number _ | var _ => rfl

theorem Word.ofCommand_stopsAt (e : Expr) : (ofCommand e).StopsAt (e.bareFaults "a command") := by
  cases e with
  | number _ | call _ _ => exact misplaced_stopsAt (by decide) _
  | string _ | var _ => rfl

theorem Word.ofPattern_stopsAt (e : Expr) :
    (ofPattern e).StopsAt (e.bareFaults "a glob pattern") := by
  cases e with
  | number _ | call _ _ => exact misplaced_stopsAt (by decide) _
  | string _ | var _ => rfl

/-- Where only a call of `function` may stand, the name comes before the number of arguments, and
that number before the argument. -/
theorem builtin_stopsAt {lower word : Expr → Except Fault Word} {function place : String}
    {role : Role} {argument : Expr → List Fault} (hrole : " " ++ role.phrase = " as " ++ place)
    (call : ∀ args, lower (.call function args) = soleArgument function args >>= word)
    (other : ∀ e, (∀ args, e = .call function args → False) → lower e = misplaced e role)
    (hword : ∀ e, (word e).StopsAt (argument e)) (e : Expr) :
    (lower e).StopsAt (e.builtinFaults function place argument) := by
  by_cases h : ∃ args, e = .call function args
  · obtain ⟨args, rfl⟩ := h
    rw [call]
    match args with
    | [] =>
      rw [Expr.builtinFaults_of_length_ne (by simp)]
      rfl
    | [arg] =>
      rw [Expr.builtinFaults_singleton]
      exact hword arg
    | _ :: _ :: _ =>
      rw [Expr.builtinFaults_of_length_ne (by simp)]
      rfl
  · have hne : ∀ args, e ≠ .call function args := fun args he => h ⟨args, he⟩
    rw [other e hne, Expr.builtinFaults_of_ne hne]
    exact misplaced_stopsAt hrole e

theorem tested_stopsAt (e : Expr) :
    (tested e).StopsAt (e.builtinFaults "exists" "a condition" Expr.valueFaults) :=
  builtin_stopsAt (by decide) tested.eq_1 tested.eq_2 Word.ofValue_stopsAt e

theorem iterated_stopsAt (e : Expr) : (iterated e).StopsAt
    (e.builtinFaults "glob" "an iterable" (Expr.bareFaults "a glob pattern")) :=
  builtin_stopsAt (by decide) iterated.eq_1 iterated.eq_2 Word.ofPattern_stopsAt e

theorem printed_stopsAt (e : Expr) :
    (printed e).StopsAt (e.builtinFaults "print" "a statement" Expr.valueFaults) :=
  builtin_stopsAt (by decide) printed.eq_1 printed.eq_2 Word.ofValue_stopsAt e

theorem words_stopsAt (c : Invocation) : (words c).StopsAt (Invocation.faults c) := by
  cases c with
  | nil => rfl
  | cons command args =>
    exact (Word.ofCommand_stopsAt command).bind fun w =>
      (Except.StopsAt.mapM Word.ofValue_stopsAt args).bind_pure _

/-! ## Statements -/

namespace Command

mutual

theorem ofStmt_stopsAt : ∀ s : Stmt, (ofStmt s).StopsAt s.faults
  | .decl _ _ value => (Word.ofValue_stopsAt value).bind_pure _
  | .run command => (words_stopsAt command).bind_pure _
  | .ifThen cond body => (tested_stopsAt cond).bind fun _ => (ofStmts_stopsAt body).bind_pure _
  | .forIn _ iterable body =>
    (iterated_stopsAt iterable).bind fun _ => (ofStmts_stopsAt body).bind_pure _
  | .pipe commands => (Except.StopsAt.mapM words_stopsAt commands).bind_pure _
  | .expr value => (printed_stopsAt value).bind_pure _

theorem ofStmts_stopsAt : ∀ ss : List Stmt, (ofStmts ss).StopsAt (Stmt.faultsList ss)
  | [] => rfl
  | s :: ss => (ofStmt_stopsAt s).bind fun _ => (ofStmts_stopsAt ss).bind_pure _

end

end Command

end Script

/-- A program, well-formed or not, has a script exactly if it has no fault; if it has any, the first
one in the order of the text is reported, in its words. -/
theorem Program.emit_iff_faults (p : Program) :
    ((∃ script, p.emit = .ok script) ↔ p.faults = []) ∧
      ∀ f, p.emit = .error f ↔ p.faults.head? = some f := by
  have hp : p.emit.StopsAt p.faults :=
    (Script.Command.ofStmts_stopsAt p).bind_pure Script.text
  exact ⟨hp.exists_ok_iff, hp.eq_error_iff⟩

-- the number of arguments is counted before the call among them is found, and the empty command
-- behind is not reached
example : Program.emit [.ifThen (.call "exists" [.call "f" [], .number "1"]) [.run []]] =
    .error (.arity "exists" 2) := by decide

-- an expression is shown with all its arguments
example : Program.emit [.forIn "f" (.call "glob" [.call "g" [.string "a", .var "x", .number "1"]])
      [.expr (.var "y")]] =
    .error (.unsupported ⟨"g(\"a\", x, 1) as a glob pattern"⟩) := by decide

end Shellwright
