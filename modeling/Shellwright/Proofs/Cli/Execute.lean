import Shellwright.Cli.Execute
import Shellwright.Machine
import Shellwright.Proofs.Outcome

/-!
# What the two commands do

Compiling a file and running it begin in the same way, so they fail in the same way: with the same
report, and before anything is written or started. What they do otherwise is one operation of the
system each, on the one script.

## Main definitions

* `Cli.Unusable`: a file that has no script, with the line that says why.

## Main statements

* `Cli.execute_compile_run`: the outcome of both commands on every system.
* `Machine.entryAt_execute_compile`: what a compilation changes in a tree of files.
-/
namespace Shellwright

open Text (encode)

namespace Cli

variable {σ : Type} {host : Host σ} {s : σ} {file : String}

/-- The file has no script, and `report` says why: it cannot be read, or its text does not compile,
with an error that has a place, which then stands before the message, or with one that has none. -/
inductive Unusable (host : Host σ) (s : σ) (file : String) : (report : String) → Prop where
  | unread {r : Refusal} (read : host.read s file = .error r) :
    Unusable host s file ("error: cannot read " ++ file ++ ": " ++ r.text)
  | placed {source : String} {e : CompileError} {p : Position}
      (read : host.read s file = .ok source)
      (error : compile source = .error e) (place : e.position? = some p) :
    Unusable host s file ("kyro error at " ++ (p.text ++ " → " ++ e.short))
  | unplaced {source : String} {e : CompileError} (read : host.read s file = .ok source)
      (error : compile source = .error e) (place : e.position? = none) :
    Unusable host s file ("kyro error: " ++ e.short)

/-- The line that reports a refused operation begins with the name of the operation. -/
theorem refused_eq {operation opening : String}
    (h : "error: cannot " ++ operation ++ " " = opening) (target : String) (r : Refusal) :
    refused operation target r = opening ++ target ++ ": " ++ r.text :=
  congrArg (· ++ target ++ ": " ++ r.text) h

theorem rejected_of_some {e : CompileError} {p : Position} (h : e.position? = some p) :
    rejected e = "kyro error at " ++ (p.text ++ " → " ++ e.short) := by
  simp only [rejected, CompileError.diagnostic, h]

theorem rejected_of_none {e : CompileError} (h : e.position? = none) :
    rejected e = "kyro error: " ++ e.short := by
  simp only [rejected, CompileError.diagnostic, h]

theorem compileFile_eq_error_iff {report : String} :
    compileFile host s file = .error report ↔ Unusable host s file report := by
  have hrefused : ∀ r, refused "read" file r = "error: cannot read " ++ file ++ ": " ++ r.text :=
    refused_eq (by decide) file
  constructor
  · intro h
    unfold compileFile at h
    cases hread : host.read s file with
    | error r =>
      simp only [hread, hrefused] at h
      cases h
      exact .unread hread
    | ok source =>
      rw [hread] at h
      obtain ⟨e, he, rfl⟩ := Except.mapError_eq_error.1 h
      cases hp : e.position? with
      | some p =>
        rw [rejected_of_some hp]
        exact .placed hread he hp
      | none =>
        rw [rejected_of_none hp]
        exact .unplaced hread he hp
  · intro h
    cases h with
    | unread hread => simp only [compileFile, hread, hrefused]
    | placed hread he hp =>
      simp only [compileFile, hread, he, Except.mapError_error, rejected_of_some hp]
    | unplaced hread he hp =>
      simp only [compileFile, hread, he, Except.mapError_error, rejected_of_none hp]

theorem compileFile_eq_ok_iff {script : String} : compileFile host s file = .ok script ↔
    ∃ source, host.read s file = .ok source ∧ compile source = .ok script := by
  cases hread : host.read s file <;> simp [compileFile, hread]

/-- Both commands begin by compiling the file. If it has no script, both give code 1 and the report
on the standard error, and that is all. If it has one, compiling puts it, with a newline, on the
standard output or into the file at the path given, and running it starts the shell on it and passes
on its code. An operation that the system refuses is reported, and nothing follows it. -/
theorem execute_compile_run (host : Host σ) (s : σ) (file : String) (output : Option String)
    (shell : String) :
    (∀ report, Unusable host s file report →
      execute host s (.compile file output) =
        { code := 1, stdout := [], stderr := encode (report ++ "\n"), state := s,
          launched := none } ∧
      execute host s (.run file shell) =
        { code := 1, stdout := [], stderr := encode (report ++ "\n"), state := s,
          launched := none }) ∧
    ((∀ report, ¬ Unusable host s file report) →
      ∃ source script, host.read s file = .ok source ∧ compile source = .ok script ∧
      (output = none → execute host s (.compile file output) =
        { code := 0, stdout := encode (script ++ "\n"), stderr := [], state := s,
          launched := none }) ∧
      (∀ path s', output = some path → host.write s path (script ++ "\n") = (s', .ok ()) →
        execute host s (.compile file output) =
          { code := 0, stdout := [], stderr := [], state := s', launched := none }) ∧
      (∀ path s' r, output = some path → host.write s path (script ++ "\n") = (s', .error r) →
        execute host s (.compile file output) =
          { code := 1, stdout := [], state := s', launched := none,
            stderr := encode ("error: cannot write " ++ path ++ ": " ++ r.text ++ "\n") }) ∧
      (∀ f, host.launch s shell ["-c", script] = .ok f → execute host s (.run file shell) =
        { code := match f.ending with
            | .exited code => code
            | .signalled => 1,
          stdout := f.stdout, stderr := f.stderr, state := f.state,
          launched := some (shell, ["-c", script]) }) ∧
      ∀ r, host.launch s shell ["-c", script] = .error r → execute host s (.run file shell) =
        { code := 1, stdout := [], state := s, launched := none,
          stderr := encode ("error: cannot start " ++ shell ++ ": " ++ r.text ++ "\n") }) := by
  constructor
  · intro report h
    have hfile := compileFile_eq_error_iff.2 h
    constructor <;> simp only [execute, hfile, Outcome.failure]
  · intro h
    cases hfile : compileFile host s file with
    | error report => exact absurd (compileFile_eq_error_iff.1 hfile) (h report)
    | ok script =>
      obtain ⟨source, hread, hcompile⟩ := compileFile_eq_ok_iff.1 hfile
      refine ⟨source, script, hread, hcompile, ?_, ?_, ?_, ?_, ?_⟩
      · rintro rfl
        simp only [execute, hfile, deliver]
      · rintro path s' rfl hwrite
        simp only [execute, hfile, deliver, hwrite]
      · rintro path s' r rfl hwrite
        have hrefused : refused "write" path r = "error: cannot write " ++ path ++ ": " ++ r.text :=
          refused_eq (by decide) path r
        simp only [execute, hfile, deliver, hwrite, Outcome.failure, hrefused]
      · intro f hlaunch
        cases hf : f.ending <;> simp only [execute, hfile, start, hlaunch, hf, Ending.code]
      · intro r hlaunch
        have hrefused : refused "start" shell r =
            "error: cannot start " ++ shell ++ ": " ++ r.text := refused_eq (by decide) shell r
        simp only [execute, hfile, start, hlaunch, Outcome.failure, hrefused]

/-- On a machine with two files and no shell: there is no third file to run, one of the two does not
compile, and the other one is printed, is written to a file, and cannot be run. -/
theorem execute_compile_run_exit : ∃ m : Machine,
    execute Machine.host m (.run "c" "sh") =
      { code := 1, stdout := [], state := m, launched := none,
        stderr := encode ("error: cannot read " ++ "c" ++ ": " ++
          "No such file or directory (os error 2)" ++ "\n") } ∧
    execute Machine.host m (.compile "b" (some "o")) =
      { code := 1, stdout := [], state := m, launched := none,
        stderr := encode ("kyro error at " ++
          ("1:5" ++ " → " ++ "syntax error: expected identifier, got number 1") ++ "\n") } ∧
    execute Machine.host m (.compile "a" none) =
      { code := 0, stdout := encode ("exit 3" ++ "\n"), stderr := [], state := m,
        launched := none } ∧
    execute Machine.host m (.compile "a" (some "o")) =
      { code := 0, stdout := [], stderr := [], launched := none,
        state := ⟨m.files.put (Directory.home ++ ["o"]) (.file (encode ("exit 3" ++ "\n"))),
          m.environment⟩ } ∧
    execute Machine.host m (.run "a" "sh") =
      { code := 1, stdout := [], state := m, launched := none,
        stderr := encode ("error: cannot start " ++ "sh" ++ ": " ++
          "No such file or directory (os error 2)" ++ "\n") } := by
  let m : Machine :=
    ⟨⟨[(Directory.home, .dir), (Directory.home ++ ["a"], .file (encode "run \"exit\", 3")),
      (Directory.home ++ ["b"], .file (encode "val 1"))]⟩, []⟩
  have hread : Machine.host.read m "a" = .ok "run \"exit\", 3" := by decide +kernel
  have hcompile : compile "run \"exit\", 3" = .ok "exit 3" := by decide +kernel
  have hwrong : Machine.host.read m "b" = .ok "val 1" := by decide +kernel
  have herror : compile "val 1" =
      .error (.parse ⟨.expected .identifier (.number "1"), ⟨1, 5⟩⟩) := by decide +kernel
  have hmissing : Machine.host.read m "c" = .error Machine.notFound := by decide +kernel
  have hwrite : Machine.host.write m "o" ("exit 3" ++ "\n") =
      (⟨m.files.put (Directory.home ++ ["o"]) (.file (encode ("exit 3" ++ "\n"))),
        m.environment⟩, .ok ()) := by decide +kernel
  have hlaunch : Machine.host.launch m "sh" ["-c", "exit 3"] = .error Machine.notFound := by
    have hlocate : Shell.Eval.locate m.files Directory.home
        (Text.toOctets ((m.environment.lookup "PATH").getD "")) (Text.toOctets "sh") =
          .error .missing := by decide +kernel
    simp only [Machine.host, Machine.launch, hlocate, ite_self]
    exact if_neg (by decide)
  have husable : ∀ report, ¬ Unusable Machine.host m "a" report := by
    intro report hreport
    rw [← compileFile_eq_error_iff, compileFile_eq_ok_iff.2 ⟨_, hread, hcompile⟩] at hreport
    cases hreport
  have hplace : Position.text ⟨1, 5⟩ = "1:5" := by decide
  have hshort : (CompileError.parse ⟨.expected .identifier (.number "1"), ⟨1, 5⟩⟩).short =
      "syntax error: expected identifier, got number 1" := by decide
  have hdiagnostic : Unusable Machine.host m "b" ("kyro error at " ++
      ("1:5" ++ " → " ++ "syntax error: expected identifier, got number 1")) := by
    rw [← hplace, ← hshort]
    exact .placed hwrong herror rfl
  refine ⟨m, ((execute_compile_run Machine.host m "c" none "sh").1 _ (.unread hmissing)).2,
    ((execute_compile_run Machine.host m "b" (some "o") "sh").1 _ hdiagnostic).1, ?_, ?_⟩
  · obtain ⟨source, script, hs, hc, hprint, -⟩ :=
      (execute_compile_run Machine.host m "a" none "sh").2 husable
    cases hread.symm.trans hs
    cases hcompile.symm.trans hc
    exact hprint rfl
  · obtain ⟨source, script, hs, hc, -, hstore, -, -, hrefused⟩ :=
      (execute_compile_run Machine.host m "a" (some "o") "sh").2 husable
    cases hread.symm.trans hs
    cases hcompile.symm.trans hc
    exact ⟨hstore "o" _ rfl hwrite, hrefused _ hlaunch⟩

end Cli

/-! ## Files -/

namespace Machine

open Cli

/-- The root is a directory, so nothing is written there. -/
theorem ne_nil_of_findForWriting {d : Directory} {base place : Place} {path : String}
    {e : Option Entry} (h : d.findForWriting base path = .ok (place, e)) : place ≠ [] := by
  rintro rfl
  simp only [Directory.findForWriting] at h
  split at h
  · cases h
  · obtain ⟨place, -, h⟩ := Except.bind_eq_ok.1 h
    split at h
    · cases h
    · rename_i hdir
      split at h
      · split at h
        · cases h
        · cases h
          exact hdir rfl
      · cases h
      · cases h

/-- A file is written at the place that its path leads to, and nowhere else. -/
theorem entryAt_write {m : Machine} {path content : String} {place : Place}
    (hne : (m.write path content).1.files.entryAt place ≠ m.files.entryAt place) :
    (∃ e, m.files.findForWriting Directory.home (Text.toOctets path) = .ok (place, e)) ∧
      (m.write path content).1.files.entryAt place = some (.file (encode content)) := by
  have hput {target : Place} {e : Option Entry}
      (hfind : m.files.findForWriting Directory.home (Text.toOctets path) = .ok (target, e))
      (hne : (m.files.put target (.file (encode content))).entryAt place ≠
        m.files.entryAt place) :
      (∃ e, m.files.findForWriting Directory.home (Text.toOctets path) = .ok (place, e)) ∧
        (m.files.put target (.file (encode content))).entryAt place =
          some (.file (encode content)) := by
    obtain rfl : place = target := by
      by_contra hplace
      exact hne (Directory.entryAt_put_of_ne _ _ hplace)
    exact ⟨⟨e, hfind⟩, Directory.entryAt_put _ _ _ (ne_nil_of_findForWriting hfind)⟩
  revert hne
  unfold write
  split
  · exact fun hne => absurd rfl hne
  · exact hput ‹_›
  · exact hput ‹_›
  · exact fun hne => absurd rfl hne
  · exact fun hne => absurd rfl hne

/-- Delivering a script to a path is one write, whether or not it is refused. -/
theorem state_deliver (m : Machine) (script path : String) :
    (deliver host m script (some path)).state = (m.write path (script ++ "\n")).1 := by
  rw [deliver]
  split <;> exact (congrArg Prod.fst ‹_›).symm

/-- What a compilation changes in a tree of files: at most the file at the path given for the
script, and only if there is a script, which that file then holds. -/
theorem entryAt_execute_compile (m : Machine) (file : String) (output : Option String)
    {place : Place}
    (hne : (execute host m (.compile file output)).state.files.entryAt place ≠
      m.files.entryAt place) :
    ∃ path source script, output = some path ∧ m.read file = .ok source ∧
      compile source = .ok script ∧
      (∃ e, m.files.findForWriting Directory.home (Text.toOctets path) = .ok (place, e)) ∧
      (execute host m (.compile file output)).state.files.entryAt place =
        some (.file (encode (script ++ "\n"))) := by
  cases hfile : compileFile host m file with
  | error report =>
    simp only [execute, hfile, Outcome.failure] at hne
    exact absurd rfl hne
  | ok script =>
    obtain ⟨source, hread, hcompile⟩ := compileFile_eq_ok_iff.1 hfile
    simp only [execute, hfile] at hne ⊢
    cases output with
    | none => exact absurd rfl hne
    | some path =>
      rw [state_deliver] at hne ⊢
      exact ⟨path, source, script, rfl, hread, hcompile, entryAt_write hne⟩

end Machine

end Shellwright
