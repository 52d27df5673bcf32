import Shellwright.Program.Canonical

/-!
# The ends of canonical tokens

What a phrase can stand next to. No phrase begins with a symbol; a phrase that ends in a name would
go on with an opening parenthesis, and a command would go on with a comma.

## Main definitions

* `Expr.EndsAt`, `Stmt.EndsAt`: the token does not go on with the phrase that stands before it.
-/
namespace Shellwright

open Token (Kind)

namespace Token

/-- Whether the last token is a name, which an opening parenthesis would turn into a call. -/
def endsInName (ks : List Kind) : Bool :=
  match ks.getLast? with
  | some (.ident _) => true
  | _ => false

@[simp] theorem endsInName_append {ks ls : List Kind} (h : ls ≠ []) :
    endsInName (ks ++ ls) = endsInName ls := by
  obtain ⟨k, hk⟩ := Option.ne_none_iff_exists'.1 (mt List.getLast?_eq_none_iff.1 h)
  simp [endsInName, hk]

@[simp] theorem endsInName_cons {k : Kind} {ls : List Kind} (h : ls ≠ []) :
    endsInName (k :: ls) = endsInName ls := by
  rw [← List.singleton_append, endsInName_append h]

@[simp] theorem endsInName_concat_symbol (ks : List Kind) (c : Char) :
    endsInName (ks ++ [.symbol c]) = false := by
  simp [endsInName]

end Token

open Token (endsInName)

namespace Expr

theorem kindsList_eq_intercalate (es : List Expr) :
    kindsList es = [Kind.symbol ','].intercalate (es.map kinds) := by
  induction es with
  | nil => simp [kindsList]
  | cons e es ih => cases es <;> simp_all [kindsList]

theorem nestingList_le_iff {es : List Expr} {n : Nat} :
    nestingList es ≤ n ↔ ∀ e ∈ es, e.nesting ≤ n := by
  induction es with
  | nil => simp [nestingList]
  | cons e es ih => rw [nestingList, Nat.max_le, ih, List.forall_mem_cons]

theorem exists_kinds_cons (e : Expr) : ∃ k ks, e.kinds = k :: ks ∧ ∀ c, k ≠ .symbol c := by
  cases e <;> simp [kinds]

@[simp] theorem kinds_ne_nil (e : Expr) : e.kinds ≠ [] := by
  obtain ⟨k, ks, h, -⟩ := e.exists_kinds_cons
  simp [h]

mutual

/-- The end of the input is no part of an expression. -/
theorem eof_notMem_kinds : ∀ e : Expr, .eof ∉ e.kinds
  | .string _ | .number _ | .var _ => by simp [kinds]
  | .call _ args => by simp [kinds, eof_notMem_kindsList args]

theorem eof_notMem_kindsList : ∀ es : List Expr, .eof ∉ kindsList es
  | [] => by simp [kindsList]
  | [e] => by simpa [kindsList] using eof_notMem_kinds e
  | e :: f :: es => by simp [kindsList, eof_notMem_kinds e, eof_notMem_kindsList (f :: es)]

end

/-- The token is no part of the expression before it. -/
def EndsAt (e : Expr) (k : Kind) : Prop := k = .symbol '(' → endsInName e.kinds = false

theorem endsAt_of_ne {e : Expr} {k : Kind} (h : k ≠ .symbol '(') : e.EndsAt k :=
  fun hk => absurd hk h

@[simp] theorem endsInName_kinds_call (name : String) (args : List Expr) :
    endsInName (call name args).kinds = false := by
  rw [kinds, ← List.cons_append, ← List.cons_append, Token.endsInName_concat_symbol]

theorem kindsList_ne_nil {es : List Expr} (h : es ≠ []) : kindsList es ≠ [] := by
  cases es with
  | nil => exact absurd rfl h
  | cons e es => cases es <;> simp [kindsList]

/-- A list of arguments ends as its last one does. -/
theorem endsInName_kindsList {es : List Expr} (h : es ≠ []) :
    endsInName (kindsList es) = endsInName (es.getLast h).kinds := by
  induction es with
  | nil => exact absurd rfl h
  | cons e es ih =>
    cases es with
    | nil => simp [kindsList]
    | cons f es =>
      rw [kindsList, Token.endsInName_append (by simp),
        Token.endsInName_cons (kindsList_ne_nil (by simp)), ih (by simp)]
      simp

end Expr

namespace Stmt

theorem kindsList_eq_flatMap (ss : List Stmt) : kindsList ss = ss.flatMap kinds := by
  induction ss with
  | nil => rfl
  | cons s ss ih => simp [kindsList, ih]

theorem nestingList_le_iff {ss : List Stmt} {n : Nat} :
    nestingList ss ≤ n ↔ ∀ s ∈ ss, s.nesting ≤ n := by
  induction ss with
  | nil => simp [nestingList]
  | cons s ss ih => rw [nestingList, Nat.max_le, ih, List.forall_mem_cons]

theorem wellFormedList_iff {ss : List Stmt} :
    wellFormedList ss = true ↔ ∀ s ∈ ss, s.wellFormed = true := by
  induction ss with
  | nil => simp [wellFormedList]
  | cons s ss ih => simp [wellFormedList, ih]

theorem exists_kinds_cons (s : Stmt) : ∃ k ks, s.kinds = k :: ks ∧ ∀ c, k ≠ .symbol c := by
  cases s with
  | expr value => exact value.exists_kinds_cons
  | _ => simp [kinds, Invocation.kinds]

mutual

theorem eof_notMem_kinds : ∀ s : Stmt, .eof ∉ s.kinds
  | .decl _ _ value => by simp [kinds, value.eof_notMem_kinds]
  | .run command => by simp [kinds, Invocation.kinds, Expr.eof_notMem_kindsList command]
  | .ifThen cond body => by
    simp [kinds, braced, cond.eof_notMem_kinds, eof_notMem_kindsList body]
  | .forIn _ iterable body => by
    simp [kinds, braced, iterable.eof_notMem_kinds, eof_notMem_kindsList body]
  | .pipe commands => by
    simp [kinds, braced, Invocation.kinds, Expr.eof_notMem_kindsList]
  | .expr value => by simp [kinds, value.eof_notMem_kinds]

theorem eof_notMem_kindsList : ∀ ss : List Stmt, .eof ∉ kindsList ss
  | [] => by simp [kindsList]
  | s :: ss => by simp [kindsList, eof_notMem_kinds s, eof_notMem_kindsList ss]

end

def isRun : Stmt → Bool
  | run _ => true
  | _ => false

/-- The token is no part of the statement before it. -/
def EndsAt (s : Stmt) (k : Kind) : Prop :=
  (k = .symbol ',' → s.isRun = false) ∧ (k = .symbol '(' → endsInName s.kinds = false)

/-- Only symbols go on with a statement. -/
theorem endsAt_of_ne {s : Stmt} {k : Kind} (h : ∀ c, k ≠ .symbol c) : s.EndsAt k :=
  ⟨fun hk => absurd hk (h _), fun hk => absurd hk (h _)⟩

/-- Every statement ends where another one begins. -/
theorem exists_kinds_cons_endsAt (c : Char) (s : Stmt) :
    ∃ k ks, s.kinds = k :: ks ∧ k ≠ .symbol c ∧ ∀ t : Stmt, t.EndsAt k := by
  obtain ⟨k, ks, hk, hsym⟩ := s.exists_kinds_cons
  exact ⟨k, ks, hk, hsym c, fun t => endsAt_of_ne hsym⟩

@[simp] theorem endsInName_braced (ks ls : List Kind) : endsInName (ks ++ braced ls) = false := by
  rw [Token.endsInName_append (by simp [braced]), braced, ← List.cons_append,
    Token.endsInName_concat_symbol]

theorem endsAt_decl_iff {b : Binding} {name : String} {value : Expr} {k : Kind} :
    (decl b name value).EndsAt k ↔ value.EndsAt k := by
  simp [EndsAt, Expr.EndsAt, isRun, kinds]

theorem endsAt_run_iff {command : Invocation} {k : Kind} (h : command ≠ []) :
    (run command).EndsAt k ↔ k ≠ .symbol ',' ∧ ∀ e ∈ command.getLast?, e.EndsAt k := by
  simp [EndsAt, Expr.EndsAt, isRun, kinds, Invocation.kinds, Expr.kindsList_ne_nil h,
    Expr.endsInName_kindsList h, List.getLast?_eq_some_getLast h]

theorem endsAt_ifThen (cond : Expr) (body : List Stmt) (k : Kind) :
    (ifThen cond body).EndsAt k := by
  refine ⟨fun _ => rfl, fun _ => ?_⟩
  rw [kinds, ← List.cons_append, endsInName_braced]

theorem endsAt_forIn (name : String) (iterable : Expr) (body : List Stmt) (k : Kind) :
    (forIn name iterable body).EndsAt k := by
  refine ⟨fun _ => rfl, fun _ => ?_⟩
  rw [kinds, ← List.cons_append, ← List.cons_append, ← List.cons_append, endsInName_braced]

theorem endsAt_pipe (commands : List Invocation) (k : Kind) : (pipe commands).EndsAt k :=
  ⟨fun _ => rfl, fun _ => endsInName_braced [.keyword .pipe] _⟩

theorem endsAt_call (name : String) (args : List Expr) (k : Kind) :
    (expr (.call name args)).EndsAt k :=
  ⟨fun _ => rfl, fun _ => Expr.endsInName_kinds_call name args⟩

end Stmt

end Shellwright
