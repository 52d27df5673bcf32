import Shellwright.Proofs.Compile.Joining
import Shellwright.Proofs.Program.RoundTrip

/-!
# What a read program holds

Every name, string and number of a program stands in one of its canonical tokens. A program that is
read from a source is therefore made of what a text can hold: its strings have no quote in them, and
its names are words.

## Main statements

* `Program.shaped_of_ofSource`: the program of a source text is shaped.
-/
namespace Shellwright

open Token (Kind)

namespace Expr

theorem kinds_subset_kindsList {e : Expr} {es : List Expr} (h : e ∈ es) :
    e.kinds ⊆ kindsList es := by
  induction es with
  | nil => simp at h
  | cons f es ih =>
    cases es with
    | nil =>
      rw [List.mem_singleton] at h
      simp [h, kindsList]
    | cons g es =>
      rw [kindsList]
      rcases List.mem_cons.1 h with rfl | h
      · exact List.subset_append_left _ _
      · intro k hk
        exact List.mem_append_right _ (List.mem_cons_of_mem _ (ih h hk))

theorem shaped_of_kinds (e : Expr) (h : ∀ k ∈ e.kinds, k.Shaped) : e.Shaped := by
  match e with
  | string text => exact h (.string text) (by simp [kinds])
  | number digits => exact h (.number digits) (by simp [kinds])
  | var name => exact h (.ident name) (by simp [kinds])
  | call name args =>
    refine ⟨h _ (by simp [kinds]), shapedList_iff.2 fun e he => shaped_of_kinds e fun k hk => ?_⟩
    exact h k (by simp [kinds, kinds_subset_kindsList he hk])

end Expr

theorem Invocation.shaped_of_kinds {c : Invocation} (h : ∀ k ∈ Invocation.kinds c, k.Shaped) :
    ∀ e ∈ c, e.Shaped := by
  intro e he
  refine e.shaped_of_kinds fun k hk => h k ?_
  exact List.mem_cons_of_mem _ (Expr.kinds_subset_kindsList he hk)

namespace Stmt

theorem kinds_subset_kindsList {s : Stmt} {ss : List Stmt} (h : s ∈ ss) :
    s.kinds ⊆ kindsList ss := by
  intro k hk
  rw [kindsList_eq_flatMap]
  exact List.mem_flatMap.2 ⟨s, h, hk⟩

theorem shaped_of_kinds (s : Stmt) (h : ∀ k ∈ s.kinds, k.Shaped) : s.Shaped := by
  match s with
  | decl binding name value =>
    exact ⟨h _ (by simp [kinds]), value.shaped_of_kinds fun k hk => h k (by simp [kinds, hk])⟩
  | run command => exact Invocation.shaped_of_kinds h
  | ifThen cond body =>
    refine ⟨cond.shaped_of_kinds fun k hk => h k (by simp [kinds, hk]), ?_⟩
    refine shapedList_iff.2 fun t ht => shaped_of_kinds t fun k hk => h k ?_
    simp [kinds, braced, kinds_subset_kindsList ht hk]
  | forIn name iterable body =>
    have hiter := iterable.shaped_of_kinds fun k hk => h k (by simp [kinds, hk])
    refine ⟨h _ (by simp [kinds]), hiter, ?_⟩
    refine shapedList_iff.2 fun t ht => shaped_of_kinds t fun k hk => h k ?_
    simp [kinds, braced, kinds_subset_kindsList ht hk]
  | pipe commands =>
    intro c hc
    refine Invocation.shaped_of_kinds fun k hk => h k ?_
    have hbody : k ∈ commands.flatMap Invocation.kinds := List.mem_flatMap.2 ⟨c, hc, hk⟩
    simp [kinds, braced, hbody]
  | expr value => exact value.shaped_of_kinds h

end Stmt

theorem Program.shaped_of_ofSource {source : String} {p : Program} (h : ofSource source = .ok p) :
    p.Shaped := by
  obtain ⟨ts, hts, hp⟩ := ofSource_eq_ok_iff.1 h
  rw [ofTokens, ofStream, Except.mapError_eq_ok] at hp
  obtain ⟨-, lead, items, rfl, hks⟩ := exists_spaced_of_ofKinds hp
  intro s hs
  obtain ⟨x, hx, rfl⟩ := List.mem_map.1 hs
  refine x.stmt.shaped_of_kinds fun k hk => (Token.spells_kinds_of_scan hts).shaped k ?_
  have hmem : k ∈ items.flatMap Stmt.Spaced.kinds :=
    List.mem_flatMap.2 ⟨x, hx, List.mem_append_left _ hk⟩
  rw [hks]
  exact List.mem_append_right _ hmem

end Shellwright
