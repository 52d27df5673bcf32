import Shellwright.Program
import Shellwright.Proofs.Stmt.Reading

/-!
# Programs are read as they are written

Around the statements of a program stand gaps of symbols that mean nothing. A gap may begin with
anything but a symbol that would go on with the statement before it.

## Main definitions

* `Stmt.Spaced`: a statement with the gap behind it.

## Main statements

* `Program.ofKinds_append`: what follows a program does not change how the program is read.
* `Program.ofTokens_eq_ok_iff`: exactly the well-formed programs within the nesting limit are read,
  from their canonical tokens with gaps around them.
-/
namespace Shellwright

open Token (Kind)

/-- A statement and the symbols behind it, which do not go on with it. -/
structure Stmt.Spaced where
  stmt : Stmt
  gap : List Char
  ends : ∀ c ∈ gap.head?, stmt.EndsAt (.symbol c)

def Stmt.Spaced.kinds (x : Stmt.Spaced) : List Kind := x.stmt.kinds ++ x.gap.map .symbol

namespace Program

variable {ks ls rest : List Kind} {s : Stmt} {p : Program}

theorem run_statement_eq_ok : statement.run ks = .ok (s, rest) ↔
    (s.wellFormed = true ∧ s.nesting ≤ maxNesting) ∧ ks = s.kinds ++ rest ∧
      s.EndsAt (Token.next rest) := Stmt.parser_reads maxNesting ks s rest

/-! ## The loop over statements -/

theorem ofKinds_symbols (gap : List Char) (ks : List Kind) :
    ofKinds (gap.map .symbol ++ ks) = ofKinds ks := by
  induction gap with
  | nil => rfl
  | cons c gap ih =>
    rw [List.map_cons, List.cons_append, ofKinds]
    exact ih

theorem ofKinds_cons {k : Kind} (hk : ∀ c, k ≠ .symbol c) :
    ofKinds (k :: ks) =
      statement.run (k :: ks) >>= fun (s, rest) => (ofKinds rest).map (s :: ·) := by
  rw [ofKinds.eq_3 _ _ hk]
  split
  · rename_i e he
    rw [he]
    rfl
  · rename_i s rest hs
    rw [hs]
    change _ = (ofKinds rest).map (s :: ·)
    cases ofKinds rest <;> rfl

theorem ofKinds_of_run_eq_ok (h : statement.run ks = .ok (s, rest)) :
    ofKinds ks = (ofKinds rest).map (s :: ·) := by
  obtain ⟨-, hks, -⟩ := run_statement_eq_ok.1 h
  obtain ⟨k, ls, hk, hsym⟩ := s.exists_kinds_cons
  rw [hk, List.cons_append] at hks
  subst hks
  rw [ofKinds_cons hsym, h]
  rfl

/-- A program is read in the same way before tokens that do not go on with it. -/
theorem ofKinds_append (h : ofKinds ks = .ok p) (hls : ∀ s : Stmt, s.EndsAt (Token.next ls)) :
    ofKinds (ks ++ ls) = (ofKinds ls).map (p ++ ·) := by
  fun_induction ofKinds ks generalizing p with
  | case1 =>
    cases h
    cases hl : ofKinds ls <;> simp [hl, Except.map]
  | case2 c rest ih => simpa [ofKinds] using ih h
  | case3 => cases h
  | case4 => cases h
  | case5 k rest hk s mid hs ss hss ih =>
    cases h
    obtain ⟨hgood, hks, hends⟩ := run_statement_eq_ok.1 hs
    have hrun : statement.run (k :: rest ++ ls) = .ok (s, mid ++ ls) := by
      refine run_statement_eq_ok.2 ⟨hgood, by simp [hks], ?_⟩
      cases mid with
      | nil => exact hls s
      | cons l mid => exact hends
    rw [ofKinds_of_run_eq_ok hrun, ih hss]
    cases ofKinds ls <;> rfl

/-! ## Laid out programs -/

/-- Statements with their gaps, behind a gap of their own. -/
theorem ofKinds_spaced {items : List Stmt.Spaced} (lead : List Char)
    (h : ∀ x ∈ items, x.stmt.wellFormed = true ∧ x.stmt.nesting ≤ maxNesting) :
    ofKinds (lead.map .symbol ++ items.flatMap Stmt.Spaced.kinds) = .ok (items.map (·.stmt)) := by
  induction items generalizing lead with
  | nil =>
    rw [ofKinds_symbols]
    simp [ofKinds]
  | cons x items ih =>
    have hrun : statement.run
          (x.stmt.kinds ++ (x.gap.map .symbol ++ items.flatMap Stmt.Spaced.kinds)) =
        .ok (x.stmt, x.gap.map .symbol ++ items.flatMap Stmt.Spaced.kinds) := by
      refine run_statement_eq_ok.2 ⟨h x (by simp), rfl, ?_⟩
      cases hgap : x.gap with
      | cons c gap => exact x.ends c (by simp [hgap])
      | nil =>
        -- without a gap the next statement follows, and no statement begins with a symbol
        cases items with
        | nil => exact Stmt.endsAt_of_ne (by simp [Token.next])
        | cons y items =>
          obtain ⟨k, ks, hk, hsym⟩ := y.stmt.exists_kinds_cons
          simpa [Stmt.Spaced.kinds, hk, Token.next] using Stmt.endsAt_of_ne hsym
    rw [ofKinds_symbols, List.flatMap_cons, Stmt.Spaced.kinds, List.append_assoc,
      ofKinds_of_run_eq_ok hrun, ih x.gap fun y hy => h y (List.mem_cons_of_mem _ hy)]
    rfl

theorem exists_spaced_of_ofKinds (h : ofKinds ks = .ok p) :
    (∀ s ∈ p, s.wellFormed = true ∧ s.nesting ≤ maxNesting) ∧
      ∃ (lead : List Char) (items : List Stmt.Spaced), items.map (·.stmt) = p ∧
        ks = lead.map .symbol ++ items.flatMap Stmt.Spaced.kinds := by
  fun_induction ofKinds ks generalizing p with
  | case1 =>
    cases h
    exact ⟨by simp, [], [], rfl, rfl⟩
  | case2 c rest ih =>
    obtain ⟨hgood, lead, items, rfl, rfl⟩ := ih h
    exact ⟨hgood, c :: lead, items, rfl, rfl⟩
  | case3 => cases h
  | case4 => cases h
  | case5 k rest hk s mid hs ss hss ih =>
    cases h
    obtain ⟨hgs, hks, hends⟩ := run_statement_eq_ok.1 hs
    obtain ⟨hgood, lead, items, rfl, rfl⟩ := ih hss
    have hlead : ∀ c ∈ lead.head?, s.EndsAt (.symbol c) := by
      intro c hc
      cases lead with
      | nil => cases hc
      | cons d lead =>
        cases hc
        exact hends
    refine ⟨by simpa using ⟨hgs, by simpa using hgood⟩, [], ⟨s, lead, hlead⟩ :: items, rfl, ?_⟩
    simp [hks, Stmt.Spaced.kinds]

theorem wellFormed_iff : p.wellFormed = true ↔ ∀ s ∈ p, s.wellFormed = true :=
  Stmt.wellFormedList_iff

theorem nesting_le_iff {n : Nat} : p.nesting ≤ n ↔ ∀ s ∈ p, s.nesting ≤ n :=
  Stmt.nestingList_le_iff

theorem ofTokens_eq_ok_iff_ofKinds {ts : List Token} :
    ofTokens ts = .ok p ↔ ofKinds ((ts.map (·.kind)).takeWhile (· ≠ .eof)) = .ok p := by
  rw [ofTokens, ofStream, Except.mapError_eq_ok, Token.Stream.kinds_ofList]

/-- The tokens before the first end of input decide what is read: a program is read exactly if it is
well-formed, nested within the limit, and its canonical tokens stand there in order with gaps of
symbols around them. -/
theorem ofTokens_eq_ok_iff (ts : List Token) (p : Program) :
    ofTokens ts = .ok p ↔ p.wellFormed = true ∧ p.nesting ≤ maxNesting ∧
      ∃ (lead : List Char) (items : List Stmt.Spaced), items.map (·.stmt) = p ∧
        (ts.map (·.kind)).takeWhile (· ≠ .eof) =
          lead.map .symbol ++ items.flatMap Stmt.Spaced.kinds := by
  rw [ofTokens_eq_ok_iff_ofKinds, wellFormed_iff, nesting_le_iff]
  constructor
  · intro h
    obtain ⟨hgood, hspaced⟩ := exists_spaced_of_ofKinds h
    exact ⟨fun s hs => (hgood s hs).1, fun s hs => (hgood s hs).2, hspaced⟩
  · rintro ⟨hw, hn, lead, items, rfl, hks⟩
    rw [hks]
    refine ofKinds_spaced lead fun x hx => ⟨hw _ ?_, hn _ ?_⟩ <;> exact List.mem_map_of_mem hx

end Program

end Shellwright
