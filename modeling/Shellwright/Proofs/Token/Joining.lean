import Shellwright.Proofs.Token.Spelling

/-!
# Scanning joined texts

A text is scanned in the same way wherever it stands, and a text that is followed by a blank is
scanned as if it stood alone.

## Main definitions

* `Position.down`, `Token.down`, `LexError.down`: the same thing some lines further down.

## Main statements

* `Token.scan_down`: scanning further down gives the same, further down.
* `Token.exists_scan_append`: the tokens of a text come before those of what follows it.
-/
namespace Shellwright

/-- The same column, `n` lines further down. -/
def Position.down (n : Nat) (p : Position) : Position := ⟨p.line + n, p.column⟩

def Token.down (n : Nat) (t : Token) : Token := ⟨t.kind, t.position.down n⟩

def LexError.down (n : Nat) : LexError → LexError
  | unterminatedString p => unterminatedString (p.down n)

namespace Position

variable (n : Nat) (p : Position)

@[simp] theorem advance_down (c : Char) : (p.down n).advance c = (p.advance c).down n := by
  by_cases h : c = '\n' <;> simp [advance, down, h]
  omega

@[simp] theorem after_down (cs : List Char) : (p.down n).after cs = (p.after cs).down n := by
  induction cs generalizing p with
  | nil => rfl
  | cons c cs ih => simp [ih]

/-- Behind a newline a text stands as it would at the front, but for its line. -/
theorem after_concat_newline (cs : List Char) :
    start.after (cs ++ ['\n']) = start.down (1 + cs.count '\n') := by
  have hline := line_after start cs
  simp only [after_append, after_cons, after_nil, advance, if_pos, down, start] at hline ⊢
  congr 1
  omega

end Position

namespace Token

open Text

@[simp] theorem kind_down (n : Nat) (t : Token) : (t.down n).kind = t.kind := rfl

theorem scan_down (n : Nat) (p : Position) (cs : List Char) :
    scan (p.down n) cs = ((scan p cs).map (·.map (down n))).mapError (LexError.down n) := by
  fun_induction scan p cs with
  | case1 p => rw [scan_nil]; rfl
  | case2 p c cs hc ih => rw [scan_cons_of_isBlank hc, Position.advance_down, ih]
  | case3 p c cs hc hm => rw [scan_cons_of_munch_eq_none (by simpa using hc) hm]; rfl
  | case4 p c cs hc k rest hm ih =>
    rw [scan_cons_of_munch (by simpa using hc) hm, Position.after_down, ih]
    cases scan (p.after k.lexeme.toList) rest <;> rfl

/-- Blanks behind a text do not change the token that the text begins with. -/
theorem munch_append_of_isBlank {c : Char} {cs ds rest : List Char} {k : Kind}
    (hc : isBlank c = false) (h : munch c cs = some (k, rest))
    (hd : ∀ d ∈ ds.head?, isBlank d = true) : munch c (cs ++ ds) = some (k, rest ++ ds) := by
  obtain ⟨hs, hk, hr⟩ := (munch_eq_some_iff hc).1 h
  refine munch_of_shaped hs (by rw [← List.append_assoc, hk, List.cons_append]) ?_
  intro d hmem
  cases rest with
  | nil => exact Kind.absorbs_eq_false_of_isBlank (hd d hmem)
  | cons e rest => exact hr d hmem

/-- The tokens of a text, the end of the input apart, come before those of a text that follows it
behind a blank. -/
theorem exists_scan_append {p : Position} {cs : List Char} {us : List Token}
    (h : scan p cs = .ok us) :
    ∃ ts, us = ts ++ [⟨.eof, p.after cs⟩] ∧ (∀ t ∈ ts, t.kind ≠ .eof) ∧
      ∀ ds : List Char, (∀ d ∈ ds.head?, isBlank d = true) →
        scan p (cs ++ ds) = (scan (p.after cs) ds).map (ts ++ ·) := by
  fun_induction scan p cs generalizing us with
  | case1 p =>
    cases h
    refine ⟨[], rfl, by simp, fun ds _ => ?_⟩
    cases hs : scan p ds <;> simp [hs, Except.map]
  | case2 p c cs hc ih =>
    obtain ⟨ts, rfl, hts, happ⟩ := ih h
    refine ⟨ts, rfl, hts, fun ds hd => ?_⟩
    rw [List.cons_append, scan_cons_of_isBlank hc]
    exact happ ds hd
  | case3 => cases h
  | case4 p c cs hc k rest hm ih =>
    obtain ⟨vs, hv, rfl⟩ := Except.map_eq_ok.1 h
    obtain ⟨ts, rfl, hts, happ⟩ := ih hv
    have hc' : isBlank c = false := by simpa using hc
    have hafter : (p.after k.lexeme.toList).after rest = p.after (c :: cs) := by
      rw [← munch_append hm, Position.after_append]
    rw [hafter] at happ ⊢
    refine ⟨⟨k, p⟩ :: ts, rfl, ?_, fun ds hd => ?_⟩
    · have hk : k ≠ .eof := by
        rintro rfl
        exact shaped_of_munch hc' hm
      simpa using ⟨hk, by simpa using hts⟩
    · rw [List.cons_append, scan_cons_of_munch hc' (munch_append_of_isBlank hc' hm hd), happ ds hd]
      cases scan (p.after (c :: cs)) ds <;> rfl

/-! ## Joined sources -/

theorem body_eq_toList {s : String} (h : s.toList.head? ≠ some '\uFEFF') : body s = s.toList :=
  body_eq_iff.2 (.inr ⟨h, rfl⟩)

/-- A byte order mark is not blank, so one that stands in front of a blank stands at the front. -/
theorem body_append {s t : String} (h : ∀ c ∈ t.toList.head?, isBlank c = true) :
    body (s ++ t) = body s ++ t.toList := by
  cases hs : s.toList with
  | nil =>
    obtain rfl := String.toList_eq_nil_iff.1 hs
    have hmark : isBlank '\uFEFF' = false := by decide
    have ht : t.toList.head? ≠ some '\uFEFF' := fun ht => by simp [h _ ht] at hmark
    rw [String.empty_append, body_eq_toList ht]
    rfl
  | cons c cs => by_cases hc : c = '\uFEFF' <;> simp [body, hs, hc]

theorem count_body {c : Char} (hc : c ≠ '\uFEFF') (s : String) :
    (body s).count c = s.toList.count c := by
  obtain h | ⟨-, h⟩ := body_eq_iff.1 (Eq.refl (body s))
  · rw [h, List.count_cons_of_ne hc.symm]
  · rw [h]

/-- The tokens of a source that is followed, on a line of its own, by another one. -/
theorem exists_tokenize_append {s t : String} {us : List Token} (h : tokenize s = .ok us)
    (ht : t.toList.head? ≠ some '\uFEFF') :
    ∃ ts stop, us = ts ++ [⟨.eof, stop⟩] ∧ (∀ x ∈ ts, x.kind ≠ .eof) ∧
      tokenize (s ++ "\n" ++ t) =
        (((tokenize t).map (·.map (down (1 + s.toList.count '\n')))).mapError
          (LexError.down (1 + s.toList.count '\n'))).map (ts ++ ·) := by
  obtain ⟨ts, rfl, hts, happ⟩ := exists_scan_append h
  refine ⟨ts, _, rfl, hts, ?_⟩
  have hnl : isBlank '\n' = true := by decide
  have hjoin : ("\n" ++ t).toList = '\n' :: t.toList := by simp
  have hhead : ∀ c ∈ ("\n" ++ t).toList.head?, isBlank c = true := by simpa [hjoin] using hnl
  have hstart := Position.after_concat_newline (body s)
  rw [Position.after_append, count_body (by decide)] at hstart
  rw [tokenize, tokenize, String.append_assoc, body_append hhead, body_eq_toList ht, ← scan_down,
    ← hstart, happ _ hhead, hjoin, scan_cons_of_isBlank hnl]
  rfl

end Token

end Shellwright
