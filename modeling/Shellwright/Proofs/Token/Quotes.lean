import Mathlib.Algebra.Group.Nat.Even
import Shellwright.Proofs.Token.Joining

/-!
# Quotes in sources

A string has a quote at each end, and no other token holds one. A text is therefore cut into tokens
exactly if its quotes come in pairs, and a place in it is outside all strings exactly if the quotes
before it do.

## Main definitions

* `Token.Respaced`: some blanks outside all strings in the stead of others.

## Main statements

* `Token.exists_scan_eq_ok_iff`: a text has tokens exactly if it has an even number of quotes.
* `Token.Respaced.exists_tokenize`: which blanks stand between tokens does not matter.
-/
namespace Shellwright.Token

open Text

variable {p : Position} {c : Char} {cs : List Char} {ts : List Token}

namespace Kind

theorem quote_notMem_of_isWord (h : IsWord cs) : '"' ∉ cs := h.notMem (by decide)

theorem quote_notMem_of_shaped_ident {name : String} (h : (ident name).Shaped) :
    '"' ∉ name.toList :=
  quote_notMem_of_isWord h.1

theorem quote_notMem_of_shaped_number {digits : String} (h : (number digits).Shaped) :
    '"' ∉ digits.toList := by
  intro hq
  have := h.2 _ hq
  simp at this

/-- A token takes both quotes of a string or none. -/
theorem even_count_quote_lexeme {k : Kind} (h : k.Shaped) : Even (k.lexeme.toList.count '"') := by
  cases k with
  | ident name => simp [lexeme, List.count_eq_zero.2 (quote_notMem_of_shaped_ident h)]
  | string text =>
    have htext : text.toList.count '"' = 0 := List.count_eq_zero.2 h
    exact ⟨1, by simp [lexeme, htext]⟩
  | number digits => simp [lexeme, List.count_eq_zero.2 (quote_notMem_of_shaped_number h)]
  | keyword w => simp [lexeme, List.count_eq_zero.2 (quote_notMem_of_isWord (isWord_text w))]
  | symbol c => simp [lexeme, h.2.2.2]
  | eof => exact absurd h id

end Kind

/-! ## Texts with tokens -/

theorem munch_eq_none_iff : munch c cs = none ↔ c = '"' ∧ '"' ∉ cs := by
  unfold munch
  split
  · rename_i hl
    have hc : c ≠ '"' := by
      rintro rfl
      simp at hl
    simp [hc]
  split
  · rename_i hc
    split
    · rename_i hd
      have hnone : '"' ∉ cs := by
        intro hq
        simpa using List.dropWhile_eq_nil_iff.1 hd _ hq
      simp [hc, hnone]
    · rename_i d rest hd
      obtain rfl : d = '"' := by
        simpa using of_mem_head?_dropWhile (Option.mem_def.2 (congrArg List.head? hd))
      have hq : '"' ∈ cs := (List.dropWhile_sublist _).subset (hd ▸ List.mem_cons_self)
      simp [hq]
  split <;> simp [*]

/-- A text has tokens exactly if its quotes come in pairs. -/
theorem exists_scan_eq_ok_iff : (∃ ts, scan p cs = .ok ts) ↔ Even (cs.count '"') := by
  fun_induction scan p cs with
  | case1 p => simp
  | case2 p c cs hc ih =>
    have hne : c ≠ '"' := by
      rintro rfl
      simp at hc
    rw [ih, List.count_cons_of_ne hne]
  | case3 p c cs hc hm =>
    obtain ⟨rfl, hq⟩ := munch_eq_none_iff.1 hm
    simp [List.count_eq_zero.2 hq]
  | case4 p c cs hc k rest hm ih =>
    have heven := Kind.even_count_quote_lexeme (shaped_of_munch (by simpa using hc) hm)
    rw [← munch_append hm, List.count_append, Nat.even_add, iff_true_left heven, ← ih]
    simp

/-- Where a text stands does not change the kinds of its tokens. -/
theorem exists_scan_kinds (h : scan p cs = .ok ts) (q : Position) :
    ∃ us, scan q cs = .ok us ∧ ts.map (·.kind) = us.map (·.kind) := by
  obtain ⟨ks, hk, hs⟩ := Spells.of_scan h
  obtain ⟨us, hu, hk'⟩ := hs.scan q
  exact ⟨us, hu, hk.trans hk'.symm⟩

/-! ## Blanks -/

/-- The blanks of a source at one place outside all strings, replaced by others. There are as many
strings closed as opened before such a place. -/
inductive Respaced : String → String → Prop where
  | intro {before old new behind : String} (outside : Even (before.toList.count '"'))
      (old_ne : old ≠ "") (old_blank : ∀ c ∈ old.toList, isBlank c = true)
      (new_ne : new ≠ "") (new_blank : ∀ c ∈ new.toList, isBlank c = true) :
      Respaced (before ++ old ++ behind) (before ++ new ++ behind)

/-- Blanks outside all strings part a source into two that are scanned on their own. -/
theorem exists_tokenize_blanks {before : String} (h : Even (before.toList.count '"')) :
    ∃ ts : List Token, ∀ blanks behind : String, blanks ≠ "" →
      (∀ c ∈ blanks.toList, isBlank c = true) → ∃ p,
        tokenize (before ++ blanks ++ behind) = (scan p behind.toList).map (ts ++ ·) := by
  rw [← count_body (by decide)] at h
  obtain ⟨us, hus⟩ := (exists_scan_eq_ok_iff (p := .start)).2 h
  obtain ⟨ts, -, -, happ⟩ := exists_scan_append hus
  refine ⟨ts, fun blanks behind hne hblank =>
    ⟨(Position.start.after (body before)).after blanks.toList, ?_⟩⟩
  have hhead : ∀ c ∈ (blanks ++ behind).toList.head?, isBlank c = true := by
    cases hb : blanks.toList with
    | nil => exact absurd (String.toList_eq_nil_iff.1 hb) hne
    | cons d ds => simpa [hb] using hblank d (by simp [hb])
  rw [tokenize, String.append_assoc, body_append hhead, happ _ hhead, String.toList_append,
    scan_blanks hblank]

theorem Respaced.exists_tokenize {s t : String} (h : Respaced s t) (hs : tokenize s = .ok ts) :
    ∃ us, tokenize t = .ok us ∧ ts.map (·.kind) = us.map (·.kind) := by
  cases h with
  | @intro before old new behind outside old_ne old_blank new_ne new_blank =>
    obtain ⟨xs, hxs⟩ := exists_tokenize_blanks outside
    obtain ⟨p, hp⟩ := hxs old behind old_ne old_blank
    obtain ⟨q, hq⟩ := hxs new behind new_ne new_blank
    rw [hp] at hs
    obtain ⟨ys, hys, rfl⟩ := Except.map_eq_ok.1 hs
    obtain ⟨zs, hzs, hk⟩ := exists_scan_kinds hys q
    exact ⟨xs ++ zs, by rw [hq, hzs]; rfl, by simp [hk]⟩

end Shellwright.Token
