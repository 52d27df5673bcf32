import Mathlib.Data.List.TakeWhile
import Shellwright.Token.Scan
import Shellwright.Token.Spelling

/-!
# The longest token

The classes of characters that begin different tokens are disjoint, so the first character decides
what token it is, and the token goes on as long as its class does.

## Main statements

* `Token.munch_eq_some_iff`: the token taken is the one that is shaped as a token, begins the text
  and does not go on with the next character.
-/
namespace Shellwright

namespace Text

/-! ## Classes of characters -/

set_option maxRecDepth 8000 in
theorem blankSpans_disjoint_letterSpans :
    ∀ s ∈ blankSpans, ∀ t ∈ letterSpans, s.last < t.first ∨ t.last < s.first := by
  decide +kernel

theorem letterSpans_first_ge : ∀ t ∈ letterSpans, 0x41 ≤ t.first := by decide +kernel

theorem isLetter_eq_false_of_isBlank {c : Char} (h : isBlank c = true) : isLetter c = false := by
  obtain ⟨s, hs, h1, h2⟩ := (isBlank_iff c).1 h
  rw [← Bool.not_eq_true, isLetter_iff]
  rintro ⟨t, ht, h3, h4⟩
  have := blankSpans_disjoint_letterSpans s hs t ht
  omega

theorem isLetter_eq_false_of_lt {c : Char} (h : c.toNat < 0x41) : isLetter c = false := by
  rw [← Bool.not_eq_true, isLetter_iff]
  rintro ⟨t, ht, h1, -⟩
  have := letterSpans_first_ge t ht
  omega

theorem toNat_of_isDigit {c : Char} (h : c.isDigit = true) : 0x30 ≤ c.toNat ∧ c.toNat ≤ 0x39 := by
  simp only [Char.isDigit, Bool.and_eq_true, decide_eq_true_eq] at h
  exact h

theorem isLetter_eq_false_of_isDigit {c : Char} (h : c.isDigit = true) : isLetter c = false :=
  isLetter_eq_false_of_lt (by have := toNat_of_isDigit h; omega)

theorem isDigit_eq_false_of_isBlank {c : Char} (h : isBlank c = true) : c.isDigit = false := by
  obtain ⟨s, hs, h1, h2⟩ := (isBlank_iff c).1 h
  rw [← Bool.not_eq_true]
  intro hd
  have hc := toNat_of_isDigit hd
  have hs' : ∀ s ∈ blankSpans, s.last < 0x30 ∨ 0x39 < s.first := by decide
  have := hs' s hs
  omega

theorem isBlank_eq_false_of_isLetter {c : Char} (h : isLetter c = true) : isBlank c = false := by
  cases hb : isBlank c with
  | false => rfl
  | true => simp [isLetter_eq_false_of_isBlank hb] at h

theorem isBlank_eq_false_of_isDigit {c : Char} (h : c.isDigit = true) : isBlank c = false := by
  cases hb : isBlank c with
  | false => rfl
  | true => simp [isDigit_eq_false_of_isBlank hb] at h

@[simp] theorem isLetter_quote : isLetter '"' = false := by decide

@[simp] theorem isBlank_quote : isBlank '"' = false := by decide

theorem isWordChar_eq_false_of_isBlank {c : Char} (h : isBlank c = true) :
    isWordChar c = false := by
  simp [isWordChar, isLetter_eq_false_of_isBlank h, isDigit_eq_false_of_isBlank h]

/-! ## Cutting a text -/

section Cutting

variable {α : Type} {p : α → Bool} {cs rest : List α} {c : α}

theorem takeWhile_append_eq (h : ∀ c ∈ cs, p c = true) (hr : ∀ c ∈ rest.head?, p c = false) :
    (cs ++ rest).takeWhile p = cs := by
  rw [List.takeWhile_append_of_pos h]
  cases rest with
  | nil => simp
  | cons c rest => simp [hr c rfl]

theorem dropWhile_append_eq (h : ∀ c ∈ cs, p c = true) (hr : ∀ c ∈ rest.head?, p c = false) :
    (cs ++ rest).dropWhile p = rest := by
  rw [List.dropWhile_append_of_pos h]
  cases rest with
  | nil => simp
  | cons c rest => simp [hr c rfl]

theorem of_mem_head?_dropWhile (h : c ∈ (cs.dropWhile p).head?) : p c = false := by
  have hnot := List.head?_dropWhile_not p cs
  rwa [Option.mem_def.1 h] at hnot

/-- A text ends where its class of characters does, whatever follows. -/
theorem append_inj_of_class {ds xs ys : List α} (hcs : ∀ c ∈ cs, p c = true)
    (hds : ∀ c ∈ ds, p c = true) (hxs : ∀ c ∈ xs.head?, p c = false)
    (hys : ∀ c ∈ ys.head?, p c = false) (h : cs ++ xs = ds ++ ys) : cs = ds ∧ xs = ys := by
  constructor
  · rw [← takeWhile_append_eq hcs hxs, h, takeWhile_append_eq hds hys]
  · rw [← dropWhile_append_eq hcs hxs, h, dropWhile_append_eq hds hys]

/-- A text that does not hold the separator ends at the first one. -/
theorem append_cons_inj {x : α} {ds xs ys : List α} (hcs : x ∉ cs) (hds : x ∉ ds)
    (h : cs ++ x :: xs = ds ++ x :: ys) : cs = ds ∧ xs = ys := by
  classical
  have hclass {es : List α} (hes : x ∉ es) : ∀ e ∈ es, decide (e ≠ x) = true := by
    intro e he
    simpa using fun hex : e = x => hes (hex ▸ he)
  obtain ⟨rfl, htail⟩ := append_inj_of_class (hclass hcs) (hclass hds) (by simp) (by simp) h
  exact ⟨rfl, (List.cons.inj htail).2⟩

end Cutting

end Text

namespace Token

open Text

namespace Kind

/-! ## Shapes -/

theorem absorbs_eq_false_of_isBlank {k : Kind} {c : Char} (h : isBlank c = true) :
    k.absorbs c = false := by
  cases k <;> simp [absorbs, isWordChar_eq_false_of_isBlank h, isDigit_eq_false_of_isBlank h]

theorem isWord_text (w : Keyword) : IsWord w.text.toList := by
  cases w <;> simp [Keyword.text, IsWord, isWordChar, isLetter_of_isAlpha]

theorem ofWord_text (w : Keyword) : ofWord w.text.toList = keyword w := by
  simp [ofWord]

theorem ofWord_of_ofText? {name : String} (h : Keyword.ofText? name = none) :
    ofWord name.toList = ident name := by
  simp [ofWord, h]

theorem IsWord.exists_cons {cs : List Char} (h : IsWord cs) :
    ∃ c ds, cs = c :: ds ∧ isLetter c = true ∧ ∀ d ∈ ds, isWordChar d = true := by
  cases cs with
  | nil => exact absurd h id
  | cons c ds => exact ⟨c, ds, rfl, h⟩

theorem IsWord.notMem {cs : List Char} {c : Char} (h : IsWord cs) (hc : isWordChar c = false) :
    c ∉ cs := by
  obtain ⟨d, ds, rfl, hd, hds⟩ := h.exists_cons
  have hword : ∀ e ∈ d :: ds, isWordChar e = true := by
    simpa [isWordChar_of_isLetter hd] using hds
  intro hmem
  simp [hword _ hmem] at hc

/-- A lexeme is not empty and begins with a character that is not skipped. -/
theorem exists_lexeme_cons {k : Kind} (h : k.Shaped) :
    ∃ c cs, k.lexeme.toList = c :: cs ∧ isBlank c = false := by
  cases k with
  | ident name =>
    obtain ⟨c, cs, hc, hl, -⟩ := h.1.exists_cons
    exact ⟨c, cs, hc, isBlank_eq_false_of_isLetter hl⟩
  | string text => exact ⟨'"', text.toList ++ ['"'], by simp [lexeme], isBlank_quote⟩
  | number digits =>
    cases hd : digits.toList with
    | nil => exact absurd (String.toList_eq_nil_iff.1 hd) h.1
    | cons c cs => exact ⟨c, cs, hd, isBlank_eq_false_of_isDigit (h.2 c (by simp [hd]))⟩
  | keyword w =>
    obtain ⟨c, cs, hc, hl, -⟩ := (isWord_text w).exists_cons
    exact ⟨c, cs, hc, isBlank_eq_false_of_isLetter hl⟩
  | symbol c => exact ⟨c, [], by simp [lexeme], by simpa using h.1⟩
  | eof => exact absurd h id

end Kind

/-! ## Taking a token -/

variable {c : Char} {cs rest : List Char} {k : Kind}

theorem munch_word (hc : isLetter c = true) (hcs : ∀ d ∈ cs, isWordChar d = true)
    (hr : ∀ d ∈ rest.head?, isWordChar d = false) :
    munch c (cs ++ rest) = some (.ofWord (c :: cs), rest) := by
  simp [munch, hc, takeWhile_append_eq hcs hr, dropWhile_append_eq hcs hr]

theorem munch_string (h : '"' ∉ cs) :
    munch '"' (cs ++ '"' :: rest) = some (.string (String.ofList cs), rest) := by
  have hcs : ∀ d ∈ cs, decide (d ≠ '"') = true := by
    intro d hd
    have hq : d ≠ '"' := fun hq => h (hq ▸ hd)
    simpa using hq
  have hr : ∀ d ∈ ('"' :: rest).head?, decide (d ≠ '"') = false := by simp
  rw [munch, if_neg (by simp), if_pos rfl, takeWhile_append_eq hcs hr, dropWhile_append_eq hcs hr]

theorem munch_number (hc : c.isDigit = true) (hcs : ∀ d ∈ cs, d.isDigit = true)
    (hr : ∀ d ∈ rest.head?, d.isDigit = false) :
    munch c (cs ++ rest) = some (.number (String.ofList (c :: cs)), rest) := by
  have hq : c ≠ '"' := by
    rintro rfl
    simp at hc
  rw [munch, if_neg (by simp [isLetter_eq_false_of_isDigit hc]), if_neg hq, if_pos hc,
    takeWhile_append_eq hcs hr, dropWhile_append_eq hcs hr]

/-- Whatever the token, it is taken whole when its lexeme stands first. -/
theorem munch_of_shaped (h : k.Shaped) (hk : k.lexeme.toList ++ rest = c :: cs)
    (hr : ∀ d ∈ rest.head?, k.absorbs d = false) : munch c cs = some (k, rest) := by
  cases k with
  | ident name =>
    obtain ⟨d, ds, hn, hl, hds⟩ := h.1.exists_cons
    simp only [Kind.lexeme, hn, List.cons_append, List.cons.injEq] at hk
    obtain ⟨rfl, rfl⟩ := hk
    rw [munch_word hl hds hr, ← hn, Kind.ofWord_of_ofText? h.2]
  | string text =>
    have hk' : '"' :: (text.toList ++ '"' :: rest) = c :: cs := by simpa [Kind.lexeme] using hk
    obtain ⟨rfl, rfl⟩ := List.cons.inj hk'
    rw [munch_string h, String.ofList_toList]
  | number digits =>
    cases hd : digits.toList with
    | nil => exact absurd (String.toList_eq_nil_iff.1 hd) h.1
    | cons d ds =>
      have hdigit : ∀ x ∈ d :: ds, x.isDigit = true := hd ▸ h.2
      simp only [Kind.lexeme, hd, List.cons_append, List.cons.injEq] at hk
      obtain ⟨rfl, rfl⟩ := hk
      rw [munch_number (hdigit d (by simp)) (fun x hx => hdigit x (by simp [hx])) hr, ← hd,
        String.ofList_toList]
  | keyword w =>
    obtain ⟨d, ds, hn, hl, hds⟩ := (Kind.isWord_text w).exists_cons
    simp only [Kind.lexeme, hn, List.cons_append, List.cons.injEq] at hk
    obtain ⟨rfl, rfl⟩ := hk
    rw [munch_word hl hds hr, ← hn, Kind.ofWord_text]
  | symbol d =>
    obtain ⟨-, hl, hd, hq⟩ := h
    simp only [Kind.lexeme, String.toList_singleton] at hk
    obtain ⟨rfl, rfl⟩ := List.cons.inj hk
    simp [munch, hl, hd, hq]
  | eof => exact absurd h id

theorem absorbs_ofWord (word : List Char) (d : Char) :
    (Kind.ofWord word).absorbs d = isWordChar d := by
  unfold Kind.ofWord
  split <;> rfl

theorem shaped_ofWord {word : List Char} (h : Kind.IsWord word) : (Kind.ofWord word).Shaped := by
  unfold Kind.ofWord
  split
  · trivial
  · exact ⟨by simpa using h, ‹_›⟩

theorem shaped_of_munch (hc : isBlank c = false) (h : munch c cs = some (k, rest)) : k.Shaped := by
  unfold munch at h
  split at h
  · rename_i hl
    cases h
    exact shaped_ofWord ⟨hl, fun d hd => List.mem_takeWhile_imp hd⟩
  split at h
  · split at h
    · cases h
    · cases h
      intro hq
      rw [String.toList_ofList] at hq
      simpa using List.mem_takeWhile_imp hq
  split at h
  · rename_i hd
    cases h
    refine ⟨by simp, ?_⟩
    simpa [hd] using fun x hx => List.mem_takeWhile_imp hx
  · rename_i hl hq hd
    cases h
    exact ⟨by simp [hc], hl, hd, hq⟩

theorem absorbs_of_munch (h : munch c cs = some (k, rest)) {d : Char} (hd : d ∈ rest.head?) :
    k.absorbs d = false := by
  unfold munch at h
  split at h
  · cases h
    rw [absorbs_ofWord]
    exact of_mem_head?_dropWhile hd
  split at h
  · split at h <;> cases h
    rfl
  split at h
  · cases h
    exact of_mem_head?_dropWhile hd
  · cases h
    rfl

theorem munch_eq_some_iff (hc : isBlank c = false) : munch c cs = some (k, rest) ↔
    k.Shaped ∧ k.lexeme.toList ++ rest = c :: cs ∧ ∀ d ∈ rest.head?, k.absorbs d = false :=
  ⟨fun h => ⟨shaped_of_munch hc h, munch_append h, fun _ hd => absorbs_of_munch h hd⟩,
    fun ⟨hs, hk, hr⟩ => munch_of_shaped hs hk hr⟩

end Token

end Shellwright
