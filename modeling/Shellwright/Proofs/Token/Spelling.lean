import Mathlib.Data.List.Chain
import Shellwright.Proofs.Outcome
import Shellwright.Proofs.Token.Munch
import Shellwright.Token.Stream

/-!
# Scanning undoes spelling

A text is cut into the kinds that it spells, and it spells at most one sequence of kinds.

## Main definitions

* `Token.Kind.Spaced`: a kind that a text can hold, with the blanks behind its lexeme.

## Main statements

* `Token.scan_kinds_iff_spells`: scanning succeeds on the texts that spell something, with what they
  spell.
* `Token.body_eq_iff`: what is scanned of a source.
* `Token.tokenize_kinds_iff`: what a source is cut into, with every lexeme and every run of blanks
  written out.
-/
namespace Shellwright.Token

open Text

variable {p : Position} {c : Char} {cs rest : List Char} {k : Kind} {ks : List Kind}

/-! ## One step of a scan -/

theorem scan_nil : scan p [] = .ok [⟨.eof, p⟩] := by rw [scan]

theorem scan_cons_of_isBlank (h : isBlank c = true) : scan p (c :: cs) = scan (p.advance c) cs := by
  rw [scan, if_pos h]

theorem scan_cons_of_munch (hc : isBlank c = false) (h : munch c cs = some (k, rest)) :
    scan p (c :: cs) = (scan (p.after k.lexeme.toList) rest).map (⟨k, p⟩ :: ·) := by
  rw [scan, if_neg (by simp [hc])]
  split
  · simp_all
  · rename_i h'
    rw [h] at h'
    cases h'
    rfl

theorem scan_cons_of_munch_eq_none (hc : isBlank c = false) (h : munch c cs = none) :
    scan p (c :: cs) = .error (.unterminatedString p) := by
  rw [scan, if_neg (by simp [hc])]
  split
  · rfl
  · simp_all

theorem scan_blanks {blanks : List Char} (h : ∀ c ∈ blanks, isBlank c = true) :
    scan p (blanks ++ cs) = scan (p.after blanks) cs := by
  induction blanks generalizing p with
  | nil => rfl
  | cons c blanks ih =>
    rw [List.cons_append, scan_cons_of_isBlank (h c (by simp)), Position.after_cons]
    exact ih fun d hd => h d (by simp [hd])

/-- A lexeme that stands first is taken as one token. -/
theorem scan_lexeme (h : k.Shaped) (hr : ∀ d ∈ rest.head?, k.absorbs d = false) :
    scan p (k.lexeme.toList ++ rest) =
      (scan (p.after k.lexeme.toList) rest).map (⟨k, p⟩ :: ·) := by
  obtain ⟨c, cs, hk, hc⟩ := Kind.exists_lexeme_cons h
  have hm : munch c (cs ++ rest) = some (k, rest) := munch_of_shaped h (by simp [hk]) hr
  simpa [hk] using scan_cons_of_munch (p := p) hc hm

/-! ## Spellings -/

theorem Spells.cons_blank (hc : isBlank c = true) (h : Spells cs ks) : Spells (c :: cs) ks := by
  cases h with
  | nil hb => exact .nil (by simpa [hc] using hb)
  | @cons blanks rest k ks hb hs ha ht =>
    have hblanks : ∀ d ∈ c :: blanks, isBlank d = true := by simpa [hc] using hb
    simpa using Spells.cons hblanks hs ha ht

theorem Spells.cons_lexeme (h : Spells rest ks) (hs : k.Shaped)
    (hr : ∀ d ∈ rest.head?, k.absorbs d = false) : Spells (k.lexeme.toList ++ rest) (k :: ks) := by
  have hnone : ∀ d ∈ ([] : List Char), isBlank d = true := by simp
  simpa using Spells.cons hnone hs hr h

theorem Spells.of_scan {ts : List Token} (h : scan p cs = .ok ts) :
    ∃ ks, ts.map (·.kind) = ks ++ [.eof] ∧ Spells cs ks := by
  fun_induction scan p cs generalizing ts with
  | case1 p =>
    cases h
    exact ⟨[], rfl, .nil (by simp)⟩
  | case2 p c cs hc ih =>
    obtain ⟨ks, hk, hs⟩ := ih h
    exact ⟨ks, hk, hs.cons_blank hc⟩
  | case3 => cases h
  | case4 p c cs hc k rest hm ih =>
    obtain ⟨us, hu, rfl⟩ := Except.map_eq_ok.1 h
    obtain ⟨ks, hk, hs⟩ := ih hu
    obtain ⟨hshaped, happ, hr⟩ := (munch_eq_some_iff (by simpa using hc)).1 hm
    exact ⟨k :: ks, by simp [hk], happ ▸ hs.cons_lexeme hshaped hr⟩

theorem Spells.scan (h : Spells cs ks) (p : Position) :
    ∃ ts, scan p cs = .ok ts ∧ ts.map (·.kind) = ks ++ [.eof] := by
  induction h generalizing p with
  | @nil blanks hb =>
    refine ⟨[⟨.eof, p.after blanks⟩], ?_, rfl⟩
    calc Token.scan p blanks = Token.scan p (blanks ++ []) := by rw [List.append_nil]
      _ = Token.scan (p.after blanks) [] := scan_blanks hb
      _ = .ok [⟨.eof, p.after blanks⟩] := scan_nil
  | @cons blanks rest k ks hb hs ha _ ih =>
    obtain ⟨ts, ht, hk⟩ := ih ((p.after blanks).after k.lexeme.toList)
    refine ⟨⟨k, p.after blanks⟩ :: ts, ?_, by simp [hk]⟩
    rw [List.append_assoc, scan_blanks hb, scan_lexeme hs ha, ht]
    rfl

/-- What is spelled first begins at the first character that is not blank. -/
theorem Spells.head?_dropWhile_isBlank (h : Spells cs ks) :
    (cs.dropWhile isBlank).head? = ks.head?.bind (·.lexeme.toList.head?) := by
  cases h with
  | nil hb =>
    rw [List.dropWhile_eq_nil_iff.2 hb]
    rfl
  | @cons blanks rest k ks hb hs _ _ =>
    obtain ⟨c, ds, hk, hc⟩ := Kind.exists_lexeme_cons hs
    rw [List.append_assoc, List.dropWhile_append_of_pos hb]
    simp [hk, hc]

theorem scan_kinds_iff_spells : (∃ ts, scan p cs = .ok ts ∧ ts.map (·.kind) = ks ++ [.eof]) ↔
    Spells cs ks := by
  constructor
  · rintro ⟨ts, ht, hk⟩
    obtain ⟨ls, hl, hs⟩ := Spells.of_scan ht
    rw [hk] at hl
    rwa [List.append_cancel_right hl]
  · exact fun h => h.scan p

theorem Spells.shaped (h : Spells cs ks) : ∀ k ∈ ks, k.Shaped := by
  induction h with
  | nil => simp
  | cons _ hs _ _ ih => simpa using ⟨hs, ih⟩

/-- Nothing that a text spells is the end of the input, so all of it is read. -/
theorem Spells.kinds_ofList {ts : List Token} (h : Spells cs ks)
    (hk : ts.map (·.kind) = ks ++ [.eof]) : (Stream.ofList ts).kinds = ks := by
  have hne : ∀ k ∈ ks, decide (k ≠ .eof) = true := by
    intro k hmem
    cases k with
    | eof => exact absurd (h.shaped _ hmem) id
    | _ => rfl
  rw [Stream.kinds_ofList, hk]
  exact takeWhile_append_eq hne (by simp)

theorem spells_kinds_of_scan {ts : List Token} (h : scan p cs = .ok ts) :
    Spells cs (Stream.ofList ts).kinds := by
  obtain ⟨ks, hk, hs⟩ := Spells.of_scan h
  rwa [hs.kinds_ofList hk]

/-! ## Texts written out -/

/-- A kind that a text can hold, and the blanks behind its lexeme. -/
structure Kind.Spaced where
  kind : Kind
  blanks : List Char
  shaped : kind.Shaped
  blank : ∀ c ∈ blanks, isBlank c = true

namespace Kind.Spaced

def text (x : Spaced) : List Char := x.kind.lexeme.toList ++ x.blanks

/-- With no blanks between, a lexeme would not go on into the next one. -/
def Before (x y : Spaced) : Prop :=
  x.blanks = [] → ∀ c ∈ y.kind.lexeme.toList.head?, x.kind.absorbs c = false

/-- A text that begins with a lexeme begins with its first character. -/
theorem head?_text_append (x : Spaced) (cs : List Char) :
    (x.text ++ cs).head? = x.kind.lexeme.toList.head? := by
  obtain ⟨c, ds, hc, -⟩ := exists_lexeme_cons x.shaped
  simp [text, hc]

end Kind.Spaced

theorem Spells.exists_spaced (h : Spells cs ks) :
    ∃ (lead : List Char) (items : List Kind.Spaced), (∀ c ∈ lead, isBlank c = true) ∧
      items.map (·.kind) = ks ∧ items.IsChain Kind.Spaced.Before ∧
        cs = lead ++ items.flatMap Kind.Spaced.text := by
  induction h with
  | @nil blanks hb => exact ⟨blanks, [], hb, rfl, .nil, by simp⟩
  | @cons blanks rest k ks hb hs ha _ ih =>
    obtain ⟨lead, items, hlead, rfl, hchain, rfl⟩ := ih
    refine ⟨blanks, ⟨k, lead, hs, hlead⟩ :: items, hb, rfl, ?_, by simp [Kind.Spaced.text]⟩
    cases items with
    | nil => exact .singleton _
    | cons y items =>
      refine .cons_cons ?_ hchain
      rintro rfl c hc
      refine ha c ?_
      rwa [List.nil_append, List.flatMap_cons, Kind.Spaced.head?_text_append]

/-- A lexeme does not go on into what stands behind it. -/
theorem Kind.Spaced.absorbs_eq_false {x : Kind.Spaced} {items : List Kind.Spaced}
    (h : (x :: items).IsChain Kind.Spaced.Before) :
    ∀ c ∈ (x.blanks ++ items.flatMap Kind.Spaced.text).head?, x.kind.absorbs c = false := by
  intro c hc
  cases hb : x.blanks with
  | cons d blanks =>
    -- blanks never go on with a token
    rw [hb] at hc
    cases hc
    exact Kind.absorbs_eq_false_of_isBlank (x.blank c (by simp [hb]))
  | nil =>
    cases items with
    | nil => simp [hb] at hc
    | cons y items =>
      rw [hb, List.nil_append, List.flatMap_cons, Kind.Spaced.head?_text_append] at hc
      exact h.rel hb c hc

theorem spells_spaced {lead : List Char} {items : List Kind.Spaced}
    (hlead : ∀ c ∈ lead, isBlank c = true) (hchain : items.IsChain Kind.Spaced.Before) :
    Spells (lead ++ items.flatMap Kind.Spaced.text) (items.map (·.kind)) := by
  induction items generalizing lead with
  | nil => exact .nil (by simpa using hlead)
  | cons x items ih =>
    have htail := ih x.blank hchain.tail
    have hnext := Kind.Spaced.absorbs_eq_false hchain
    simpa [Kind.Spaced.text] using Spells.cons hlead x.shaped hnext htail

/-! ## Sources -/

/-- The text that is scanned is the source, less one byte order mark if there is any at its
front. -/
theorem body_eq_iff {source : String} : body source = cs ↔
    source.toList = '\uFEFF' :: cs ∨ source.toList.head? ≠ some '\uFEFF' ∧ source.toList = cs := by
  unfold body
  split
  · rename_i heq
    simp [heq]
  · rename_i hne
    have hhead : source.toList.head? ≠ some '\uFEFF' := by
      intro h
      obtain ⟨tail, htail⟩ := List.head?_eq_some_iff.1 h
      exact hne tail htail
    have hmark : source.toList ≠ '\uFEFF' :: cs := hne cs
    simp [hhead, hmark]

-- the second of two marks is a character like any other
example : body "\uFEFFx" = ['x'] ∧ body "\uFEFF\uFEFFx" = ['\uFEFF', 'x'] := by decide

/-- A source gives the kinds `ks` exactly if its text, less a byte order mark, is their lexemes with
blanks around them, each kind one that a text can hold, and blanks standing wherever a lexeme would
otherwise go on into the next one. -/
theorem tokenize_kinds_iff (source : String) (ks : List Kind) :
    (∃ ts, tokenize source = .ok ts ∧ ts.map (·.kind) = ks ++ [.eof]) ↔
      ∃ (lead : List Char) (items : List Kind.Spaced), (∀ c ∈ lead, isBlank c = true) ∧
        items.map (·.kind) = ks ∧ items.IsChain Kind.Spaced.Before ∧
          body source = lead ++ items.flatMap Kind.Spaced.text := by
  rw [tokenize, scan_kinds_iff_spells]
  constructor
  · exact fun h => h.exists_spaced
  · rintro ⟨lead, items, hlead, rfl, hchain, hbody⟩
    rw [hbody]
    exact spells_spaced hlead hchain

end Shellwright.Token
