import Mathlib.Algebra.Ring.Parity
import Shellwright.Compile
import Shellwright.Proofs.Position
import Shellwright.Proofs.Token.Quotes

/-!
# Strings that are never closed

Between two tokens an even number of quotes has been passed. A scan therefore fails exactly on a
text with an odd number of them, and the string that is left open begins at the last one.

## Main statements

* `Token.exists_of_scan_eq_error`: a scan that fails does so at the last quote of its text.
* `Token.tokenize_error_iff_odd`: which sources fail, and where.
-/
namespace Shellwright.Token

open Text

/-- An open string is the only thing a scan fails on, and no quote follows the one it begins
with. -/
theorem exists_of_scan_eq_error {p : Position} {cs : List Char} {e : LexError}
    (h : scan p cs = .error e) :
    ∃ before rest, cs = before ++ '"' :: rest ∧ '"' ∉ rest ∧
      e = .unterminatedString (p.after before) := by
  fun_induction scan p cs with
  | case1 p => cases h
  | case2 p c cs hc ih =>
    obtain ⟨before, rest, rfl, hrest, rfl⟩ := ih h
    exact ⟨c :: before, rest, rfl, hrest, rfl⟩
  | case3 p c cs hc hm =>
    cases h
    obtain ⟨rfl, hrest⟩ := munch_eq_none_iff.1 hm
    exact ⟨[], cs, rfl, hrest, rfl⟩
  | case4 p c cs hc k mid hm ih =>
    obtain ⟨before, rest, rfl, hrest, rfl⟩ := ih (Except.map_eq_error.1 h)
    refine ⟨k.lexeme.toList ++ before, rest, ?_, hrest, ?_⟩
    · rw [List.append_assoc, munch_append hm]
    · rw [Position.after_append]

/-- A text is parted in only one way at its last quote. -/
theorem eq_of_append_quote {cs ds xs ys : List Char} (hxs : '"' ∉ xs) (hys : '"' ∉ ys)
    (h : cs ++ '"' :: xs = ds ++ '"' :: ys) : cs = ds := by
  have hrev := congrArg List.reverse h
  simp only [List.reverse_append, List.reverse_cons, List.append_assoc] at hrev
  have hcut := append_cons_inj (by simpa using hxs) (by simpa using hys) hrev
  exact List.reverse_inj.1 hcut.2

theorem exists_tokenize_eq_error_iff (source : String) :
    (∃ e, tokenize source = .error e) ↔ Odd (source.toList.count '"') := by
  have hok : (∃ ts, scan .start (body source) = .ok ts) ↔ _ := exists_scan_eq_ok_iff
  rw [count_body (by decide)] at hok
  rw [← Nat.not_even_iff_odd, ← hok, tokenize]
  cases scan .start (body source) <;> simp

/-- A source fails to be cut into tokens exactly if it has an odd number of quotes. Its error, which
is also that of the compilation, is then an open string at the last quote of the text. -/
theorem tokenize_error_iff_odd (source : String) :
    ((∃ e, tokenize source = .error e) ↔ Odd (source.toList.count '"')) ∧
      ∀ e, (compile source = .error (.lex e) ↔ tokenize source = .error e) ∧
        (tokenize source = .error e ↔ Odd (source.toList.count '"') ∧
          ∃ before rest, body source = before ++ '"' :: rest ∧ '"' ∉ rest ∧
            e = .unterminatedString (.behind before)) := by
  refine ⟨exists_tokenize_eq_error_iff source, fun e => ⟨?_, ?_, ?_⟩⟩
  · unfold compile
    cases tokenize source with
    | error d => simp [bind, Except.bind]
    | ok ts => simp
  · intro h
    obtain ⟨before, rest, hbody, hrest, rfl⟩ := exists_of_scan_eq_error h
    exact ⟨(exists_tokenize_eq_error_iff source).1 ⟨_, h⟩, before, rest, hbody, hrest,
      by rw [Position.start_after]⟩
  · rintro ⟨hodd, before, rest, hbody, hrest, rfl⟩
    obtain ⟨d, hd⟩ := (exists_tokenize_eq_error_iff source).2 hodd
    obtain ⟨before', rest', hbody', hrest', rfl⟩ := exists_of_scan_eq_error hd
    obtain rfl := eq_of_append_quote hrest hrest' (hbody.symm.trans hbody')
    rw [hd, Position.start_after]

end Shellwright.Token
