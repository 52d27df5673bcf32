import Shellwright.Proofs.Token.Munch
import Shellwright.Shell.Word

/-!
# How the shell reads names

A word of letters and digits is a name for the shell exactly if all characters of it are ASCII.
Where such a word stands before an equals sign, as the variable of a loop or behind a dollar sign,
the shell takes the whole of it as a name exactly if it is one. Otherwise it takes a part of it, or
nothing.

## Main definitions

* `Word.ofChars`: the word that characters make which have no special meaning.

## Main statements

* `isName_iff_ascii`: the words that are names.
* `Word.isAssignment_append`, `Word.filter_plain?_ofChars`: names that get values.
* `Reader.run_dollar_iff`: names whose values are wanted.
-/
namespace Shellwright

open Text (isLetter isWordChar)
open Token (Kind)

/-! ## Words that are names -/

theorem Text.letterSpans_ascii : ∀ s ∈ letterSpans, s.first < 0x80 →
    s.first = 0x41 ∧ s.last = 0x5A ∨ s.first = 0x61 ∧ s.last = 0x7A := by
  decide +kernel

/-- The letters that are ASCII are those from A to Z, large and small. -/
theorem Text.isAlpha_iff_ascii {c : Char} (h : isLetter c = true) :
    c.isAlpha = true ↔ c.toNat < 0x80 := by
  have hupper : c.isUpper = true ↔ 0x41 ≤ c.toNat ∧ c.toNat ≤ 0x5A := decide_eq_true_iff
  have hlower : c.isLower = true ↔ 0x61 ≤ c.toNat ∧ c.toNat ≤ 0x7A :=
    Bool.and_eq_true_iff.trans (and_congr decide_eq_true_iff decide_eq_true_iff)
  have halpha : c.isAlpha = true ↔ c.isUpper = true ∨ c.isLower = true := Bool.or_eq_true_iff
  rw [halpha, hupper, hlower]
  constructor
  · omega
  · intro hc
    obtain ⟨s, hs, hfirst, hlast⟩ := (isLetter_iff c).1 h
    have := letterSpans_ascii s hs (by omega)
    omega

namespace Shell

variable {c : Char} {cs rest : List Char}

theorem isNameStart_iff_ascii (h : isLetter c = true) : isNameStart c = true ↔ c.toNat < 0x80 := by
  have hline : c ≠ '_' := by
    rintro rfl
    exact absurd h (by decide +kernel)
  simpa [isNameStart, hline] using Text.isAlpha_iff_ascii h

theorem isNameChar_iff_ascii (h : isWordChar c = true) : isNameChar c = true ↔ c.toNat < 0x80 := by
  by_cases hdigit : c.isDigit = true
  · have := Text.toNat_of_isDigit hdigit
    simp only [isNameChar, Char.isAlphanum, hdigit, Bool.or_true, Bool.true_or, true_iff]
    omega
  · have hletter : isLetter c = true := by simpa [isWordChar, hdigit] using h
    simpa [isNameChar, isNameStart, Char.isAlphanum, hdigit] using isNameStart_iff_ascii hletter

theorem isNameChar_of_isNameStart (h : isNameStart c = true) : isNameChar c = true := by
  simp only [isNameStart, isNameChar, Char.isAlphanum, Bool.or_eq_true] at h ⊢
  exact h.imp_left .inl

/-- A word is a name for the shell exactly if it is made of ASCII characters. -/
theorem isName_iff_ascii (h : Kind.IsWord cs) :
    isName cs = true ↔ ∀ c ∈ cs, c.toNat < 0x80 := by
  obtain ⟨c, ds, rfl, hc, hds⟩ := h.exists_cons
  have htail : (∀ d ∈ ds, isNameChar d = true) ↔ ∀ d ∈ ds, d.toNat < 0x80 :=
    forall₂_congr fun d hd => isNameChar_iff_ascii (hds d hd)
  simp [isName, isNameStart_iff_ascii hc, htail]

/-! ## Names that get values -/

namespace Word

/-- The word of some characters, none of which is quoted or special. -/
def ofChars (cs : List Char) : Word := cs.map (.char · false)

theorem plainPart_ofChars_append (cs : List Char) (w : Word) :
    plainPart (ofChars cs ++ w) = cs ++ w.plainPart := by
  induction cs with
  | nil => rfl
  | cons c cs ih => exact congrArg (c :: ·) ih

theorem plain?_ofChars (cs : List Char) : (ofChars cs).plain? = some cs := by
  induction cs with
  | nil => rfl
  | cons c cs ih =>
    simp only [plain?, ofChars] at ih ⊢
    simp [ih]

/-- What stands before the first equals sign decides, whatever follows it. -/
theorem isAssignment_append (h : '=' ∉ cs) (w : Word) :
    (ofChars (cs ++ ['=']) ++ w).isAssignment = isName cs := by
  have htake : (cs ++ '=' :: w.plainPart).takeWhile (· ≠ '=') = cs :=
    Text.takeWhile_append_eq (by simpa using fun c hc => ne_of_mem_of_not_mem hc h) (by simp)
  rw [isAssignment, plainPart_ofChars_append, List.append_assoc, List.singleton_append, htake]
  simp

theorem filter_plain?_ofChars :
    (ofChars cs).plain?.filter isName = some cs ↔ isName cs = true := by
  rw [plain?_ofChars, Option.filter_some]
  split <;> simp_all

end Word

/-! ## Names whose values are wanted -/

namespace Reader

variable {s : Source}

theorem run_bind {α β : Type} {x : Reader α} {f : α → Reader β} {t : Source} {a : α}
    (h : x.run s = .ok a t) : (x >>= f).run s = (f a).run t := by
  simp only [EStateM.run] at h
  simp [EStateM.run, bind, EStateM.bind, h]

theorem run_get (s : Source) : (get : Reader Source).run s = .ok s s := rfl

theorem run_modify (f : Source → Source) : (modify f : Reader Unit).run s = .ok () (f s) := rfl

theorem run_next (cs : List Char) :
    next.run { s with rest := cs } = .ok cs.head? { s with rest := cs.tail } := by
  cases cs <;> rfl

theorem run_nextJoined (h : cs.head? ≠ some '\\') :
    nextJoined.run { s with rest := cs } = .ok cs.head? { s with rest := cs.tail } := by
  have hjoin : dropJoins cs 0 = (cs, 0) := by
    unfold dropJoins
    split
    · simp at h
    · rfl
  rw [nextJoined, run_bind (run_modify _)]
  simp only [hjoin]
  exact run_next cs

theorem run_putBack (cs : List Char) :
    (putBack cs.head?).run { s with rest := cs.tail } = .ok () { s with rest := cs } := by
  cases cs <;> rfl

/-- A name is taken up to the first character that does not belong to it. -/
theorem run_takeName {p : Char → Bool} (hcs : ∀ e ∈ cs, p e = true ∧ e ≠ '\\')
    (hrest : ∀ e ∈ rest.head?, p e = false ∧ e ≠ '\\') {fuel : Nat} (hfuel : cs.length ≤ fuel)
    (name : List Char) :
    (takeName p fuel (cs ++ rest).head? name).run { s with rest := (cs ++ rest).tail } =
      .ok (name.reverse ++ cs, rest.head?) { s with rest := rest.tail } := by
  induction cs generalizing fuel name with
  | nil =>
    rw [List.nil_append, List.append_nil]
    cases fuel with
    | zero => rfl
    | succ fuel =>
      cases rest with
      | nil => rfl
      | cons e rest =>
        rw [List.head?_cons, takeName, if_neg (by simp [(hrest e rfl).1])]
        rfl
  | cons e cs ih =>
    obtain ⟨fuel, rfl⟩ : ∃ n, fuel = n + 1 := Nat.exists_eq_add_one.2 (by simp at hfuel; omega)
    have htail : ∀ e ∈ cs, p e = true ∧ e ≠ '\\' := fun e he => hcs e (List.mem_cons_of_mem _ he)
    have hnext : (cs ++ rest).head? ≠ some '\\' := by
      cases cs with
      | nil => exact fun h => (hrest _ h).2 rfl
      | cons e cs => simpa using (htail e List.mem_cons_self).2
    have hlength : cs.length ≤ fuel := by simpa using hfuel
    have hgo := ih htail hlength (e :: name)
    rw [List.cons_append, List.head?_cons, List.tail_cons, takeName,
      if_pos (hcs e List.mem_cons_self).1, run_bind (run_nextJoined hnext), hgo]
    simp

variable (s) (list : Reader Command) (d : Draft)

/-- Behind a dollar sign, a name is taken as far as it goes. -/
theorem run_dollar_of_isName (h : isName cs = true)
    (hrest : ∀ e ∈ rest.head?, isNameChar e = false ∧ e ≠ '\\') :
    (dollar list .command d).run { s with rest := cs ++ rest } =
      .ok (d.add (.parameter (String.ofList cs) .value false [])) { s with rest := rest } := by
  obtain _ | ⟨x, xs⟩ := cs
  · cases h
  obtain ⟨hx, hxs⟩ : isNameStart x = true ∧ ∀ e ∈ xs, isNameChar e = true := by
    simpa [isName] using h
  have hall : ∀ e ∈ x :: xs, isNameChar e = true := by
    simpa using ⟨isNameChar_of_isNameStart hx, hxs⟩
  have hne {c e : Char} (hc : c ∈ x :: xs) (he : isNameChar e = false) : c ≠ e := by
    rintro rfl
    simp [hall c hc] at he
  have hparen : x ≠ '(' := hne List.mem_cons_self (by decide)
  have hbrace : x ≠ '\x7b' := hne List.mem_cons_self (by decide)
  have hnext : (x :: xs ++ rest).head? ≠ some '\\' := by
    simpa using hne (e := '\\') List.mem_cons_self (by decide)
  have hlength : (x :: xs).length ≤ (xs ++ rest).length + 1 := by simp
  have hname := run_takeName (s := s) (fun e he => ⟨hall e he, hne he (by decide)⟩) hrest hlength []
  rw [dollar, run_bind (run_nextJoined hnext)]
  simp only [List.cons_append, List.head?_cons, List.tail_cons, if_neg hparen, if_neg hbrace,
    if_pos hx, if_neg (show ¬ Purpose.command.isMark = true by decide)]
  rw [run_bind (run_get _)]
  exact (run_bind hname).trans (run_bind (run_putBack rest))

/-- Behind a dollar sign, a character that means nothing there is left for the word. -/
theorem run_dollar_of_not {x : Char} (xs : List Char) (hstart : isNameStart x = false)
    (hspecial : isSpecial x = false) (hparen : x ≠ '(') (hbrace : x ≠ '\x7b') (hx : x ≠ '\\') :
    (dollar list .command d).run { s with rest := x :: xs } =
      .ok (d.addChar '$' false) { s with rest := x :: xs } := by
  rw [dollar, run_bind (run_nextJoined (by simpa using hx))]
  simp only [List.head?_cons, List.tail_cons, if_neg hparen, if_neg hbrace, hstart, hspecial,
    Bool.false_eq_true, if_false, if_neg (show ¬ Purpose.command.isMark = true by decide)]
  rfl

/-- Behind a dollar sign and before a character that does not go on with it, a word is taken whole
exactly if it is a name. -/
theorem run_dollar_iff (h : Kind.IsWord cs)
    (hrest : ∀ e ∈ rest.head?, isNameChar e = false ∧ e ≠ '\\') :
    (dollar list .command d).run { s with rest := cs ++ rest } =
      .ok (d.add (.parameter (String.ofList cs) .value false [])) { s with rest := rest } ↔
      isName cs = true := by
  refine ⟨fun hwhole => ?_, fun hname => run_dollar_of_isName s list d hname hrest⟩
  obtain ⟨x, xs, rfl, hx, hxs⟩ := h.exists_cons
  by_cases hstart : isNameStart x = true
  · -- what is taken is the name that the word begins with
    have hpart : isName (x :: xs.takeWhile isNameChar) = true := by
      simp [isName, hstart]
    have hstop : ∀ e ∈ (xs.dropWhile isNameChar ++ rest).head?,
        isNameChar e = false ∧ e ≠ '\\' := by
      intro e he
      cases hdrop : xs.dropWhile isNameChar with
      | nil => exact hrest e (by simpa [hdrop] using he)
      | cons f fs =>
        obtain rfl : f = e := by simpa [hdrop] using he
        have hword : isWordChar f = true :=
          hxs f ((List.dropWhile_sublist _).subset (hdrop ▸ List.mem_cons_self))
        refine ⟨Text.of_mem_head?_dropWhile (Option.mem_def.2 (congrArg List.head? hdrop)), ?_⟩
        rintro rfl
        exact absurd hword (by decide +kernel)
    have htaken := run_dollar_of_isName s list d hpart hstop
    rw [List.cons_append, ← List.append_assoc, List.takeWhile_append_dropWhile] at htaken
    rw [List.cons_append, htaken] at hwhole
    obtain ⟨hdraft, -⟩ := EStateM.Result.ok.inj hwhole
    have hname : String.ofList (xs.takeWhile isNameChar) = String.ofList xs := by
      simpa [Draft.add] using hdraft
    rwa [String.ofList_inj.1 hname] at hpart
  · have hascii : ¬ x.toNat < 0x80 := fun hlt => hstart ((isNameStart_iff_ascii hx).2 hlt)
    have hne (e : Char) (he : e.toNat < 0x80) : x ≠ e := by
      rintro rfl
      exact hascii he
    have hdigit : x.isDigit = false := by
      rw [← Bool.not_eq_true]
      intro hdigit
      have := Text.toNat_of_isDigit hdigit
      omega
    have hspecial : isSpecial x = false := by simp +decide [isSpecial, hdigit, hne]
    have hleft := run_dollar_of_not s list d (xs ++ rest)
      (by simpa using hstart) hspecial (hne _ (by decide)) (hne _ (by decide)) (hne _ (by decide))
    rw [List.cons_append, hleft] at hwhole
    simp [Draft.add, Draft.addChar] at hwhole

end Reader

end Shell

end Shellwright
