import Shellwright.Parser
import Shellwright.Proofs.Outcome

/-!
# What parsers accept

A parser undoes a way of writing: it gives `a` exactly on inputs that begin with the tokens of `a`
and go on with a token that cannot belong to `a` any more. The repetitions keep this form.

## Main definitions

* `Parser.Reads`: the values a parser gives, how they are written, and what may follow them.

## Main statements

* `Reads.commaList`, `Reads.untilClose`: repetition of a parser that reads something.
-/
namespace Shellwright.Parser

open Token (Kind)

variable {α β : Type} {ks rest : List Kind}

/-! ## Single tokens -/

@[simp] theorem run_symbol_eq_ok {c : Char} {u : Unit} :
    (symbol c).run ks = .ok (u, rest) ↔ ks = .symbol c :: rest := by
  cases ks with
  | nil => simp [symbol, token]
  | cons k ks => by_cases h : k = .symbol c <;> simp [symbol, h]

@[simp] theorem run_keyword_eq_ok {w : Keyword} {u : Unit} :
    (keyword w).run ks = .ok (u, rest) ↔ ks = .keyword w :: rest := by
  cases ks with
  | nil => simp [keyword, token]
  | cons k ks => by_cases h : k = .keyword w <;> simp [keyword, h]

@[simp] theorem run_identifier_eq_ok {name : String} :
    identifier.run ks = .ok (name, rest) ↔ ks = .ident name :: rest := by
  cases ks with
  | nil => simp [identifier, token]
  | cons k ks => cases k <;> simp [identifier]

@[simp] theorem run_skip_eq_ok {a b : α} :
    (skip a).run ks = .ok (b, rest) ↔ a = b ∧ ∃ k, ks = k :: rest := by
  cases ks with
  | nil => simp [skip]
  | cons k ks => simp

/-! ## Sequencing -/

theorem run_bind_eq_ok {p : Parser α} {q : α → Parser β} {b : β} :
    (p >>= q).run ks = .ok (b, rest) ↔
      ∃ a mid, p.run ks = .ok (a, mid) ∧ (q a).run mid = .ok (b, rest) := by
  simp

theorem run_map_eq_ok {p : Parser α} {f : α → β} {b : β} :
    (f <$> p).run ks = .ok (b, rest) ↔ ∃ a, p.run ks = .ok (a, rest) ∧ f a = b := by
  simp

theorem run_seqRight_eq_ok {p : Parser α} {q : Parser β} {b : β} :
    (p *> q).run ks = .ok (b, rest) ↔
      ∃ a mid, p.run ks = .ok (a, mid) ∧ q.run mid = .ok (b, rest) := by
  simp

theorem run_seqLeft_eq_ok {p : Parser α} {q : Parser β} {a : α} :
    (p <* q).run ks = .ok (a, rest) ↔
      ∃ mid b, p.run ks = .ok (a, mid) ∧ q.run mid = .ok (b, rest) := by
  rw [run_seqLeft]
  constructor
  · intro h
    obtain ⟨⟨a', mid⟩, hp, h⟩ := Except.bind_eq_ok.1 h
    obtain ⟨⟨b, rest'⟩, hq, h⟩ := Except.map_eq_ok.1 h
    cases h
    exact ⟨mid, b, hp, hq⟩
  · rintro ⟨mid, b, hp, hq⟩
    exact Except.bind_eq_ok.2 ⟨(a, mid), hp, Except.map_eq_ok.2 ⟨(b, rest), hq, rfl⟩⟩

/-! ## Lookahead and refusal -/

@[simp] theorem run_thenIf_eq_ok {p : Parser α} {k : Kind} {q : α → Parser α} {b : α} :
    (p.thenIf k q).run ks = .ok (b, rest) ↔ ∃ a mid, p.run ks = .ok (a, mid) ∧
      if Token.next mid = k then (q a).run mid = .ok (b, rest) else a = b ∧ mid = rest := by
  cases h : p.run ks with
  | error e => simp [thenIf, h]
  | ok r =>
    obtain ⟨a, mid⟩ := r
    by_cases hk : Token.next mid = k <;> simp [thenIf, h, hk, and_assoc]

@[simp] theorem run_require_eq_ok {p : Parser α} {f : α → Except SyntaxError.Cause β} {b : β} :
    (p.require f).run ks = .ok (b, rest) ↔ ∃ a, p.run ks = .ok (a, rest) ∧ f a = .ok b := by
  cases h : p.run ks with
  | error e => simp [require, h]
  | ok r =>
    obtain ⟨a, mid⟩ := r
    cases hf : f a with
    | error cause => simp [require, h, hf]
    | ok b' => grind [require]

/-! ## Reading -/

/-- `p` gives exactly the values that are `good`, each where its `tokens` stand before a token at
which it `ends`. -/
def Reads (p : Parser α) (good : α → Prop) (tokens : α → List Kind)
    (ends : α → Kind → Prop) : Prop :=
  ∀ ks a rest, p.run ks = .ok (a, rest) ↔
    good a ∧ ks = tokens a ++ rest ∧ ends a (Token.next rest)

variable {p : Parser α} {good : α → Prop} {tokens : α → List Kind} {ends : α → Kind → Prop}

theorem Reads.congr {good' : α → Prop} {ends' : α → Kind → Prop} (h : p.Reads good tokens ends)
    (hg : ∀ a, good a ↔ good' a) (he : ∀ a k, good a → (ends a k ↔ ends' a k)) :
    p.Reads good' tokens ends' := by
  intro ks a rest
  rw [h, ← hg]
  constructor
  · rintro ⟨ha, hk, hr⟩
    exact ⟨ha, hk, (he a _ ha).1 hr⟩
  · rintro ⟨ha, hk, hr⟩
    exact ⟨ha, hk, (he a _ ha).2 hr⟩

theorem Reads.fail {cause : Kind → SyntaxError.Cause} (h : ∀ a, ¬ good a) :
    (fail cause : Parser α).Reads good tokens ends := by
  intro ks a rest
  simp [h a]

theorem runCommaList_single {a : α} (h : p.run ks = .ok (a, rest))
    (hr : Token.next rest ≠ .symbol ',') : runCommaList p ks = .ok ([a], rest) := by
  rw [runCommaList]
  split
  · simp_all
  · rename_i hp
    rw [hp] at h
    cases h
    exact absurd rfl hr
  · rename_i hp
    rw [hp] at h
    cases h
    rfl

theorem runCommaList_cons {a : α} {as : List α} {mid : List Kind}
    (h : p.run ks = .ok (a, .symbol ',' :: mid)) (hm : runCommaList p mid = .ok (as, rest)) :
    runCommaList p ks = .ok (a :: as, rest) := by
  rw [runCommaList]
  split
  · simp_all
  · rename_i hp
    rw [hp] at h
    cases h
    rw [hm]
  · rename_i hn hp
    rw [hp] at h
    cases h
    exact absurd rfl (hn mid)

theorem runUntilClose_cons {c : Char} {a : α} {as : List α} {mid : List Kind}
    (hk : Token.next ks ≠ .symbol c) (h : p.run ks = .ok (a, mid))
    (hm : runUntilClose c p mid = .ok (as, rest)) :
    runUntilClose c p ks = .ok (a :: as, rest) := by
  rw [runUntilClose, if_neg hk]
  split
  · simp_all
  · rename_i hp
    rw [hp] at h
    cases h
    rw [hm]

/-- A list ends where its last element does, but not before a comma. -/
theorem Reads.commaList (h : p.Reads good tokens ends) (comma : ∀ a, ends a (.symbol ',')) :
    p.commaList.Reads (fun as => as ≠ [] ∧ ∀ a ∈ as, good a)
      (fun as => [Kind.symbol ','].intercalate (as.map tokens))
      (fun as k => k ≠ .symbol ',' ∧ ∀ a ∈ as.getLast?, ends a k) := by
  intro ks as rest
  change runCommaList p ks = _ ↔ _
  constructor
  · intro hr
    fun_induction runCommaList p ks generalizing as rest with
    | case1 => cases hr
    | case2 => cases hr
    | case3 ks a mid hp bs rest' hm ih =>
      cases hr
      obtain ⟨hg, rfl, -⟩ := (h _ _ _).1 hp
      obtain ⟨⟨hn, hgs⟩, rfl, he⟩ := ih _ _ hm
      obtain ⟨b, bs, rfl⟩ := List.exists_cons_of_ne_nil hn
      refine ⟨⟨by simp, ?_⟩, by simp, he.1, by simpa using he.2⟩
      simpa using ⟨hg, by simpa using hgs⟩
    | case4 ks a rest' hn hp =>
      cases hr
      obtain ⟨hg, rfl, he⟩ := (h _ _ _).1 hp
      refine ⟨by simpa using hg, by simp, ?_, by simpa using he⟩
      intro hk
      cases rest' with
      | nil => cases hk
      | cons k rest => exact hn rest (by simpa [Token.next] using hk)
  · rintro ⟨⟨hn, hg⟩, rfl, hc, he⟩
    induction as with
    | nil => exact absurd rfl hn
    | cons a as ih =>
      cases as with
      | nil => exact runCommaList_single ((h _ _ _).2 (by simp_all)) hc
      | cons b bs =>
        have hm := ih (by simp) (fun x hx => hg x (List.mem_cons_of_mem _ hx)) (by simpa using he)
        refine runCommaList_cons ((h _ _ _).2 ⟨hg a (by simp), ?_, ?_⟩) hm
        · simp
        · exact comma a

/-- Items up to a closing symbol. No item begins with that symbol, and each ends there and where
another one begins. -/
theorem Reads.untilClose {c : Char} (h : p.Reads good tokens ends)
    (begins : ∀ a, ∃ k ks, tokens a = k :: ks ∧ k ≠ .symbol c ∧ ∀ b, ends b k)
    (close : ∀ a, ends a (.symbol c)) :
    (p.untilClose c).Reads (fun as => ∀ a ∈ as, good a)
      (fun as => as.flatMap tokens ++ [.symbol c]) (fun _ _ => True) := by
  intro ks as rest
  change runUntilClose c p ks = _ ↔ _
  constructor
  · intro hr
    fun_induction runUntilClose c p ks generalizing as rest with
    | case1 ks hk =>
      cases hr
      cases ks with
      | nil => cases hk
      | cons k ks => simpa [Token.next] using hk
    | case2 => cases hr
    | case3 => cases hr
    | case4 ks hk a mid hp as rest' hm ih =>
      cases hr
      obtain ⟨hg, rfl, -⟩ := (h _ _ _).1 hp
      obtain ⟨hgs, rfl, -⟩ := ih _ _ hm
      exact ⟨by simpa using ⟨hg, hgs⟩, by simp, trivial⟩
  · rintro ⟨hg, rfl, -⟩
    induction as with
    | nil => simp [runUntilClose, Token.next]
    | cons a as ih =>
      have hm := ih fun x hx => hg x (List.mem_cons_of_mem _ hx)
      obtain ⟨k, ks, hk, hkc, -⟩ := begins a
      simp only [List.flatMap_cons, List.append_assoc] at hm ⊢
      refine runUntilClose_cons ?_ ((h _ _ _).2 ⟨hg a (by simp), rfl, ?_⟩) hm
      · simpa [hk, Token.next] using hkc
      · cases as with
        | nil => exact close a
        | cons b bs =>
          obtain ⟨l, ls, hl, -, he⟩ := begins b
          simpa [hl, Token.next] using he a

end Shellwright.Parser
