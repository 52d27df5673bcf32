import Shellwright.Proofs.Position
import Shellwright.Proofs.Token.Spelling

/-!
# Where tokens stand

A scan carries a position along. It is the position of each token when the token is taken, hence the
one behind all of the text before the token, whatever blanks, strings and newlines that text holds.

## Main statements

* `Token.exists_scan_spaced`: the tokens of a text that is written out, with their positions.
* `Token.tokenize_positions`: every token of a source stands where the text before it ends, and
  each stands behind the one before it.
-/
namespace Shellwright.Token

open Text

variable {lead : List Char} {items : List Kind.Spaced} {ts : List Token}

/-- The token with index `i` stands behind the first `i` lexemes and the blanks around them; the end
of the input stands behind all of them. -/
theorem exists_scan_spaced (hlead : ∀ c ∈ lead, isBlank c = true)
    (hchain : items.IsChain Kind.Spaced.Before) (p : Position) :
    ∃ ts, scan p (lead ++ items.flatMap Kind.Spaced.text) = .ok ts ∧
      ts.map (·.kind) = items.map (·.kind) ++ [.eof] ∧
      ∀ (i : Nat) (t : Token), ts[i]? = some t →
        t.position = p.after (lead ++ (items.take i).flatMap Kind.Spaced.text) := by
  induction items generalizing lead p with
  | nil =>
    refine ⟨[⟨.eof, p.after lead⟩], ?_, rfl, fun i t ht => ?_⟩
    · rw [List.flatMap_nil, scan_blanks hlead, scan_nil]
    · cases i with
      | zero =>
        cases ht
        simp
      | succ i => simp at ht
  | cons x items ih =>
    obtain ⟨ts, hts, hkinds, hpos⟩ := ih x.blank hchain.tail
      ((p.after lead).after x.kind.lexeme.toList)
    refine ⟨⟨x.kind, p.after lead⟩ :: ts, ?_, by simp [hkinds], fun i t ht => ?_⟩
    · rw [List.flatMap_cons, Kind.Spaced.text, List.append_assoc, scan_blanks hlead,
        scan_lexeme x.shaped (Kind.Spaced.absorbs_eq_false hchain), hts]
      rfl
    · cases i with
      | zero =>
        cases ht
        simp
      | succ i =>
        rw [hpos i t (by simpa using ht)]
        simp [Kind.Spaced.text]

theorem Kind.Spaced.text_ne_nil (x : Kind.Spaced) : x.text ≠ [] := by
  obtain ⟨c, cs, hc, -⟩ := Kind.exists_lexeme_cons x.shaped
  simp [text, hc]

/-- Taking further items makes a text longer. -/
theorem Kind.Spaced.exists_append_of_lt {i j : Nat} (hij : i < j) (hj : j ≤ items.length) :
    ∃ cs : List Char, cs ≠ [] ∧ (items.take j).flatMap Kind.Spaced.text =
      (items.take i).flatMap Kind.Spaced.text ++ cs := by
  refine ⟨((items.drop i).take (j - i)).flatMap Kind.Spaced.text, ?_, ?_⟩
  · have hi : i < items.length := by omega
    obtain ⟨n, hn⟩ : ∃ n, j - i = n + 1 := ⟨j - i - 1, by omega⟩
    rw [List.drop_eq_getElem_cons hi, hn, List.take_succ_cons, List.flatMap_cons]
    simp [Kind.Spaced.text_ne_nil]
  · rw [← List.flatMap_append, ← List.take_add, Nat.add_sub_cancel' (by omega)]

/-- Tokens that stand behind longer and longer texts stand in the order of reading. -/
theorem pairwise_position_lt (hlen : ts.length = items.length + 1)
    (hpos : ∀ (i : Nat) (t : Token), ts[i]? = some t →
      t.position = Position.behind (lead ++ (items.take i).flatMap Kind.Spaced.text)) :
    (ts.map (·.position)).Pairwise (· < ·) := by
  rw [List.pairwise_map, List.pairwise_iff_getElem]
  intro i j hi hj hij
  have hle : j ≤ items.length := by omega
  obtain ⟨cs, hcs, happ⟩ := Kind.Spaced.exists_append_of_lt hij hle
  rw [hpos i _ (List.getElem?_eq_getElem hi), hpos j _ (List.getElem?_eq_getElem hj), happ,
    ← List.append_assoc]
  exact Position.behind_lt_append _ hcs

/-- No two tokens of a source stand at the same position. -/
theorem nodup_position_of_tokenize {source : String} (h : tokenize source = .ok ts) :
    (ts.map (·.position)).Nodup := by
  obtain ⟨ks, -, hs⟩ := Spells.of_scan h
  obtain ⟨lead, items, hlead, -, hchain, hbody⟩ := hs.exists_spaced
  obtain ⟨us, hus, hkinds, hpos⟩ := exists_scan_spaced hlead hchain .start
  rw [tokenize, hbody, hus] at h
  obtain rfl := Except.ok.inj h
  simp only [Position.start_after] at hpos
  have hlt := pairwise_position_lt (by simpa using congrArg List.length hkinds) hpos
  exact hlt.imp Position.ne_of_lt

/-- The text of a source, less a byte order mark, is lexemes with blanks around them, and each token
stands at the line and the column that the text before its lexeme leads to; the end of the input
stands where the whole text leads. So the positions grow from token to token, and no two tokens
stand at the same one. -/
theorem tokenize_positions {source : String} (h : tokenize source = .ok ts) :
    (∃ (lead : List Char) (items : List Kind.Spaced), (∀ c ∈ lead, isBlank c = true) ∧
      items.IsChain Kind.Spaced.Before ∧ body source = lead ++ items.flatMap Kind.Spaced.text ∧
      ts.map (·.kind) = items.map (·.kind) ++ [.eof] ∧
      ∀ (i : Nat) (t : Token), ts[i]? = some t →
        t.position = Position.behind (lead ++ (items.take i).flatMap Kind.Spaced.text)) ∧
    (ts.map (·.position)).Pairwise (· < ·) ∧ (ts.map (·.position)).Nodup := by
  obtain ⟨ks, -, hs⟩ := Spells.of_scan h
  obtain ⟨lead, items, hlead, -, hchain, hbody⟩ := hs.exists_spaced
  obtain ⟨us, hus, hkinds, hpos⟩ := exists_scan_spaced hlead hchain .start
  obtain rfl : ts = us := by
    rw [tokenize, hbody, hus] at h
    exact (Except.ok.inj h).symm
  have hlen : ts.length = items.length + 1 := by
    simpa using congrArg List.length hkinds
  simp only [Position.start_after] at hpos
  have hlt := pairwise_position_lt hlen hpos
  exact ⟨⟨lead, items, hlead, hchain, hbody, hkinds, hpos⟩, hlt,
    hlt.imp Position.ne_of_lt⟩

/-- A string that runs over the end of a line, and the token behind it. -/
theorem tokenize_positions_lines :
    tokenize "val é = \"a\nb\" x" = .ok [⟨.keyword .val, ⟨1, 1⟩⟩, ⟨.ident "é", ⟨1, 5⟩⟩,
      ⟨.symbol '=', ⟨1, 7⟩⟩, ⟨.string "a\nb", ⟨1, 9⟩⟩, ⟨.ident "x", ⟨2, 4⟩⟩, ⟨.eof, ⟨2, 5⟩⟩] ∧
    [(⟨1, 1⟩ : Position), ⟨1, 5⟩, ⟨1, 7⟩, ⟨1, 9⟩, ⟨2, 4⟩, ⟨2, 5⟩].Pairwise (· < ·) := by
  have h : tokenize "val é = \"a\nb\" x" = .ok [⟨.keyword .val, ⟨1, 1⟩⟩, ⟨.ident "é", ⟨1, 5⟩⟩,
      ⟨.symbol '=', ⟨1, 7⟩⟩, ⟨.string "a\nb", ⟨1, 9⟩⟩, ⟨.ident "x", ⟨2, 4⟩⟩,
      ⟨.eof, ⟨2, 5⟩⟩] := by decide +kernel
  exact ⟨h, (tokenize_positions h).2.1⟩

end Shellwright.Token
