import Shellwright.Program.Source
import Shellwright.Proofs.Program.Reading
import Shellwright.Proofs.Token.Joining

/-!
# Written programs are read back

The source text of a program spells its canonical tokens, so scanning and reading the text gives the
program again.

## Main definitions

* `Expr.Shaped`, `Stmt.Shaped`: every name, string and number is one that a text can hold.
* `Token.Writes`: a text that spells its kinds whatever stands behind it.

## Main statements

* `Expr.writes_text`, `Stmt.writes_source`: what is written spells the canonical tokens.
* `Program.read_source`: a program is read back from its source text.
-/
namespace Shellwright

open Text
open Token (Kind Spells)

/-! ## Shapes -/

namespace Expr

mutual

/-- Names, strings and numbers are such as a text can hold. -/
def Shaped : Expr → Prop
  | string text => (Kind.string text).Shaped
  | number digits => (Kind.number digits).Shaped
  | var name => (Kind.ident name).Shaped
  | call name args => (Kind.ident name).Shaped ∧ ShapedList args

def ShapedList : List Expr → Prop
  | [] => True
  | e :: es => e.Shaped ∧ ShapedList es

end

theorem shapedList_iff {es : List Expr} : ShapedList es ↔ ∀ e ∈ es, e.Shaped := by
  induction es with
  | nil => simp [ShapedList]
  | cons e es ih => simp [ShapedList, ih]

end Expr

namespace Stmt

mutual

def Shaped : Stmt → Prop
  | decl _ name value => (Kind.ident name).Shaped ∧ value.Shaped
  | run command => ∀ e ∈ command, e.Shaped
  | ifThen cond body => cond.Shaped ∧ ShapedList body
  | forIn name iterable body => (Kind.ident name).Shaped ∧ iterable.Shaped ∧ ShapedList body
  | pipe commands => ∀ c ∈ commands, ∀ e ∈ c, e.Shaped
  | expr value => value.Shaped

def ShapedList : List Stmt → Prop
  | [] => True
  | s :: ss => s.Shaped ∧ ShapedList ss

end

theorem shapedList_iff {ss : List Stmt} : ShapedList ss ↔ ∀ s ∈ ss, s.Shaped := by
  induction ss with
  | nil => simp [ShapedList]
  | cons s ss ih => simp [ShapedList, ih]

end Stmt

def Program.Shaped (p : Program) : Prop := ∀ s ∈ p, s.Shaped

/-! ## Texts before other texts -/

namespace Token

variable {rest : List Char} {ks : List Kind}

/-- The text does not begin with a character that would go on with a word or a number. -/
def Apart (cs : List Char) : Prop := ∀ c ∈ cs.head?, isWordChar c = false

theorem Apart.cons {c : Char} {cs : List Char} (h : isWordChar c = false) : Apart (c :: cs) := by
  simpa [Apart] using h

theorem Kind.absorbs_eq_false_of_apart (k : Kind) {c : Char} (h : isWordChar c = false) :
    k.absorbs c = false := by
  have hd : c.isDigit = false := by simp_all [isWordChar]
  cases k <;> simp [absorbs, h, hd]

theorem Spells.lexeme (h : Spells rest ks) (hr : Apart rest) {k : Kind} (hk : k.Shaped) :
    Spells (k.lexeme.toList ++ rest) (k :: ks) :=
  h.cons_lexeme hk fun c hc => k.absorbs_eq_false_of_apart (hr c hc)

theorem Spells.keyword (h : Spells rest ks) (hr : Apart rest) (w : Keyword) :
    Spells (w.text.toList ++ rest) (.keyword w :: ks) := h.lexeme hr (k := .keyword w) trivial

theorem Spells.ident (h : Spells rest ks) (hr : Apart rest) {name : String}
    (hn : (Kind.ident name).Shaped) : Spells (name.toList ++ rest) (.ident name :: ks) :=
  h.lexeme hr hn

/-- No symbol goes on with what follows it. -/
theorem Spells.symbol (h : Spells rest ks) {c : Char} (hc : (Kind.symbol c).Shaped) :
    Spells (c :: rest) (.symbol c :: ks) := by
  simpa [Kind.lexeme] using h.cons_lexeme hc fun _ _ => rfl

theorem Spells.space (h : Spells rest ks) : Spells (' ' :: rest) ks := h.cons_blank (by decide)

theorem Spells.newline (h : Spells rest ks) : Spells ('\n' :: rest) ks := h.cons_blank (by decide)

/-- The text spells the kinds in front of whatever does not go on with a word. -/
def Writes (text : String) (kinds : List Kind) : Prop :=
  ∀ ⦃rest ks⦄, Spells rest ks → Apart rest → Spells (text.toList ++ rest) (kinds ++ ks)

theorem Kind.Shaped.writes {k : Kind} (hk : k.Shaped) : Writes k.lexeme [k] :=
  fun _ _ h hr => h.lexeme hr hk

/-- A separator between any two texts keeps them apart. -/
theorem Writes.intercalate {α : Type} {text : α → String} {kinds : α → List Kind} {xs : List α}
    (sep : String) (sepKinds : List Kind)
    (hsep : ∀ ⦃rest ks⦄, Spells rest ks → Spells (sep.toList ++ rest) (sepKinds ++ ks))
    (hapart : ∀ rest, Apart (sep.toList ++ rest)) (hxs : ∀ x ∈ xs, Writes (text x) (kinds x)) :
    Writes (sep.intercalate (xs.map text)) (sepKinds.intercalate (xs.map kinds)) := by
  intro rest ks h hr
  induction xs with
  | nil => simpa using h
  | cons x xs ih =>
    cases xs with
    | nil => simpa using hxs x (by simp) h hr
    | cons y ys =>
      have htail := ih fun z hz => hxs z (List.mem_cons_of_mem _ hz)
      have := hxs x (by simp) (hsep htail) (hapart _)
      simpa only [List.map_cons, String.intercalate_cons_cons, List.intercalate_cons_cons,
        String.toList_append, List.append_assoc] using this

theorem nil_intercalate {α : Type} (xs : List (List α)) : [].intercalate xs = xs.flatten := by
  induction xs with
  | nil => rfl
  | cons x xs ih => cases xs <;> simp_all

/-- Texts on lines of their own. -/
theorem Writes.lines {α : Type} {text : α → String} {kinds : α → List Kind} {xs : List α}
    (hxs : ∀ x ∈ xs, Writes (text x) (kinds x)) :
    Writes ("\n".intercalate (xs.map text)) (xs.flatMap kinds) := by
  have hlines := Writes.intercalate "\n" [] (fun _ _ hs => hs.newline)
    (fun _ => .cons (by decide)) hxs
  rwa [nil_intercalate, ← List.flatMap_def] at hlines

end Token

open Token (Apart Writes)

/-! ## Expressions -/

namespace Expr

theorem writes_arguments {es : List Expr} (hes : ∀ e ∈ es, Writes e.text e.kinds) :
    Writes (", ".intercalate (es.map text)) (kindsList es) := by
  rw [kindsList_eq_intercalate]
  refine Writes.intercalate _ _ (fun rest ks hs => ?_) (fun rest => ?_) hes
  · exact hs.space.symbol (c := ',') (by decide)
  · exact .cons (by decide)

theorem writes_text (e : Expr) (he : e.Shaped) : Writes e.text e.kinds := by
  match e with
  | string text => exact Kind.Shaped.writes (k := .string text) he
  | number digits => exact Kind.Shaped.writes (k := .number digits) he
  | var name => exact Kind.Shaped.writes (k := .ident name) he
  | call name args =>
    intro rest ks h hr
    have hargs := writes_arguments fun e hmem => writes_text e (shapedList_iff.1 he.2 e hmem)
    have hclose := h.symbol (c := ')') (by decide)
    have hopen := (hargs hclose (.cons (by decide))).symbol (c := '(') (by decide)
    simpa [text, kinds] using hopen.ident (.cons (by decide)) he.1

end Expr

/-! ## Statements -/

theorem Invocation.writes_source {c : Invocation} (hc : ∀ e ∈ c, e.Shaped) :
    Writes (Invocation.source c) (Invocation.kinds c) := by
  intro rest ks h hr
  have hargs := Expr.writes_arguments (fun e he => e.writes_text (hc e he)) h hr
  simpa [source, kinds, Keyword.text] using
    hargs.space.keyword (.cons (by decide)) .run

namespace Stmt

theorem spells_braced {α : Type} {text : α → String} {kinds : α → List Kind} {xs : List α}
    (hxs : ∀ x ∈ xs, Writes (text x) (kinds x)) {rest : List Char} {ks : List Kind}
    (h : Spells rest ks) :
    Spells (' ' :: (bracedLines (xs.map text)).toList ++ rest)
      (braced (xs.flatMap kinds) ++ ks) := by
  have hclose := (h.symbol (c := '\x7d') (by decide)).space
  have hlines := Writes.lines hxs hclose (.cons (by decide))
  have hopen := hlines.space.symbol (c := '\x7b') (by decide)
  simpa [bracedLines, braced] using hopen.space

theorem writes_source (s : Stmt) (hs : s.Shaped) : Writes s.source s.kinds := by
  intro rest ks h hr
  -- the text is built from its end: each part is put in front of what is spelled already
  match s with
  | decl binding name value =>
    have hvalue := (value.writes_text hs.2 h hr).space
    have heq := (hvalue.symbol (c := '=') (by decide)).space
    have hname := (heq.ident (.cons (by decide)) hs.1).space
    simpa [source, kinds] using hname.keyword (.cons (by decide)) binding.keyword
  | run command => exact Invocation.writes_source hs h hr
  | ifThen cond body =>
    have hbody := spells_braced (fun t ht => writes_source t (shapedList_iff.1 hs.2 t ht)) h
    have hcond := (cond.writes_text hs.1 hbody (.cons (by decide))).space
    simpa [source, kinds, kindsList_eq_flatMap, Keyword.text] using
      hcond.keyword (.cons (by decide)) .if_
  | forIn name iterable body =>
    have hbody := spells_braced (fun t ht => writes_source t (shapedList_iff.1 hs.2.2 t ht)) h
    have hiter := (iterable.writes_text hs.2.1 hbody (.cons (by decide))).space
    have hin := (hiter.keyword (.cons (by decide)) .in_).space
    have hname := (hin.ident (.cons (by decide)) hs.1).space
    simpa [source, kinds, kindsList_eq_flatMap, Keyword.text] using
      hname.keyword (.cons (by decide)) .for_
  | pipe commands =>
    have hbody := spells_braced (fun c hc => Invocation.writes_source (hs c hc)) h
    simpa [source, kinds, Keyword.text] using hbody.keyword (.cons (by decide)) .pipe
  | expr value => exact value.writes_text hs h hr

end Stmt

/-! ## Programs -/

/-- A statement with no gap behind it. -/
def Stmt.Spaced.close (s : Stmt) : Stmt.Spaced := ⟨s, [], by simp⟩

@[simp] theorem Stmt.Spaced.stmt_close (s : Stmt) : (close s).stmt = s := rfl

@[simp] theorem Stmt.Spaced.kinds_close (s : Stmt) : (close s).kinds = s.kinds := by
  simp [close, kinds]

namespace Token

/-- A byte order mark at the front of a text is a symbol there. -/
theorem Spells.head?_ne_mark {cs : List Char} {ks : List Kind} (h : Spells cs ks)
    (hsym : ∀ k ∈ ks.head?, ∀ c, k ≠ .symbol c) : cs.head? ≠ some '\uFEFF' := by
  intro hc
  obtain ⟨ds, rfl⟩ := List.head?_eq_some_iff.1 hc
  have hletter : isLetter '\uFEFF' = false := by decide +kernel
  have hmunch : munch '\uFEFF' ds = some (.symbol '\uFEFF', ds) := by simp [munch, hletter]
  obtain ⟨ts, hts, hk⟩ := h.scan .start
  rw [scan_cons_of_munch (by decide) hmunch, Except.map_eq_ok] at hts
  obtain ⟨us, -, rfl⟩ := hts
  cases ks with
  | nil => simp at hk
  | cons k ks => exact hsym k rfl '\uFEFF' (by simp_all)

end Token

namespace Program

variable {p : Program}

theorem spells_source (hp : p.Shaped) : Spells p.source.toList p.kinds := by
  have hlines := Writes.lines fun s hs => Stmt.writes_source s (hp s hs)
  have hend : Spells [] [] := .nil (by simp)
  simpa [source, kinds, Stmt.kindsList_eq_flatMap] using hlines hend (by simp [Apart])

theorem head?_kinds_ne_symbol : ∀ k ∈ p.kinds.head?, ∀ c, k ≠ .symbol c := by
  cases p with
  | nil => simp [kinds, Stmt.kindsList]
  | cons s p =>
    obtain ⟨k, ks, hk, hsym⟩ := s.exists_kinds_cons
    simpa [kinds, Stmt.kindsList, hk] using hsym

/-- The canonical tokens are read without any gap between statements. -/
theorem ofKinds_kinds (hw : p.wellFormed = true) (hn : p.nesting ≤ maxNesting) :
    ofKinds p.kinds = .ok p := by
  have hgood : ∀ x ∈ p.map Stmt.Spaced.close,
      x.stmt.wellFormed = true ∧ x.stmt.nesting ≤ maxNesting := by
    simpa using fun s hs => ⟨wellFormed_iff.1 hw s hs, nesting_le_iff.1 hn s hs⟩
  simpa [kinds, Stmt.kindsList_eq_flatMap, Function.comp_def, List.flatMap_map] using
    ofKinds_spaced [] hgood

/-- A program whose names, strings and numbers a text can hold is read back from its source. -/
theorem read_source (p : Program) (hw : p.wellFormed = true) (hn : p.nesting ≤ maxNesting)
    (hp : p.Shaped) : ∃ ts, Token.tokenize p.source = .ok ts ∧ ofTokens ts = .ok p := by
  have hs := spells_source hp
  obtain ⟨ts, hts, hk⟩ := hs.scan .start
  refine ⟨ts, ?_, ?_⟩
  · rwa [Token.tokenize, Token.body_eq_toList (hs.head?_ne_mark head?_kinds_ne_symbol)]
  · rw [ofTokens_eq_ok_iff_ofKinds, ← Token.Stream.kinds_ofList, hs.kinds_ofList hk]
    exact ofKinds_kinds hw hn

/-- A string may hold what means something elsewhere: a brace, the end of a line or a keyword. -/
theorem read_source_for : ∃ ts,
    Token.tokenize (source [.forIn "f" (.call "ls" [.string "\x7d\nrun"]) [.pipe [[.var "f"]]]]) =
        .ok ts ∧
      ofTokens ts = .ok [.forIn "f" (.call "ls" [.string "\x7d\nrun"]) [.pipe [[.var "f"]]]] := by
  refine read_source _ (by decide) (by decide) ?_
  simp only [Program.Shaped, Stmt.Shaped, Stmt.ShapedList, Expr.Shaped, Expr.ShapedList,
    List.forall_mem_singleton]
  decide

end Program

end Shellwright
