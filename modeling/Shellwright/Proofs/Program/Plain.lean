import Shellwright.Proofs.Compile.Joining
import Shellwright.Proofs.Script.Lines
import Shellwright.Proofs.Script.Lowering

/-!
# Plain programs

In a plain program names are ASCII words, strings hold nothing that a script could take for
something else, and command words are neither keywords of the shell nor `echo`. The script of such a
program determines it but for the way its variables are introduced.

## Main definitions

* `Program.plain`: plain programs.
* `Program.unmarked`: the program with every variable introduced in the same way.
* `Script.Command.toStmt`: the statement that a command comes from.

## Main statements

* `Script.Command.recovers`: a plain statement has a plain command, and comes from it.
* `Program.emit_eq_emit_iff`: plain programs with the same script differ in bindings only.
-/
namespace Shellwright

open Script (reference)

/-! ## The plain language -/

namespace Text

/-- A letter, then letters and digits, all of them ASCII. -/
def isPlainName (name : String) : Bool :=
  match name.toList with
  | [] => false
  | c :: cs => c.isAlpha && cs.all Char.isAlphanum

/-- A text without quotes, references and newlines. -/
def isPlainText (text : String) : Bool :=
  text.toList.all fun c => c ≠ '"' && c ≠ '$' && c ≠ '\n'

def isPlainNumber (digits : String) : Bool := digits ≠ "" && digits.toList.all Char.isDigit

def isCommandChar (c : Char) : Bool := c.isAlphanum || c ∈ ['-', '_', '.', '/']

/-- Words that begin other lines of a script than those of a command. -/
def takenWords : List String := ["if", "for", "fi", "done", "echo"]

def isPlainCommand (text : String) : Bool :=
  text ≠ "" && text.toList.all isCommandChar && text ∉ takenWords

end Text

open Text

namespace Expr

-- an expression that cannot stand in a place is plain there: the program then has no script

def isPlainValue : Expr → Bool
  | string text => isPlainText text
  | number digits => isPlainNumber digits
  | var name => isPlainName name
  | call _ _ => true

def isPlainCommand : Expr → Bool
  | string text => Text.isPlainCommand text
  | var name => isPlainName name
  | number _ | call _ _ => true

def isPlainPattern : Expr → Bool
  | string text => isPlainText text
  | var name => isPlainName name
  | number _ | call _ _ => true

/-- A call whose arguments are plain. -/
def hasPlain (isPlain : Expr → Bool) : Expr → Bool
  | call _ args => args.all isPlain
  | _ => true

end Expr

def Invocation.isPlain : Invocation → Bool
  | [] => true
  | command :: args => command.isPlainCommand && args.all Expr.isPlainValue

namespace Stmt

mutual

def plain : Stmt → Bool
  | decl _ name value => isPlainName name && value.isPlainValue
  | run command => Invocation.isPlain command
  | ifThen cond body => cond.hasPlain Expr.isPlainValue && plainList body
  | forIn name iterable body =>
    isPlainName name && iterable.hasPlain Expr.isPlainPattern && plainList body
  | pipe commands => 2 ≤ commands.length && commands.all Invocation.isPlain
  | expr value => value.hasPlain Expr.isPlainValue

def plainList : List Stmt → Bool
  | [] => true
  | s :: ss => s.plain && plainList ss

end

mutual

/-- The statement with every variable introduced by `val`. -/
def unmarked : Stmt → Stmt
  | decl _ name value => decl .val name value
  | run command => run command
  | ifThen cond body => ifThen cond (unmarkedList body)
  | forIn name iterable body => forIn name iterable (unmarkedList body)
  | pipe commands => pipe commands
  | expr value => expr value

def unmarkedList : List Stmt → List Stmt
  | [] => []
  | s :: ss => s.unmarked :: unmarkedList ss

end

end Stmt

namespace Program

def plain (p : Program) : Bool := Stmt.plainList p

def unmarked (p : Program) : Program := Stmt.unmarkedList p

end Program

/-! ## Reading scripts back -/

/-- The string or the variable that a text of a script stands for. -/
def Expr.ofText (text : String) : Expr :=
  match text.toList with
  | '$' :: name => var (String.ofList name)
  | _ => string text

namespace Script

namespace Word

def toValue : Word → Expr
  | bare digits => .number digits
  | quoted text => .ofText text

def toCommand : Word → Expr
  | bare text | quoted text => .ofText text

end Word

def toInvocation : List Word → Invocation
  | [] => []
  | command :: args => command.toCommand :: args.map Word.toValue

namespace Command

mutual

/-- The statement that a command comes from. -/
def toStmt : Command → Stmt
  | assign name value => .decl .val name value.toValue
  | simple [.bare "echo", value] => .expr (.call "print" [value.toValue])
  | simple words => .run (toInvocation words)
  | pipeline stages => .pipe (stages.map toInvocation)
  | ifExists path body => .ifThen (.call "exists" [path.toValue]) (toStmts body)
  | forEach name pattern body => .forIn name (.call "glob" [pattern.toCommand]) (toStmts body)

def toStmts : List Command → List Stmt
  | [] => []
  | c :: cs => c.toStmt :: toStmts cs

end

end Command

end Script

/-! ## Names and texts -/

namespace Text

/-- Characters that plain programs write bare. -/
def isBareChar (c : Char) : Bool := isCommandChar c || c = '$'

theorem isStemChar_of_isBareChar {c : Char} (h : isBareChar c = true) :
    Script.isStemChar c = true := by
  have hne (d : Char) (hd : isBareChar d = false) : c ≠ d := by
    rintro rfl
    simp [h] at hd
  simp [Script.isStemChar, hne ' ' (by decide), hne '=' (by decide), hne '"' (by decide),
    hne '\n' (by decide)]

theorem isBlank_eq_false_of_isBareChar {c : Char} (h : isBareChar c = true) :
    isBlank c = false := by
  simp only [isBareChar, isCommandChar, Char.isAlphanum, Bool.or_eq_true, decide_eq_true_eq] at h
  rcases h with ((h | h) | h) | rfl
  · exact isBlank_eq_false_of_isLetter (isLetter_of_isAlpha h)
  · exact isBlank_eq_false_of_isDigit h
  · simp only [List.mem_cons, List.not_mem_nil, or_false] at h
    rcases h with rfl | rfl | rfl | rfl <;> decide
  · decide

/-- A text that plain programs write bare. -/
def IsBare (text : String) : Prop := text ≠ "" ∧ ∀ c ∈ text.toList, isBareChar c = true

variable {text name digits : String}

theorem IsBare.isStem (h : IsBare text) : Script.isStem text = true :=
  Script.isStem_iff.2 ⟨h.1, fun c hc => isStemChar_of_isBareChar (h.2 c hc)⟩

theorem IsBare.allBlank (h : IsBare text) : allBlank text = false := by
  cases ht : text.toList with
  | nil => exact absurd (String.toList_eq_nil_iff.1 ht) h.1
  | cons c cs =>
    have hc := isBlank_eq_false_of_isBareChar (h.2 c (by simp [ht]))
    simp [Text.allBlank, ht, hc]

theorem IsBare.notMem (h : IsBare text) {c : Char} (hc : isBareChar c = false) :
    c ∉ text.toList := by
  intro hmem
  simp [h.2 c hmem] at hc

theorem isBare_of_isPlainName (h : isPlainName name = true) : IsBare name := by
  unfold isPlainName at h
  cases hn : name.toList with
  | nil => simp [hn] at h
  | cons c cs =>
    simp only [hn, Bool.and_eq_true, List.all_eq_true] at h
    refine ⟨fun he => by simp [he] at hn, fun d hd => ?_⟩
    have hd' : d.isAlphanum = true := by
      rcases List.mem_cons.1 (hn ▸ hd) with rfl | hd
      · simp [Char.isAlphanum, h.1]
      · exact h.2 d hd
    simp [isBareChar, isCommandChar, hd']

theorem isBare_of_isPlainNumber (h : isPlainNumber digits = true) : IsBare digits := by
  simp only [isPlainNumber, Bool.and_eq_true, decide_eq_true_eq, List.all_eq_true] at h
  refine ⟨h.1, fun d hd => ?_⟩
  simp [isBareChar, isCommandChar, Char.isAlphanum, h.2 d hd]

theorem isBare_of_isPlainCommand (h : isPlainCommand text = true) : IsBare text := by
  simp only [isPlainCommand, Bool.and_eq_true, decide_eq_true_eq, List.all_eq_true] at h
  refine ⟨h.1.1, fun d hd => ?_⟩
  simp [isBareChar, h.1.2 d hd]

theorem isBare_reference (h : IsBare name) : IsBare (reference name) := by
  refine ⟨by simp [reference], ?_⟩
  have hdollar : isBareChar '$' = true := by decide
  simpa [reference, hdollar] using h.2

theorem isPlainText_iff : isPlainText text = true ↔
    '"' ∉ text.toList ∧ '$' ∉ text.toList ∧ '\n' ∉ text.toList := by
  simp only [isPlainText, List.all_eq_true, Bool.and_eq_true, decide_eq_true_eq]
  grind

end Text

namespace Expr

theorem ofText_reference (name : String) : ofText (reference name) = var name := by
  simp [ofText, reference]

theorem ofText_of_notMem {text : String} (h : '$' ∉ text.toList) : ofText text = string text := by
  unfold ofText
  split
  · simp_all
  · rfl

end Expr

namespace Script

variable {e : Expr} {w : Word}

/-! ## Words -/

theorem Word.toValue_of_ofValue (h : ofValue e = .ok w) (he : e.isPlainValue = true) :
    w.Solid ∧ w ≠ bar ∧ w.toValue = e := by
  rcases ofValue_eq_ok.1 h with ⟨text, rfl, rfl⟩ | ⟨digits, rfl, rfl⟩ | ⟨name, rfl, rfl⟩
  · obtain ⟨hquote, hdollar, hnewline⟩ := isPlainText_iff.1 he
    exact ⟨⟨hquote, hnewline⟩, by simp [bar], Expr.ofText_of_notMem hdollar⟩
  · have hbare := isBare_of_isPlainNumber he
    refine ⟨hbare.isStem, ?_, rfl⟩
    rintro ⟨⟩
    exact hbare.notMem (c := '|') (by decide) (by decide)
  · have hstem := (isBare_reference (isBare_of_isPlainName he)).isStem
    refine ⟨⟨?_, ?_⟩, by simp [bar], Expr.ofText_reference name⟩
    · exact notMem_of_isStem hstem (by decide)
    · exact notMem_of_isStem hstem (by decide)

theorem Word.toCommand_of_ofPattern (h : ofPattern e = .ok w) (he : e.isPlainPattern = true) :
    ∃ text, w = bare text ∧ '\n' ∉ text.toList ∧ w.toCommand = e := by
  rcases ofPattern_eq_ok.1 h with ⟨text, rfl, rfl⟩ | ⟨name, rfl, rfl⟩
  · obtain ⟨-, hdollar, hnewline⟩ := isPlainText_iff.1 he
    exact ⟨text, rfl, hnewline, Expr.ofText_of_notMem hdollar⟩
  · have hstem := (isBare_reference (isBare_of_isPlainName he)).isStem
    exact ⟨_, rfl, notMem_of_isStem hstem (by decide), Expr.ofText_reference name⟩

theorem Word.toCommand_of_ofCommand (h : ofCommand e = .ok w) (he : e.isPlainCommand = true) :
    ∃ text, w = bare text ∧ IsBare text ∧ text ∉ takenWords ∧ w.toCommand = e := by
  rcases ofCommand_eq_ok.1 h with ⟨text, rfl, rfl⟩ | ⟨name, rfl, rfl⟩
  · refine ⟨text, rfl, isBare_of_isPlainCommand he, ?_, Expr.ofText_of_notMem ?_⟩
    · simp only [Expr.isPlainCommand, isPlainCommand, Bool.and_eq_true, decide_eq_true_eq] at he
      exact he.2
    · simp only [Expr.isPlainCommand, isPlainCommand, Bool.and_eq_true, List.all_eq_true] at he
      intro hdollar
      have := he.1.2 _ hdollar
      simp [isCommandChar] at this
  · refine ⟨_, rfl, isBare_reference (isBare_of_isPlainName he), ?_, Expr.ofText_reference name⟩
    have hdollar : '$' ∈ (reference name).toList := by simp [reference]
    have hnone : ∀ text ∈ takenWords, '$' ∉ text.toList := by decide
    exact fun hmem => hnone _ hmem hdollar

/-- The reserved words that a plain command word could be are those that it must not be. -/
theorem notMem_reserved {text : String} (hbare : IsBare text) (hfree : text ∉ takenWords) :
    text ∉ reserved := by
  intro hmem
  simp only [reserved, List.mem_cons, List.not_mem_nil, or_false] at hmem
  rcases hmem with rfl | rfl | rfl | rfl | rfl | rfl
  iterate 4 exact hfree (by decide)
  · exact hbare.notMem (c := ':') (by decide) (by decide)
  · exact hbare.notMem (c := '|') (by decide) (by decide)

theorem toInvocation_of_words {c : Invocation} {ws : List Word} (h : words c = .ok ws)
    (hc : Invocation.isPlain c = true) :
    (Simple ws ∧ bar ∉ ws ∧ ws.head? ≠ some (.bare "echo")) ∧ toInvocation ws = c := by
  obtain ⟨command, args, w, vs, rfl, hw, hvs, rfl⟩ := words_eq_ok.1 h
  simp only [Invocation.isPlain, Bool.and_eq_true, List.all_eq_true] at hc
  obtain ⟨text, rfl, hbare, hfree, hcommand⟩ := Word.toCommand_of_ofCommand hw hc.1
  have hstep : ∀ e ∈ args, ∀ v, Word.ofValue e = .ok v →
      (v.Solid ∧ v ≠ bar) ∧ v.toValue = id e := by
    intro e he v hv
    obtain ⟨hsolid, hbar, hvalue⟩ := Word.toValue_of_ofValue hv (hc.2 e he)
    exact ⟨⟨hsolid, hbar⟩, hvalue⟩
  obtain ⟨hsolid, hargs⟩ := hvs.forall_mem_and_map_eq hstep
  have hreserved := notMem_reserved hbare hfree
  rw [if_neg (by simp [Word.text, hbare.allBlank])]
  refine ⟨⟨.intro hbare.isStem hreserved fun v hv => (hsolid v hv).1, ?_, ?_⟩, ?_⟩
  · rw [List.mem_cons, not_or]
    refine ⟨?_, fun hmem => (hsolid bar hmem).2 rfl⟩
    rintro ⟨⟩
    exact hreserved (by decide)
  · rintro ⟨⟩
    exact hfree (by decide)
  · simpa [toInvocation, hcommand] using hargs

/-! ## Commands -/

namespace Command

theorem toStmts_eq_map (cs : List Command) : toStmts cs = cs.map toStmt := by
  induction cs with
  | nil => rfl
  | cons c cs ih => simp [toStmts, ih]

theorem toStmt_simple {ws : List Word} (h : ws.head? ≠ some (.bare "echo")) :
    toStmt (simple ws) = .run (toInvocation ws) := by
  unfold toStmt
  split <;> simp_all

end Command

end Script

namespace Stmt

theorem unmarkedList_eq_map (ss : List Stmt) : unmarkedList ss = ss.map unmarked := by
  induction ss with
  | nil => rfl
  | cons s ss ih => simp [unmarkedList, ih]

theorem plainList_iff {ss : List Stmt} : plainList ss = true ↔ ∀ s ∈ ss, s.plain = true := by
  induction ss with
  | nil => simp [plainList]
  | cons s ss ih => simp [plainList, ih]

end Stmt

namespace Script.Command

/-- If the statement is plain, the command can be read back, and gives the statement. -/
def Recovers (s : Stmt) (c : Command) : Prop :=
  s.plain = true → c.Plain ∧ c.toStmt = s.unmarked

theorem Recovers.body {ss : List Stmt} {cs : List Command} (h : List.Forall₂ Recovers ss cs)
    (hss : Stmt.plainList ss = true) :
    (∀ c ∈ cs, c.Plain) ∧ toStmts cs = Stmt.unmarkedList ss := by
  rw [toStmts_eq_map, Stmt.unmarkedList_eq_map]
  exact h.forall_mem_and_map_eq fun s hs c hc => hc (Stmt.plainList_iff.1 hss s hs)

/-- A plain statement has a plain command, and comes from it but for its bindings. -/
theorem recovers : Kept Recovers where
  decl {binding name value w} hw hs := by
    simp only [Stmt.plain, Bool.and_eq_true] at hs
    obtain ⟨hsolid, -, hvalue⟩ := Word.toValue_of_ofValue hw hs.2
    refine ⟨.assign (isBare_of_isPlainName hs.1).isStem hsolid, ?_⟩
    rw [toStmt, Stmt.unmarked, hvalue]
  run {command ws} hws hs := by
    obtain ⟨⟨hsimple, hbar, hecho⟩, hcommand⟩ := toInvocation_of_words hws hs
    refine ⟨.simple hsimple hbar, ?_⟩
    rw [toStmt_simple hecho, Stmt.unmarked, hcommand]
  ifThen {cond body w cs} hw hcs hs := by
    obtain ⟨arg, rfl, hw⟩ := tested_eq_ok.1 hw
    simp only [Stmt.plain, Expr.hasPlain, List.all_cons, List.all_nil, Bool.and_true,
      Bool.and_eq_true] at hs
    obtain ⟨hsolid, -, hvalue⟩ := Word.toValue_of_ofValue hw hs.1
    obtain ⟨hplain, hbody⟩ := Recovers.body hcs hs.2
    refine ⟨.ifExists hsolid hplain, ?_⟩
    rw [toStmt, Stmt.unmarked, hvalue, hbody]
  forIn {name iterable body w cs} hw hcs hs := by
    obtain ⟨arg, rfl, hw⟩ := iterated_eq_ok.1 hw
    simp only [Stmt.plain, Expr.hasPlain, List.all_cons, List.all_nil, Bool.and_true,
      Bool.and_eq_true] at hs
    obtain ⟨pattern, rfl, hnewline, hpattern⟩ := Word.toCommand_of_ofPattern hw hs.1.2
    obtain ⟨hplain, hbody⟩ := Recovers.body hcs hs.2
    refine ⟨.forEach (isBare_of_isPlainName hs.1.1).isStem hnewline hplain, ?_⟩
    rw [toStmt, Stmt.unmarked, hpattern, hbody]
  pipe {commands stages} hstages hs := by
    simp only [Stmt.plain, Bool.and_eq_true, decide_eq_true_eq, List.all_eq_true] at hs
    obtain ⟨hsimple, hcommands⟩ := hstages.forall_mem_and_map_eq (f := id) fun c hc ws hws =>
      toInvocation_of_words hws (hs.2 c hc)
    refine ⟨.pipeline (hstages.length_eq ▸ hs.1) (fun ws hws => (hsimple ws hws).1)
      fun ws hws => (hsimple ws hws).2.1, ?_⟩
    rw [toStmt, Stmt.unmarked, hcommands, List.map_id]
  expr {value w} hw hs := by
    obtain ⟨arg, rfl, hw⟩ := printed_eq_ok.1 hw
    simp only [Stmt.plain, Expr.hasPlain, List.all_cons, List.all_nil, Bool.and_true] at hs
    obtain ⟨hsolid, hbar, hvalue⟩ := Word.toValue_of_ofValue hw hs
    have hecho : bar ≠ .bare "echo" := by decide
    refine ⟨.simple (.intro (by decide) (by decide) (by simpa using hsolid)) ?_, ?_⟩
    · simpa [hecho] using hbar.symm
    · rw [toStmt, Stmt.unmarked, hvalue]

/-! ## Bindings -/

mutual

/-- A command does not tell how a variable was introduced. -/
theorem ofStmt_unmarked : ∀ s : Stmt, ofStmt s.unmarked = ofStmt s
  | .decl _ _ _ => rfl
  | .run _ => rfl
  | .ifThen cond body => by simp [Stmt.unmarked, ofStmt, ofStmts_unmarkedList body]
  | .forIn name iterable body => by simp [Stmt.unmarked, ofStmt, ofStmts_unmarkedList body]
  | .pipe _ => rfl
  | .expr _ => rfl

theorem ofStmts_unmarkedList : ∀ ss : List Stmt, ofStmts (Stmt.unmarkedList ss) = ofStmts ss
  | [] => rfl
  | s :: ss => by simp [Stmt.unmarkedList, ofStmts, ofStmt_unmarked s, ofStmts_unmarkedList ss]

end

end Script.Command

namespace Program

variable {p q : Program}

theorem emit_unmarked (p : Program) : p.unmarked.emit = p.emit := by
  change Script.text <$> Script.Command.ofStmts (Stmt.unmarkedList p) = _
  rw [Script.Command.ofStmts_unmarkedList]
  rfl

/-- Of two plain programs that have scripts, the scripts are the same exactly if the programs are,
but for the way their variables are introduced. -/
theorem emit_eq_emit_iff {a b : String} (hp : p.plain = true) (hq : q.plain = true)
    (ha : p.emit = .ok a) (hb : q.emit = .ok b) :
    p.emit = q.emit ↔ p.unmarked = q.unmarked := by
  constructor
  · intro h
    obtain ⟨script, hscript, rfl⟩ := emit_eq_ok_iff.1 ha
    obtain ⟨other, hother, rfl⟩ := emit_eq_ok_iff.1 hb
    obtain ⟨hplain, hstmts⟩ := Script.Command.Recovers.body
      (Script.Command.recovers.ofStmts p hscript) hp
    obtain ⟨hplain', hstmts'⟩ := Script.Command.Recovers.body
      (Script.Command.recovers.ofStmts q hother) hq
    rw [ha, hb] at h
    obtain rfl := Script.text_inj hplain hplain' (Except.ok.inj h)
    exact hstmts.symm.trans hstmts'
  · intro h
    rw [← emit_unmarked p, h, emit_unmarked q]

/-- A command behind a condition is not taken for one inside it, while `val` and `var` are the
same. -/
theorem emit_eq_emit_iff_body :
    emit [.ifThen (.call "exists" [.var "x"]) [.run [.string "ls"]], .run [.string "cat"]] ≠
      emit [.ifThen (.call "exists" [.var "x"]) [.run [.string "ls"], .run [.string "cat"]]] ∧
    emit [.decl .val "x" (.string "; fi | ")] = emit [.decl .var "x" (.string "; fi | ")] := by
  have houtside : emit [.ifThen (.call "exists" [.var "x"]) [.run [.string "ls"]],
      .run [.string "cat"]] = .ok "if [ -e \"$x\" ]; then\nls\nfi\ncat" := by decide +kernel
  have hinside : emit [.ifThen (.call "exists" [.var "x"]) [.run [.string "ls"],
      .run [.string "cat"]]] = .ok "if [ -e \"$x\" ]; then\nls\ncat\nfi" := by decide +kernel
  have hval : emit [.decl .val "x" (.string "; fi | ")] = .ok "x=\"; fi | \"" := by decide +kernel
  have hvar : emit [.decl .var "x" (.string "; fi | ")] = .ok "x=\"; fi | \"" := by decide +kernel
  constructor
  · exact (emit_eq_emit_iff (by decide) (by decide) houtside hinside).not.2 (by decide)
  · exact (emit_eq_emit_iff (by decide) (by decide) hval hvar).2 rfl

end Program

end Shellwright
