import Shellwright.Directory
import Shellwright.Shell.Numeral

/-!
# Conditions

The little language of the built-in command that tests files, texts and numbers. Whether a word is
an operator depends on the words around it, and on how many there are.
-/
namespace Shellwright.Shell.Condition

inductive Operator.Kind where
  | unary
  | binary
  | not
  | and
  | or
  | leftParen
  | rightParen
deriving DecidableEq

def unaryOperators : List String :=
  ["-r", "-w", "-x", "-e", "-f", "-d", "-c", "-b", "-p", "-u", "-g", "-k", "-s", "-t", "-z", "-n",
   "-h", "-O", "-G", "-L", "-S"]

def binaryOperators : List String :=
  ["=", "!=", "<", ">", "-eq", "-ne", "-ge", "-gt", "-le", "-lt", "-nt", "-ot", "-ef"]

def kind? (word : String) : Option Operator.Kind :=
  if unaryOperators.contains word then some .unary
  else if binaryOperators.contains word then some .binary
  else match word with
    | "!" => some .not
    | "-a" => some .and
    | "-o" => some .or
    | "(" => some .leftParen
    | ")" => some .rightParen
    | _ => none

/-- What a word is taken for. -/
inductive Lexeme where
  | nothing
  | operand
  | operator (kind : Operator.Kind)
deriving DecidableEq

/-- Whether a word that looks like a unary operator is an operand, by the words behind it. -/
def isOperand : List String → Bool
  | [] => true
  | [_] => false
  | word :: _ => kind? word = some .binary

/-- What the first of some words is taken for. -/
def lexeme : List String → Lexeme
  | [] => .nothing
  | word :: rest =>
    match kind? word with
    | none => .operand
    | some k =>
      if (k = .unary ∧ isOperand rest) ∨ (k = .leftParen ∧ rest = []) then .operand
      else .operator k

/-- What tests look at. -/
structure View where
  files : Directory
  directory : Place

/-- Whether a file is as an operator asks. -/
def View.test (v : View) (operator path : String) : Bool :=
  match v.files.find v.directory path with
  | .error _ => false
  | .ok (_, entry) =>
    match operator, entry with
    | "-e", _ | "-r", _ | "-w", _ | "-O", _ | "-G", _ => true
    | "-x", .dir | "-x", .program => true
    | "-f", .file _ | "-f", .program => true
    | "-d", .dir => true
    | "-c", .null | "-c", .full => true
    | "-s", .file content => !content.isEmpty
    | "-s", .dir | "-s", .program => true
    | _, _ => false

/-- Whether two paths mean the same file. -/
def View.same (v : View) (a b : String) : Bool :=
  match v.files.find v.directory a, v.files.find v.directory b with
  | .ok (p, _), .ok (q, _) => p = q
  | _, _ => false

/-- The words from the one that has been come to on; an error is a complaint. -/
abbrev Examination := EStateM String (List String)

def complain {α : Type} (word message : String) : Examination α :=
  throw (if word = "" then message else word ++ ": " ++ message)

def number (text : String) : Examination Int :=
  match integer? text with
  | some n => return n
  | none => throw (illegalNumber text)

def advance (count : Nat) : Examination Unit := modify (·.drop count)

/-- The word that has been come to. -/
def here? : Examination (Option String) := do return (← get).head?

def unary (v : View) (operator operand : String) : Examination Bool :=
  match operator with
  | "-z" => return operand = ""
  | "-n" => return operand ≠ ""
  | "-t" => do
    let _ ← number operand
    return false
  | _ => return v.test operator operand

def binary (v : View) (operator a b : String) : Examination Bool := do
  match operator with
  | "=" => return a = b
  | "!=" => return a ≠ b
  | "<" => return a < b
  | ">" => return b < a
  | "-nt" | "-ot" => return false
  | "-ef" => return v.same a b
  | _ =>
    let m ← number a
    let n ← number b
    match operator with
    | "-eq" => return m = n
    | "-ne" => return m ≠ n
    | "-ge" => return m ≥ n
    | "-gt" => return m > n
    | "-le" => return m ≤ n
    | _ => return m < n

mutual

/-- A test that is no combination of others, or one in parentheses. -/
def primary (v : View) : (fuel : Nat) → Lexeme → Examination Bool
  | 0, _ | _, .nothing => return false
  | fuel + 1, .operator .leftParen => do
    advance 1
    let next := lexeme (← get)
    if next = .operator .rightParen then return false
    let value ← disjunction v fuel next
    advance 1
    if lexeme (← get) ≠ .operator .rightParen then complain "" "closing paren expected"
    return value
  | _ + 1, found => do
    let word := (← here?).getD ""
    if found = .operator .unary then
      advance 1
      match ← here? with
      | none => complain word "argument expected"
      | some operand => unary v word operand
    else if lexeme ((← get).drop 1) = .operator .binary then
      advance 1
      let operator := (← here?).getD ""
      advance 1
      match ← here? with
      | none => complain operator "argument expected"
      | some operand => binary v operator word operand
    else return word ≠ ""

def negation (v : View) : (fuel : Nat) → Lexeme → Examination Bool
  | 0, _ => return false
  | fuel + 1, found => do
    if found = .operator .not then
      let next := lexeme ((← get).drop 1)
      if next ≠ .nothing then advance 1
      return !(← negation v fuel next)
    else primary v fuel found

def conjunction (v : View) : (fuel : Nat) → Lexeme → Examination Bool
  | 0, _ => return false
  | fuel + 1, found => do
    let value ← negation v fuel found
    if lexeme ((← get).drop 1) = .operator .and then
      advance 2
      let others ← conjunction v fuel (lexeme (← get))
      return value && others
    else return value

def disjunction (v : View) : (fuel : Nat) → Lexeme → Examination Bool
  | 0, _ => return false
  | fuel + 1, found => do
    let value ← conjunction v fuel found
    if lexeme ((← get).drop 1) = .operator .or then
      advance 2
      let others ← disjunction v fuel (lexeme (← get))
      return value || others
    else return value

end

/-- The rules that go by the number of words: three with a binary operator in the middle compare,
and of three or four a pair of parentheses around them is dropped or an exclamation mark in front
negates. The first component says whether the value is to be negated. -/
def prepare : (fuel : Nat) → (negated : Bool) → List String → Bool × Lexeme × List String
  | 0, negated, words => (negated, lexeme words, words)
  | fuel + 1, negated, words =>
    let byPosition : Bool × Lexeme × List String :=
      if words.head? = some "(" ∧ words.getLast? = some ")" then
        let words := words.dropLast.drop 1
        (negated, lexeme words, words)
      else if words.head? = some "!" then prepare fuel true (words.drop 1)
      else (negated, lexeme words, words)
    match words with
    | [_, operator, _] =>
      if kind? operator = some .binary then (negated, .operand, words) else byPosition
    | [_, _, _, _] => byPosition
    | _ => (negated, lexeme words, words)

/-- Whether the condition that some words make holds, or why they make none. -/
def holds (v : View) (words : List String) : Except String Bool :=
  if words = [] then .ok false
  else
    let (negated, found, words) := prepare words.length false words
    if words = [] then .ok negated
    else
      let all : Examination Bool := do
        let value ← disjunction v (4 * words.length + 4) found
        match ← get with
        | word :: _ :: _ => complain word "unexpected operator"
        | _ => return value != negated
      match all.run words with
      | .ok value _ => .ok value
      | .error message _ => .error message

end Shellwright.Shell.Condition
