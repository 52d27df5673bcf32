import Shellwright.Shell.Command
import Shellwright.Shell.Numeral

/-!
# Arithmetic

Expressions over numbers and variables. An expression is worked out while it is read, so that of two
faults the one that is met first counts; parts that do not matter for the value are read only.
-/
namespace Shellwright.Shell.Arithmetic

inductive Operator where
  | multiply | divide | remainder
  | add | subtract
  | shiftLeft | shiftRight
  | less | lessEqual | greater | greaterEqual
  | equal | notEqual
  | bitAnd
  | bitXor
  | bitOr
deriving DecidableEq

inductive Symbol where
  | number (n : Int)
  | name (text : String)
  | operator (op : Operator)
  /-- An assignment, with the operator that comes before it. -/
  | assign (op : Option Operator)
  | not
  | bitNot
  | and
  | or
  | question
  | colon
  | leftParen
  | rightParen
  | bad
deriving DecidableEq

/-- How tightly an operator binds; the lowest number binds most. -/
def Operator.rank : Operator → Nat
  | multiply | divide | remainder => 0
  | add | subtract => 1
  | shiftLeft | shiftRight => 2
  | less | lessEqual | greater | greaterEqual => 3
  | equal | notEqual => 4
  | bitAnd => 5
  | bitXor => 6
  | bitOr => 7

/-- The bits of a number as a natural number. -/
def bits (n : Int) : Nat := (n % wordValues).toNat

def truth (b : Bool) : Int := if b then 1 else 0

/-- The value of an operation; there is none for a division by zero. -/
def Operator.apply? (op : Operator) (a b : Int) : Option Int :=
  match op with
  | multiply => some (wrap (a * b))
  | divide => if b = 0 then none else some (wrap (a.tdiv b))
  | remainder => if b = 0 then none else some (a.tmod b)
  | add => some (wrap (a + b))
  | subtract => some (wrap (a - b))
  | shiftLeft => some (wrap (a * (1 <<< (bits b % 64) : Nat)))
  | shiftRight => some (a >>> (bits b % 64))
  | less => some (truth (a < b))
  | lessEqual => some (truth (a ≤ b))
  | greater => some (truth (a > b))
  | greaterEqual => some (truth (a ≥ b))
  | equal => some (truth (a = b))
  | notEqual => some (truth (a ≠ b))
  | bitAnd => some (wrap (bits a &&& bits b))
  | bitXor => some (wrap (bits a ^^^ bits b))
  | bitOr => some (wrap (bits a ||| bits b))

/-- The signs, longer ones first. -/
def signs : List (String × Symbol) :=
  [("<<=", .assign (some .shiftLeft)), (">>=", .assign (some .shiftRight)),
   ("*=", .assign (some .multiply)), ("/=", .assign (some .divide)),
   ("%=", .assign (some .remainder)), ("+=", .assign (some .add)),
   ("-=", .assign (some .subtract)), ("&=", .assign (some .bitAnd)),
   ("^=", .assign (some .bitXor)), ("|=", .assign (some .bitOr)),
   ("<<", .operator .shiftLeft), (">>", .operator .shiftRight),
   ("<=", .operator .lessEqual), (">=", .operator .greaterEqual),
   ("==", .operator .equal), ("!=", .operator .notEqual), ("&&", .and), ("||", .or),
   ("*", .operator .multiply), ("/", .operator .divide), ("%", .operator .remainder),
   ("+", .operator .add), ("-", .operator .subtract), ("<", .operator .less),
   (">", .operator .greater), ("&", .operator .bitAnd), ("^", .operator .bitXor),
   ("|", .operator .bitOr), ("=", .assign none), ("!", .not), ("~", .bitNot),
   ("?", .question), (":", .colon), ("(", .leftParen), (")", .rightParen)]

/-- The symbols of an expression; nothing counts behind a character that is none. -/
def symbols : (fuel : Nat) → List Char → List Symbol
  | 0, _ | _, [] => []
  | fuel + 1, c :: cs =>
    if c = ' ' ∨ c = '\t' ∨ c = '\n' then symbols fuel cs
    else if c.isDigit then
      let (n, rest) := scanPrefixed (c :: cs)
      .number (min n greatestInteger) :: symbols fuel rest
    else if isNameStart c then
      .name (String.ofList ((c :: cs).takeWhile isNameChar)) ::
        symbols fuel ((c :: cs).dropWhile isNameChar)
    else match signs.find? fun (text, _) => text.toList.isPrefixOf (c :: cs) with
      | some (text, symbol) => symbol :: symbols fuel ((c :: cs).drop text.length)
      | none => [.bad]

inductive Fault where
  /-- A fault of the expression. -/
  | expression (message : String)
  /-- A variable whose value is no number. -/
  | illegalNumber (value : String)

structure State where
  rest : List Symbol
  /-- The variables that have been given a value, the last one first. -/
  assigned : List (String × Int) := []

abbrev Calculation := EStateM Fault State

/-- What a name stands for where the expression does not say. -/
abbrev Lookup := String → String

def fail {α : Type} (message : String) : Calculation α := throw (.expression message)

def peek : Calculation (Option Symbol) := do return (← get).rest.head?

def advance : Calculation Unit := modify fun s => { s with rest := s.rest.drop 1 }

def valueOf (lookup : Lookup) (name : String) : Calculation Int := do
  match (← get).assigned.lookup name with
  | some n => return n
  | none =>
    let value := lookup name
    match variableInteger? value with
    | some n => return n
    | none => throw (.illegalNumber value)

def apply (op : Operator) (a b : Int) : Calculation Int :=
  match op.apply? a b with
  | some n => return n
  | none => fail "division by zero"

/-- The rule for a whole expression, inside parentheses and elsewhere; the flag says whether the
value does not matter. -/
abbrev Whole := Bool → Calculation Int

/-- A number, a variable or an expression in parentheses, behind any signs. -/
def primary (whole : Whole) (lookup : Lookup) (idle : Bool) : (fuel : Nat) → Calculation Int
  | 0 => fail "expecting primary"
  | fuel + 1 => do
    let symbol ← peek
    advance
    match symbol with
    | some .leftParen =>
      let n ← whole idle
      if (← peek) ≠ some .rightParen then fail "expecting ')'"
      advance
      return n
    | some (.number n) => return n
    | some (.name x) => if idle then return 0 else valueOf lookup x
    | some (.operator .add) => primary whole lookup idle fuel
    | some (.operator .subtract) => return wrap (-(← primary whole lookup idle fuel))
    | some .not => return truth ((← primary whole lookup idle fuel) = 0)
    | some .bitNot => return -(← primary whole lookup idle fuel) - 1
    | _ => fail "expecting primary"

def operator? : Calculation (Option Operator) := do
  match ← peek with
  | some (.operator op) => return some op
  | _ => return none

/-- Operations from the left, as long as they bind more tightly than `rank`; `op` comes next and has
`a` on its left. -/
def operations (whole : Whole) (lookup : Lookup) (idle : Bool) :
    (fuel : Nat) → (a : Int) → (op : Operator) → (rank : Nat) → Calculation Int
  | 0, a, _, _ => return a
  | fuel + 1, a, op, rank => do
    advance
    let b ← primary whole lookup idle ((← get).rest.length + 1)
    let b ← match ← operator? with
      | some op' =>
        if op'.rank < op.rank then operations whole lookup idle fuel b op' op.rank else pure b
      | none => pure b
    let a ← if idle then pure b else apply op a b
    match ← operator? with
    | some op' =>
      if op'.rank < rank then operations whole lookup idle fuel a op' rank else return a
    | none => return a

def binary (whole : Whole) (lookup : Lookup) (idle : Bool) : Calculation Int := do
  let fuel := (← get).rest.length + 1
  let a ← primary whole lookup idle fuel
  match ← operator? with
  | some op => operations whole lookup idle fuel a op 8
  | none => return a

def conjunction (whole : Whole) (lookup : Lookup) : (fuel : Nat) → (idle : Bool) → Calculation Int
  | 0, _ => return 0
  | fuel + 1, idle => do
    let a ← binary whole lookup idle
    if (← peek) = some .and then
      advance
      let b ← conjunction whole lookup fuel (idle || a = 0)
      return truth (a ≠ 0 && b ≠ 0)
    else return a

def disjunction (whole : Whole) (lookup : Lookup) : (fuel : Nat) → (idle : Bool) → Calculation Int
  | 0, _ => return 0
  | fuel + 1, idle => do
    let a ← conjunction whole lookup ((← get).rest.length + 1) idle
    if (← peek) = some .or then
      advance
      let b ← disjunction whole lookup fuel (idle || a ≠ 0)
      return truth (a ≠ 0 || b ≠ 0)
    else return a

def conditional (whole : Whole) (lookup : Lookup) : (fuel : Nat) → (idle : Bool) → Calculation Int
  | 0, _ => return 0
  | fuel + 1, idle => do
    let a ← disjunction whole lookup ((← get).rest.length + 1) idle
    if (← peek) = some .question then
      advance
      let b ← whole (idle || a = 0)
      if (← peek) ≠ some .colon then fail "expecting ':'"
      advance
      let c ← conditional whole lookup fuel (idle || a ≠ 0)
      return if a ≠ 0 then b else c
    else return a

def assignment (lookup : Lookup) : (fuel : Nat) → Whole
  | 0, _ => return 0
  | fuel + 1, idle => do
    match (← get).rest with
    | .name x :: .assign op :: rest =>
      modify fun s => { s with rest }
      let n ← assignment lookup fuel idle
      if idle then return n
      let n ← match op with
        | none => pure n
        | some op => do apply op (← valueOf lookup x) n
      modify fun s => { s with assigned := (x, n) :: s.assigned }
      return n
    | rest => conditional (assignment lookup fuel) lookup (rest.length + 1) idle

/-- The value of an expression, and the variables that it gives a value, in order. -/
def evaluate (lookup : Lookup) (text : String) : Except String (Int × List (String × Int)) :=
  let cs := text.toList
  let rest := symbols cs.length cs
  let all : Calculation Int := do
    let n ← assignment lookup (rest.length + 2) false
    if (← peek).isSome then fail "expecting EOF"
    return n
  match all.run { rest } with
  | .ok n s => .ok (n, s.assigned.reverse)
  | .error (.expression message) _ =>
    .error ("arithmetic expression: " ++ message ++ ": \"" ++ text ++ "\"")
  | .error (.illegalNumber value) _ => .error (Shell.illegalNumber value)

end Shellwright.Shell.Arithmetic
