/-!
# Numbers

How the shell reads and counts with numbers: they are signed and have 64 bits.
-/
namespace Shellwright.Shell

def isSpace (c : Char) : Bool := c = ' ' || ('\t' ≤ c && c ≤ '\r')

/-- The value of a digit, which may be a letter. -/
def digitValue? (base : Nat) (c : Char) : Option Nat :=
  let v := if c.isDigit then c.toNat - 48
    else if 'a' ≤ c ∧ c ≤ 'z' then c.toNat - 87
    else if 'A' ≤ c ∧ c ≤ 'Z' then c.toNat - 55
    else base
  if v < base then some v else none

/-- The number that a text begins with, and what follows it. -/
def scanDigits (base : Nat) : (value : Nat) → List Char → Nat × List Char
  | value, [] => (value, [])
  | value, c :: cs => match digitValue? base c with
    | some v => scanDigits base (value * base + v) cs
    | none => (value, c :: cs)

/-- The same for a base that the text shows: sixteen behind `0x`, eight behind `0`, or ten. -/
def scanPrefixed : List Char → Nat × List Char
  | '0' :: x :: c :: cs =>
    if (x = 'x' ∨ x = 'X') ∧ (digitValue? 16 c).isSome then scanDigits 16 0 (c :: cs)
    else scanDigits 8 0 ('0' :: x :: c :: cs)
  | '0' :: cs => scanDigits 8 0 ('0' :: cs)
  | cs => scanDigits 10 0 cs

/-- The number of values that 64 bits have. -/
def wordValues : Nat := 0x10000000000000000

def leastInteger : Int := -0x8000000000000000

def greatestInteger : Int := 0x7FFFFFFFFFFFFFFF

/-- A number cut off to 64 bits. -/
def wrap (n : Int) : Int := Int.bmod n wordValues

/-- The value of a text that is a number from its first to its last character, apart from space
around it and a sign. Without a number it is zero if `blank` allows that. -/
def integerBy? (scan : List Char → Nat × List Char) (blank : Bool) (text : String) : Option Int :=
  let cs := text.toList.dropWhile isSpace
  let (negative, digits) := match cs with
    | '-' :: cs => (true, cs)
    | '+' :: cs => (false, cs)
    | cs => (false, cs)
  if ¬ (digits.head?.any Char.isDigit) then
    if blank ∧ cs = [] then some 0 else none
  else
    let (n, rest) := scan digits
    let value : Int := if negative then -n else n
    if rest.all isSpace ∧ leastInteger ≤ value ∧ value ≤ greatestInteger then some value else none

/-- The value of a decimal number. -/
def integer? : String → Option Int := integerBy? (scanDigits 10 0) false

/-- The value of a variable in arithmetic. -/
def variableInteger? : String → Option Int := integerBy? scanPrefixed true

/-- The value of a number that is not negative and has 31 bits. -/
def natural? (text : String) : Option Nat :=
  (integer? text).bind fun n => if 0 ≤ n ∧ n < 0x80000000 then some n.toNat else none

def illegalNumber (text : String) : String := "Illegal number: " ++ text

end Shellwright.Shell
