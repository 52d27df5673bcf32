/-!
# Expressions

String and number literals, variables and calls. An expression is written as it is read, with the
arguments of a call separated by a comma and a space.
-/
namespace Shellwright

inductive Expr where
  | string (text : String)
  | number (digits : String)
  | var (name : String)
  | call (name : String) (args : List Expr)

namespace Expr

mutual

def decEq : (a b : Expr) → Decidable (a = b)
  | string s, string t => decidable_of_iff (s = t) (by simp)
  | number s, number t => decidable_of_iff (s = t) (by simp)
  | var s, var t => decidable_of_iff (s = t) (by simp)
  | call f as, call g bs =>
    have := decEqList as bs
    decidable_of_iff (f = g ∧ as = bs) (by simp)
  | string _, number _ | string _, var _ | string _, call _ _
  | number _, string _ | number _, var _ | number _, call _ _
  | var _, string _ | var _, number _ | var _, call _ _
  | call _ _, string _ | call _ _, number _ | call _ _, var _ => isFalse (by simp)

def decEqList : (as bs : List Expr) → Decidable (as = bs)
  | [], [] => isTrue rfl
  | a :: as, b :: bs =>
    have := decEq a b
    have := decEqList as bs
    decidable_of_iff (a = b ∧ as = bs) (by simp)
  | [], _ :: _ | _ :: _, [] => isFalse (by simp)

end

instance : DecidableEq Expr := decEq

mutual

/-- The source form. -/
def text : Expr → String
  | string text => "\"" ++ text ++ "\""
  | number digits => digits
  | var name => name
  | call name args => name ++ "(" ++ ", ".intercalate (texts args) ++ ")"

def texts : List Expr → List String
  | [] => []
  | e :: es => e.text :: texts es

end

@[simp] theorem texts_eq_map (es : List Expr) : texts es = es.map text := by
  induction es with
  | nil => rfl
  | cons e es ih => simp [texts, ih]

end Expr

end Shellwright
