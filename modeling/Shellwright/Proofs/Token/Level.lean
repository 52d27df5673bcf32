import Mathlib.Data.List.Infix
import Shellwright.Token

/-!
# Levels

An opening brace or parenthesis begins a level, and a closing one ends a level that has been begun.
Where levels are limited, the first opener that comes when the limit is reached is one too many.

## Main definitions

* `Token.unclosed`: how many levels are open behind tokens.
* `Token.excess`: the first opener that begins a level too many, with what follows it.
* `Token.Leads`: tokens that stay within the limit, and the level they lead to.

## Main statements

* `Token.exists_of_excess`: such an opener has exactly the limit of unclosed openers before it, and
  no opener before it has.
* `Token.excess_eq_none_of_within`: there is none where no more levels than the limit are open.
-/
namespace Shellwright.Token

namespace Kind

def opens (k : Kind) : Bool := k = symbol '\x7b' || k = symbol '('

def closes (k : Kind) : Bool := k = symbol '\x7d' || k = symbol ')'

end Kind

/-- The level behind a token that stands at level `n`. What closes nothing changes nothing. -/
def levelAfter (n : Nat) (k : Kind) : Nat :=
  if k.opens then n + 1 else if k.closes then n - 1 else n

/-- How many openers among the tokens are not closed by a later one of them. -/
def unclosed (ks : List Kind) : Nat := ks.foldl levelAfter 0

/-- At no place among the tokens more than `limit` openers are unclosed. -/
def Within (limit : Nat) (ks : List Kind) : Prop := ∀ x ∈ ks.inits, unclosed x ≤ limit

instance (limit : Nat) : DecidablePred (Within limit) := fun ks =>
  inferInstanceAs (Decidable (∀ x ∈ ks.inits, unclosed x ≤ limit))

/-- The tokens from the first opener on that comes when `limit` levels are open, of which `n` have
been opened before. -/
def excess (limit n : Nat) : List Kind → Option (List Kind)
  | [] => none
  | k :: ks => if k.opens ∧ n = limit then some (k :: ks) else excess limit (levelAfter n k) ks

variable {limit n m : Nat} {k : Kind} {x y ks rest : List Kind}

theorem exists_of_excess (h : excess limit n ks = some rest) :
    ∃ before k after, ks = before ++ k :: after ∧ rest = k :: after ∧ k.opens = true ∧
      before.foldl levelAfter n = limit ∧
      ∀ x j y, before = x ++ j :: y → j.opens = true → x.foldl levelAfter n ≠ limit := by
  induction ks generalizing n with
  | nil => cases h
  | cons k ks ih =>
    rw [excess] at h
    split at h
    · rename_i hk
      cases h
      exact ⟨[], k, ks, rfl, rfl, hk.1, hk.2, by simp⟩
    · rename_i hk
      obtain ⟨before, j, after, rfl, rfl, hj, hlevel, hfirst⟩ := ih h
      refine ⟨k :: before, j, after, rfl, rfl, hj, hlevel, fun x i y hx hi hn => ?_⟩
      cases x with
      | nil =>
        obtain ⟨rfl, -⟩ := List.cons.inj hx
        exact hk ⟨hi, hn⟩
      | cons l x =>
        obtain ⟨rfl, hbefore⟩ := List.cons.inj hx
        exact hfirst x i y hbefore hi hn

theorem excess_eq_none_of_within (h : Within limit ks) : excess limit 0 ks = none := by
  by_contra hne
  obtain ⟨rest, hrest⟩ := Option.ne_none_iff_exists'.1 hne
  obtain ⟨before, k, after, rfl, -, hk, hlevel, -⟩ := exists_of_excess hrest
  have hle := h (before ++ [k]) ((List.mem_inits _ _).2 ⟨after, by simp⟩)
  rw [unclosed, List.foldl_append, hlevel, List.foldl_cons, List.foldl_nil, levelAfter,
    if_pos hk] at hle
  omega

/-! ## Tokens within the limit -/

/-- The tokens `x`, begun at level `n`, open no level too many and end at level `m`. -/
def Leads (limit n : Nat) (x : List Kind) (m : Nat) : Prop :=
  ∀ rest, excess limit n (x ++ rest) = excess limit m rest

theorem Leads.nil : Leads limit n [] n := fun _ => rfl

theorem Leads.append {l : Nat} (h : Leads limit n x m) (g : Leads limit m y l) :
    Leads limit n (x ++ y) l := by
  intro rest
  rw [List.append_assoc, h, g]

theorem Leads.neutral (h : Leads limit n x m) (hopens : k.opens = false)
    (hcloses : k.closes = false) : Leads limit n (k :: x) m := by
  intro rest
  simp [excess, levelAfter, hopens, hcloses, h rest]

theorem Leads.opener (h : Leads limit (n + 1) x m) (hk : k.opens = true) (hn : n < limit) :
    Leads limit n (k :: x) m := by
  intro rest
  simp [excess, levelAfter, hk, Nat.ne_of_lt hn, h rest]

theorem Leads.closer (hopens : k.opens = false) (hcloses : k.closes = true) :
    Leads limit (n + 1) [k] n := by
  intro rest
  simp [excess, levelAfter, hopens, hcloses]

end Shellwright.Token
