import Mathlib.Data.List.Forall2

/-!
# Lists in pairs

What follows for whole lists from a relation between their items. A list that is worked off item by
item is paired with the list of the results; these facts carry over from one to the other what holds
of every pair.
-/
namespace List.Forall₂

variable {α β γ : Type} {R S : α → β → Prop} {as : List α} {bs : List β}

theorem imp_of_mem (h : Forall₂ R as bs) (hS : ∀ a ∈ as, ∀ b, R a b → S a b) : Forall₂ S as bs :=
  ((forall₂_and_left as bs).2 ⟨fun _ => id, h⟩).imp fun a b hab => hS a hab.1 b hab.2

theorem forall_mem {Q : β → Prop} (h : Forall₂ R as bs) (hQ : ∀ a ∈ as, ∀ b, R a b → Q b) :
    ∀ b ∈ bs, Q b := by
  have hpairs : Forall₂ (fun b a => Q b ∧ R a b) bs as :=
    .flip (h.imp_of_mem fun a ha b hab => ⟨hQ a ha b hab, hab⟩)
  exact ((forall₂_and_left bs as).1 hpairs).1

theorem exists_mem (h : Forall₂ R as bs) {a : α} (ha : a ∈ as) : ∃ b ∈ bs, R a b := by
  have hflip : Forall₂ (fun b a => R a b) bs as := h.flip
  exact hflip.forall_mem (Q := fun a => ∃ b ∈ bs, R a b) (fun b hb _ hab => ⟨b, hb, hab⟩) a ha

theorem map_eq {f : α → γ} {g : β → γ} (h : Forall₂ (fun a b => g b = f a) as bs) :
    bs.map g = as.map f := by
  rw [← forall₂_eq_eq_eq, forall₂_map_left_iff, forall₂_map_right_iff]
  exact h.flip

theorem forall_mem_and_map_eq {Q : β → Prop} {f : α → γ} {g : β → γ} (h : Forall₂ R as bs)
    (step : ∀ a ∈ as, ∀ b, R a b → Q b ∧ g b = f a) :
    (∀ b ∈ bs, Q b) ∧ bs.map g = as.map f :=
  ⟨h.forall_mem fun a ha b hab => (step a ha b hab).1,
    (h.imp_of_mem fun a ha b hab => (step a ha b hab).2).map_eq⟩

theorem all_eq {f : α → Bool} {g : β → Bool} (h : Forall₂ (fun a b => g b = f a) as bs) :
    bs.all g = as.all f := by
  simpa [List.all_map] using congrArg (List.all · id) h.map_eq

theorem flatMap_eq {f : α → List γ} {g : β → List γ} (h : Forall₂ (fun a b => g b = f a) as bs) :
    bs.flatMap g = as.flatMap f := by
  rw [List.flatMap_def, List.flatMap_def, h.map_eq]

/-- What is found for each pair is found for all of them. -/
theorem exists_map_eq {P : α → γ → Prop} {Q : γ → Prop} {f : γ → β} (h : Forall₂ R as bs)
    (step : ∀ {a b}, R a b → ∃ x, P a x ∧ Q x ∧ f x = b) :
    ∃ xs, Forall₂ P as xs ∧ (∀ x ∈ xs, Q x) ∧ xs.map f = bs := by
  induction h with
  | nil => exact ⟨[], .nil, by simp, rfl⟩
  | cons hab _ ih =>
    obtain ⟨x, hP, hQ, rfl⟩ := step hab
    obtain ⟨xs, hPs, hQs, rfl⟩ := ih
    exact ⟨x :: xs, .cons hP hPs, by simpa using ⟨hQ, hQs⟩, rfl⟩

end List.Forall₂
