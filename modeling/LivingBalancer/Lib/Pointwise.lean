import Mathlib.Data.List.Forall2

/-!
# Pointwise related lists

Composition and membership for `List.Forall₂`, as used to follow a list whose
entries are rewritten in place.
-/

namespace Pointwise

universe u v w
variable {α : Type u} {β : Type v} {γ : Type w}

theorem comp {R : α → β → Prop} {S : β → γ → Prop} {T : α → γ → Prop}
    (compose : ∀ a b c, R a b → S b c → T a c) {xs : List α} {ys : List β} {zs : List γ}
    (h : List.Forall₂ R xs ys) (k : List.Forall₂ S ys zs) : List.Forall₂ T xs zs := by
  induction h generalizing zs with
  | nil =>
    cases k
    exact .nil
  | cons hab _ ih =>
    cases k with
    | cons hbc htail => exact .cons (compose _ _ _ hab hbc) (ih htail)

theorem exists_left {R : α → β → Prop} {xs : List α} {ys : List β} (h : List.Forall₂ R xs ys)
    {y : β} (hy : y ∈ ys) : ∃ x ∈ xs, R x y := by
  induction h with
  | nil => cases hy
  | cons hab _ ih =>
    rcases List.mem_cons.mp hy with rfl | htail
    · exact ⟨_, List.mem_cons_self, hab⟩
    · obtain ⟨x, hx, hxy⟩ := ih htail
      exact ⟨x, List.mem_cons_of_mem _ hx, hxy⟩

theorem exists_right {R : α → β → Prop} {xs : List α} {ys : List β} (h : List.Forall₂ R xs ys)
    {x : α} (hx : x ∈ xs) : ∃ y ∈ ys, R x y := by
  obtain ⟨y, hy, flipped⟩ := exists_left h.flip hx
  exact ⟨y, hy, flipped⟩

end Pointwise
