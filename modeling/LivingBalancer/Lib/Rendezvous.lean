import Mathlib.Data.List.MinMax
import Mathlib.Data.Set.Defs

/-!
# Highest score wins

A key is given to the node with the highest score for it, the least of the nodes that share
that score. What is chosen from a set is chosen from every part of the set that it is in, so a
choice changes only when the old one leaves or the new one comes.
-/

namespace Rendezvous

universe u v
variable {Node : Type u} {Score : Type v} [LinearOrder Node] [LinearOrder Score]
variable {score : Node → Score} {S T : Set Node} {m n : Node}

def Beats (score : Node → Score) (m a : Node) : Prop :=
  score a < score m ∨ score a = score m ∧ m ≤ a

def Chosen (score : Node → Score) (S : Set Node) (m : Node) : Prop :=
  m ∈ S ∧ ∀ a ∈ S, Beats score m a

theorem Beats.antisymm (h : Beats score m n) (h' : Beats score n m) : m = n := by
  rcases h with less | ⟨same, low⟩
  · rcases h' with less' | ⟨same, -⟩
    · exact absurd less less'.not_gt
    · exact absurd same less.ne'
  · rcases h' with less | ⟨-, high⟩
    · exact absurd same less.ne'
    · exact le_antisymm low high

/-- Of two different choices, the one is gone or the other is new. -/
theorem Chosen.moved (h : Chosen score S m) (h' : Chosen score T n) (differ : m ≠ n) :
    m ∉ T ∨ n ∉ S := by
  by_contra both
  rw [not_or, not_not, not_not] at both
  exact differ ((h.2 n both.2).antisymm (h'.2 m both.1))

/-- In a sorted list the first of the nodes with the highest score is the least of them. -/
theorem argmax_eq_some {nodes : List Node} (sorted : nodes.Pairwise (· < ·)) :
    nodes.argmax score = some m ↔ Chosen score {a | a ∈ nodes} m := by
  have order : ∀ {a b}, a ∈ nodes → b ∈ nodes → (nodes.idxOf a ≤ nodes.idxOf b ↔ a ≤ b) := by
    intro a b ha hb
    have at_a := List.getElem_idxOf (List.idxOf_lt_length_of_mem ha)
    have at_b := List.getElem_idxOf (List.idxOf_lt_length_of_mem hb)
    have before := List.pairwise_iff_getElem.mp sorted
    constructor
    · intro low
      rcases low.lt_or_eq with less | same
      · have lt := before _ _ (List.idxOf_lt_length_of_mem ha) (List.idxOf_lt_length_of_mem hb) less
        rw [at_a, at_b] at lt
        exact lt.le
      · exact ((List.idxOf_inj ha).mp same).le
    · intro low
      by_contra high
      have lt := before _ _ (List.idxOf_lt_length_of_mem hb) (List.idxOf_lt_length_of_mem ha)
        (Nat.lt_of_not_le high)
      rw [at_a, at_b] at lt
      exact absurd low lt.not_ge
  rw [List.argmax_eq_some_iff]
  constructor
  · rintro ⟨mem, greatest, earliest⟩
    refine ⟨mem, fun a ha => ?_⟩
    rcases (greatest a ha).lt_or_eq with less | same
    · exact Or.inl less
    · exact Or.inr ⟨same, (order mem ha).mp (earliest a ha same.ge)⟩
  · rintro ⟨mem, beats⟩
    refine ⟨mem, fun a ha => ?_, fun a ha high => ?_⟩
    · exact (beats a ha).elim le_of_lt fun h => h.1.le
    · rcases beats a ha with less | ⟨-, low⟩
      · exact absurd high less.not_ge
      · exact (order mem ha).mpr low

end Rendezvous
