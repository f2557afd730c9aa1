import Mathlib.Algebra.Order.Group.Defs
import Mathlib.Data.List.Basic

/-!
# Stamps in a sliding window

A list of stamps is sparse if no closed window of the width holds more than `limit` of them.
Adding a stamp keeps that if the window that ends there has room.
-/

namespace SlidingWindow

universe u
variable {T : Type u} [LinearOrder T]

/-- The stamps from `start` on. -/
def since (start : T) (stamps : List T) : List T := stamps.filter fun t => start ≤ t

@[simp]
theorem mem_since {start t : T} {stamps : List T} :
    t ∈ since start stamps ↔ t ∈ stamps ∧ start ≤ t := by
  simp [since]

/-- A window that starts after one of its stamps holds fewer of them. -/
theorem length_since_lt {start start' t : T} {stamps : List T} (ht : t ∈ since start stamps)
    (gone : t < start') (later : start ≤ start') :
    (since start' stamps).length < (since start stamps).length := by
  have again : since start' (since start stamps) = since start' stamps := by
    simp only [since, List.filter_filter]
    refine List.filter_congr fun t _ => ?_
    by_cases h : start' ≤ t
    · simp [h, later.trans h]
    · simp [h]
  rw [← again]
  exact List.length_filter_lt_length_iff_exists.mpr ⟨t, ht, by simpa using gone⟩

/-- A window that starts no later than its oldest stamp holds the same stamps. -/
theorem since_eq {start start' : T} {stamps : List T} (later : start ≤ start')
    (oldest : ∀ t ∈ since start stamps, start' ≤ t) : since start' stamps = since start stamps := by
  refine List.filter_congr fun t ht => ?_
  by_cases h : start ≤ t
  · simp [h, oldest t (mem_since.mpr ⟨ht, h⟩)]
  · simp [h, (lt_of_not_ge h).trans_le later]

variable [AddCommGroup T] [IsOrderedAddMonoid T]

def Sparse (width : T) (limit : ℕ) (stamps : List T) : Prop :=
  ∀ start, (stamps.filter fun t => start ≤ t ∧ t ≤ start + width).length ≤ limit

omit [IsOrderedAddMonoid T] in
theorem Sparse.nil (width : T) (limit : ℕ) : Sparse width limit [] := fun _ => Nat.zero_le _

theorem Sparse.cons {width now : T} {limit : ℕ} {stamps : List T} (sparse : Sparse width limit stamps)
    (room : (since (now - width) stamps).length < limit) : Sparse width limit (now :: stamps) := by
  intro start
  by_cases inside : start ≤ now ∧ now ≤ start + width
  · have fewer : (stamps.filter fun t => start ≤ t ∧ t ≤ start + width).length ≤
        (since (now - width) stamps).length := by
      refine (List.monotone_filter_right stamps fun t ht => ?_).length_le
      rw [decide_eq_true_eq] at ht ⊢
      exact (sub_le_iff_le_add.mpr inside.2).trans ht.1
    rw [List.filter_cons_of_pos (by simpa using inside), List.length_cons]
    omega
  · rw [List.filter_cons_of_neg (by simpa using inside)]
    exact sparse start

/-- The window that ends now is never over the limit. -/
theorem Sparse.since_le {width now : T} {limit : ℕ} {stamps : List T}
    (sparse : Sparse width limit stamps) (past : ∀ t ∈ stamps, t ≤ now) :
    (since (now - width) stamps).length ≤ limit := by
  have same : since (now - width) stamps =
      stamps.filter fun t => now - width ≤ t ∧ t ≤ now - width + width := by
    refine List.filter_congr fun t ht => ?_
    simp [past t ht]
  rw [same]
  exact sparse _

end SlidingWindow
