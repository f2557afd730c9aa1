import Mathlib.Algebra.BigOperators.Intervals
import Mathlib.Algebra.Order.BigOperators.Group.Finset
import Mathlib.Data.List.Sort
import Mathlib.Tactic.Ring

/-!
# Dividing a total over ranked members

A rank is a position in the sorted list of the members. A share is the floor of the even
share, with one more for the ranks below the remainder.
-/

namespace Shares

universe u
variable {Id : Type u} [LinearOrder Id]

def ranking (ids : List Id) : List Id := ids.dedup.insertionSort (· ≤ ·)

@[simp]
theorem mem_ranking {ids : List Id} {m : Id} : m ∈ ranking ids ↔ m ∈ ids := by
  simp [ranking]

theorem nodup_ranking (ids : List Id) : (ranking ids).Nodup :=
  (List.perm_insertionSort _ _).nodup_iff.mpr (List.nodup_dedup ids)

/-- The ranking depends only on which ids there are. -/
theorem ranking_congr {ids ids' : List Id} (same : ∀ m, m ∈ ids ↔ m ∈ ids') :
    ranking ids = ranking ids' := by
  have perm : (ranking ids).Perm (ranking ids') :=
    (List.perm_ext_iff_of_nodup (nodup_ranking ids) (nodup_ranking ids')).mpr fun m => by
      rw [mem_ranking, mem_ranking, same m]
  exact perm.eq_of_pairwise' (List.pairwise_insertionSort _ _) (List.pairwise_insertionSort _ _)

theorem length_ranking {ids : List Id} {members : Finset Id} (same : ∀ m, m ∈ ids ↔ m ∈ members) :
    (ranking ids).length = members.card := by
  have hset : (ranking ids).toFinset = members := by
    ext m
    rw [List.mem_toFinset, mem_ranking, same]
  rw [← hset, List.toFinset_card_of_nodup (nodup_ranking ids)]

/-- Every rank is taken once. -/
theorem sum_by_rank {M : Type*} [AddCommMonoid M] {ids : List Id} {members : Finset Id}
    (same : ∀ m, m ∈ ids ↔ m ∈ members) (f : ℕ → M) :
    ∑ m ∈ members, f ((ranking ids).idxOf m) = ∑ rank ∈ Finset.range members.card, f rank := by
  have ranked : ∀ {m}, m ∈ members → m ∈ ranking ids := fun hm => mem_ranking.mpr ((same _).mpr hm)
  refine Finset.sum_bij (fun m _ => (ranking ids).idxOf m) ?_ ?_ ?_ fun _ _ => rfl
  · intro m hm
    rw [Finset.mem_range, ← length_ranking same]
    exact List.idxOf_lt_length_of_mem (ranked hm)
  · intro m hm m' _ heq
    exact (List.idxOf_inj (ranked hm)).mp heq
  · intro rank hrank
    rw [Finset.mem_range, ← length_ranking same] at hrank
    refine ⟨(ranking ids)[rank], (same _).mp (mem_ranking.mp (List.getElem_mem hrank)), ?_⟩
    exact (nodup_ranking ids).idxOf_getElem rank hrank

def share (total : ℤ) (count rank : ℕ) : ℤ :=
  total / count + if (rank : ℤ) < total % count then 1 else 0

theorem share_floor (total : ℤ) (count rank : ℕ) :
    total / count ≤ share total count rank ∧ share total count rank ≤ total / count + 1 := by
  simp only [share]
  constructor <;> split <;> omega

theorem sum_share (total : ℤ) {count : ℕ} (positive : 0 < count) :
    ∑ rank ∈ Finset.range count, share total count rank = total := by
  have low : 0 ≤ total % count := Int.emod_nonneg total (by omega)
  have high : total % count < count := Int.emod_lt_of_pos total (by omega)
  obtain ⟨r, hr⟩ := Int.eq_ofNat_of_zero_le low
  have extra : ∑ rank ∈ Finset.range count, (if (rank : ℤ) < total % count then (1 : ℤ) else 0) =
      r := by
    have below : (Finset.range count).filter (fun rank : ℕ => (rank : ℤ) < total % count) =
        Finset.range r := by
      ext rank
      simp only [Finset.mem_filter, Finset.mem_range, hr]
      omega
    rw [← Finset.sum_filter, below]
    simp
  simp only [share]
  rw [Finset.sum_add_distrib, extra, Finset.sum_const, Finset.card_range, nsmul_eq_mul, ← hr]
  exact Int.mul_ediv_add_emod total count

end Shares
