import Mathlib.Data.String.Basic
import LivingBalancer.Balancer.Calls
import LivingBalancer.Lib.Shares

/-!
# Cluster-wide account caps

`cap_partitioning.py` and the caps the balancer enforces. Every replica divides the
configured caps by its own view of the bridge ring; a view that would enlarge a share is
adopted only after it was seen for a while. One `RingEvent` is one refresh, with the
reading of the monotonic clock it makes.
-/

namespace CapPartitioning

open Balancer Runs Shares

def partitionCap (cap : ℤ) (replicaCount rank : ℕ) : ℤ :=
  if cap ≤ 0 then 0
  else if replicaCount ≤ 1 then cap
  else max 1 (share cap replicaCount rank)

structure CapPartition where
  replicaCount : ℕ := 1
  rank : ℕ := 0
  deriving DecidableEq

def CapPartition.share (p : CapPartition) (cap : ℤ) : ℤ := partitionCap cap p.replicaCount p.rank

/-- What `observe_members` makes of an active member list. -/
def observedPartition (activeInstanceIds : List String) (selfInstanceId : String) : CapPartition :=
  let members := ranking (selfInstanceId :: activeInstanceIds)
  { replicaCount := members.length, rank := members.idxOf selfInstanceId }

inductive CapsScope where
  | partitioned
  | replica
  deriving DecidableEq

def effectiveAccountConcurrencyCaps (scope : CapsScope) (partition : CapPartition)
    (configured : LeaseKind → ℤ) : AccountConcurrencyCaps :=
  if scope = .replica ∨ partition.replicaCount ≤ 1 then
    { responseCreateLimit := configured .responseCreate, streamLimit := configured .stream }
  else
    { responseCreateLimit := partition.share (configured .responseCreate)
      streamLimit := partition.share (configured .stream)
      configuredResponseCreateLimit := some (configured .responseCreate)
      configuredStreamLimit := some (configured .stream)
      replicaCount := partition.replicaCount }

/-! ## Shares -/

theorem partitionCap_pos {cap : ℤ} (positive : 0 < cap) (replicaCount rank : ℕ) :
    1 ≤ partitionCap cap replicaCount rank := by
  simp only [partitionCap]
  split_ifs
  · omega
  · omega
  · exact le_max_left _ _

/-- With fewer slots than replicas every share is the floor of one slot. -/
theorem partitionCap_of_lt {cap : ℤ} {replicaCount rank : ℕ} (positive : 0 < cap)
    (fewer : cap < replicaCount) : partitionCap cap replicaCount rank = 1 := by
  have base : cap / replicaCount = 0 := Int.ediv_eq_zero_of_lt positive.le fewer
  have bound := (share_floor cap replicaCount rank).2
  simp only [partitionCap]
  split_ifs
  · omega
  · omega
  · exact max_eq_left (by omega)

theorem partitionCap_of_le {cap : ℤ} {replicaCount rank : ℕ} (alive : 0 < replicaCount)
    (enough : (replicaCount : ℤ) ≤ cap) :
    partitionCap cap replicaCount rank = Shares.share cap replicaCount rank := by
  have base : 1 ≤ cap / replicaCount := Int.le_ediv_of_mul_le (by omega) (by omega)
  have bound := (share_floor cap replicaCount rank).1
  simp only [partitionCap]
  split_ifs with none one
  · omega
  · obtain rfl : replicaCount = 1 := by omega
    simp [Shares.share]
  · exact max_eq_right (by omega)

theorem partitionCap_even (cap : ℤ) {replicaCount : ℕ} (alive : 0 < replicaCount) (rank rank' : ℕ) :
    partitionCap cap replicaCount rank ≤ partitionCap cap replicaCount rank' + 1 := by
  by_cases unlimited : cap ≤ 0
  · simp [partitionCap, unlimited]
  · by_cases enough : (replicaCount : ℤ) ≤ cap
    · rw [partitionCap_of_le alive enough, partitionCap_of_le alive enough]
      have high := (share_floor cap replicaCount rank).2
      have low := (share_floor cap replicaCount rank').1
      omega
    · rw [partitionCap_of_lt (by omega) (by omega), partitionCap_of_lt (by omega) (by omega)]
      omega

theorem sum_partitionCap {cap : ℤ} (positive : 0 < cap) {replicaCount : ℕ}
    (alive : 0 < replicaCount) :
    ∑ rank ∈ Finset.range replicaCount, partitionCap cap replicaCount rank =
      max cap replicaCount := by
  by_cases enough : (replicaCount : ℤ) ≤ cap
  · rw [max_eq_left enough, Finset.sum_congr rfl fun rank _ => partitionCap_of_le alive enough]
    exact sum_share cap alive
  · rw [max_eq_right (by omega),
      Finset.sum_congr rfl fun rank _ => partitionCap_of_lt positive (by omega)]
    simp

/-- Every member has adopted its own rank in the ring. -/
def Agreed (members : Finset String) (adopted : String → CapPartition) : Prop :=
  ∀ m ∈ members, ∃ active : List String, (∀ id, id ∈ m :: active ↔ id ∈ members) ∧
    adopted m = observedPartition active m

/-- A limit of zero admits every lease. -/
theorem unlimited_of_limit {caps : AccountConcurrencyCaps} {kind : LeaseKind}
    (zero : caps.limit kind = 0) (streamReserveSlots : ℤ) :
    (∀ rt, accountLeaseAllowed caps kind streamReserveSlots rt = true) ∧
      ∀ s, underAccountCap caps (some kind) streamReserveSlots s = true := by
  constructor
  · intro rt
    simp [accountLeaseAllowed, zero]
  · intro s
    simp [underAccountCap, zero]

theorem effective_limit_zero {scope : CapsScope} {partition : CapPartition}
    {configured : LeaseKind → ℤ} {kind : LeaseKind} (zero : configured kind = 0) :
    (effectiveAccountConcurrencyCaps scope partition configured).limit kind = 0 := by
  simp only [effectiveAccountConcurrencyCaps]
  split <;> cases kind <;>
    simp [AccountConcurrencyCaps.limit, CapPartition.share, partitionCap, zero]

/-- For every replica of a ring: the shares of a positive cap add up to the cap, or to one slot
for each replica, and no share differs from its own by more than one; a cap of zero is no limit. -/
theorem shares_fill_cap {members : Finset String} {adopted : String → CapPartition}
    (agreed : Agreed members adopted) :
    ∀ m ∈ members,
      (∀ cap : ℤ, 0 < cap → ∑ m' ∈ members, (adopted m').share cap = max cap members.card ∧
        1 ≤ (adopted m).share cap ∧
        ∀ m' ∈ members, |(adopted m).share cap - (adopted m').share cap| ≤ 1) ∧
      ∀ scope configured kind, configured kind = 0 → ∀ streamReserveSlots,
        (∀ rt, accountLeaseAllowed (effectiveAccountConcurrencyCaps scope (adopted m) configured)
          kind streamReserveSlots rt = true) ∧
        ∀ s, underAccountCap (effectiveAccountConcurrencyCaps scope (adopted m) configured)
          (some kind) streamReserveSlots s = true := by
  intro m hm
  obtain ⟨active, same, -⟩ := agreed m hm
  have alive : 0 < members.card := Finset.card_pos.mpr ⟨m, hm⟩
  have ranked : ∀ cap, ∀ m' ∈ members, (adopted m').share cap =
      partitionCap cap members.card ((ranking (m :: active)).idxOf m') := by
    intro cap m' hm'
    obtain ⟨active', same', heq⟩ := agreed m' hm'
    rw [heq, CapPartition.share, observedPartition, length_ranking same',
      ranking_congr fun id => (same' id).trans (same id).symm]
  constructor
  · intro cap positive
    refine ⟨?_, partitionCap_pos positive _ _, fun m' hm' => ?_⟩
    · rw [Finset.sum_congr rfl (ranked cap), sum_by_rank same, sum_partitionCap positive alive]
    · rw [ranked cap m hm, ranked cap m' hm', abs_le]
      have up := partitionCap_even cap alive ((ranking (m :: active)).idxOf m)
        ((ranking (m :: active)).idxOf m')
      have down := partitionCap_even cap alive ((ranking (m :: active)).idxOf m')
        ((ranking (m :: active)).idxOf m)
      constructor <;> omega
  · intro scope configured kind zero streamReserveSlots
    exact unlimited_of_limit (effective_limit_zero zero) streamReserveSlots

theorem three_replicas_share_seven :
    Agreed {"a", "b", "c"} (observedPartition ["c", "a", "b"]) ∧
      ∑ m ∈ {"a", "b", "c"}, (observedPartition ["c", "a", "b"] m).share 7 = 7 := by
  have agreed : Agreed {"a", "b", "c"} (observedPartition ["c", "a", "b"]) := by
    intro m hm
    refine ⟨["c", "a", "b"], fun id => ?_, rfl⟩
    simp only [Finset.mem_insert, Finset.mem_singleton, List.mem_cons, List.not_mem_nil] at hm ⊢
    constructor
    · rintro (rfl | rfl | rfl | rfl | h)
      · exact hm
      · exact .inr (.inr rfl)
      · exact .inl rfl
      · exact .inr (.inl rfl)
      · exact h.elim
    · rintro (rfl | rfl | rfl) <;> simp
  exact ⟨agreed, ((shares_fill_cap agreed "a" (by decide)).1 7 (by decide)).1⟩

end CapPartitioning
