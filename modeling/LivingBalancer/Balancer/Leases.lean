import Mathlib.Algebra.Order.BigOperators.Group.List
import Mathlib.Logic.Relation
import LivingBalancer.Balancer.Runtime

/-!
# Lease accounting of the runtime table

`LeaseMove` says once what the uninterrupted bodies of the balancer do to leases:
nothing, one acquisition, or one release. `Ledger` is the accounting invariant and
is kept by every sequence of moves whose acquisitions use fresh ids.
-/

namespace Balancer

def leaseAt (rt : RuntimeState) (leaseId : String) : Option AccountLease :=
  rt.leases.bind (·.get leaseId)

def heldOfKind (kind : LeaseKind) (rt : RuntimeState) : Nat :=
  (heldLeases rt).countP fun l => decide (l.kind = kind)

def heldTokens (rt : RuntimeState) : ℚ := ((heldLeases rt).map (·.estimatedTokens)).sum

/-- The counters of one runtime entry agree with its lease map. -/
structure Balanced (id : String) (rt : RuntimeState) : Prop where
  responseCreates : rt.inflightResponseCreates = heldOfKind .responseCreate rt
  streams : rt.inflightStreams = heldOfKind .stream rt
  tokens : rt.leasedTokens = heldTokens rt
  own : ∀ l ∈ heldLeases rt, l.accountId = id
  nonneg : ∀ l ∈ heldLeases rt, 0 ≤ l.estimatedTokens
  keyed : ∀ k l, leaseAt rt k = some l → l.leaseId = k

theorem mem_heldLeases {rt : RuntimeState} {l : AccountLease} :
    l ∈ heldLeases rt ↔ ∃ k, leaseAt rt k = some l := by
  simp only [heldLeases, leaseAt]
  cases rt.leases with
  | none => simp
  | some d => exact Dict.mem_values

theorem Balanced.mem_iff {id : String} {rt : RuntimeState} (h : Balanced id rt)
    {l : AccountLease} : l ∈ heldLeases rt ↔ leaseAt rt l.leaseId = some l := by
  rw [mem_heldLeases]
  constructor
  · rintro ⟨k, hk⟩
    rw [h.keyed k l hk]
    exact hk
  · intro hl
    exact ⟨l.leaseId, hl⟩

theorem Balanced.default (id : String) : Balanced id {} := by
  refine ⟨rfl, rfl, rfl, ?_, ?_, ?_⟩
  · intro l hl
    cases hl
  · intro l hl
    cases hl
  · intro k l hl
    cases hl

theorem heldLeases_addLease {lease : AccountLease} {rt : RuntimeState} (now : ℚ)
    (fresh : leaseAt rt lease.leaseId = none) :
    heldLeases (addLease lease now rt) = heldLeases rt ++ [lease] := by
  simp only [heldLeases, addLease]
  simp only [leaseAt] at fresh
  cases h : rt.leases with
  | none => rfl
  | some d =>
    rw [h] at fresh
    exact Dict.values_set_fresh fresh lease

theorem leaseAt_addLease (lease : AccountLease) (rt : RuntimeState) (now : ℚ) (k : String) :
    leaseAt (addLease lease now rt) k =
      if k = lease.leaseId then some lease else leaseAt rt k := by
  simp only [leaseAt, addLease]
  rw [Option.bind_some, Dict.get_set]
  cases rt.leases with
  | none => rfl
  | some d => rfl

theorem heldOfKind_addLease {lease : AccountLease} {rt : RuntimeState} (now : ℚ)
    (fresh : leaseAt rt lease.leaseId = none) (kind : LeaseKind) :
    heldOfKind kind (addLease lease now rt) =
      heldOfKind kind rt + if lease.kind = kind then 1 else 0 := by
  simp only [heldOfKind]
  rw [heldLeases_addLease now fresh, List.countP_append, List.countP_singleton]
  simp

theorem Balanced.addLease {id : String} {rt : RuntimeState} (h : Balanced id rt)
    {lease : AccountLease} (now : ℚ) (fresh : leaseAt rt lease.leaseId = none)
    (owner : lease.accountId = id) (nonneg : 0 ≤ lease.estimatedTokens) :
    Balanced id (addLease lease now rt) := by
  have held := heldLeases_addLease now fresh
  have mem : ∀ l ∈ heldLeases (Balancer.addLease lease now rt), l ∈ heldLeases rt ∨ l = lease := by
    intro l hl
    rw [held] at hl
    simpa using hl
  refine ⟨?_, ?_, ?_, ?_, ?_, ?_⟩
  · rw [heldOfKind_addLease now fresh, Nat.cast_add, ← h.responseCreates]
    simp [Balancer.addLease]
  · rw [heldOfKind_addLease now fresh, Nat.cast_add, ← h.streams]
    simp [Balancer.addLease]
  · simp only [heldTokens, held, List.map_append, List.sum_append]
    simp [Balancer.addLease, h.tokens, heldTokens]
  · intro l hl
    rcases mem l hl with hl | rfl
    · exact h.own l hl
    · exact owner
  · intro l hl
    rcases mem l hl with hl | rfl
    · exact h.nonneg l hl
    · exact nonneg
  · intro k l hl
    rw [leaseAt_addLease] at hl
    by_cases same : k = lease.leaseId
    · rw [if_pos same] at hl
      rw [← Option.some.inj hl, same]
    · rw [if_neg same] at hl
      exact h.keyed k l hl

section Subtract

variable {id k : String} {rt : RuntimeState} {leases : Dict String AccountLease}
variable {current : AccountLease}

theorem heldLeases_subtractLease (hleases : rt.leases = some leases)
    (hcurrent : leases.get k = some current) :
    (heldLeases rt).Perm (current :: heldLeases (subtractLease current (leases.pop k) rt)) := by
  simp only [heldLeases]
  rw [hleases]
  exact Dict.values_perm_pop hcurrent

theorem leaseAt_subtractLease (hleases : rt.leases = some leases) (k' : String) :
    leaseAt (subtractLease current (leases.pop k) rt) k' =
      if k' = k then none else leaseAt rt k' := by
  simp only [leaseAt, subtractLease]
  rw [hleases, Option.bind_some, Option.bind_some, Dict.get_pop]

/-- The tokens of the leases that stay are not negative, so no clamp can fire. -/
theorem Balanced.clampFires (h : Balanced id rt) (hleases : rt.leases = some leases)
    (hcurrent : leases.get k = some current) : clampFires current rt = false := by
  have perm := heldLeases_subtractLease hleases hcurrent
  have hmem : current ∈ heldLeases rt := perm.mem_iff.mpr List.mem_cons_self
  have rest : 0 ≤ rt.leasedTokens - current.estimatedTokens := by
    have split : heldTokens rt = current.estimatedTokens +
        heldTokens (subtractLease current (leases.pop k) rt) := by
      simp only [heldTokens]
      rw [(perm.map (·.estimatedTokens)).sum_eq, List.map_cons, List.sum_cons]
    have nonneg : 0 ≤ heldTokens (subtractLease current (leases.pop k) rt) := by
      refine List.sum_nonneg ?_
      intro x hx
      obtain ⟨l, hl, rfl⟩ := List.mem_map.mp hx
      exact h.nonneg l (perm.mem_iff.mpr (List.mem_cons_of_mem _ hl))
    rw [h.tokens, split]
    simpa using nonneg
  have counted : ∀ kind, current.kind = kind → 0 < heldOfKind kind rt := by
    intro kind hkind
    exact List.countP_pos_iff.mpr ⟨current, hmem, decide_eq_true hkind⟩
  simp only [Balancer.clampFires]
  rw [Bool.or_eq_false_iff]
  refine ⟨?_, decide_eq_false (not_lt.mpr rest)⟩
  cases hkind : current.kind with
  | responseCreate =>
    have := counted _ hkind
    rw [h.responseCreates]
    exact decide_eq_false (by omega)
  | stream =>
    have := counted _ hkind
    rw [h.streams]
    exact decide_eq_false (by omega)

theorem heldOfKind_subtractLease (hleases : rt.leases = some leases)
    (hcurrent : leases.get k = some current) (kind : LeaseKind) :
    heldOfKind kind rt = heldOfKind kind (subtractLease current (leases.pop k) rt) +
      if current.kind = kind then 1 else 0 := by
  have perm := heldLeases_subtractLease hleases hcurrent
  simp only [heldOfKind]
  rw [perm.countP_eq, List.countP_cons]
  simp

theorem Balanced.subtractLease (h : Balanced id rt) (hleases : rt.leases = some leases)
    (hcurrent : leases.get k = some current) :
    Balanced id (subtractLease current (leases.pop k) rt) := by
  have perm := heldLeases_subtractLease hleases hcurrent
  have counts := heldOfKind_subtractLease hleases hcurrent
  have unclamped := h.clampFires hleases hcurrent
  simp only [Balancer.clampFires] at unclamped
  rw [Bool.or_eq_false_iff, decide_eq_false_iff_not, not_lt] at unclamped
  obtain ⟨_, tokensLeft⟩ := unclamped
  have keep : ∀ l ∈ heldLeases (Balancer.subtractLease current (leases.pop k) rt),
      l ∈ heldLeases rt := fun l hl => perm.mem_iff.mpr (List.mem_cons_of_mem _ hl)
  refine ⟨?_, ?_, ?_, ?_, ?_, ?_⟩
  · have count := counts .responseCreate
    have counter := h.responseCreates
    by_cases hkind : current.kind = .responseCreate
    · rw [if_pos hkind] at count
      simp only [Balancer.subtractLease, if_pos hkind] at count ⊢
      omega
    · rw [if_neg hkind] at count
      simp only [Balancer.subtractLease, if_neg hkind] at count ⊢
      omega
  · have count := counts .stream
    have counter := h.streams
    by_cases hkind : current.kind = .stream
    · rw [if_pos hkind] at count
      simp only [Balancer.subtractLease, if_pos hkind] at count ⊢
      omega
    · rw [if_neg hkind] at count
      simp only [Balancer.subtractLease, if_neg hkind] at count ⊢
      omega
  · have split : heldTokens rt = current.estimatedTokens +
        heldTokens (Balancer.subtractLease current (leases.pop k) rt) := by
      simp only [heldTokens]
      rw [(perm.map (·.estimatedTokens)).sum_eq, List.map_cons, List.sum_cons]
    have tokens := h.tokens
    show max 0 (rt.leasedTokens - current.estimatedTokens) = _
    rw [max_eq_right tokensLeft, tokens, split]
    ring
  · intro l hl
    exact h.own l (keep l hl)
  · intro l hl
    exact h.nonneg l (keep l hl)
  · intro k' l hl
    rw [leaseAt_subtractLease hleases] at hl
    by_cases same : k' = k
    · rw [if_pos same] at hl
      cases hl
    · rw [if_neg same] at hl
      exact h.keyed k' l hl

end Subtract

/-- Two runtime entries with the same leases and the same counters. -/
structure SameLeases (rt rt' : RuntimeState) : Prop where
  held : heldLeases rt' = heldLeases rt
  at_ : ∀ k, leaseAt rt' k = leaseAt rt k
  responseCreates : rt'.inflightResponseCreates = rt.inflightResponseCreates
  streams : rt'.inflightStreams = rt.inflightStreams
  tokens : rt'.leasedTokens = rt.leasedTokens

theorem SameLeases.refl (rt : RuntimeState) : SameLeases rt rt := ⟨rfl, fun _ => rfl, rfl, rfl, rfl⟩

theorem Balanced.of_same {id : String} {rt rt' : RuntimeState} (h : Balanced id rt)
    (same : SameLeases rt rt') : Balanced id rt' := by
  refine ⟨?_, ?_, ?_, ?_, ?_, ?_⟩
  · rw [same.responseCreates, h.responseCreates, heldOfKind, heldOfKind, same.held]
  · rw [same.streams, h.streams, heldOfKind, heldOfKind, same.held]
  · rw [same.tokens, h.tokens, heldTokens, heldTokens, same.held]
  · rw [same.held]
    exact h.own
  · rw [same.held]
    exact h.nonneg
  · intro k l hl
    rw [same.at_] at hl
    exact h.keyed k l hl

/-- Two runtime tables that differ in nothing the lease accounting reads. -/
structure SamePool (p q : Pool) : Prop where
  entries : ∀ id, SameLeases (p.get id) (q.get id)
  issued : q.issued = p.issued
  subtracted : q.subtracted = p.subtracted
  clamped : q.clamped = p.clamped

/-- What one uninterrupted body can do to leases; `ok` guards the acquisitions. -/
inductive LeaseMove (ok : Pool → AccountLease → Prop) : Pool → Pool → Prop where
  | frame {p q : Pool} : SamePool p q → LeaseMove ok p q
  | acquire {p : Pool} (lease : AccountLease) (now : ℚ) : ok p lease →
      LeaseMove ok p (p.acquire lease now)
  | release (p : Pool) (lease : AccountLease) : LeaseMove ok p (p.release lease)

abbrev LeaseMoves (ok : Pool → AccountLease → Prop) : Pool → Pool → Prop :=
  Relation.ReflTransGen (LeaseMove ok)

def Pool.Holds (p : Pool) (leaseId : String) : Prop :=
  ∃ id, ∃ l ∈ heldLeases (p.get id), l.leaseId = leaseId

/-- The accounting invariant of the runtime table. -/
structure Ledger (p : Pool) : Prop where
  balanced : ∀ id, Balanced id (p.get id)
  separate : ∀ {id id' : String} {l l' : AccountLease}, l ∈ heldLeases (p.get id) →
    l' ∈ heldLeases (p.get id') → l.leaseId = l'.leaseId → id = id'
  live : ∀ x, p.Holds x → x ∈ p.issued ∧ x ∉ p.subtracted
  conserved : ∀ x ∈ p.issued, x ∈ p.subtracted ∨ p.Holds x
  recorded : ∀ x ∈ p.subtracted, x ∈ p.issued
  once : p.subtracted.Nodup
  unclamped : p.clamped = false

/-- The guard of every acquisition: a fresh uuid and no negative estimate. -/
def FreshLease (p : Pool) (lease : AccountLease) : Prop :=
  lease.leaseId ∉ p.issued ∧ 0 ≤ lease.estimatedTokens

theorem Ledger.empty : Ledger .empty := by
  have none : ∀ x, ¬ Pool.Holds .empty x := by
    rintro x ⟨id, l, hl, _⟩
    cases hl
  refine ⟨Balanced.default, ?_, fun x hx => absurd hx (none x), ?_, ?_, List.nodup_nil, rfl⟩
  · intro id id' l l' hl
    cases hl
  · intro x hx
    cases hx
  · intro x hx
    cases hx

theorem SamePool.holds {p q : Pool} (same : SamePool p q) (x : String) :
    q.Holds x ↔ p.Holds x := by
  simp only [Pool.Holds]
  constructor
  · rintro ⟨id, l, hl, hx⟩
    exact ⟨id, l, (same.entries id).held ▸ hl, hx⟩
  · rintro ⟨id, l, hl, hx⟩
    exact ⟨id, l, (same.entries id).held.symm ▸ hl, hx⟩

theorem Ledger.frame {p q : Pool} (h : Ledger p) (same : SamePool p q) : Ledger q where
  balanced := fun id => (h.balanced id).of_same (same.entries id)
  separate := by
    intro id id' l l' hl hl'
    rw [(same.entries id).held] at hl
    rw [(same.entries id').held] at hl'
    exact h.separate hl hl'
  live := by
    intro x hx
    rw [same.issued, same.subtracted]
    exact h.live x ((same.holds x).mp hx)
  conserved := by
    intro x hx
    rw [same.issued] at hx
    rw [same.subtracted, same.holds]
    exact h.conserved x hx
  recorded := by
    rw [same.issued, same.subtracted]
    exact h.recorded
  once := same.subtracted ▸ h.once
  unclamped := same.clamped.trans h.unclamped

theorem Pool.get_update (p : Pool) (id id' : String) (f : RuntimeState → RuntimeState) :
    (p.update id f).get id' = if id' = id then f (p.get id) else p.get id' := by
  simp only [Pool.get, Pool.update]
  rw [Dict.get_modify]
  split
  · rfl
  · rfl

theorem Pool.get_acquire (p : Pool) (lease : AccountLease) (now : ℚ) (id : String) :
    (p.acquire lease now).get id =
      if id = lease.accountId then addLease lease now (p.get lease.accountId) else p.get id :=
  p.get_update lease.accountId id (addLease lease now)

/-- A fresh id is in no lease map. -/
theorem Ledger.fresh_at {p : Pool} (h : Ledger p) {x : String} (fresh : x ∉ p.issued)
    (id : String) : leaseAt (p.get id) x = none := by
  cases hl : leaseAt (p.get id) x with
  | none => rfl
  | some l =>
    have key := (h.balanced id).keyed x l hl
    exact absurd (h.live x ⟨id, l, mem_heldLeases.mpr ⟨x, hl⟩, key⟩).1 fresh

theorem Ledger.mem_acquire {p : Pool} (h : Ledger p) {lease : AccountLease} (now : ℚ)
    (fresh : lease.leaseId ∉ p.issued) (id : String) (l : AccountLease) :
    l ∈ heldLeases ((p.acquire lease now).get id) ↔
      l ∈ heldLeases (p.get id) ∨ (id = lease.accountId ∧ l = lease) := by
  have held := heldLeases_addLease now (h.fresh_at fresh lease.accountId)
  rw [Pool.get_acquire]
  by_cases same : id = lease.accountId
  · subst same
    rw [if_pos rfl, held]
    simp
  · rw [if_neg same]
    simp [same]

theorem Ledger.holds_acquire {p : Pool} (h : Ledger p) {lease : AccountLease} (now : ℚ)
    (fresh : lease.leaseId ∉ p.issued) (x : String) :
    (p.acquire lease now).Holds x ↔ p.Holds x ∨ x = lease.leaseId := by
  simp only [Pool.Holds]
  simp only [h.mem_acquire now fresh]
  constructor
  · rintro ⟨id, l, hl | ⟨_, rfl⟩, hx⟩
    · exact Or.inl ⟨id, l, hl, hx⟩
    · exact Or.inr hx.symm
  · rintro (⟨id, l, hl, hx⟩ | rfl)
    · exact ⟨id, l, Or.inl hl, hx⟩
    · exact ⟨lease.accountId, lease, Or.inr ⟨rfl, rfl⟩, rfl⟩

theorem Ledger.acquire {p : Pool} (h : Ledger p) {lease : AccountLease} (now : ℚ)
    (ok : FreshLease p lease) : Ledger (p.acquire lease now) where
  balanced := by
    intro id
    rw [Pool.get_acquire]
    by_cases same : id = lease.accountId
    · rw [if_pos same, same]
      exact (h.balanced lease.accountId).addLease now (h.fresh_at ok.1 _) rfl ok.2
    · rw [if_neg same]
      exact h.balanced id
  separate := by
    intro id id' l l' hl hl' hx
    have known : ∀ {id l}, l ∈ heldLeases (p.get id) → l.leaseId ∈ p.issued :=
      fun hl => (h.live _ ⟨_, _, hl, rfl⟩).1
    rw [h.mem_acquire now ok.1] at hl hl'
    rcases hl with old | ⟨hid, hnew⟩
    · rcases hl' with old' | ⟨_, hnew'⟩
      · exact h.separate old old' hx
      · exact absurd (hnew' ▸ hx ▸ known old) ok.1
    · rcases hl' with old' | ⟨hid', _⟩
      · exact absurd (hnew ▸ hx.symm ▸ known old') ok.1
      · exact hid.trans hid'.symm
  live := by
    intro x hx
    rcases (h.holds_acquire now ok.1 x).mp hx with hx | rfl
    · exact ⟨List.mem_cons_of_mem _ (h.live x hx).1, (h.live x hx).2⟩
    · exact ⟨List.mem_cons_self, fun hsub => ok.1 (h.recorded _ hsub)⟩
  conserved := by
    intro x hx
    rw [h.holds_acquire now ok.1]
    rcases List.mem_cons.mp hx with rfl | hx
    · exact Or.inr (Or.inr rfl)
    · rcases h.conserved x hx with hsub | hheld
      · exact Or.inl hsub
      · exact Or.inr (Or.inl hheld)
  recorded := fun x hx => List.mem_cons_of_mem _ (h.recorded x hx)
  once := h.once
  unclamped := h.unclamped

/-- What a release does: nothing, or the subtraction of one held lease. -/
theorem Pool.release_cases (p : Pool) (lease : AccountLease) :
    (p.release lease = p ∧ leaseAt (p.get lease.accountId) lease.leaseId = none) ∨
    ∃ leases current, (p.get lease.accountId).leases = some leases ∧
      leases.get lease.leaseId = some current ∧
      (p.release lease).subtracted = current.leaseId :: p.subtracted ∧
      (p.release lease).issued = p.issued ∧
      (p.release lease).clamped = (p.clamped || clampFires current (p.get lease.accountId)) ∧
      ∀ id, (p.release lease).get id =
        if id = lease.accountId then
          subtractLease current (leases.pop lease.leaseId) (p.get lease.accountId)
        else p.get id := by
  simp only [Pool.release]
  cases hrt : p.runtime.get lease.accountId with
  | none => exact Or.inl ⟨rfl, by simp [Pool.get, hrt, leaseAt]⟩
  | some rt =>
    have hget : p.get lease.accountId = rt := by simp [Pool.get, hrt]
    dsimp only
    cases hleases : rt.leases with
    | none => exact Or.inl ⟨rfl, by simp [hget, leaseAt, hleases]⟩
    | some leases =>
      dsimp only
      cases hcurrent : leases.get lease.leaseId with
      | none => exact Or.inl ⟨rfl, by simp [hget, leaseAt, hleases, hcurrent]⟩
      | some current =>
        refine Or.inr ⟨leases, current, by rw [hget, hleases], hcurrent, rfl, rfl, by rw [hget], ?_⟩
        intro id
        rw [hget]
        simp only [Pool.get]
        rw [Dict.get_set]
        split
        · rfl
        · rfl

theorem Pool.release_issued (p : Pool) (lease : AccountLease) :
    (p.release lease).issued = p.issued := by
  rcases p.release_cases lease with ⟨same, _⟩ | ⟨_, _, _, _, _, issued, _⟩
  · rw [same]
  · exact issued

/-- Releasing takes out the lease its id names in the owner's map, and no other. -/
theorem Ledger.mem_release {p : Pool} (h : Ledger p) (lease : AccountLease) (id : String)
    (l : AccountLease) : l ∈ heldLeases ((p.release lease).get id) ↔
      l ∈ heldLeases (p.get id) ∧ ¬ (id = lease.accountId ∧ l.leaseId = lease.leaseId) := by
  rcases p.release_cases lease with
    ⟨same, absent⟩ | ⟨leases, current, hleases, hcurrent, _, _, _, hget⟩
  · rw [same]
    refine ⟨fun hl => ⟨hl, ?_⟩, fun hl => hl.1⟩
    rintro ⟨rfl, hx⟩
    have present := (h.balanced _).mem_iff.mp hl
    rw [hx, absent] at present
    cases present
  · rw [hget]
    by_cases same : id = lease.accountId
    · subst same
      rw [if_pos rfl, mem_heldLeases, (h.balanced _).mem_iff]
      simp only [leaseAt_subtractLease hleases, true_and]
      constructor
      · rintro ⟨k, hk⟩
        by_cases hkk : k = lease.leaseId
        · rw [if_pos hkk] at hk
          cases hk
        · rw [if_neg hkk] at hk
          rw [(h.balanced _).keyed k l hk]
          exact ⟨hk, hkk⟩
      · rintro ⟨hl, hne⟩
        exact ⟨l.leaseId, by rw [if_neg hne]; exact hl⟩
    · rw [if_neg same]
      simp [same]

theorem Ledger.holds_of_release {p : Pool} (h : Ledger p) {lease : AccountLease} {x : String}
    (hx : (p.release lease).Holds x) : p.Holds x := by
  obtain ⟨id, l, hl, rfl⟩ := hx
  exact ⟨id, l, ((h.mem_release lease id l).mp hl).1, rfl⟩

/-- A lease that is given back is no longer held, whoever holds the id. -/
theorem Ledger.release_drops {p : Pool} (h : Ledger p) {lease : AccountLease}
    (own : ∀ id l, l ∈ heldLeases (p.get id) → l.leaseId = lease.leaseId → id = lease.accountId) :
    ¬ (p.release lease).Holds lease.leaseId := by
  rintro ⟨id, l, hl, hx⟩
  obtain ⟨hl, kept⟩ := (h.mem_release lease id l).mp hl
  exact kept ⟨own id l hl hx, hx⟩

theorem Ledger.release {p : Pool} (h : Ledger p) (lease : AccountLease) :
    Ledger (p.release lease) := by
  rcases p.release_cases lease with
    ⟨same, _⟩ | ⟨leases, current, hleases, hcurrent, subtracted, issued, clamped, hget⟩
  · rw [same]
    exact h
  have at_ : leaseAt (p.get lease.accountId) lease.leaseId = some current := by
    simp [leaseAt, hleases, hcurrent]
  have key : current.leaseId = lease.leaseId := (h.balanced lease.accountId).keyed _ _ at_
  have hmem : current ∈ heldLeases (p.get lease.accountId) := mem_heldLeases.mpr ⟨_, at_⟩
  have was := h.live current.leaseId ⟨_, current, hmem, rfl⟩
  have dropped : ¬ (p.release lease).Holds lease.leaseId :=
    h.release_drops fun id l hl hx => h.separate hl hmem (hx.trans key.symm)
  refine ⟨?_, ?_, ?_, ?_, ?_, ?_, ?_⟩
  · intro id
    rw [hget]
    by_cases same : id = lease.accountId
    · rw [if_pos same, same]
      exact (h.balanced lease.accountId).subtractLease hleases hcurrent
    · rw [if_neg same]
      exact h.balanced id
  · intro id id' l l' hl hl' hx
    exact h.separate ((h.mem_release lease id l).mp hl).1 ((h.mem_release lease id' l').mp hl').1 hx
  · intro x hx
    have before := h.live x (h.holds_of_release hx)
    rw [issued, subtracted]
    refine ⟨before.1, ?_⟩
    intro hsub
    rcases List.mem_cons.mp hsub with rfl | hsub
    · exact dropped (key ▸ hx)
    · exact before.2 hsub
  · intro x hx
    rw [issued] at hx
    rw [subtracted]
    rcases h.conserved x hx with hsub | ⟨id, l, hl, rfl⟩
    · exact Or.inl (List.mem_cons_of_mem _ hsub)
    · by_cases out : id = lease.accountId ∧ l.leaseId = lease.leaseId
      · exact Or.inl (List.mem_cons.mpr (Or.inl (out.2.trans key.symm)))
      · exact Or.inr ⟨id, l, (h.mem_release lease id l).mpr ⟨hl, out⟩, rfl⟩
  · intro x hx
    rw [issued]
    rw [subtracted] at hx
    rcases List.mem_cons.mp hx with rfl | hx
    · exact was.1
    · exact h.recorded x hx
  · rw [subtracted]
    exact List.nodup_cons.mpr ⟨was.2, h.once⟩
  · rw [clamped, h.unclamped, (h.balanced _).clampFires hleases hcurrent]
    rfl

theorem Ledger.move {ok : Pool → AccountLease → Prop} (fresh : ∀ p l, ok p l → FreshLease p l)
    {p q : Pool} (h : Ledger p) (move : LeaseMove ok p q) : Ledger q := by
  cases move with
  | frame same => exact h.frame same
  | acquire lease now hok => exact h.acquire now (fresh p lease hok)
  | release lease => exact h.release lease

theorem Ledger.moves {ok : Pool → AccountLease → Prop} (fresh : ∀ p l, ok p l → FreshLease p l)
    {p q : Pool} (h : Ledger p) (moves : LeaseMoves ok p q) : Ledger q := by
  induction moves with
  | refl => exact h
  | tail _ move ih => exact ih.move fresh move

section Frames

variable {p q : Pool}

theorem SamePool.refl (p : Pool) : SamePool p p := ⟨fun _ => .refl _, rfl, rfl, rfl⟩

theorem SameLeases.trans {a b c : RuntimeState} (h : SameLeases a b) (k : SameLeases b c) :
    SameLeases a c :=
  ⟨k.held.trans h.held, fun x => (k.at_ x).trans (h.at_ x),
    k.responseCreates.trans h.responseCreates, k.streams.trans h.streams, k.tokens.trans h.tokens⟩

theorem SamePool.trans {r : Pool} (h : SamePool p q) (k : SamePool q r) : SamePool p r :=
  ⟨fun id => (h.entries id).trans (k.entries id), k.issued.trans h.issued,
    k.subtracted.trans h.subtracted, k.clamped.trans h.clamped⟩

theorem SamePool.update (id : String) {f : RuntimeState → RuntimeState}
    (keeps : SameLeases (p.get id) (f (p.get id))) : SamePool p (p.update id f) := by
  refine ⟨?_, rfl, rfl, rfl⟩
  intro id'
  rw [Pool.get_update]
  by_cases same : id' = id
  · rw [if_pos same, same]
    exact keeps
  · rw [if_neg same]
    exact .refl _

theorem syncRuntime_same (account : Account) (state : AccountState) (selected : Bool) (now : ℚ)
    (rt : RuntimeState) : SameLeases rt (syncRuntime account state selected now rt) :=
  ⟨rfl, fun _ => rfl, rfl, rfl, rfl⟩

theorem SamePool.syncStates (selected : Option String) (now : ℚ)
    (built : List (Account × AccountState)) (p : Pool) :
    SamePool p (p.syncStates selected now built) := by
  simp only [Pool.syncStates]
  induction built generalizing p with
  | nil => exact .refl p
  | cons entry rest ih =>
    rw [List.foldl_cons]
    exact (SamePool.update _ (syncRuntime_same _ _ _ now _)).trans (ih _)

theorem refreshHealth_same (settings : Settings) (now : ℚ) (rt : RuntimeState)
    (status : AccountStatus) (used secondary : Option ℚ) :
    SameLeases rt (refreshHealth settings now rt status used secondary) := by
  rw [refreshHealth]
  split
  · dsimp only
    split
    · split
      · exact ⟨rfl, fun _ => rfl, rfl, rfl, rfl⟩
      · exact ⟨rfl, fun _ => rfl, rfl, rfl, rfl⟩
    · split
      · exact ⟨rfl, fun _ => rfl, rfl, rfl, rfl⟩
      · exact ⟨rfl, fun _ => rfl, rfl, rfl, rfl⟩
  · exact ⟨rfl, fun _ => rfl, rfl, rfl, rfl⟩

theorem SamePool.buildStates (settings : Settings) (now : ℚ) (inputs : SelectionInputs)
    (accounts : List Account) (p : Pool) :
    SamePool p (p.buildStates settings now inputs accounts).2 := by
  induction accounts generalizing p with
  | nil => exact .refl p
  | cons account rest ih =>
    simp only [Pool.buildStates]
    exact (SamePool.update _ (refreshHealth_same settings now _ _ _ _)).trans (ih _)

theorem markRuntime_same (now : ℚ) (mark : Mark) (account : Account) (rt : RuntimeState) :
    SameLeases rt (markRuntime now mark account rt) := by
  simp only [markRuntime]
  cases mark with
  | errors count =>
    dsimp only
    split
    · exact ⟨rfl, fun _ => rfl, rfl, rfl, rfl⟩
    · exact ⟨rfl, fun _ => rfl, rfl, rfl, rfl⟩
  | rateLimit error jitter => exact syncRuntime_same _ _ _ now rt
  | quotaExceeded error => exact syncRuntime_same _ _ _ now rt
  | permanentFailure code => exact syncRuntime_same _ _ _ now rt

theorem successRuntime_same (rt : RuntimeState) : SameLeases rt (successRuntime rt) := by
  simp only [successRuntime]
  split
  · split
    · exact ⟨rfl, fun _ => rfl, rfl, rfl, rfl⟩
    · exact ⟨rfl, fun _ => rfl, rfl, rfl, rfl⟩
  · split
    · exact ⟨rfl, fun _ => rfl, rfl, rfl, rfl⟩
    · exact .refl rt

theorem Pool.get_recordSuccess (p : Pool) (accountId id : String) :
    (p.recordSuccess accountId).get id = p.get id ∨
      (id = accountId ∧ (p.recordSuccess accountId).get id = successRuntime (p.get id)) := by
  simp only [Pool.recordSuccess]
  cases hrt : p.runtime.get accountId with
  | none => exact Or.inl rfl
  | some rt =>
    by_cases same : id = accountId
    · subst same
      exact Or.inr ⟨rfl, by simp [Pool.get, hrt]⟩
    · exact Or.inl (by simp [Pool.get, Dict.get_set, same])

theorem SamePool.recordSuccess (p : Pool) (accountId : String) :
    SamePool p (p.recordSuccess accountId) := by
  have ghosts : (p.recordSuccess accountId).issued = p.issued ∧
      (p.recordSuccess accountId).subtracted = p.subtracted ∧
      (p.recordSuccess accountId).clamped = p.clamped := by
    simp only [Pool.recordSuccess]
    split
    · exact ⟨rfl, rfl, rfl⟩
    · exact ⟨rfl, rfl, rfl⟩
  refine ⟨?_, ghosts.1, ghosts.2.1, ghosts.2.2⟩
  intro id
  rcases p.get_recordSuccess accountId id with same | ⟨_, same⟩
  · rw [same]
    exact .refl _
  · rw [same]
    exact successRuntime_same _

theorem Pool.get_prune (p : Pool) (accounts : List Account) (id : String) :
    (p.prune accounts).get id = p.get id ∨
      ((p.prune accounts).get id = {} ∧ heldLeases (p.get id) = []) := by
  simp only [Pool.get, Pool.prune]
  rw [Dict.get_filter]
  cases hrt : p.runtime.get id with
  | none => exact Or.inl rfl
  | some rt =>
    by_cases kept : ((accounts.map (·.id)).contains id || !(heldLeases rt).isEmpty) = true
    · exact Or.inl (by rw [Option.filter_some, if_pos kept])
    · refine Or.inr ⟨by rw [Option.filter_some, if_neg kept]; rfl, ?_⟩
      simp only [Bool.or_eq_true, not_or, Bool.not_eq_true, Bool.not_eq_false'] at kept
      exact List.isEmpty_iff.mp kept.2

theorem Pool.prune_keeps (p : Pool) (accounts : List Account) {id : String}
    (held : heldLeases (p.get id) ≠ []) :
    (p.prune accounts).runtime.get id = p.runtime.get id := by
  simp only [Pool.get] at held
  simp only [Pool.prune]
  rw [Dict.get_filter]
  cases hrt : p.runtime.get id with
  | none => rfl
  | some rt =>
    rw [hrt] at held
    have nonempty : (heldLeases rt).isEmpty = false := by simpa using held
    simp [Option.filter_some, nonempty]

/-- Pruning only ever removes entries without leases, whose counters are zero. -/
theorem Ledger.prune_same (h : Ledger p) (accounts : List Account) :
    SamePool p (p.prune accounts) := by
  refine ⟨?_, rfl, rfl, rfl⟩
  intro id
  rcases p.get_prune accounts id with same | ⟨gone, empty⟩
  · rw [same]
    exact .refl _
  · have balanced := h.balanced id
    rw [gone]
    refine ⟨empty.symm, ?_, ?_, ?_, ?_⟩
    · intro k
      cases hl : leaseAt (p.get id) k with
      | none => rfl
      | some l =>
        have hmem := mem_heldLeases.mpr ⟨k, hl⟩
        rw [empty] at hmem
        cases hmem
    · rw [balanced.responseCreates, heldOfKind, empty]
      rfl
    · rw [balanced.streams, heldOfKind, empty]
      rfl
    · rw [balanced.tokens, heldTokens, empty]
      rfl

theorem LeaseMoves.releaseAll {ok : Pool → AccountLease → Prop} (leases : List AccountLease)
    (p : Pool) : LeaseMoves ok p (leases.foldl Pool.release p) := by
  induction leases generalizing p with
  | nil => exact .refl
  | cons lease rest ih => exact .head (.release p lease) (ih _)

theorem LeaseMoves.reclaimStale {ok : Pool → AccountLease → Prop} (p : Pool) (settings : Settings)
    (monotonic : ℚ) : LeaseMoves ok p (p.reclaimStale settings monotonic) := by
  simp only [Pool.reclaimStale]
  generalize p.runtime.keys = ids
  induction ids generalizing p with
  | nil => exact .refl
  | cons id rest ih => exact (LeaseMoves.releaseAll _ p).trans (ih _)

end Frames

/-- Moves never put a lease with a known id into a lease map: acquisitions use fresh ids. -/
theorem Ledger.held_before {ok : Pool → AccountLease → Prop}
    (fresh : ∀ p l, ok p l → FreshLease p l) {p q : Pool} (h : Ledger p)
    (moves : LeaseMoves ok p q) {x : String} (known : x ∈ p.issued) :
    x ∈ q.issued ∧
      ∀ id l, l ∈ heldLeases (q.get id) → l.leaseId = x → l ∈ heldLeases (p.get id) := by
  induction moves with
  | refl => exact ⟨known, fun _ _ hl _ => hl⟩
  | tail before move ih =>
    have here := h.moves fresh before
    obtain ⟨known, back⟩ := ih
    cases move with
    | frame same =>
      refine ⟨same.issued ▸ known, ?_⟩
      intro id l hl hx
      exact back id l ((same.entries id).held ▸ hl) hx
    | acquire lease now hok =>
      have hfresh := (fresh _ lease hok).1
      refine ⟨List.mem_cons_of_mem _ known, ?_⟩
      intro id l hl hx
      rcases (here.mem_acquire now hfresh id l).mp hl with hl | ⟨_, rfl⟩
      · exact back id l hl hx
      · exact absurd (hx ▸ known) hfresh
    | release lease =>
      refine ⟨(Pool.release_issued _ lease).symm ▸ known, ?_⟩
      intro id l hl hx
      exact back id l ((here.mem_release lease id l).mp hl).1 hx

/-- Moves without an acquisition hand out no id. -/
theorem LeaseMoves.issued_eq {p q : Pool} (moves : LeaseMoves (fun _ _ => False) p q) :
    q.issued = p.issued := by
  induction moves with
  | refl => rfl
  | tail _ move ih =>
    cases move with
    | frame same => exact same.issued.trans ih
    | acquire _ _ hok => exact hok.elim
    | release lease => exact (Pool.release_issued _ lease).trans ih

theorem LeaseMoves.weaken {ok ok' : Pool → AccountLease → Prop} (imp : ∀ p l, ok p l → ok' p l)
    {p q : Pool} (moves : LeaseMoves ok p q) : LeaseMoves ok' p q := by
  refine Relation.ReflTransGen.mono (fun a b move => ?_) p q moves
  cases move with
  | frame same => exact .frame same
  | acquire lease now hok => exact .acquire lease now (imp a lease hok)
  | release lease => exact .release a lease

/-- The concurrency cap of each lease kind; a cap that is not positive means none. -/
def Capped (cap : LeaseKind → Int) (p : Pool) : Prop :=
  ∀ id kind, 0 < cap kind → (heldOfKind kind (p.get id) : Int) ≤ cap kind

/-- The guard an acquisition has to meet for the caps to hold. -/
def UnderCap (cap : LeaseKind → Int) (p : Pool) (lease : AccountLease) : Prop :=
  FreshLease p lease ∧
    (0 < cap lease.kind → (heldOfKind lease.kind (p.get lease.accountId) : Int) < cap lease.kind)

theorem Capped.move {cap : LeaseKind → Int} {p q : Pool} (h : Capped cap p) (ledger : Ledger p)
    (move : LeaseMove (UnderCap cap) p q) : Capped cap q := by
  intro id kind positive
  have before := h id kind positive
  cases move with
  | frame same =>
    rw [heldOfKind, (same.entries id).held]
    exact before
  | acquire lease now hok =>
    rw [Pool.get_acquire]
    by_cases same : id = lease.accountId
    · rw [if_pos same, heldOfKind_addLease now (ledger.fresh_at hok.1.1 _)]
      by_cases hkind : lease.kind = kind
      · have under := hok.2 (hkind ▸ positive)
        rw [hkind] at under
        rw [if_pos hkind]
        omega
      · rw [if_neg hkind, ← same]
        exact before
    · rw [if_neg same]
      exact before
  | release lease =>
    rcases p.release_cases lease with ⟨same, _⟩ | ⟨leases, current, hleases, hcurrent, _, _, _, hget⟩
    · rw [same]
      exact before
    · rw [hget]
      by_cases same : id = lease.accountId
      · have count := heldOfKind_subtractLease hleases hcurrent kind
        rw [if_pos same]
        rw [same] at before
        omega
      · rw [if_neg same]
        exact before

theorem Capped.moves {cap : LeaseKind → Int} {p q : Pool} (h : Capped cap p) (ledger : Ledger p)
    (moves : LeaseMoves (UnderCap cap) p q) : Capped cap q := by
  induction moves with
  | refl => exact h
  | tail before move ih => exact ih.move (ledger.moves (fun _ _ hok => hok.1) before) move

end Balancer
