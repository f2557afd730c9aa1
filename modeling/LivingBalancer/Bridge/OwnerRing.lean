import Mathlib.Algebra.Order.Ring.Rat
import Mathlib.Data.Char
import Mathlib.Data.List.Lex
import Mathlib.Tactic.Linarith
import LivingBalancer.Lib.PyText
import LivingBalancer.Lib.Rendezvous
import LivingBalancer.Lib.Runs
import LivingBalancer.Lib.Shares

/-!
# The owner of a bridge session

The replicas keep their membership in one table and give a session to the member with the
highest hash for it. A statement on the table is one step, at the time its replica reads; the
clocks of the replicas agree. The two dialects have the same upsert. Nothing is assumed of the
hash.
-/

namespace BridgeRing

open PyText Runs Shares

/-- Texts in the order of their code points. -/
local instance textOrder : LinearOrder Text := List.instLinearOrder

/-! ## The table of members -/

structure BridgeRingMember where
  instanceId : Text
  registeredAt : ℚ
  lastHeartbeatAt : ℚ
  metadataJson : Option Text
  deriving DecidableEq

/-- The rows, one for each instance, and the time. -/
structure Ring where
  members : List BridgeRingMember
  clock : ℚ
  deriving DecidableEq

def ringHeartbeatIntervalSeconds : ℚ := 10
def ringStaleThresholdSeconds : ℚ := 30
def ringStaleGraceSeconds : ℚ := ringHeartbeatIntervalSeconds + 5
def ringMemberRetentionSeconds : ℚ := 24 * 60 * 60

def bridgeRingMetadataJson (endpointBaseUrl : Option Text) : Option Text :=
  endpointBaseUrl.map fun endpoint =>
    (Json.obj (.cons "endpoint_base_url".toList (.str endpoint) .nil)).dumps

/-- `on_conflict_do_update`: the row of the instance is updated, or inserted. -/
def upsert (members : List BridgeRingMember) (row : BridgeRingMember)
    (update : BridgeRingMember → BridgeRingMember) : List BridgeRingMember :=
  if ∃ m ∈ members, m.instanceId = row.instanceId then
    members.map fun m => if m.instanceId = row.instanceId then update m else m
  else members ++ [row]

namespace Ring

def register (s : Ring) (instanceId : Text) (endpointBaseUrl : Option Text) : Ring :=
  let metadataJson := bridgeRingMetadataJson endpointBaseUrl
  { s with members := upsert s.members ⟨instanceId, s.clock, s.clock, metadataJson⟩ fun m =>
      { m with lastHeartbeatAt := s.clock, registeredAt := s.clock, metadataJson := metadataJson } }

def heartbeat (s : Ring) (instanceId : Text) (endpointBaseUrl : Option Text) : Ring :=
  let metadataJson := bridgeRingMetadataJson endpointBaseUrl
  { s with members := upsert s.members ⟨instanceId, s.clock, s.clock, metadataJson⟩ fun m =>
      { m with lastHeartbeatAt := s.clock, metadataJson := metadataJson } }

def unregister (s : Ring) (instanceId : Text) : Ring :=
  { s with members := s.members.filter fun m => m.instanceId ≠ instanceId }

def markStale (s : Ring) (instanceId : Text) (staleThresholdSeconds graceSeconds : ℚ) : Ring :=
  let ageSeconds := max (staleThresholdSeconds - max graceSeconds 0) 0
  { s with members := s.members.map fun m =>
      if m.instanceId = instanceId then { m with lastHeartbeatAt := s.clock - ageSeconds } else m }

def purgeStaleBefore (s : Ring) (cutoff : ℚ) : Ring :=
  { s with members := s.members.filter fun m => decide (¬ m.lastHeartbeatAt < cutoff) }

def listActive (s : Ring) (staleThresholdSeconds : ℚ) (requireEndpoint : Bool) : List Text :=
  ((s.members.filter fun m => decide (s.clock - staleThresholdSeconds ≤ m.lastHeartbeatAt) &&
    (!requireEndpoint || m.metadataJson.isSome)).map (·.instanceId)).insertionSort (· ≤ ·)

end Ring

/-- The statements the replicas send: at start-up and every heartbeat, at shutdown, and by the
clean-up. Time passes without one too. -/
inductive Act where
  | register (instanceId : Text) (endpointBaseUrl : Option Text)
  | heartbeat (instanceId : Text) (endpointBaseUrl : Option Text)
  | unregister (instanceId : Text)
  | markStale (instanceId : Text)
  | purge
  | wait

def Ring.act (s : Ring) : Act → Ring
  | .register instanceId endpoint => s.register instanceId endpoint
  | .heartbeat instanceId endpoint => s.heartbeat instanceId endpoint
  | .unregister instanceId => s.unregister instanceId
  | .markStale instanceId => s.markStale instanceId ringStaleThresholdSeconds ringStaleGraceSeconds
  | .purge => s.purgeStaleBefore (s.clock - ringMemberRetentionSeconds)
  | .wait => s

def step (s : Ring) (a : ℚ × Act) : Option Ring :=
  if s.clock ≤ a.1 then some ({ s with clock := a.1 }.act a.2) else none

/-! ## Who owns a key -/

structure Settings where
  instanceId : Text
  instanceRing : List Text

structure HTTPBridgeSessionKey where
  affinityKind : Text
  affinityKey : Text
  apiKeyId : Option Text

def normalizedInstanceRing (settings : Settings) : Text × List Text :=
  let stripped := strip settings.instanceId
  let instanceId := if stripped = [] then "codex-lb".toList else stripped
  let ringEntries := (settings.instanceRing.map strip).filter fun entry => entry ≠ []
  (instanceId, ranking (if ringEntries = [] then [instanceId] else ringEntries))

/-- What `list_active` answers: there may be no membership, and the lookup may fail. -/
inductive Lookup where
  | absent
  | failed
  | listed (activeMembers : List Text)

/-- `none` when the lookup failed. -/
def activeInstanceRing (settings : Settings) : Lookup → Option (Text × List Text)
  | .absent => some (normalizedInstanceRing settings)
  | .failed => none
  | .listed activeMembers =>
    let (instanceId, staticRing) := normalizedInstanceRing settings
    let normalizedMembers := ranking ((activeMembers.map strip).filter fun member => member ≠ [])
    if activeMembers = [] then some (instanceId, [instanceId])
    else if normalizedMembers = [] then some (instanceId, staticRing)
    else some (instanceId, normalizedMembers)

section Owner

variable {Digest : Type*} [LinearOrder Digest] (sha256 : Text → Digest)

def selectNode (key : Text) (nodes : List Text) : Option Text :=
  match nodes with
  | [] => none
  | [node] => some node
  | nodes => nodes.argmax fun node => sha256 (key ++ ':' :: node)

def hashInput (key : HTTPBridgeSessionKey) : Text :=
  key.affinityKind ++ ':' :: key.affinityKey ++ ':' :: key.apiKeyId.getD []

/-- `_http_bridge_owner_instance`; the outer `none` is the failed lookup. -/
def ownerInstance (key : HTTPBridgeSessionKey) (settings : Settings) (lookup : Lookup) :
    Option (Option Text) :=
  (activeInstanceRing settings lookup).map fun ring =>
    if ring.2.length ≤ 1 then some ring.1 else selectNode sha256 (hashInput key) ring.2

end Owner

/-! ## Who is listed -/

/-- There is a row of the instance with an endpoint and a heartbeat that is not stale. -/
def Listed (s : Ring) (i : Text) : Prop :=
  ∃ m ∈ s.members, m.instanceId = i ∧
    s.clock - ringStaleThresholdSeconds ≤ m.lastHeartbeatAt ∧ m.metadataJson.isSome = true

theorem mem_listActive {s : Ring} {i : Text} :
    i ∈ s.listActive ringStaleThresholdSeconds true ↔ Listed s i := by
  rw [Ring.listActive, List.mem_insertionSort, List.mem_map, Listed]
  simp only [List.mem_filter, Bool.not_true, Bool.false_or, Bool.and_eq_true, decide_eq_true_eq]
  constructor
  · rintro ⟨m, ⟨mem, fresh, endpoint⟩, rfl⟩
    exact ⟨m, mem, rfl, fresh, endpoint⟩
  · rintro ⟨m, mem, rfl, fresh, endpoint⟩
    exact ⟨m, ⟨mem, fresh, endpoint⟩, rfl⟩

section Upsert

variable {members : List BridgeRingMember} {row : BridgeRingMember}
variable {update : BridgeRingMember → BridgeRingMember} {i : Text}

/-- A row of another instance is there exactly when it was. -/
theorem mem_upsert_other (keeps : ∀ m, (update m).instanceId = m.instanceId)
    (other : row.instanceId ≠ i) {m : BridgeRingMember} (at_i : m.instanceId = i) :
    m ∈ upsert members row update ↔ m ∈ members := by
  rw [upsert]
  split_ifs with found
  · rw [List.mem_map]
    constructor
    · rintro ⟨m', mem, same⟩
      split_ifs at same with here
      · subst same
        rw [keeps, here] at at_i
        exact absurd at_i other
      · exact same ▸ mem
    · intro mem
      exact ⟨m, mem, if_neg fun here => other (here.symm.trans at_i)⟩
  · rw [List.mem_append, List.mem_singleton]
    refine or_iff_left ?_
    rintro rfl
    exact other at_i

/-- The rows of the instance are the updated ones, or the new one. -/
theorem mem_upsert_self {m : BridgeRingMember} (mem : m ∈ upsert members row update)
    (at_row : m.instanceId = row.instanceId) : m = row ∨ ∃ m', m = update m' := by
  rw [upsert] at mem
  split_ifs at mem with found
  · obtain ⟨m', -, same⟩ := List.mem_map.mp mem
    split_ifs at same with here
    · exact Or.inr ⟨m', same.symm⟩
    · exact absurd (same ▸ at_row) here
  · rcases List.mem_append.mp mem with before | last
    · exact absurd ⟨m, before, at_row⟩ found
    · exact Or.inl (List.mem_singleton.mp last)

theorem exists_upsert_self (members : List BridgeRingMember)
    (row : BridgeRingMember) (keeps : ∀ m, (update m).instanceId = m.instanceId) :
    ∃ m ∈ upsert members row update, m.instanceId = row.instanceId ∧
      (m = row ∨ ∃ m', m = update m') := by
  rw [upsert]
  split_ifs with found
  · obtain ⟨m, mem, at_row⟩ := found
    refine ⟨update m, List.mem_map.mpr ⟨m, mem, if_pos at_row⟩, (keeps m).trans at_row, ?_⟩
    exact Or.inr ⟨m, rfl⟩
  · exact ⟨row, List.mem_append_right _ List.mem_cons_self, rfl, Or.inl rfl⟩

end Upsert

section Acts

variable {s : Ring} {i : Text}

theorem stale_grace : ringStaleGraceSeconds = 15 := by
  norm_num [ringStaleGraceSeconds, ringHeartbeatIntervalSeconds]

/-- An upsert of another instance lists nobody and takes nobody off the list. -/
theorem listed_upsert_other {row : BridgeRingMember} {update : BridgeRingMember → BridgeRingMember}
    (keeps : ∀ m, (update m).instanceId = m.instanceId) (other : row.instanceId ≠ i) :
    Listed { s with members := upsert s.members row update } i ↔ Listed s i :=
  exists_congr fun _ => ⟨
    fun ⟨mem, at_i, h⟩ => ⟨(mem_upsert_other keeps other at_i).mp mem, at_i, h⟩,
    fun ⟨mem, at_i, h⟩ => ⟨(mem_upsert_other keeps other at_i).mpr mem, at_i, h⟩⟩

/-- An upsert of the instance lists it exactly when it names an endpoint. -/
theorem listed_upsert_self (row : BridgeRingMember)
    (update : BridgeRingMember → BridgeRingMember)
    (keeps : ∀ m, (update m).instanceId = m.instanceId) (same : row.instanceId = i)
    (now : row.lastHeartbeatAt = s.clock ∧ ∀ m, (update m).lastHeartbeatAt = s.clock)
    (written : ∀ m, (update m).metadataJson = row.metadataJson) :
    Listed { s with members := upsert s.members row update } i ↔ row.metadataJson.isSome = true := by
  constructor
  · rintro ⟨m, mem, at_i, -, endpoint⟩
    rcases mem_upsert_self mem (at_i.trans same.symm) with rfl | ⟨m', rfl⟩
    · exact endpoint
    · rwa [written] at endpoint
  · intro endpoint
    obtain ⟨m, mem, at_row, which⟩ := exists_upsert_self s.members row keeps
    have fresh : s.clock - ringStaleThresholdSeconds ≤ s.clock := by
      norm_num [ringStaleThresholdSeconds]
    refine ⟨m, mem, at_row.trans same, ?_⟩
    rcases which with rfl | ⟨m', rfl⟩
    · exact ⟨now.1.symm ▸ fresh, endpoint⟩
    · rw [now.2 m', written]
      exact ⟨fresh, endpoint⟩

/-- A row written with an endpoint lists its instance, one without takes it off the list. -/
theorem listed_write {row : BridgeRingMember} {update : BridgeRingMember → BridgeRingMember}
    {endpoint : Option Text} (keeps : ∀ m, (update m).instanceId = m.instanceId)
    (now : row.lastHeartbeatAt = s.clock ∧ ∀ m, (update m).lastHeartbeatAt = s.clock)
    (stated : row.metadataJson = bridgeRingMetadataJson endpoint)
    (written : ∀ m, (update m).metadataJson = row.metadataJson) :
    Listed { s with members := upsert s.members row update } i ↔
      if row.instanceId = i then endpoint.isSome = true else Listed s i := by
  split_ifs with same
  · have endpoints : row.metadataJson.isSome = endpoint.isSome := by
      rw [stated]
      exact Option.isSome_map
    rw [← endpoints]
    exact listed_upsert_self row update keeps same now written
  · exact listed_upsert_other keeps same

theorem listed_register (j : Text) (endpoint : Option Text) :
    Listed (s.register j endpoint) i ↔
      if j = i then endpoint.isSome = true else Listed s i :=
  listed_write (fun _ => rfl) ⟨rfl, fun _ => rfl⟩ rfl fun _ => rfl

theorem listed_heartbeat (j : Text) (endpoint : Option Text) :
    Listed (s.heartbeat j endpoint) i ↔
      if j = i then endpoint.isSome = true else Listed s i :=
  listed_write (fun _ => rfl) ⟨rfl, fun _ => rfl⟩ rfl fun _ => rfl

theorem listed_unregister (j : Text) : Listed (s.unregister j) i ↔ j ≠ i ∧ Listed s i := by
  simp only [Listed, Ring.unregister, List.mem_filter, decide_eq_true_eq]
  constructor
  · rintro ⟨m, ⟨mem, other⟩, rfl, rest⟩
    exact ⟨Ne.symm other, m, mem, rfl, rest⟩
  · rintro ⟨other, m, mem, rfl, rest⟩
    exact ⟨m, ⟨mem, Ne.symm other⟩, rfl, rest⟩

/-- Ageing a row leaves it on the list for the grace that is left. -/
theorem listed_markStale (h : Listed s i) (j : Text) :
    Listed (s.markStale j ringStaleThresholdSeconds ringStaleGraceSeconds) i := by
  obtain ⟨m, mem, at_i, fresh, endpoint⟩ := h
  refine ⟨_, List.mem_map_of_mem mem, ?_⟩
  split_ifs with here
  · refine ⟨at_i, ?_, endpoint⟩
    rw [stale_grace]
    simp only [Ring.markStale, ringStaleThresholdSeconds]
    norm_num
    linarith
  · exact ⟨at_i, fresh, endpoint⟩

theorem listed_of_markStale {j : Text} (other : j ≠ i)
    (h : Listed (s.markStale j ringStaleThresholdSeconds ringStaleGraceSeconds) i) : Listed s i := by
  obtain ⟨m, mem, at_i, fresh, endpoint⟩ := h
  obtain ⟨m', mem', rfl⟩ := List.mem_map.mp mem
  split_ifs at at_i fresh endpoint with here
  · exact absurd (here.symm.trans at_i) other
  · exact ⟨m', mem', at_i, fresh, endpoint⟩

/-- The clean-up takes nobody off the list. -/
theorem listed_purge :
    Listed (s.purgeStaleBefore (s.clock - ringMemberRetentionSeconds)) i ↔ Listed s i := by
  simp only [Listed, Ring.purgeStaleBefore, List.mem_filter, decide_eq_true_eq]
  constructor
  · rintro ⟨m, ⟨mem, -⟩, rest⟩
    exact ⟨m, mem, rest⟩
  · rintro ⟨m, mem, at_i, fresh, endpoint⟩
    refine ⟨m, ⟨mem, ?_⟩, at_i, fresh, endpoint⟩
    have longer : ringStaleThresholdSeconds ≤ ringMemberRetentionSeconds := by
      norm_num [ringStaleThresholdSeconds, ringMemberRetentionSeconds]
    exact not_lt.mpr ((sub_le_sub_left longer s.clock).trans fresh)

/-- Who is taken off the list by a statement gave up its row or its endpoint. -/
theorem act_leaves {a : Act} (h : Listed s i) (left : ¬ Listed (s.act a) i) :
    a = .unregister i ∨ a = .register i none ∨ a = .heartbeat i none := by
  cases a with
  | register j endpoint =>
    rw [Ring.act, listed_register] at left
    split_ifs at left with same
    · subst same
      rw [Bool.not_eq_true, Option.isSome_eq_false_iff, Option.isNone_iff_eq_none] at left
      exact Or.inr (Or.inl (left ▸ rfl))
    · exact absurd h left
  | heartbeat j endpoint =>
    rw [Ring.act, listed_heartbeat] at left
    split_ifs at left with same
    · subst same
      rw [Bool.not_eq_true, Option.isSome_eq_false_iff, Option.isNone_iff_eq_none] at left
      exact Or.inr (Or.inr (left ▸ rfl))
    · exact absurd h left
  | unregister j =>
    rw [Ring.act, listed_unregister] at left
    by_cases same : j = i
    · exact Or.inl (same ▸ rfl)
    · exact absurd ⟨same, h⟩ left
  | markStale j => exact absurd (listed_markStale h j) left
  | purge => exact absurd (listed_purge.mpr h) left
  | wait => exact absurd h left

/-- Who is put on the list by a statement wrote its endpoint, or was marked stale. -/
theorem act_joins {a : Act} (h : ¬ Listed s i) (joined : Listed (s.act a) i) :
    (∃ endpoint, a = .register i (some endpoint) ∨ a = .heartbeat i (some endpoint)) ∨
      a = .markStale i := by
  cases a with
  | register j endpoint =>
    rw [Ring.act, listed_register] at joined
    split_ifs at joined with same
    · obtain ⟨e, rfl⟩ := Option.isSome_iff_exists.mp joined
      exact Or.inl ⟨e, Or.inl (same ▸ rfl)⟩
    · exact absurd joined h
  | heartbeat j endpoint =>
    rw [Ring.act, listed_heartbeat] at joined
    split_ifs at joined with same
    · obtain ⟨e, rfl⟩ := Option.isSome_iff_exists.mp joined
      exact Or.inl ⟨e, Or.inr (same ▸ rfl)⟩
    · exact absurd joined h
  | unregister j => exact absurd ((listed_unregister j).mp joined).2 h
  | markStale j =>
    by_cases same : j = i
    · exact Or.inr (same ▸ rfl)
    · exact absurd (listed_of_markStale same joined) h
  | purge => exact absurd (listed_purge.mp joined) h
  | wait => exact absurd joined h

/-- Time only takes off the list. -/
theorem listed_later {now : ℚ} (later : s.clock ≤ now) (h : Listed { s with clock := now } i) :
    Listed s i := by
  obtain ⟨m, mem, at_i, fresh, endpoint⟩ := h
  exact ⟨m, mem, at_i, (sub_le_sub_right later _).trans fresh, endpoint⟩

end Acts

/-! ## The owner over a run -/

section Owner

variable {Digest : Type*} [LinearOrder Digest] {sha256 : Text → Digest}
variable {settings settings' : Settings} {key : HTTPBridgeSessionKey}

theorem pairwise_ranking (names : List Text) : (ranking names).Pairwise (· < ·) :=
  (List.pairwise_insertionSort _ _).and (nodup_ranking names) |>.imp fun h => lt_of_le_of_ne h.1 h.2

/-- The members of a ring by their names without space around them. -/
def ringNames (activeMembers : List Text) : List Text :=
  ranking ((activeMembers.map strip).filter fun member => member ≠ [])

theorem mem_ringNames {activeMembers : List Text} {o : Text} :
    o ∈ ringNames activeMembers ↔ o ≠ [] ∧ ∃ i ∈ activeMembers, strip i = o := by
  rw [ringNames, mem_ranking, List.mem_filter, List.mem_map, decide_eq_true_eq]
  exact and_comm

theorem activeInstanceRing_listed {activeMembers : List Text} (some_name : ringNames activeMembers ≠ []) :
    activeInstanceRing settings (.listed activeMembers) =
      some ((normalizedInstanceRing settings).1, ringNames activeMembers) := by
  have some_member : activeMembers ≠ [] := by
    rintro rfl
    exact some_name rfl
  simp only [activeInstanceRing, if_neg some_member]
  exact if_neg some_name

/-- In a ring of two or more the owner has the highest hash, whoever asks. -/
theorem ownerInstance_listed {activeMembers : List Text} {o : Text}
    (several : 2 ≤ (ringNames activeMembers).length)
    (owner : ownerInstance sha256 key settings (.listed activeMembers) = some (some o)) :
    Rendezvous.Chosen (fun node => sha256 (hashInput key ++ ':' :: node))
      {a | a ∈ ringNames activeMembers} o := by
  have some_name : ringNames activeMembers ≠ [] := List.ne_nil_of_length_pos (by omega)
  have sorted : (ringNames activeMembers).Pairwise (· < ·) := pairwise_ranking _
  rw [ownerInstance, activeInstanceRing_listed some_name, Option.map_some, Option.some.injEq,
    if_neg (Nat.not_le_of_lt several)] at owner
  rw [← Rendezvous.argmax_eq_some sorted]
  generalize ringNames activeMembers = names at several owner
  cases names with
  | nil => cases several
  | cons first rest =>
    cases rest with
    | nil => exact absurd several (by simp)
    | cons second rest => exact owner

/-- What a replica reads of the table. -/
def Ring.lookup (s : Ring) : Lookup := .listed (s.listActive ringStaleThresholdSeconds true)

theorem mem_names {s : Ring} {o : Text} :
    o ∈ ringNames (s.listActive ringStaleThresholdSeconds true) ↔
      o ≠ [] ∧ ∃ i, strip i = o ∧ Listed s i := by
  rw [mem_ringNames]
  simp only [mem_listActive, and_comm]

/-- Why an instance is taken off the list: it lets its heartbeat go stale, unregisters, or gives
up its endpoint. -/
def LeavesBy (i : Text) (r : Ring) (a : ℚ × Act) : Prop :=
  ¬ Listed { r with clock := a.1 } i ∨
    a.2 = .unregister i ∨ a.2 = .register i none ∨ a.2 = .heartbeat i none

/-- Why an instance is put on the list: it writes its endpoint, or is marked stale. -/
def JoinsBy (i : Text) (a : ℚ × Act) : Prop :=
  (∃ endpoint, a.2 = .register i (some endpoint) ∨ a.2 = .heartbeat i (some endpoint)) ∨
    a.2 = .markStale i

theorem step_leaves {r r' : Ring} {a : ℚ × Act} {i : Text} (h : step r a = some r')
    (left : ¬ Listed r' i) : LeavesBy i r a := by
  rw [step] at h
  split_ifs at h
  cases h
  by_cases lapsed : Listed { r with clock := a.1 } i
  · exact Or.inr (act_leaves lapsed left)
  · exact Or.inl lapsed

theorem step_joins {r r' : Ring} {a : ℚ × Act} {i : Text} (h : step r a = some r')
    (unlisted : ¬ Listed r i) (joined : Listed r' i) : JoinsBy i a := by
  rw [step] at h
  split_ifs at h with later
  cases h
  exact act_joins (fun listed => unlisted (listed_later later listed)) joined

/-- While two or more replicas are listed, whichever of them asks, a key changes its owner only
for cause: at some step in between, the old owner let its heartbeat go stale, unregistered or gave
up its endpoint, or the new one, not listed before, wrote its endpoint or was marked stale. -/
theorem owner_changes_for_cause (sha256 : Text → Digest) (key : HTTPBridgeSessionKey)
    (settings settings' : Settings) {s t : Ring} (acts : List (ℚ × Act))
    (run : replay step s acts = some t) {o o' : Text}
    (several : 2 ≤ (ringNames (s.listActive ringStaleThresholdSeconds true)).length)
    (several' : 2 ≤ (ringNames (t.listActive ringStaleThresholdSeconds true)).length)
    (owner : ownerInstance sha256 key settings s.lookup = some (some o))
    (owner' : ownerInstance sha256 key settings' t.lookup = some (some o')) (changed : o ≠ o') :
    ∃ before a later r r' i, acts = before ++ a :: later ∧ replay step s before = some r ∧
      step r a = some r' ∧
      ((strip i = o ∧ Listed r i ∧ ¬ Listed r' i ∧ LeavesBy i r a) ∨
        (strip i = o' ∧ ¬ Listed r i ∧ Listed r' i ∧ JoinsBy i a)) := by
  have chosen := ownerInstance_listed several owner
  have chosen' := ownerInstance_listed several' owner'
  rcases chosen.moved chosen' changed with gone | new
  · obtain ⟨named, i, same, listed⟩ := mem_names.mp chosen.1
    have ended : ¬ Listed t i := fun still => gone (mem_names.mpr ⟨named, i, same, still⟩)
    obtain ⟨before, a, later, r, r', split, replayed, hstep, here, left⟩ :=
      replay_turns (P := fun x => Listed x i) acts run listed ended
    exact ⟨before, a, later, r, r', i, split, replayed, hstep,
      Or.inl ⟨same, here, left, step_leaves hstep left⟩⟩
  · obtain ⟨named, i, same, listed⟩ := mem_names.mp chosen'.1
    have start : ¬ Listed s i := fun before => new (mem_names.mpr ⟨named, i, same, before⟩)
    obtain ⟨before, a, later, r, r', split, replayed, hstep, here, joined⟩ :=
      replay_turns (P := fun x => ¬ Listed x i) acts run start (not_not_intro listed)
    exact ⟨before, a, later, r, r', i, split, replayed, hstep,
      Or.inr ⟨same, here, not_not.mp joined, step_joins hstep here (not_not.mp joined)⟩⟩

/-- A third replica registers and takes a key over, by the digests of the three names. -/
theorem owner_changes_for_cause_registered : ∃ before a later r r' i,
    ([(1, .register "c".toList (some "u".toList))] : List (ℚ × Act)) = before ++ a :: later ∧
      replay step ⟨[⟨"a".toList, 0, 0, some "u".toList⟩, ⟨"b".toList, 0, 0, some "u".toList⟩], 0⟩
        before = some r ∧
      step r a = some r' ∧
      ((strip i = "b".toList ∧ Listed r i ∧ ¬ Listed r' i ∧ LeavesBy i r a) ∨
        (strip i = "c".toList ∧ ¬ Listed r i ∧ Listed r' i ∧ JoinsBy i a)) :=
  owner_changes_for_cause
    (fun input =>
      if input = "session_header:s1::a".toList then
        (0x0e2b9671c737c2e908a32e647efd828fc39e3a2008471dd65bc23abb7bb66a36 : ℕ)
      else if input = "session_header:s1::b".toList then
        0x2e7531c61d4e23b9c88fd2c28d3d6fde37b7b6653176a651cb393f1dbe764e7b
      else if input = "session_header:s1::c".toList then
        0xa805de2f77959d2da3412f320469a6bea8f85b96a9096c8e85a7355674ff85e0
      else 0)
    ⟨"session_header".toList, "s1".toList, none⟩ ⟨"a".toList, []⟩ ⟨"b".toList, []⟩
    [(1, .register "c".toList (some "u".toList))] rfl (by decide +kernel) (by decide +kernel)
    (by decide +kernel) (by decide +kernel) (by decide +kernel)

end Owner

end BridgeRing
