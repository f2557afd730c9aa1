import LivingBalancer.Caches.SelectionInputs
import LivingBalancer.Lib.Runs

/-!
# The selection cache and its invalidations

`AccountSelectionCache` with any number of loads in flight. A load looks its key up, reads
the generation, then the world, and sets what it made of it; between two of these anything
may happen, other loads, invalidations and changes of the world included. A lookup never
suspends, and neither does a set once it holds the lock of the cache, so each is one step.

The history holds when the cache was invalidated and, for every load and every entry, the
looks at the world behind it.
-/

namespace SelectionInputsCache

open Runs Readings

variable {Key Env Data : Type}

/-- `_CachedSelectionInputs`. -/
structure CachedInputs (Data : Type) where
  data : Data
  expiresAt : ℚ

structure AccountSelectionCache (Key Data : Type) where
  ttlSeconds : ℕ
  cache : Key → Option (CachedInputs Data)
  generation : ℕ

namespace AccountSelectionCache

def get (c : AccountSelectionCache Key Data) (key : Key) (monotonic : ℚ) : Option Data :=
  if c.ttlSeconds = 0 then none
  else match c.cache key with
    | none => none
    | some entry => if entry.expiresAt ≤ monotonic then none else some entry.data

def store [DecidableEq Key] (c : AccountSelectionCache Key Data) (key : Key)
    (entry : CachedInputs Data) : AccountSelectionCache Key Data :=
  { c with cache := fun k => if k = key then some entry else c.cache k }

def set [DecidableEq Key] (c : AccountSelectionCache Key Data) (data : Data) (key : Key)
    (generation : Option ℕ) (monotonic : ℚ) : AccountSelectionCache Key Data :=
  if generation.isSome ∧ generation ≠ some c.generation then c
  else c.store key { data := data, expiresAt := monotonic + c.ttlSeconds }

def invalidate (c : AccountSelectionCache Key Data) : AccountSelectionCache Key Data :=
  { c with generation := c.generation + 1, cache := fun _ => none }

theorem set_current [DecidableEq Key] (c : AccountSelectionCache Key Data) (data : Data) (key : Key)
    (monotonic : ℚ) :
    c.set data key (some c.generation) monotonic =
      c.store key { data := data, expiresAt := monotonic + c.ttlSeconds } :=
  if_neg fun both => both.2 rfl

theorem set_stale [DecidableEq Key] {c : AccountSelectionCache Key Data} {generation : ℕ}
    (stale : generation ≠ c.generation) (data : Data) (key : Key) (monotonic : ℚ) :
    c.set data key (some generation) monotonic = c :=
  if_pos ⟨rfl, fun same => stale (Option.some.inj same)⟩

theorem get_eq_some {c : AccountSelectionCache Key Data} {key : Key} {monotonic : ℚ} {data : Data}
    (h : c.get key monotonic = some data) :
    ∃ entry, c.cache key = some entry ∧ entry.data = data := by
  simp only [get] at h
  split_ifs at h
  cases hentry : c.cache key with
  | none => simp [hentry] at h
  | some entry =>
    simp only [hentry, Option.ite_none_left_eq_some, Option.some.injEq] at h
    exact ⟨entry, rfl, h.2⟩

end AccountSelectionCache

/-- Where a load stands: before its lookup, after a miss, or at its looks at the world. -/
inductive Load (Key Env Data : Type) where
  | keyed (key : Key)
  | missed (key : Key)
  | loading (key : Key) (generation : ℕ) (rest : Query Env Data)

structure Loads (Key Env Data : Type) where
  cache : AccountSelectionCache Key Data
  loads : ℕ → Option (Load Key Env Data)
  world : Env

inductive LoadAct (Key Env : Type) where
  | start (n : ℕ) (key : Key)
  | get (n : ℕ) (monotonic : ℚ)
  | readGeneration (n : ℕ)
  | look (n : ℕ)
  | set (n : ℕ) (monotonic : ℚ)
  | fail (n : ℕ)
  | invalidate
  | change (world : Env)

section System

variable [DecidableEq Key] (body : Key → Query Env Data)

def Loads.setLoad (s : Loads Key Env Data) (n : ℕ) (load : Option (Load Key Env Data)) :
    Loads Key Env Data :=
  { s with loads := fun m => if m = n then load else s.loads m }

def loadStep (s : Loads Key Env Data) : LoadAct Key Env → Option (Loads Key Env Data)
  | .start n key =>
    match s.loads n with
    | none => some (s.setLoad n (some (.keyed key)))
    | some _ => none
  | .get n monotonic =>
    match s.loads n with
    | some (.keyed key) =>
      match s.cache.get key monotonic with
      | some _ => some (s.setLoad n none)
      | none => some (s.setLoad n (some (.missed key)))
    | _ => none
  | .readGeneration n =>
    match s.loads n with
    | some (.missed key) => some (s.setLoad n (some (.loading key s.cache.generation (body key))))
    | _ => none
  | .look n =>
    match s.loads n with
    | some (.loading key generation (.read next)) =>
      some (s.setLoad n (some (.loading key generation (next s.world))))
    | _ => none
  | .set n monotonic =>
    match s.loads n with
    | some (.loading key generation (.done data)) =>
      some ({ s with cache := s.cache.set data key (some generation) monotonic }.setLoad n none)
    | _ => none
  | .fail n =>
    match s.loads n with
    | some _ => some (s.setLoad n none)
    | none => none
  | .invalidate => some { s with cache := s.cache.invalidate }
  | .change world => some { s with world := world }

/-! ## The history -/

/-- A look at the world. -/
structure Look (Env : Type) where
  instant : ℕ
  world : Env

structure History (Key Env : Type) where
  instant : ℕ
  invalidations : List ℕ
  looks : ℕ → List (Look Env)
  origin : Key → List (Look Env)

def noteLook (s : Loads Key Env Data) (act : LoadAct Key Env) (_ : Loads Key Env Data)
    (history : History Key Env) : History Key Env :=
  { instant := history.instant + 1
    invalidations := match act with
      | .invalidate => history.instant :: history.invalidations
      | _ => history.invalidations
    looks := match act with
      | .readGeneration n => fun m => if m = n then [] else history.looks m
      | .look n => fun m =>
        if m = n then history.looks n ++ [⟨history.instant, s.world⟩] else history.looks m
      | _ => history.looks
    origin := match act with
      | .set n _ =>
        match s.loads n with
        | some (.loading key generation _) => fun k =>
          if k = key ∧ generation = s.cache.generation then history.looks n else history.origin k
        | _ => history.origin
      | _ => history.origin }

/-- All the looks came after all the invalidations. -/
def After (invalidations : List ℕ) (looks : List (Look Env)) : Prop :=
  ∀ look ∈ looks, ∀ i ∈ invalidations, i < look.instant

/-- A load that read the current generation has only looked since the last invalidation. -/
structure LoadOk (current : ℕ) (invalidations : List ℕ) (key : Key) (generation : ℕ)
    (rest : Query Env Data) (looks : List (Look Env)) : Prop where
  continues : (body key).Continues (looks.map (·.world)) rest
  bounded : generation ≤ current
  after : generation = current → After invalidations looks

structure Guarded (s : Loads Key Env Data) (history : History Key Env) : Prop where
  past : ∀ i ∈ history.invalidations, i < history.instant
  loads : ∀ n key generation rest, s.loads n = some (.loading key generation rest) →
    LoadOk body s.cache.generation history.invalidations key generation rest (history.looks n)
  entries : ∀ key entry, s.cache.cache key = some entry →
    (body key).answer ((history.origin key).map (·.world)) = some entry.data ∧
      After history.invalidations (history.origin key)

variable {body} {s s' : Loads Key Env Data} {history history' : History Key Env}

omit [DecidableEq Key] in
/-- A step of one load that leaves the cache alone. -/
theorem Guarded.setLoad (g : Guarded body s history) (n : ℕ) {load : Option (Load Key Env Data)}
    (later : history.instant ≤ history'.instant)
    (invalidations : history'.invalidations = history.invalidations)
    (origin : history'.origin = history.origin)
    (others : ∀ m, m ≠ n → history'.looks m = history.looks m)
    (ok : ∀ key generation rest, load = some (.loading key generation rest) →
      LoadOk body s.cache.generation history.invalidations key generation rest
        (history'.looks n)) :
    Guarded body (s.setLoad n load) history' := by
  refine ⟨fun i hi => ?_, fun m key generation rest h => ?_, fun key entry h => ?_⟩
  · rw [invalidations] at hi
    exact lt_of_lt_of_le (g.past i hi) later
  · simp only [Loads.setLoad] at h
    rw [invalidations]
    split_ifs at h with same
    · rw [same]
      exact ok key generation rest h
    · rw [others m same]
      exact g.loads m key generation rest h
  · rw [origin, invalidations]
    exact g.entries key entry h

omit [DecidableEq Key] in
theorem LoadOk.look {current : ℕ} {key : Key} {generation : ℕ} {next : Env → Query Env Data}
    {looks : List (Look Env)}
    (ok : LoadOk body current history.invalidations key generation (.read next) looks)
    (past : ∀ i ∈ history.invalidations, i < history.instant) (world : Env) :
    LoadOk body current history.invalidations key generation (next world)
      (looks ++ [⟨history.instant, world⟩]) := by
  refine ⟨?_, ok.bounded, fun same look hlook i hi => ?_⟩
  · rw [List.map_append]
    exact ok.continues.read world
  · rcases List.mem_append.mp hlook with before | last
    · exact ok.after same look before i hi
    · obtain rfl := List.mem_singleton.mp last
      exact past i hi

omit [DecidableEq Key] in
theorem Guarded.invalidate (g : Guarded body s history)
    (later : history'.instant = history.instant + 1)
    (invalidations : history'.invalidations = history.instant :: history.invalidations)
    (looks : history'.looks = history.looks) :
    Guarded body { s with cache := s.cache.invalidate } history' := by
  refine ⟨fun i hi => ?_, fun n key generation rest h => ?_, nofun⟩
  · rw [later]
    rw [invalidations] at hi
    rcases List.mem_cons.mp hi with rfl | hi
    · exact Nat.lt_succ_self _
    · exact Nat.lt_succ_of_lt (g.past i hi)
  · have ok := g.loads n key generation rest h
    rw [looks]
    refine ⟨ok.continues, Nat.le_succ_of_le ok.bounded, fun same => ?_⟩
    -- no load in flight has read the new generation
    exact absurd ok.bounded (by rw [same]; exact Nat.not_succ_le_self _)

theorem Guarded.set (g : Guarded body s history) {n : ℕ} {key : Key} {generation : ℕ} {data : Data}
    (h : s.loads n = some (.loading key generation (.done data))) (monotonic : ℚ)
    (invalidations : history'.invalidations = history.invalidations)
    (later : history.instant ≤ history'.instant) (looks : history'.looks = history.looks)
    (origin : ∀ k, history'.origin k =
      if k = key ∧ generation = s.cache.generation then history.looks n else history.origin k) :
    Guarded body { s with cache := s.cache.set data key (some generation) monotonic } history' := by
  have past : ∀ i ∈ history'.invalidations, i < history'.instant := by
    rw [invalidations]
    exact fun i hi => lt_of_lt_of_le (g.past i hi) later
  by_cases same : generation = s.cache.generation
  · subst same
    rw [AccountSelectionCache.set_current]
    refine ⟨past, ?_, fun k entry hentry => ?_⟩
    · rw [invalidations, looks]
      exact g.loads
    · rw [origin, invalidations]
      simp only [AccountSelectionCache.store] at hentry
      split_ifs at hentry with hk
      · cases hentry
        rw [if_pos ⟨hk, rfl⟩, hk]
        have ok := g.loads n _ _ _ h
        exact ⟨ok.continues.answer, ok.after rfl⟩
      · rw [if_neg fun both => hk both.1]
        exact g.entries k entry hentry
  · -- the cache was invalidated since the load read the generation
    rw [AccountSelectionCache.set_stale same]
    refine ⟨past, ?_, fun k entry hentry => ?_⟩
    · rw [invalidations, looks]
      exact g.loads
    · rw [origin, invalidations, if_neg fun both => same both.2]
      exact g.entries k entry hentry

theorem Guarded.step (g : Guarded body s history) {act : LoadAct Key Env}
    (h : loadStep body s act = some s') : Guarded body s' (noteLook s act s' history) := by
  cases act with
  | start n key =>
    simp only [loadStep] at h
    split at h <;> cases h
    exact g.setLoad n (Nat.le_succ _) rfl rfl (fun _ _ => rfl) fun _ _ _ h => nomatch h
  | get n monotonic =>
    simp only [loadStep] at h
    split at h
    · split at h <;> cases h
      · exact g.setLoad n (Nat.le_succ _) rfl rfl (fun _ _ => rfl) fun _ _ _ h => nomatch h
      · exact g.setLoad n (Nat.le_succ _) rfl rfl (fun _ _ => rfl) fun _ _ _ h => nomatch h
    · cases h
  | readGeneration n =>
    simp only [loadStep] at h
    split at h <;> cases h
    refine g.setLoad n (Nat.le_succ _) rfl rfl (fun m other => if_neg other) ?_
    rintro key generation rest ⟨⟩
    simp only [noteLook, if_true]
    exact ⟨.start _, le_rfl, fun _ _ hlook => nomatch hlook⟩
  | look n =>
    simp only [loadStep] at h
    split at h <;> cases h
    rename_i key generation next hload
    refine g.setLoad n (Nat.le_succ _) rfl rfl (fun m other => if_neg other) ?_
    rintro _ _ _ ⟨⟩
    simp only [noteLook, if_true]
    exact (g.loads n _ _ _ hload).look g.past s.world
  | set n monotonic =>
    simp only [loadStep] at h
    split at h <;> cases h
    rename_i key generation data hload
    have landed : Guarded body { s with cache := s.cache.set data key (some generation) monotonic }
        (noteLook s (.set n monotonic) s history) :=
      g.set hload monotonic rfl (Nat.le_succ _) rfl fun k => by simp only [noteLook, hload]
    exact landed.setLoad n le_rfl rfl rfl (fun _ _ => rfl) fun _ _ _ h => nomatch h
  | fail n =>
    simp only [loadStep] at h
    split at h <;> cases h
    exact g.setLoad n (Nat.le_succ _) rfl rfl (fun _ _ => rfl) fun _ _ _ h => nomatch h
  | invalidate =>
    cases h
    exact g.invalidate rfl rfl rfl
  | change world =>
    cases h
    refine ⟨fun i hi => Nat.lt_succ_of_lt (g.past i hi), g.loads, g.entries⟩

/-- A process that was just started. -/
structure Cold (x : Loads Key Env Data × History Key Env) : Prop where
  cache : ∀ key, x.1.cache.cache key = none
  loads : ∀ n, x.1.loads n = none
  invalidations : x.2.invalidations = []

theorem Guarded.of_reachable
    (h : Reachable (recording (loadStep body) noteLook) Any Cold (s, history)) :
    Guarded body s history := by
  refine h.invariant (I := fun x => Guarded body x.1 x.2) ?_ ?_
  · rintro ⟨s, history⟩ cold
    refine ⟨fun i hi => ?_, fun n _ _ _ hload => ?_, fun key _ hentry => ?_⟩
    · rw [cold.invalidations] at hi
      cases hi
    · rw [cold.loads n] at hload
      cases hload
    · rw [cold.cache key] at hentry
      cases hentry
  · intro x act y g _ hstep
    obtain ⟨hload, hnote⟩ := recording_eq_some.mp hstep
    rw [hnote]
    exact g.step hload

end System

/-- What a lookup returns is what the load that set the entry made of its looks at the world, and
these all came after every invalidation before the lookup. -/
theorem invalidated_never_served {quotas : QuotaRegistry} {refreshIntervalSeconds : ℚ}
    {s : Loads CacheKey World Balancer.SelectionInputs} {history : History CacheKey World}
    (h : Reachable
      (recording (loadStep (loadSelectionInputs quotas refreshIntervalSeconds)) noteLook)
      Any Cold (s, history))
    {key : CacheKey} {monotonic : ℚ} {inputs : Balancer.SelectionInputs}
    (hit : s.cache.get key monotonic = some inputs) :
    (loadSelectionInputs quotas refreshIntervalSeconds key).answer
        ((history.origin key).map (·.world)) = some inputs ∧
      After history.invalidations (history.origin key) := by
  obtain ⟨entry, hentry, rfl⟩ := AccountSelectionCache.get_eq_some hit
  exact (Guarded.of_reachable h).entries key entry hentry

/-! ## An invalidation during a load -/

def noQuotas : QuotaRegistry where
  keyForModel _ := none
  canonicalKey _ := none
  canonicalLimitName _ := none
  routingPolicy _ _ := "inherit"
  plans _ := none

def activeAccount (id : String) : Balancer.Account where
  id := id
  planType := "plus"
  routingPolicy := "normal"
  refreshTokenEncrypted := ""
  status := .active
  deactivationReason := none
  resetAt := none
  blockedAt := none

def worldOf (id : String) : World where
  accounts := ⟨[activeAccount id], List.nodup_singleton id⟩
  usage _ _ := none
  additionalUsage _ _ _ _ := none
  models := ⟨fun _ => false, fun _ _ _ _ => false, fun _ _ => false⟩
  now := 0

def anyModel : CacheKey where
  model := none
  serviceTier := none
  additionalLimitName := none
  routingPolicies := []
  accountIds := none

def coldStart : Loads CacheKey World Balancer.SelectionInputs × History CacheKey World :=
  ({ cache := { ttlSeconds := 5, cache := fun _ => none, generation := 0 }
     loads := fun _ => none
     world := worldOf "a" },
    { instant := 0, invalidations := [], looks := fun _ => [], origin := fun _ => [] })

/-- Load 0 has seen account "a" when account "b" replaces it and the cache is invalidated; its
set is refused. Load 1 begins after that. -/
def invalidatedLoad : List (LoadAct CacheKey World) :=
  [.start 0 anyModel, .get 0 0, .readGeneration 0, .look 0, .change (worldOf "b"), .invalidate,
    .look 0, .look 0, .look 0, .look 0, .look 0, .set 0 0,
    .start 1 anyModel, .get 1 1, .readGeneration 1, .look 1, .look 1, .look 1, .look 1, .look 1,
    .look 1, .set 1 1]

def reloaded : Loads CacheKey World Balancer.SelectionInputs × History CacheKey World :=
  (replay (recording (loadStep (loadSelectionInputs noQuotas 60)) noteLook) coldStart
    invalidatedLoad).getD coldStart

theorem reload_served :
    reloaded.2.invalidations = [5] ∧
      (reloaded.2.origin anyModel).map (·.instant) = [15, 16, 17, 18, 19, 20] ∧
      ∃ inputs, reloaded.1.cache.get anyModel 2 = some inputs ∧
        inputs.accounts.map (·.id) = ["b"] ∧
        (loadSelectionInputs noQuotas 60 anyModel).answer
            ((reloaded.2.origin anyModel).map (·.world)) = some inputs ∧
          After reloaded.2.invalidations (reloaded.2.origin anyModel) := by
  have cold : Cold coldStart := ⟨fun _ => rfl, fun _ => rfl, rfl⟩
  have run : Reachable (recording (loadStep (loadSelectionInputs noQuotas 60)) noteLook)
      Any Cold (reloaded.1, reloaded.2) :=
    reachable_of_replay invalidatedLoad cold (fun _ _ _ => trivial) rfl
  have hit : (reloaded.1.cache.get anyModel 2).map (fun inputs => inputs.accounts.map (·.id)) =
      some ["b"] := by decide +kernel
  obtain ⟨inputs, served, accounts⟩ := Option.map_eq_some_iff.mp hit
  exact ⟨rfl, rfl, inputs, served, accounts, invalidated_never_served run served⟩

end SelectionInputsCache
