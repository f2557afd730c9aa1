import LivingBalancer.ApiKeys.Limits
import LivingBalancer.Lib.Runs
import LivingBalancer.Lib.Tables
import Mathlib.Data.List.Sort

/-!
# The limit operations, statement by statement

A call is at a program point; `statement` is what it sends to the database next and
`resume` is where the answer takes it. Every repository statement is one step of the
system, calls interleave freely between them, and rows written are seen by others only
after the commit. A session that meets a locked row waits. Exceptions, cancellations and
the retries after a locked SQLite database end a call by `abort`; the retry is a new call.
The `last_used_at` column and the other columns of a key are left out.
-/

namespace ApiKeys

/-- One claim of a reservation and what follows it: the items with the amounts to record,
and the final status write of the paths that make one. -/
structure Settlement where
  reservationId : String
  claimAs : ReservationStatus
  staleBefore : Option Int
  skipsZero : Bool
  todo : List (ReservationItem × Int)
  closing : Option (ReservationStatus × UsageColumns)

structure LimitRuleInput where
  limitType : LimitType
  limitWindow : LimitWindow
  maxValue : Int
  modelFilter : Option String
  deriving DecidableEq

structure EditArgs where
  keyId : String
  rules : List LimitRuleInput
  now : Int

/-- A statement of the flush of an edit. An update names the columns it sets. -/
inductive LimitWrite where
  | insert (row : Limit)
  | update (id : Nat) (maxValue currentValue resetAt : Option Int)
  | delete (id : Nat)

/-- History of a rule an edit keeps: the counter it copied, and the one last loaded. -/
structure KeptRule where
  limitId : Nat
  copied : Int
  loaded : Int
  deriving DecidableEq

/-- The rows a session has loaded; SQLAlchemy's identity map. -/
abbrev IdentityMap := Nat → Option Limit

inductive Pc where
  | idle
  | enforce (args : EnforceArgs) (limitsReset : Bool)
  | reserve (args : EnforceArgs) (id : Nat) (limit : Limit) (delta : Int)
      (todo : List (Nat × Limit)) (items : List ReservationItem)
  | createReservation (args : EnforceArgs) (items : List ReservationItem)
  | settle (args : SettleArgs)
  | release (id : String)
  | releaseStale (cutoff : Int) (batchSize : Nat)
  | staleItems (cutoff : Int) (batchSize : Nat) (ids : List String)
  | claim (s : Settlement) (next : Pc)
  | adjust (s : Settlement) (item : ReservationItem) (actual : Int)
      (todo : List (ReservationItem × Int)) (next : Pc)
  | recordActual (s : Settlement) (item : ReservationItem) (actual : Int)
      (todo : List (ReservationItem × Int)) (next : Pc)
  | settleStatus (id : String) (status : ReservationStatus) (usage : UsageColumns) (next : Pc)
  | resetExpired (now : Int) (batchSize : Nat)
  | reset (id : Nat) (expected new : Int) (next : Pc)
  | edit (args : EditArgs)
  | editLimits (args : EditArgs) (loaded : IdentityMap)
  | editKey (args : EditArgs) (rows : List Limit) (loaded : IdentityMap)
  | editReload (args : EditArgs) (rows : List Limit) (loaded : IdentityMap)
  | upsertLimits (args : EditArgs) (rows : List Limit) (loaded : IdentityMap)
  | writeLimits (todo : List LimitWrite) (kept : List KeptRule)
  | commit (next : Pc)
  | rollback

/-- What the database and the clock decide at a step: the time, a drawn uuid, the order in
which rows come back, the rows of a batch, the usage logged for new rules, a new row id. -/
structure Env where
  clock : Int := 0
  uuid : String := ""
  order : List Nat := []
  batch : List String := []
  logged : List Int := []
  rowId : Nat := 0

inductive Statement where
  | select
  | updateLimit (id : Nat) (cond : Limit → Bool) (set : Limit → Limit)
  | insertLimit (row : Limit)
  | deleteLimit (id : Nat)
  | updateReservation (id : String) (cond : Reservation → Bool) (set : Reservation → Reservation)
  | insertReservation (row : Reservation)
  | upsertItem (id : String) (item : ReservationItem) (actual : Int)
  | commit
  | rollback

def Statement.commits : Statement → Bool
  | .commit => true
  | _ => false

def Statement.draws : Statement → Bool
  | .insertReservation _ => true
  | _ => false

/-- What a `SELECT` sees; `limitIds` and `drawn` are all row ids given out so far. -/
structure Snapshot where
  keys : String → Option ApiKey
  limits : Nat → Option Limit
  reservations : String → Option Reservation
  limitIds : List Nat
  drawn : List String

inductive Reply where
  | rows (snapshot : Snapshot)
  | hit
  | miss

structure Sys where
  keys : String → Option ApiKey
  limits : Table Nat Limit
  reservations : Table String Reservation
  calls : Nat → Pc
  limitIds : List Nat
  drawn : List String

/-- The conflict clause of `upsert_reservation_item_actual`; no row to conflict with inserts one. -/
def upsertActual (items : List ReservationItem) (item : ReservationItem) (actual : Int) :
    List ReservationItem :=
  if items.any fun i => i.limitId == item.limitId then
    items.map fun i => if i.limitId = item.limitId then { i with actualDelta := some actual } else i
  else items ++ [{ item with actualDelta := some actual }]

/-- The database answers a statement of session `c`; `none` while it has to wait. -/
def Sys.exec (s : Sys) (c : Nat) (env : Env) : Statement → Option (Sys × Reply)
  | .select => some (s, .rows ⟨s.keys, s.limits.view c, s.reservations.view c, s.limitIds, s.drawn⟩)
  | .updateLimit id cond set =>
    (s.limits.update c id cond set).map fun (limits, hit) =>
      ({ s with limits := limits }, if hit then .hit else .miss)
  | .insertLimit row =>
    if env.rowId ∈ s.limitIds then none
    else (s.limits.write c env.rowId (some row)).map fun limits =>
      ({ s with limits := limits, limitIds := env.rowId :: s.limitIds }, .hit)
  | .deleteLimit id =>
    if (s.limits.view c id).isSome then
      (s.limits.write c id none).map fun limits => ({ s with limits := limits }, .hit)
    else some (s, .miss)
  | .updateReservation id cond set =>
    (s.reservations.update c id cond set).map fun (reservations, hit) =>
      ({ s with reservations := reservations }, if hit then .hit else .miss)
  | .insertReservation row =>
    -- the items reference their limits
    if row.items.all fun i => (s.limits.view c i.limitId).isSome then
      if env.uuid ∈ s.drawn then none
      else (s.reservations.write c env.uuid (some row)).map fun reservations =>
        ({ s with reservations := reservations, drawn := env.uuid :: s.drawn }, .hit)
    else some (s, .miss)
  | .upsertItem id item actual =>
    if (s.limits.view c item.limitId).isSome then
      (s.reservations.update c id (fun _ => true)
          fun r => { r with items := upsertActual r.items item actual }).map
        fun (reservations, hit) => ({ s with reservations := reservations }, if hit then .hit else .miss)
    else some (s, .miss)
  | .commit =>
    some ({ s with limits := s.limits.commit c, reservations := s.reservations.commit c }, .hit)
  | .rollback =>
    some ({ s with limits := s.limits.rollback c, reservations := s.reservations.rollback c }, .hit)

/-- `SELECT … FROM api_key_limits WHERE api_key_id = …`, in the order the rows come back. -/
def Snapshot.limitsByKey (snap : Snapshot) (order : List Nat) (keyId : String) : List (Nat × Limit) :=
  order.filterMap fun id => (snap.limits id).bind fun row =>
    if row.apiKeyId = keyId then some (id, row) else none

/-- A batch of `reset_expired_limits`: `reset_at < now`, by `reset_at` and id. -/
def Snapshot.expiredLimits (snap : Snapshot) (order : List Nat) (now : Int) (batchSize : Nat) :
    List (Nat × Limit) :=
  let expired := order.filterMap fun id => (snap.limits id).bind fun row =>
    if row.resetAt < now then some (id, row) else none
  (expired.mergeSort fun a b => a.2.resetAt < b.2.resetAt ||
    (a.2.resetAt == b.2.resetAt && a.1 ≤ b.1)).take batchSize

/-- The items of a reservation. A limit's deletion cascades to them. -/
def Snapshot.items (snap : Snapshot) (r : Reservation) : List ReservationItem :=
  r.items.filter fun i => (snap.limits i.limitId).isSome

def Snapshot.stale (snap : Snapshot) (cutoff : Int) (id : String) : Bool :=
  (snap.reservations id).any fun r => r.status == .reserved && r.updatedAt < cutoff

def reservationItem (id : Nat) (limit : Limit) (delta : Int) : ReservationItem :=
  ⟨id, limit.limitType, delta, limit.resetAt, none⟩

/-- The loop over `refreshed.limits`, up to its next statement. -/
def nextReserve (pricing : Pricing) (args : EnforceArgs) :
    List (Nat × Limit) → List ReservationItem → Pc
  | [], items => .createReservation args items
  | (id, limit) :: todo, items =>
    if limitApplies limit args.model then
      if limit.maxValue ≤ limit.currentValue then .rollback
      else
        let delta := reserveDelta pricing args limit
        if 0 < delta then .reserve args id limit delta todo items
        else nextReserve pricing args todo (items ++ [reservationItem id limit delta])
    else nextReserve pricing args todo items

/-- `_lazy_reset_expired_limits`; each `reset_limit` commits. -/
def nextLazyReset (args : EnforceArgs) : List (Nat × Limit) → Pc
  | [] => .enforce args true
  | (id, limit) :: rest =>
    if args.now ≤ limit.resetAt then nextLazyReset args rest
    else .reset id limit.resetAt (advanceLimitReset limit.resetAt args.now limit.limitWindow)
      (.commit (nextLazyReset args rest))

/-- One batch of `reset_expired_limits`, with one commit. -/
def nextExpiredReset (now : Int) (batchSize : Nat) : List (Nat × Limit) → Pc
  | [] => .commit (.resetExpired now batchSize)
  | (id, limit) :: rest =>
    .reset id limit.resetAt (advanceLimitReset limit.resetAt now limit.limitWindow)
      (nextExpiredReset now batchSize rest)

/-- The loop over the items of a claimed reservation, up to its next statement. -/
def nextItem (s : Settlement) (next : Pc) : List (ReservationItem × Int) → Pc
  | [] => match s.closing with
    | some (status, usage) => .settleStatus s.reservationId status usage next
    | none => next
  | (item, actual) :: todo =>
    if s.skipsZero && actual - item.reservedDelta == 0 then .recordActual s item actual todo next
    else .adjust s item actual todo next

/-- `_settle_usage_reservation` on the items it has read. -/
def settlementOf (pricing : Pricing) (args : SettleArgs) (items : List ReservationItem) : Settlement where
  reservationId := args.reservationId
  claimAs := .settling
  staleBefore := none
  skipsZero := true
  todo := items.map fun i => (i, args.increment pricing i.limitType)
  closing := some (args.status,
    ⟨args.inputTokens, args.outputTokens, args.cachedInputTokens, some (args.cost pricing)⟩)

/-- `_release_usage_reservation_once` on the items it has read. -/
def releaseOf (id : String) (items : List ReservationItem) : Settlement where
  reservationId := id
  claimAs := .released
  staleBefore := none
  skipsZero := false
  todo := items.map fun i => (i, 0)
  closing := some (.released, {})

/-- One reservation of a batch of `release_stale_usage_reservations`. -/
def staleReleaseOf (cutoff : Int) (id : String) (items : List ReservationItem) : Settlement where
  reservationId := id
  claimAs := .released
  staleBefore := some cutoff
  skipsZero := false
  todo := items.map fun i => (i, 0)
  closing := none

/-- The claims of a stale batch, one commit after them. -/
def nextStale (snap : Snapshot) (cutoff : Int) (batchSize : Nat) : List String → Pc
  | [] => .commit (.releaseStale cutoff batchSize)
  | id :: ids => .claim (staleReleaseOf cutoff id ((snap.reservations id).elim [] snap.items))
      (nextStale snap cutoff batchSize ids)

/-- `UPDATE … SET status WHERE id AND status = 'reserved'`, with the cutoff of a stale release. -/
def Settlement.claimable (s : Settlement) (r : Reservation) : Bool :=
  r.status == .reserved && s.staleBefore.all fun cutoff => decide (r.updatedAt < cutoff)

def Settlement.claimed (s : Settlement) (clock : Int) (r : Reservation) : Reservation :=
  { r with status := s.claimAs, usage := if s.staleBefore.isSome then {} else r.usage, updatedAt := clock }

/-- The `WHERE` clause of `adjust_reserved_usage`. -/
def adjustable (expected delta : Int) (limit : Limit) : Bool :=
  limit.resetAt == expected && (decide (0 ≤ delta) || decide (-delta ≤ limit.currentValue))

def LimitWrite.statement : LimitWrite → Statement
  | .insert row => .insertLimit row
  | .update id maxValue currentValue resetAt => .updateLimit id (fun _ => true) fun l =>
    { l with maxValue := maxValue.getD l.maxValue
             currentValue := currentValue.getD l.currentValue
             resetAt := resetAt.getD l.resetAt }
  | .delete id => .deleteLimit id

/-- The statement a call sends next. -/
def statement (clock : Int) : Pc → Option Statement
  | .idle => none
  | .reserve _ id limit delta _ _ => some <| .updateLimit id
      (fun l => l.resetAt == limit.resetAt && decide (l.currentValue + delta ≤ l.maxValue))
      fun l => { l with currentValue := l.currentValue + delta }
  | .createReservation args items => some <| .insertReservation
      ⟨args.keyId, args.model.getD "", .reserved, {}, clock, items⟩
  | .claim s _ => some <| .updateReservation s.reservationId s.claimable (s.claimed clock)
  | .adjust _ item actual _ _ => some <| .updateLimit item.limitId
      (adjustable item.expectedResetAt (actual - item.reservedDelta))
      fun l => { l with currentValue := l.currentValue + (actual - item.reservedDelta) }
  | .recordActual s item actual _ _ => some <| .upsertItem s.reservationId item actual
  | .settleStatus id status usage _ => some <| .updateReservation id (fun _ => true)
      fun r => { r with status := status, usage := usage, updatedAt := clock }
  | .reset id expected new _ => some <| .updateLimit id (fun l => l.resetAt == expected)
      fun l => { l with currentValue := 0, resetAt := new, windowStart := 0 }
  | .writeLimits [] _ | .commit _ => some .commit
  | .writeLimits (w :: _) _ => some w.statement
  | .rollback => some .rollback
  | .enforce .. | .settle .. | .release .. | .releaseStale .. | .staleItems .. | .resetExpired ..
  | .edit .. | .editLimits .. | .editKey .. | .editReload .. | .upsertLimits .. => some .select

section Edit

def Limit.identity (l : Limit) : LimitType × LimitWindow × Option String :=
  (l.limitType, l.limitWindow, l.modelFilter)

def LimitRuleInput.identity (r : LimitRuleInput) : LimitType × LimitWindow × Option String :=
  (r.limitType, r.limitWindow, r.modelFilter)

/-- `existing_by_key.get(identity)`: of equal keys the last row wins. -/
def existingByKey (existing : List (Nat × Limit)) (key : LimitType × LimitWindow × Option String) :
    Option (Nat × Limit) :=
  (existing.filter fun e => e.2.identity = key).getLast?

/-- `_limit_input_to_row`. -/
def limitInputToRow (args : EditArgs) (rule : LimitRuleInput) (currentValue resetAt : Int) : Option Limit :=
  if rule.limitType = .credits ∧ rule.modelFilter.isSome then none
  else some ⟨args.keyId, rule.limitType, rule.limitWindow, rule.modelFilter, rule.maxValue,
    currentValue, resetAt, currentValue⟩

/-- The loop of `_build_limit_rows_for_update` with `reset_usage` false; `logged` is what
`get_limit_usage_value` finds for the rules without a row. -/
def buildRows (args : EditArgs) (existing : List (Nat × Limit)) :
    List LimitRuleInput → List Int → Option (List Limit)
  | [], _ => some []
  | rule :: rules, logged =>
    match existingByKey existing rule.identity with
    | some (_, matched) => do
      let row ← limitInputToRow args rule matched.currentValue matched.resetAt
      some (row :: (← buildRows args existing rules logged))
    | none => do
      let row ← limitInputToRow args rule (logged.headD 0) (args.now + limitWindowDelta rule.limitWindow)
      some (row :: (← buildRows args existing rules logged.tail))

/-- `_build_limit_rows_for_update`; `none` is an `ApiKeyValidationError`. -/
def buildLimitRowsForUpdate (args : EditArgs) (existing : List (Nat × Limit)) (logged : List Int) :
    Option (List Limit) :=
  if (args.rules.map LimitRuleInput.identity).Nodup then buildRows args existing args.rules logged
  else none

/-- A column goes into the `UPDATE` when the value assigned differs from the one last loaded. -/
def changed (loaded assigned : Int) : Option Int := if assigned = loaded then none else some assigned

/-- The rows of `upsert_limits` that a submitted row matches: id, loaded row, submitted row. -/
def matchedRows (existing : List (Nat × Limit)) (rows : List Limit) : List (Nat × Limit × Limit) :=
  rows.filterMap fun row => (existingByKey existing row.identity).map fun (id, loaded) => (id, loaded, row)

def updateOf (id : Nat) (loaded row : Limit) : Option LimitWrite :=
  if row.maxValue = loaded.maxValue ∧ row.currentValue = loaded.currentValue ∧ row.resetAt = loaded.resetAt
  then none
  else some (.update id (changed loaded.maxValue row.maxValue)
    (changed loaded.currentValue row.currentValue) (changed loaded.resetAt row.resetAt))

def deleteOf (rows : List Limit) (id : Nat) (old : Limit) : Option LimitWrite :=
  if rows.any fun row => row.identity = old.identity then none else some (.delete id)

/-- The flush after `upsert_limits`: inserts, then updates by id, then deletes. -/
def flushWrites (existing : List (Nat × Limit)) (rows : List Limit) : List LimitWrite :=
  (rows.filter fun row => (existingByKey existing row.identity).isNone).map .insert ++
    ((matchedRows existing rows).mergeSort fun a b => a.1 ≤ b.1).filterMap
      (fun (id, loaded, row) => updateOf id loaded row) ++
    existing.filterMap fun (id, old) => deleteOf rows id old

def keptRules (existing : List (Nat × Limit)) (rows : List Limit) : List KeptRule :=
  (matchedRows existing rows).map fun (id, loaded, row) => ⟨id, row.currentValue, loaded.currentValue⟩

def upsertLimits (existing : List (Nat × Limit)) (rows : List Limit) : Pc :=
  .writeLimits (flushWrites existing rows) (keptRules existing rows)

/-- A `SELECT` with `populate_existing` overwrites what the session had loaded. -/
def IdentityMap.populate (loaded : IdentityMap) (rows : List (Nat × Limit)) : IdentityMap :=
  fun id => (rows.lookup id).or (loaded id)

/-- A plain `SELECT` returns the rows found with the values already loaded. -/
def IdentityMap.merge (loaded : IdentityMap) (rows : List (Nat × Limit)) : List (Nat × Limit) :=
  rows.map fun (id, row) => (id, (loaded id).getD row)

end Edit

/-- The order the database chose lists each row once. -/
def Snapshot.listedBy (snap : Snapshot) (order : List Nat) : Prop :=
  order.Nodup ∧ ∀ id ∈ snap.limitIds, id ∈ order

instance (snap : Snapshot) (order : List Nat) : Decidable (snap.listedBy order) :=
  inferInstanceAs (Decidable (_ ∧ _))

def Snapshot.select (snap : Snapshot) (env : Env) (keyId : String) : Option (List (Nat × Limit)) :=
  if snap.listedBy env.order then some (snap.limitsByKey env.order keyId) else none

/-- `SELECT id … WHERE status = 'reserved' AND updated_at < cutoff LIMIT batch_size`. -/
def Snapshot.isStaleBatch (snap : Snapshot) (cutoff : Int) (batchSize : Nat) (ids : List String) : Prop :=
  ids.Nodup ∧ ids.length ≤ batchSize ∧ (∀ id ∈ ids, snap.stale cutoff id) ∧
    (ids = [] → ∀ id ∈ snap.drawn, ¬ snap.stale cutoff id)

instance (snap : Snapshot) (cutoff : Int) (batchSize : Nat) (ids : List String) :
    Decidable (snap.isStaleBatch cutoff batchSize ids) :=
  inferInstanceAs (Decidable (_ ∧ _ ∧ _ ∧ _))

/-- `_ensure_valid_api_key_row` and the expiry check. -/
def ApiKey.valid (key : ApiKey) (now : Int) : Bool :=
  key.isActive && !key.expiresAt.any fun expiresAt => decide (expiresAt < now)

/-- Where the answer takes the call; `none` when the environment's choice is not one
the database can make. -/
def resume (pricing : Pricing) (env : Env) : Pc → Reply → Option Pc
  | .enforce args limitsReset, .rows snap =>
    (snap.select env args.keyId).map fun rows =>
      if (snap.keys args.keyId).any fun key => key.valid args.now then
        if !limitsReset && rows.any fun (_, limit) => decide (limit.resetAt < args.now) then
          nextLazyReset args rows
        else nextReserve pricing args rows []
      else .rollback
  | .reserve args id limit delta todo items, .hit =>
    some (nextReserve pricing args todo (items ++ [reservationItem id limit delta]))
  | .createReservation .., .hit => some (.commit .idle)
  | .settle args, .rows snap =>
    match snap.reservations args.reservationId with
    | none => some .idle
    | some r => if r.status = .reserved then
        some (.claim (settlementOf pricing args (snap.items r)) (.commit .idle))
      else some .idle
  | .release id, .rows snap =>
    match snap.reservations id with
    | none => some .idle
    | some r => if r.status = .reserved then
        some (.claim (releaseOf id (snap.items r)) (.commit .idle))
      else some .idle
  | .releaseStale cutoff batchSize, .rows snap =>
    if snap.isStaleBatch cutoff batchSize env.batch then
      if env.batch = [] then some .idle else some (.staleItems cutoff batchSize env.batch)
    else none
  | .staleItems cutoff batchSize ids, .rows snap => some (nextStale snap cutoff batchSize ids)
  | .claim s next, .hit => some (nextItem s next s.todo)
  | .claim s next, .miss => if s.staleBefore.isSome then some next else some .rollback
  | .adjust s item actual todo next, _ => some (.recordActual s item actual todo next)
  | .recordActual s _ _ todo next, .hit => some (nextItem s next todo)
  | .settleStatus _ _ _ next, _ => some next
  | .resetExpired now batchSize, .rows snap =>
    if snap.listedBy env.order then
      match snap.expiredLimits env.order now batchSize with
      | [] => some .idle
      | rows => some (nextExpiredReset now batchSize rows)
    else none
  | .reset _ _ _ next, _ => some next
  | .edit args, .rows snap =>
    (snap.select env args.keyId).map fun rows =>
      if (snap.keys args.keyId).isSome then
        .editLimits args (IdentityMap.populate (fun _ => none) rows)
      else .rollback
  | .editLimits args loaded, .rows snap =>
    (snap.select env args.keyId).map fun rows =>
      match buildLimitRowsForUpdate args (loaded.merge rows) env.logged with
      | some built => .editKey args built loaded
      | none => .rollback
  | .editKey args built loaded, .rows snap =>
    (snap.select env args.keyId).map fun rows =>
      if (snap.keys args.keyId).isSome then .editReload args built (loaded.populate rows)
      else .rollback
  | .editReload args built loaded, .rows snap =>
    (snap.select env args.keyId).map fun rows => .upsertLimits args built (loaded.populate rows)
  | .upsertLimits args built loaded, .rows snap =>
    (snap.select env args.keyId).map fun rows => upsertLimits (loaded.merge rows) built
  | .writeLimits [] _, _ => some .idle
  | .writeLimits (.update ..  :: _) _, .miss => some .rollback
  | .writeLimits (_ :: todo) kept, _ => some (.writeLimits todo kept)
  | .commit next, _ => some next
  | .rollback, _ => some .idle
  | _, _ => some .rollback

inductive Request where
  | enforceLimits (args : EnforceArgs)
  | finalize (id model : String) (inputTokens outputTokens cachedInputTokens : Int)
      (serviceTier : Option String) (costMicrodollars : Option Int)
  | fail (id model : String) (inputTokens outputTokens cachedInputTokens : Option Int)
      (serviceTier : Option String)
  | release (id : String)
  | releaseStale (cutoff : Int) (batchSize : Nat)
  | resetExpired (now : Int) (batchSize : Nat)
  | updateKey (args : EditArgs)

def Request.entry : Request → Pc
  | .enforceLimits args => .enforce args false
  | .finalize id model input output cached tier cost =>
    .settle ⟨id, model, some input, some output, some cached, tier, .finalized, cost⟩
  | .fail id model input output cached tier =>
    .settle ⟨id, model, input, output, cached, tier, .failed, none⟩
  | .release id => .release id
  | .releaseStale cutoff batchSize => .releaseStale cutoff batchSize
  | .resetExpired now batchSize => .resetExpired now batchSize
  | .updateKey args => .edit args

inductive Act where
  | start (c : Nat) (request : Request)
  | run (c : Nat) (env : Env)
  | abort (c : Nat)

def Sys.goto (s : Sys) (c : Nat) (pc : Pc) : Sys :=
  { s with calls := fun c' => if c' = c then pc else s.calls c' }

def Pc.isIdle : Pc → Bool
  | .idle => true
  | _ => false

/-- The session of a call is closed, and what it has not committed is gone. -/
def Sys.close (s : Sys) (c : Nat) : Sys :=
  Sys.goto { s with limits := s.limits.rollback c, reservations := s.reservations.rollback c } c .idle

/-- A call starts with a session of its own. -/
def step (pricing : Pricing) (s : Sys) : Act → Option Sys
  | .start c request =>
    if (s.calls c).isIdle then some ((s.close c).goto c request.entry) else none
  | .run c env => do
    let (s', reply) ← s.exec c env (← statement env.clock (s.calls c))
    let pc ← resume pricing env (s.calls c) reply
    some (s'.goto c pc)
  | .abort c => some (s.close c)

section Answers

variable {s s' : Sys} {c : Nat} {env : Env} {reply : Reply}

theorem exec_updateLimit {id : Nat} {cond : Limit → Bool} {set : Limit → Limit}
    (h : s.exec c env (.updateLimit id cond set) = some (s', reply)) :
    (reply = .miss ∧ s' = s ∧ ∀ row, s.limits.view c id = some row → cond row = false) ∨
      (reply = .hit ∧ ∃ row free, s.limits.view c id = some row ∧ cond row = true ∧
        s' = { s with limits := s.limits.put c id (some (set row)) free }) := by
  obtain ⟨⟨limits, hit⟩, hupdate, heq⟩ := Option.map_eq_some_iff.mp h
  cases heq
  rcases Table.update_cases hupdate with ⟨rfl, rfl, missed⟩ | ⟨rfl, row, free, hrow, hcond, rfl⟩
  · exact Or.inl ⟨rfl, rfl, missed⟩
  · exact Or.inr ⟨rfl, row, free, hrow, hcond, rfl⟩

theorem exec_updateReservation {id : String} {cond : Reservation → Bool}
    {set : Reservation → Reservation}
    (h : s.exec c env (.updateReservation id cond set) = some (s', reply)) :
    (reply = .miss ∧ s' = s ∧ ∀ r, s.reservations.view c id = some r → cond r = false) ∨
      (reply = .hit ∧ ∃ r free, s.reservations.view c id = some r ∧ cond r = true ∧
        s' = { s with reservations := s.reservations.put c id (some (set r)) free }) := by
  obtain ⟨⟨reservations, hit⟩, hupdate, heq⟩ := Option.map_eq_some_iff.mp h
  cases heq
  rcases Table.update_cases hupdate with ⟨rfl, rfl, missed⟩ | ⟨rfl, r, free, hr, hcond, rfl⟩
  · exact Or.inl ⟨rfl, rfl, missed⟩
  · exact Or.inr ⟨rfl, r, free, hr, hcond, rfl⟩

theorem exec_upsertItem {id : String} {item : ReservationItem} {actual : Int}
    (h : s.exec c env (.upsertItem id item actual) = some (s', reply)) :
    (reply = .miss ∧ s' = s) ∨ (reply = .hit ∧ ∃ r free, s.reservations.view c id = some r ∧
      s' = { s with reservations :=
        s.reservations.put c id (some { r with items := upsertActual r.items item actual }) free }) := by
  simp only [Sys.exec] at h
  split at h
  · obtain ⟨⟨reservations, hit⟩, hupdate, heq⟩ := Option.map_eq_some_iff.mp h
    cases heq
    rcases Table.update_cases hupdate with ⟨rfl, rfl, _⟩ | ⟨rfl, r, free, hr, _, rfl⟩
    · exact Or.inl ⟨rfl, rfl⟩
    · exact Or.inr ⟨rfl, r, free, hr, rfl⟩
  · cases h
    exact Or.inl ⟨rfl, rfl⟩

theorem exec_insertReservation {r : Reservation}
    (h : s.exec c env (.insertReservation r) = some (s', reply)) :
    (reply = .miss ∧ s' = s) ∨ (reply = .hit ∧ env.uuid ∉ s.drawn ∧ ∃ free,
      s' = { s with reservations := s.reservations.put c env.uuid (some r) free,
                    drawn := env.uuid :: s.drawn }) := by
  simp only [Sys.exec] at h
  split at h
  · split at h
    · cases h
    · rename_i fresh
      obtain ⟨reservations, hwrite, heq⟩ := Option.map_eq_some_iff.mp h
      cases heq
      obtain ⟨free, rfl⟩ := Table.write_eq_some.mp hwrite
      exact Or.inr ⟨rfl, fresh, free, rfl⟩
  · cases h
    exact Or.inl ⟨rfl, rfl⟩

/-- What a statement can do to the rows and to the ids given out. -/
structure Effect (s s' : Sys) (c : Nat) (st : Statement) : Prop where
  limits : Table.Move c st.commits s.limits s'.limits
  reservations : Table.Move c st.commits s.reservations s'.reservations
  keys : s'.keys = s.keys
  calls : s'.calls = s.calls
  limitIds : ∀ id ∈ s.limitIds, id ∈ s'.limitIds
  drawn : st.draws = false → s'.drawn = s.drawn
  writes : ∀ c' id, s'.limits.pending c' id ≠ none →
    s.limits.pending c' id ≠ none ∨ s.limits.view c id ≠ none ∨ id ∈ s'.limitIds

theorem exec_effect {st : Statement} (h : s.exec c env st = some (s', reply)) : Effect s s' c st := by
  have unchanged : ∀ st : Statement, st.commits = false → Effect s s c st := by
    intro st quiet
    exact ⟨quiet ▸ .stay _, quiet ▸ .stay _, rfl, rfl, fun _ hid => hid, fun _ => rfl, fun _ _ => Or.inl⟩
  cases st with
  | select => cases h; exact unchanged _ rfl
  | updateLimit id cond set =>
    rcases exec_updateLimit h with ⟨_, rfl, _⟩ | ⟨_, row, free, hrow, _, rfl⟩
    · exact unchanged _ rfl
    · refine ⟨.put _ id _ free, .stay _, rfl, rfl, fun _ hid => hid, fun _ => rfl, ?_⟩
      intro c' id' held
      rcases Table.pending_put free held with held | ⟨_, rfl⟩
      · exact Or.inl held
      · exact Or.inr (Or.inl (by simp [hrow]))
  | insertLimit row =>
    simp only [Sys.exec] at h
    split at h
    · cases h
    · obtain ⟨limits, hwrite, heq⟩ := Option.map_eq_some_iff.mp h
      obtain ⟨free, rfl⟩ := Table.write_eq_some.mp hwrite
      cases heq
      refine ⟨.put _ _ _ free, .stay _, rfl, rfl, fun _ hid => List.mem_cons_of_mem _ hid, fun _ => rfl, ?_⟩
      intro c' id' held
      rcases Table.pending_put free held with held | ⟨_, rfl⟩
      · exact Or.inl held
      · exact Or.inr (Or.inr List.mem_cons_self)
  | deleteLimit id =>
    simp only [Sys.exec] at h
    split at h
    · rename_i present
      obtain ⟨limits, hwrite, heq⟩ := Option.map_eq_some_iff.mp h
      obtain ⟨free, rfl⟩ := Table.write_eq_some.mp hwrite
      cases heq
      refine ⟨.put _ _ _ free, .stay _, rfl, rfl, fun _ hid => hid, fun _ => rfl, ?_⟩
      intro c' id' held
      rcases Table.pending_put free held with held | ⟨_, rfl⟩
      · exact Or.inl held
      · exact Or.inr (Or.inl (Option.isSome_iff_ne_none.mp present))
    · cases h
      exact unchanged _ rfl
  | updateReservation id cond set =>
    rcases exec_updateReservation h with ⟨_, rfl, _⟩ | ⟨_, r, free, _, _, rfl⟩
    · exact unchanged _ rfl
    · exact ⟨.stay _, .put _ id _ free, rfl, rfl, fun _ hid => hid, fun _ => rfl, fun _ _ => Or.inl⟩
  | insertReservation r =>
    rcases exec_insertReservation h with ⟨_, rfl⟩ | ⟨_, _, free, rfl⟩
    · exact unchanged _ rfl
    · exact ⟨.stay _, .put _ _ _ free, rfl, rfl, fun _ hid => hid, nofun, fun _ _ => Or.inl⟩
  | upsertItem id item actual =>
    rcases exec_upsertItem h with ⟨_, rfl⟩ | ⟨_, r, free, _, rfl⟩
    · exact unchanged _ rfl
    · exact ⟨.stay _, .put _ id _ free, rfl, rfl, fun _ hid => hid, fun _ => rfl, fun _ _ => Or.inl⟩
  | commit =>
    cases h
    exact ⟨.commit _, .commit _, rfl, rfl, fun _ hid => hid, fun _ => rfl,
      fun _ _ held => Or.inl (Table.pending_close held)⟩
  | rollback =>
    cases h
    exact ⟨.rollback _, .rollback _, rfl, rfl, fun _ hid => hid, fun _ => rfl,
      fun _ _ held => Or.inl (Table.pending_close held)⟩

/-- A step of a call is a statement, its answer, and where the answer takes it. -/
theorem step_run {pricing : Pricing} {t : Sys} (h : step pricing s (.run c env) = some t) :
    ∃ st s' reply pc, statement env.clock (s.calls c) = some st ∧ s.exec c env st = some (s', reply) ∧
      resume pricing env (s.calls c) reply = some pc ∧ t = s'.goto c pc := by
  obtain ⟨st, hst, h⟩ := Option.bind_eq_some_iff.mp h
  obtain ⟨⟨s', reply⟩, hexec, h⟩ := Option.bind_eq_some_iff.mp h
  obtain ⟨pc, hpc, h⟩ := Option.bind_eq_some_iff.mp h
  exact ⟨st, s', reply, pc, hst, hexec, hpc, (Option.some.inj h).symm⟩

theorem step_run_at {pricing : Pricing} {t : Sys} {pc₀ : Pc} (hpc : s.calls c = pc₀) {st : Statement}
    (hst : statement env.clock pc₀ = some st) (h : step pricing s (.run c env) = some t) :
    ∃ s' reply pc, s.exec c env st = some (s', reply) ∧
      resume pricing env pc₀ reply = some pc ∧ t = s'.goto c pc := by
  obtain ⟨st', s', reply, pc, hst', hexec, hresume, rfl⟩ := step_run h
  rw [hpc] at hst' hresume
  obtain rfl : st' = st := Option.some.inj (hst'.symm.trans hst)
  exact ⟨s', reply, pc, hexec, hresume, rfl⟩

end Answers

end ApiKeys
