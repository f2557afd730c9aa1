import LivingBalancer.ApiKeys.Books

/-!
# A call between two statements

`Session` is what a call may rely on and what it owes: its books are balanced up to what
its program point is ahead by, every reservation it reads is whole except the one it is
settling, and the point is one the operations can be at. Each rule below takes a session
past one statement. Edits and settlements of negative usage have no session.
-/

namespace ApiKeys

/-- What the call has counted and no reservation item accounts for yet. -/
def Pc.ahead : Pc → Nat → Int → Int
  | .reserve _ _ _ _ _ items, id, resetAt => booked id resetAt items
  | .createReservation _ items, id, resetAt => booked id resetAt items
  | .recordActual _ item actual _ _, id, resetAt =>
    if item.limitId = id ∧ item.expectedResetAt = resetAt then actual - item.reservedDelta else 0
  | _, _, _ => 0

/-- The reservation whose items the call is recording. -/
def Pc.settling : Pc → Option String
  | .adjust s _ _ _ _ | .recordActual s _ _ _ _ => some s.reservationId
  | _ => none

/-- Points between transactions. -/
def Pc.rests : Pc → Bool
  | .idle | .enforce .. | .settle .. | .release .. | .releaseStale .. | .staleItems ..
  | .resetExpired .. => true
  | _ => false

/-- Points of a transaction that claims reservations. -/
def Pc.claims : Pc → Bool
  | .claim .. | .adjust .. | .recordActual .. | .settleStatus .. => true
  | _ => false

/-- A reservation as it is committed: all its items are recorded, or none is. -/
structure Reservation.Whole (r : Reservation) : Prop where
  distinct : (r.items.map ReservationItem.limitId).Nodup
  amounts : ∀ i ∈ r.items, 0 ≤ i.reservedDelta
  unrecorded : r.status = .reserved → ∀ i ∈ r.items, i.actualDelta = none
  recorded : r.status ≠ .reserved → ∀ i ∈ r.items, ∃ a, i.actualDelta = some a ∧ 0 ≤ a

/-- A claimed reservation of which the items of `todo` are still to be recorded. -/
structure Reservation.Partly (r : Reservation) (todo : List (ReservationItem × Int)) : Prop where
  left : r.status ≠ .reserved
  distinct : (r.items.map ReservationItem.limitId).Nodup
  amounts : ∀ i ∈ r.items, 0 ≤ i.reservedDelta
  split : ∃ done, r.items = done ++ todo.map Prod.fst ∧
    ∀ i ∈ done, ∃ a, i.actualDelta = some a ∧ 0 ≤ a
  unrecorded : ∀ p ∈ todo, p.1.actualDelta = none ∧ 0 ≤ p.2

theorem Reservation.Partly.whole {r : Reservation} (h : r.Partly []) : r.Whole where
  distinct := h.distinct
  amounts := h.amounts
  unrecorded := fun open_ => absurd open_ h.left
  recorded := by
    intro _ i hi
    obtain ⟨done, hitems, hdone⟩ := h.split
    rw [List.map_nil, List.append_nil] at hitems
    exact hdone i (hitems ▸ hi)

theorem Reservation.Whole.shares_nonneg {r : Reservation} (h : r.Whole) :
    ∀ i ∈ r.items, 0 ≤ i.actualDelta.getD i.reservedDelta := by
  intro i hi
  by_cases open_ : r.status = .reserved
  · rw [h.unrecorded open_ i hi]
    exact h.amounts i hi
  · obtain ⟨a, ha, hnonneg⟩ := h.recorded open_ i hi
    rw [ha]
    exact hnonneg

theorem Reservation.Partly.shares_nonneg {r : Reservation} {todo : List (ReservationItem × Int)}
    (h : r.Partly todo) : ∀ i ∈ r.items, 0 ≤ i.actualDelta.getD i.reservedDelta := by
  intro i hi
  have amount := h.amounts i hi
  obtain ⟨done, hitems, hdone⟩ := h.split
  rw [hitems] at hi
  rcases List.mem_append.mp hi with hi | hi
  · obtain ⟨a, ha, hnonneg⟩ := hdone i hi
    rw [ha]
    exact hnonneg
  · obtain ⟨p, hp, rfl⟩ := List.mem_map.mp hi
    rw [(h.unrecorded p hp).1]
    exact amount

/-- The claim of a reservation none of whose items is recorded. -/
theorem Reservation.Whole.claimed {r : Reservation} (h : r.Whole) (open_ : r.status = .reserved)
    {s : Settlement} (leaves : s.claimAs ≠ .reserved) (clock : Int)
    (items : r.items = s.todo.map Prod.fst) (amounts : ∀ p ∈ s.todo, 0 ≤ p.2) :
    (s.claimed clock r).Partly s.todo where
  left := leaves
  distinct := h.distinct
  amounts := h.amounts
  split := ⟨[], items, fun _ hi => nomatch hi⟩
  unrecorded := by
    intro p hp
    have hi : p.1 ∈ r.items := items ▸ List.mem_map_of_mem hp
    exact ⟨h.unrecorded open_ p.1 hi, amounts p hp⟩

/-- The upsert meets the row of the item and no other. -/
theorem upsertActual_split {done todo : List ReservationItem} {item : ReservationItem} (actual : Int)
    (distinct : ((done ++ item :: todo).map ReservationItem.limitId).Nodup) :
    upsertActual (done ++ item :: todo) item actual =
      done ++ { item with actualDelta := some actual } :: todo := by
  have elsewhere : ∀ i ∈ done ++ todo, i.limitId ≠ item.limitId := by
    intro i hi same
    rw [List.map_append, List.map_cons, List.nodup_middle, List.nodup_cons] at distinct
    refine distinct.1 ?_
    rw [← List.map_append, ← same]
    exact List.mem_map_of_mem hi
  have untouched : ∀ l : List ReservationItem, (∀ i ∈ l, i.limitId ≠ item.limitId) →
      (l.map fun i => if i.limitId = item.limitId then { i with actualDelta := some actual } else i) = l := by
    intro l hl
    conv_rhs => rw [← List.map_id l]
    refine List.map_congr_left ?_
    intro i hi
    exact if_neg (hl i hi)
  have found : ((done ++ item :: todo).any fun i => i.limitId == item.limitId) = true := by simp
  simp only [upsertActual]
  rw [if_pos found, List.map_append, List.map_cons, if_pos rfl,
    untouched done fun i hi => elsewhere i (List.mem_append_left _ hi),
    untouched todo fun i hi => elsewhere i (List.mem_append_right _ hi)]

/-- Recording one item: the reservation accounts for the actual amount instead. -/
theorem Reservation.Partly.record {r : Reservation} {item : ReservationItem} {actual : Int}
    {todo : List (ReservationItem × Int)} (h : r.Partly ((item, actual) :: todo)) :
    Reservation.Partly { r with items := upsertActual r.items item actual } todo ∧
      ∀ id resetAt, booked id resetAt (upsertActual r.items item actual) =
        booked id resetAt r.items +
          if item.limitId = id ∧ item.expectedResetAt = resetAt then actual - item.reservedDelta else 0 := by
  obtain ⟨done, hitems, hdone⟩ := h.split
  rw [List.map_cons] at hitems
  have distinct := h.distinct
  rw [hitems] at distinct
  have written := upsertActual_split actual distinct
  obtain ⟨unrecorded, nonneg⟩ := h.unrecorded _ List.mem_cons_self
  constructor
  · refine ⟨h.left, ?_, ?_, ⟨done ++ [{ item with actualDelta := some actual }], ?_, ?_⟩, ?_⟩
    · dsimp only
      rw [hitems, written]
      simpa using distinct
    · intro i hi
      dsimp only at hi
      rw [hitems, written] at hi
      rcases List.mem_append.mp hi with hi | hi
      · exact h.amounts i (hitems ▸ List.mem_append_left _ hi)
      · rcases List.mem_cons.mp hi with rfl | hi
        · exact h.amounts item (hitems ▸ List.mem_append_right _ List.mem_cons_self)
        · exact h.amounts i (hitems ▸ List.mem_append_right _ (List.mem_cons_of_mem _ hi))
    · dsimp only
      rw [hitems, written]
      simp
    · intro i hi
      rcases List.mem_append.mp hi with hi | hi
      · exact hdone i hi
      · rw [List.mem_singleton.mp hi]
        exact ⟨actual, rfl, nonneg⟩
    · exact fun p hp => h.unrecorded p (List.mem_cons_of_mem _ hp)
  · intro id resetAt
    rw [hitems, written]
    simp only [booked_append, booked_cons, ReservationItem.share]
    split
    · rw [unrecorded]
      simp only [Option.getD_some, Option.getD_none]
      omega
    · omega

section Points

variable (pricing : Pricing) (base : Nat → Option Limit)
variable (settled reservations : String → Option Reservation)

/-- The loop of `enforce_limits_for_request` between two statements. -/
structure Planned (todo : List (Nat × Limit)) (items : List ReservationItem) : Prop where
  distinct : (items.map ReservationItem.limitId ++ todo.map Prod.fst).Nodup
  loaded : ∀ p ∈ todo, Dated base p.1 p.2.resetAt
  amounts : ∀ i ∈ items, 0 ≤ i.reservedDelta ∧ i.actualDelta = none
  dated : ∀ i ∈ items, Dated base i.limitId i.expectedResetAt

/-- A settlement knows the items of its reservation, as long as nobody has claimed it. -/
structure Settlement.Fits (s : Settlement) : Prop where
  row : ∃ r, settled s.reservationId = some r ∧ (r.status = .reserved → r.items = s.todo.map Prod.fst)
  amounts : ∀ p ∈ s.todo, 0 ≤ p.2
  leaves : s.claimAs ≠ .reserved
  closes : ∀ status usage, s.closing = some (status, usage) → status ≠ .reserved

/-- The call holds the reservation and has the items of `todo` to record. -/
def Underway (id : String) (todo : List (ReservationItem × Int)) : Prop :=
  ∃ r r₀, reservations id = some r ∧ settled id = some r₀ ∧ r₀.status = .reserved ∧ r.Partly todo

/-- What a point between transactions promises; after a reset only another one or the commit
can follow. -/
def Ready (dirty : Bool) : Pc → Prop
  | .reset _ expected new next => expected < new ∧ Ready true next
  | .commit next => Ready false next
  | .settle args => dirty = false ∧ args.status ≠ .reserved ∧ ∀ type, 0 ≤ args.increment pricing type
  | .idle | .enforce .. | .release .. | .releaseStale .. | .resetExpired .. => dirty = false
  | _ => False

/-- The claims that are left of a transaction, and its commit. -/
def Chain : Pc → Prop
  | .claim s next => s.Fits settled ∧ Chain next
  | .commit next => Ready pricing false next
  | _ => False

def Shape : Pc → Prop
  | .reserve _ id limit delta todo items => 0 < delta ∧ Planned base ((id, limit) :: todo) items
  | .createReservation _ items => Planned base [] items
  | .staleItems _ _ ids => ∀ id ∈ ids, settled id ≠ none
  | .claim s next => Chain pricing settled (.claim s next)
  | .adjust s item actual todo next | .recordActual s item actual todo next =>
    (∀ status usage, s.closing = some (status, usage) → status ≠ .reserved) ∧
      Underway settled reservations s.reservationId ((item, actual) :: todo) ∧ Chain pricing settled next
  | .settleStatus id status _ next =>
    status ≠ .reserved ∧ Underway settled reservations id [] ∧ Chain pricing settled next
  | pc => Ready pricing false pc

end Points

/-- A call that is not about to roll back. -/
structure Session (pricing : Pricing) (base limits : Nat → Option Limit)
    (settled reservations : String → Option Reservation) (drawn : List String) (pc : Pc) : Prop where
  books : Books base limits settled reservations drawn pc.ahead
  whole : ∀ id r, reservations id = some r → pc.settling ≠ some id → r.Whole
  shape : Shape pricing base settled reservations pc
  clean : pc.rests → limits = base ∧ reservations = settled
  unclaimed : pc.claims → ∀ id r, reservations id = some r → r.status = .reserved → settled id = some r

section Shapes

variable {pricing : Pricing} {base : Nat → Option Limit}
variable {settled reservations : String → Option Reservation} {drawn : List String}

theorem Ready.point {dirty : Bool} {pc : Pc} (h : Ready pricing dirty pc) :
    Shape pricing base settled reservations pc ∧ (∀ id resetAt, pc.ahead id resetAt = 0) ∧
      pc.settling = none ∧ pc.claims = false ∧ (dirty = true → pc.rests = false) := by
  cases pc with
  | reset id expected new next => exact ⟨h, fun _ _ => rfl, rfl, rfl, fun _ => rfl⟩
  | commit next => exact ⟨h, fun _ _ => rfl, rfl, rfl, fun _ => rfl⟩
  | settle args => exact ⟨⟨rfl, h.2⟩, fun _ _ => rfl, rfl, rfl, fun d => nomatch h.1.symm.trans d⟩
  | idle | enforce | release | releaseStale | resetExpired =>
    exact ⟨rfl, fun _ _ => rfl, rfl, rfl, fun d => nomatch (Eq.symm h).trans d⟩
  | _ => exact h.elim

theorem Chain.point {pc : Pc} (h : Chain pricing settled pc) :
    Shape pricing base settled reservations pc ∧ (∀ id resetAt, pc.ahead id resetAt = 0) ∧
      pc.settling = none ∧ pc.rests = false := by
  cases pc with
  | claim s next => exact ⟨h, fun _ _ => rfl, rfl, rfl⟩
  | commit next => exact ⟨h, fun _ _ => rfl, rfl, rfl⟩
  | _ => exact h.elim

theorem ready_nextLazyReset (args : EnforceArgs) (rows : List (Nat × Limit)) :
    Ready pricing false (nextLazyReset args rows) := by
  induction rows with
  | nil => exact rfl
  | cons row rest ih =>
    obtain ⟨id, limit⟩ := row
    simp only [nextLazyReset]
    split
    · exact ih
    · rename_i elapsed
      exact ⟨lt_advanceLimitReset (not_le.mp elapsed) limit.limitWindow, ih⟩

theorem ready_nextExpiredReset (now : Int) (batchSize : Nat) {rows : List (Nat × Limit)}
    (elapsed : ∀ p ∈ rows, p.2.resetAt < now) :
    Ready pricing true (nextExpiredReset now batchSize rows) := by
  induction rows with
  | nil => exact rfl
  | cons row rest ih =>
    have here := lt_advanceLimitReset (elapsed row List.mem_cons_self) row.2.limitWindow
    exact ⟨here, ih fun p hp => elapsed p (List.mem_cons_of_mem row hp)⟩

/-- Items that reserve nothing account for nothing. -/
theorem booked_zero_item (id : Nat) (limit : Limit) (k : Nat) (resetAt : Int) :
    booked k resetAt [reservationItem id limit 0] = 0 := by
  simp [ReservationItem.share, reservationItem]

theorem Planned.take {id : Nat} {limit : Limit} {todo : List (Nat × Limit)}
    {items : List ReservationItem} (h : Planned base ((id, limit) :: todo) items) {delta : Int}
    (amount : 0 ≤ delta) : Planned base todo (items ++ [reservationItem id limit delta]) where
  distinct := by
    have distinct := h.distinct
    simpa [reservationItem] using distinct
  loaded := fun p hp => h.loaded p (List.mem_cons_of_mem _ hp)
  amounts := by
    intro i hi
    rcases List.mem_append.mp hi with hi | hi
    · exact h.amounts i hi
    · rw [List.mem_singleton.mp hi]
      exact ⟨amount, rfl⟩
  dated := by
    intro i hi
    rcases List.mem_append.mp hi with hi | hi
    · exact h.dated i hi
    · rw [List.mem_singleton.mp hi]
      exact h.loaded (id, limit) List.mem_cons_self

theorem Planned.skip {row : Nat × Limit} {todo : List (Nat × Limit)} {items : List ReservationItem}
    (h : Planned base (row :: todo) items) : Planned base todo items where
  distinct := h.distinct.sublist ((List.Sublist.refl _).append (List.sublist_cons_self _ _))
  loaded := fun p hp => h.loaded p (List.mem_cons_of_mem row hp)
  amounts := h.amounts
  dated := h.dated

/-- The loop stops at a rejection or at its next statement, with the same amounts reserved. -/
theorem nextReserve_point (args : EnforceArgs) {todo : List (Nat × Limit)}
    {items : List ReservationItem} (h : Planned base todo items) :
    nextReserve pricing args todo items = .rollback ∨
      Shape pricing base settled reservations (nextReserve pricing args todo items) ∧
      (∀ id resetAt, (nextReserve pricing args todo items).ahead id resetAt = booked id resetAt items) ∧
      (nextReserve pricing args todo items).settling = none ∧
      (nextReserve pricing args todo items).claims = false ∧
      (nextReserve pricing args todo items).rests = false := by
  induction todo generalizing items with
  | nil => exact Or.inr ⟨h, fun _ _ => rfl, rfl, rfl, rfl⟩
  | cons row todo ih =>
    obtain ⟨id, limit⟩ := row
    rw [nextReserve]
    split
    · split
      · exact Or.inl rfl
      · dsimp only
        split
        · rename_i positive
          exact Or.inr ⟨⟨positive, h⟩, fun _ _ => rfl, rfl, rfl, rfl⟩
        · rename_i free
          have zero : reserveDelta pricing args limit = 0 :=
            le_antisymm (not_lt.mp free) (reserveDelta_nonneg pricing args limit)
          rw [zero]
          rcases ih (h.take (le_refl 0)) with rejected | ⟨shape, ahead, rest⟩
          · exact Or.inl rejected
          · refine Or.inr ⟨shape, ?_, rest⟩
            intro k resetAt
            rw [ahead k resetAt, booked_append, booked_zero_item]
            omega
    · exact ih h.skip

/-- The loop over the items stops at its next statement or after the last one. -/
theorem nextItem_point {s : Settlement} {next : Pc} {todo : List (ReservationItem × Int)}
    (closes : ∀ status usage, s.closing = some (status, usage) → status ≠ .reserved)
    (underway : Underway settled reservations s.reservationId todo) (chain : Chain pricing settled next) :
    Shape pricing base settled reservations (nextItem s next todo) ∧
      (∀ id resetAt, (nextItem s next todo).ahead id resetAt = 0) ∧
      (nextItem s next todo).rests = false ∧
      ((nextItem s next todo).settling = none ∧ todo = [] ∨
        (nextItem s next todo).settling = some s.reservationId) := by
  cases todo with
  | nil =>
    cases hclosing : s.closing with
    | some final =>
      have point : nextItem s next [] = .settleStatus s.reservationId final.1 final.2 next := by
        rw [nextItem, hclosing]
      rw [point]
      exact ⟨⟨closes final.1 final.2 hclosing, underway, chain⟩, fun _ _ => rfl, rfl, Or.inl ⟨rfl, rfl⟩⟩
    | none =>
      have point : nextItem s next [] = next := by rw [nextItem, hclosing]
      rw [point]
      obtain ⟨shape, ahead, settling, rests⟩ :
        Shape pricing base settled reservations next ∧ _ := chain.point
      exact ⟨shape, ahead, rests, Or.inl ⟨settling, rfl⟩⟩
  | cons p todo =>
    obtain ⟨item, actual⟩ := p
    by_cases zero : (s.skipsZero && actual - item.reservedDelta == 0) = true
    · have point : nextItem s next ((item, actual) :: todo) = .recordActual s item actual todo next := by
        rw [nextItem, if_pos zero]
      rw [point]
      refine ⟨⟨closes, underway, chain⟩, ?_, rfl, Or.inr rfl⟩
      intro id resetAt
      have amount : actual - item.reservedDelta = 0 := by simpa using (Bool.and_eq_true_iff.mp zero).2
      rw [Pc.ahead, amount, ite_self]
    · have point : nextItem s next ((item, actual) :: todo) = .adjust s item actual todo next := by
        rw [nextItem, if_neg zero]
      rw [point]
      exact ⟨⟨closes, underway, chain⟩, fun _ _ => rfl, rfl, Or.inr rfl⟩

end Shapes

section Sessions

variable {pricing : Pricing} {base limits limits' : Nat → Option Limit}
variable {settled reservations reservations' : String → Option Reservation} {drawn : List String}

/-- A transaction begins. -/
theorem Session.enter (db : Session pricing base base settled settled drawn .idle) {pc : Pc}
    (shape : Shape pricing base settled settled pc)
    (even : ∀ id resetAt, pc.ahead id resetAt = 0) :
    Session pricing base base settled settled drawn pc where
  books := db.books.congr fun id row _ => even id row.resetAt
  whole := fun id r hr _ => db.whole id r hr nofun
  shape := shape
  clean := fun _ => ⟨rfl, rfl⟩
  unclaimed := fun _ _ _ hr _ => hr

theorem Session.draw {pc : Pc} (h : Session pricing base limits settled reservations drawn pc)
    {id : String} (fresh : id ∉ drawn) :
    Session pricing base limits settled reservations (id :: drawn) pc :=
  { h with books := h.books.draw fresh }

theorem Session.underway {pc : Pc} (h : Session pricing base limits settled reservations drawn pc)
    {id : String} (hid : pc.settling = some id) : ∃ todo, Underway settled reservations id todo := by
  cases pc with
  | adjust s item actual todo next | recordActual s item actual todo next =>
    cases hid
    exact ⟨_, h.shape.2.1⟩
  | _ => cases hid

theorem Session.shares_nonneg {pc : Pc}
    (h : Session pricing base limits settled reservations drawn pc) (k : Nat) (resetAt : Int)
    (id : String) (r : Reservation) (hr : reservations id = some r) : 0 ≤ booked k resetAt r.items := by
  by_cases busy : pc.settling = some id
  · obtain ⟨todo, r', _, hr', _, _, partly⟩ := h.underway busy
    rw [hr] at hr'
    cases hr'
    exact booked_nonneg partly.shares_nonneg
  · exact booked_nonneg (h.whole id r hr busy).shares_nonneg

/-- In its window a counter covers what every item of a reservation accounts for. -/
theorem Session.share_le {pc : Pc} (h : Session pricing base limits settled reservations drawn pc)
    {id : Nat} {row : Limit} (hrow : limits id = some row) (even : pc.ahead id row.resetAt = 0)
    {key : String} {r : Reservation} (hr : reservations key = some r)
    (amounts : ∀ i ∈ r.items, 0 ≤ i.actualDelta.getD i.reservedDelta) {i : ReservationItem}
    (hi : i ∈ r.items) : i.share id row.resetAt ≤ row.currentValue := by
  have balanced := h.books.balance id row hrow
  have opening := h.books.opening id row hrow
  have known : key ∈ drawn := h.books.known key (by simp [hr])
  have one : booked id row.resetAt r.items ≤ counted drawn reservations id row.resetAt :=
    Table.le_total _ (h.shares_nonneg id row.resetAt) known hr
  have share : i.share id row.resetAt ≤ booked id row.resetAt r.items := by
    refine List.single_le_sum ?_ _ (List.mem_map_of_mem hi)
    intro x hx
    obtain ⟨j, hj, rfl⟩ := List.mem_map.mp hx
    simp only [ReservationItem.share]
    split
    · exact amounts j hj
    · exact le_refl 0
  omega

/-- The guard of `adjust_reserved_usage` holds in the window of the item. -/
theorem Session.adjustable {s : Settlement} {item : ReservationItem} {actual : Int}
    {todo : List (ReservationItem × Int)} {next : Pc}
    (h : Session pricing base limits settled reservations drawn (.adjust s item actual todo next))
    {row : Limit} (hrow : limits item.limitId = some row) (live : row.resetAt = item.expectedResetAt) :
    -(actual - item.reservedDelta) ≤ row.currentValue := by
  obtain ⟨_, ⟨r, _, hr, _, _, partly⟩, _⟩ := h.shape
  obtain ⟨done, hitems, _⟩ := partly.split
  have hi : item ∈ r.items := by
    rw [hitems]
    exact List.mem_append_right _ List.mem_cons_self
  obtain ⟨unrecorded, nonneg⟩ := partly.unrecorded _ List.mem_cons_self
  have covered := h.share_le hrow rfl hr partly.shares_nonneg hi
  rw [ReservationItem.share] at covered
  rw [if_pos ⟨rfl, live.symm⟩, unrecorded, Option.getD_none] at covered
  dsimp only at nonneg
  omega

theorem Session.reserved {args : EnforceArgs} {id : Nat} {limit row : Limit} {delta : Int}
    {todo : List (Nat × Limit)} {items : List ReservationItem}
    (h : Session pricing base limits settled reservations drawn
      (.reserve args id limit delta todo items))
    (hrow : limits id = some row) (live : row.resetAt = limit.resetAt)
    (written : limits' id = some { row with currentValue := row.currentValue + delta })
    (others : ∀ k, k ≠ id → limits' k = limits k) :
    nextReserve pricing args todo (items ++ [reservationItem id limit delta]) = .rollback ∨
      Session pricing base limits' settled reservations drawn
        (nextReserve pricing args todo (items ++ [reservationItem id limit delta])) := by
  obtain ⟨positive, planned⟩ := h.shape
  rcases nextReserve_point args (planned.take positive.le) with rejected | ⟨shape, ahead, settling, claims, rests⟩
  · exact Or.inl rejected
  · refine Or.inr ⟨?_, ?_, shape, ?_, ?_⟩
    · refine h.books.add hrow written others ?_ ?_
      · rw [ahead, booked_append, booked_cons, booked_nil, live]
        simp [reservationItem, ReservationItem.share, Pc.ahead]
      · intro k x hk hx
        rw [ahead, booked_append, booked_cons, booked_nil]
        simp [reservationItem, ReservationItem.share, Pc.ahead, hk.symm]
    · exact fun key r hr _ => h.whole key r hr (by intro creating; cases creating)
    · intro resting
      cases rests.symm.trans resting
    · intro claiming
      cases claims.symm.trans claiming

theorem Session.created {args : EnforceArgs} {items : List ReservationItem} {id : String}
    {r : Reservation} (h : Session pricing base limits settled reservations drawn
      (.createReservation args items))
    (distinct : drawn.Nodup) (drew : id ∈ drawn) (absent : reservations id = none)
    (unsettled : settled id = none) (open_ : r.status = .reserved) (hitems : r.items = items)
    (written : reservations' id = some r) (others : ∀ k, k ≠ id → reservations' k = reservations k) :
    Session pricing base limits settled reservations' drawn (.commit .idle) where
  books := by
    have planned : Planned base [] items := h.shape
    refine h.books.put distinct drew written others ?_ ?_ ?_
    · exact fun i hi => planned.dated i (hitems ▸ hi)
    · intro r₀ hr₀
      rw [unsettled] at hr₀
      cases hr₀
    · intro k row _
      rw [absent, hitems]
      simp [Pc.ahead]
  whole := by
    intro key r' hr' _
    have planned : Planned base [] items := h.shape
    by_cases same : key = id
    · subst same
      rw [written] at hr'
      cases hr'
      have distinct := planned.distinct
      rw [List.map_nil, List.append_nil] at distinct
      exact ⟨hitems ▸ distinct, fun i hi => (planned.amounts i (hitems ▸ hi)).1,
        fun _ i hi => (planned.amounts i (hitems ▸ hi)).2, fun left => absurd open_ left⟩
    · exact h.whole key r' ((others key same).symm.trans hr') nofun
  shape := rfl
  clean := nofun
  unclaimed := nofun

/-- Writing the reservation that the transaction has claimed, or is claiming. -/
theorem Session.write {pc pc' : Pc} {id : String} {r r₀ r' : Reservation}
    (h : Session pricing base limits settled reservations drawn pc) (distinct : drawn.Nodup)
    (claims : pc.claims) (busy : ∀ key, pc.settling = some key → key = id)
    (hr : reservations id = some r) (hr₀ : settled id = some r₀) (open_ : r₀.status = .reserved)
    (written : reservations' id = some r') (others : ∀ k, k ≠ id → reservations' k = reservations k)
    (left : r'.status ≠ .reserved) (dated : ∀ i ∈ r'.items, Dated base i.limitId i.expectedResetAt)
    (moved : ∀ k resetAt, pc'.ahead k resetAt + booked k resetAt r'.items =
      pc.ahead k resetAt + booked k resetAt r.items)
    (shape : Shape pricing base settled reservations' pc') (rests : pc'.rests = false)
    (whole : pc'.settling ≠ some id → r'.Whole) :
    Session pricing base limits settled reservations' drawn pc' where
  books := by
    refine h.books.put distinct (h.books.known id (by simp [hr])) written others dated ?_ ?_
    · intro r₁ hr₁
      rw [hr₀] at hr₁
      cases hr₁
      exact ⟨open_, left⟩
    · intro k row _
      rw [hr]
      exact moved k row.resetAt
  whole := by
    intro key x hx free
    by_cases same : key = id
    · subst same
      rw [written] at hx
      cases hx
      exact whole free
    · exact h.whole key x ((others key same).symm.trans hx) fun hkey => same (busy key hkey)
  shape := shape
  clean := fun resting => nomatch rests.symm.trans resting
  unclaimed := by
    intro _ key x hx open'
    by_cases same : key = id
    · subst same
      rw [written] at hx
      cases hx
      exact absurd open' left
    · exact h.unclaimed claims key x ((others key same).symm.trans hx) open'

theorem Session.claimed {s : Settlement} {next : Pc} {r : Reservation} {clock : Int}
    (h : Session pricing base limits settled reservations drawn (.claim s next))
    (distinct : drawn.Nodup) (hr : reservations s.reservationId = some r)
    (claimable : s.claimable r = true)
    (written : reservations' s.reservationId = some (s.claimed clock r))
    (others : ∀ k, k ≠ s.reservationId → reservations' k = reservations k) :
    Session pricing base limits settled reservations' drawn (nextItem s next s.todo) := by
  obtain ⟨fits, chain⟩ : s.Fits settled ∧ Chain pricing settled next := h.shape
  have open_ : r.status = .reserved := by
    simpa using (Bool.and_eq_true_iff.mp claimable).1
  have committed := h.unclaimed rfl _ r hr open_
  obtain ⟨r₀, hr₀, hitems⟩ := fits.row
  rw [committed] at hr₀
  cases hr₀
  have partly := (h.whole _ r hr nofun).claimed open_ fits.leaves clock (hitems open_) fits.amounts
  have underway : Underway settled reservations' s.reservationId s.todo :=
    ⟨_, r, written, committed, open_, partly⟩
  obtain ⟨shape, ahead, rests, busy⟩ :
    Shape pricing base settled reservations' (nextItem s next s.todo) ∧ _ :=
      nextItem_point fits.closes underway chain
  refine h.write distinct rfl nofun hr committed open_ written others fits.leaves
    (h.books.dated _ r hr) ?_ shape rests ?_
  · intro k resetAt
    rw [ahead]
    rfl
  · intro free
    rcases busy with ⟨_, done⟩ | busy
    · rw [done] at partly
      exact partly.whole
    · exact absurd busy free

theorem Session.adjusted {s : Settlement} {item : ReservationItem} {actual : Int}
    {todo : List (ReservationItem × Int)} {next : Pc}
    (h : Session pricing base limits settled reservations drawn (.adjust s item actual todo next))
    {row : Limit} (hrow : limits item.limitId = some row) (live : row.resetAt = item.expectedResetAt)
    (written : limits' item.limitId =
      some { row with currentValue := row.currentValue + (actual - item.reservedDelta) })
    (others : ∀ k, k ≠ item.limitId → limits' k = limits k) :
    Session pricing base limits' settled reservations drawn (.recordActual s item actual todo next) where
  books := by
    refine h.books.add hrow written others ?_ ?_
    · simp [Pc.ahead, live]
    · intro k x hk _
      simp [Pc.ahead, hk.symm]
  whole := h.whole
  shape := h.shape
  clean := nofun
  unclaimed := h.unclaimed

/-- Outside of its window an item adjusts nothing, and nothing is missing from the books. -/
theorem Session.passed {s : Settlement} {item : ReservationItem} {actual : Int}
    {todo : List (ReservationItem × Int)} {next : Pc}
    (h : Session pricing base limits settled reservations drawn (.adjust s item actual todo next))
    (ended : ∀ row, limits item.limitId = some row → row.resetAt ≠ item.expectedResetAt) :
    Session pricing base limits settled reservations drawn (.recordActual s item actual todo next) where
  books := by
    refine h.books.congr ?_
    intro id row hrow
    simp only [Pc.ahead]
    refine if_neg ?_
    rintro ⟨rfl, live⟩
    exact ended row hrow live.symm
  whole := h.whole
  shape := h.shape
  clean := nofun
  unclaimed := h.unclaimed

theorem Session.recorded {s : Settlement} {item : ReservationItem} {actual : Int}
    {todo : List (ReservationItem × Int)} {next : Pc} {r : Reservation}
    (h : Session pricing base limits settled reservations drawn (.recordActual s item actual todo next))
    (distinct : drawn.Nodup) (hr : reservations s.reservationId = some r)
    (written : reservations' s.reservationId =
      some { r with items := upsertActual r.items item actual })
    (others : ∀ k, k ≠ s.reservationId → reservations' k = reservations k) :
    Session pricing base limits settled reservations' drawn (nextItem s next todo) := by
  obtain ⟨closes, ⟨r', r₀, hr', hr₀, open_, partly⟩, chain⟩ := h.shape
  rw [hr] at hr'
  cases hr'
  obtain ⟨partly', moved⟩ := partly.record
  have underway : Underway settled reservations' s.reservationId todo :=
    ⟨_, r₀, written, hr₀, open_, partly'⟩
  obtain ⟨shape, ahead, rests, busy⟩ :
    Shape pricing base settled reservations' (nextItem s next todo) ∧ _ :=
      nextItem_point closes underway chain
  have dated : ∀ i ∈ upsertActual r.items item actual, Dated base i.limitId i.expectedResetAt := by
    have distinct := partly.distinct
    have dated := h.books.dated _ r hr
    obtain ⟨done, hitems, _⟩ := partly.split
    rw [hitems, List.map_cons] at distinct dated
    intro i hi
    rw [hitems, List.map_cons, upsertActual_split actual distinct] at hi
    rcases List.mem_append.mp hi with hi | hi
    · exact dated i (List.mem_append_left _ hi)
    · rcases List.mem_cons.mp hi with rfl | hi
      · exact dated item (List.mem_append_right _ List.mem_cons_self)
      · exact dated i (List.mem_append_right _ (List.mem_cons_of_mem _ hi))
  refine h.write distinct rfl (fun key hkey => (Option.some.inj hkey).symm) hr hr₀ open_ written others
    partly.left dated ?_ shape rests ?_
  · intro k resetAt
    rw [ahead, moved, Pc.ahead]
    omega
  · intro free
    rcases busy with ⟨_, done⟩ | busy
    · rw [done] at partly'
      exact partly'.whole
    · exact absurd busy free

theorem Session.closed {id : String} {status : ReservationStatus} {usage : UsageColumns} {next : Pc}
    {r : Reservation} {clock : Int}
    (h : Session pricing base limits settled reservations drawn (.settleStatus id status usage next))
    (distinct : drawn.Nodup) (hr : reservations id = some r)
    (written : reservations' id = some { r with status := status, usage := usage, updatedAt := clock })
    (others : ∀ k, k ≠ id → reservations' k = reservations k) :
    Session pricing base limits settled reservations' drawn next := by
  obtain ⟨leaves, ⟨r', r₀, hr', hr₀, open_, partly⟩, chain⟩ := h.shape
  rw [hr] at hr'
  cases hr'
  obtain ⟨shape, ahead, settling, rests⟩ :
    Shape pricing base settled reservations' next ∧ _ := chain.point
  have whole := partly.whole
  refine h.write distinct rfl nofun hr hr₀ open_ written others leaves (h.books.dated _ r hr) ?_
    shape rests ?_
  · intro k resetAt
    rw [ahead]
    rfl
  · intro _
    exact ⟨whole.distinct, whole.amounts, fun open' => absurd open' leaves,
      fun _ => whole.recorded partly.left⟩

/-- A claim that another call has won passes to the next one of the batch. -/
theorem Session.lost {s : Settlement} {next : Pc}
    (h : Session pricing base limits settled reservations drawn (.claim s next)) :
    Session pricing base limits settled reservations drawn next := by
  obtain ⟨_, chain⟩ : s.Fits settled ∧ Chain pricing settled next := h.shape
  obtain ⟨shape, ahead, settling, rests⟩ :
    Shape pricing base settled reservations next ∧ _ := chain.point
  exact ⟨h.books.congr fun id row _ => ahead id row.resetAt, fun key r hr _ => h.whole key r hr nofun,
    shape, fun resting => (nomatch rests.symm.trans resting), fun _ => h.unclaimed rfl⟩

theorem Session.resetDone {id : Nat} {expected new : Int} {next : Pc}
    (h : Session pricing base limits settled reservations drawn (.reset id expected new next))
    (after : Books base limits' settled reservations drawn fun _ _ => 0) :
    Session pricing base limits' settled reservations drawn next := by
  obtain ⟨_, ready⟩ : expected < new ∧ Ready pricing true next := h.shape
  obtain ⟨shape, ahead, settling, claims, rests⟩ :
    Shape pricing base settled reservations next ∧ _ := ready.point
  exact ⟨after.congr fun id row _ => ahead id row.resetAt, fun key r hr _ => h.whole key r hr nofun,
    shape, fun resting => (nomatch (rests rfl).symm.trans resting),
    fun claiming => (nomatch claims.symm.trans claiming)⟩

end Sessions

end ApiKeys
