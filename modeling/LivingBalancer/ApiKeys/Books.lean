import LivingBalancer.ApiKeys.Operations

/-!
# The books of a transaction

`Books` relates what one session reads to what is committed: every counter is what its
window began with, plus what the reservation items of that window account for, plus what
the session has counted and not yet written to an item. The rules below say how one write
changes the books, and that another session's commit leaves them in order.
-/

namespace ApiKeys

/-- What an item accounts for in the window of limit `id` that ends at `resetAt`. -/
def ReservationItem.share (id : Nat) (resetAt : Int) (i : ReservationItem) : Int :=
  if i.limitId = id ∧ i.expectedResetAt = resetAt then i.actualDelta.getD i.reservedDelta else 0

def booked (id : Nat) (resetAt : Int) (items : List ReservationItem) : Int :=
  (items.map (ReservationItem.share id resetAt)).sum

@[simp] theorem booked_nil (id : Nat) (resetAt : Int) : booked id resetAt [] = 0 := rfl

@[simp] theorem booked_cons (id : Nat) (resetAt : Int) (i : ReservationItem)
    (items : List ReservationItem) :
    booked id resetAt (i :: items) = i.share id resetAt + booked id resetAt items := by
  simp [booked]

@[simp] theorem booked_append (id : Nat) (resetAt : Int) (items items' : List ReservationItem) :
    booked id resetAt (items ++ items') = booked id resetAt items + booked id resetAt items' := by
  simp [booked]

theorem booked_eq_zero {id : Nat} {resetAt : Int} {items : List ReservationItem}
    (h : ∀ i ∈ items, i.limitId = id → i.expectedResetAt ≠ resetAt) : booked id resetAt items = 0 := by
  refine List.sum_eq_zero ?_
  intro x hx
  obtain ⟨i, hi, rfl⟩ := List.mem_map.mp hx
  exact if_neg fun both => h i hi both.1 both.2

theorem booked_nonneg {id : Nat} {resetAt : Int} {items : List ReservationItem}
    (h : ∀ i ∈ items, 0 ≤ i.actualDelta.getD i.reservedDelta) : 0 ≤ booked id resetAt items := by
  refine List.sum_nonneg ?_
  intro x hx
  obtain ⟨i, hi, rfl⟩ := List.mem_map.mp hx
  simp only [ReservationItem.share]
  split
  · exact h i hi
  · exact le_refl 0

/-- What all reservations account for in one window. -/
def counted (drawn : List String) (reservations : String → Option Reservation) (id : Nat)
    (resetAt : Int) : Int :=
  Table.total (fun r => booked id resetAt r.items) drawn reservations

/-- The window of `row` has not ended before that of `base`. -/
def Dated (base : Nat → Option Limit) (id : Nat) (resetAt : Int) : Prop :=
  ∃ row, base id = some row ∧ resetAt ≤ row.resetAt

/-- No limit disappears and no window is turned back. -/
def Later (base limits : Nat → Option Limit) : Prop :=
  ∀ id row, base id = some row → Dated limits id row.resetAt

/-- A reservation changes only by leaving `reserved`. -/
def Once (settled reservations : String → Option Reservation) : Prop :=
  ∀ id r, settled id = some r → ∃ r', reservations id = some r' ∧
    (r' = r ∨ r.status = .reserved ∧ r'.status ≠ .reserved)

theorem Dated.later {base limits : Nat → Option Limit} {id : Nat} {resetAt : Int}
    (h : Dated base id resetAt) (later : Later base limits) : Dated limits id resetAt := by
  obtain ⟨row, hrow, hle⟩ := h
  obtain ⟨row', hrow', hle'⟩ := later id row hrow
  exact ⟨row', hrow', hle.trans hle'⟩

theorem Later.refl (base : Nat → Option Limit) : Later base base :=
  fun _ row hrow => ⟨row, hrow, le_refl _⟩

theorem Once.refl (settled : String → Option Reservation) : Once settled settled :=
  fun _ r hr => ⟨r, hr, Or.inl rfl⟩

theorem Once.trans {a b c : String → Option Reservation} (first : Once a b) (second : Once b c) :
    Once a c := by
  intro id r hr
  obtain ⟨r', hr', rfl | ⟨was, left⟩⟩ := first id r hr
  · exact second id r' hr'
  · obtain ⟨r'', hr'', rfl | ⟨was', _⟩⟩ := second id r' hr'
    · exact ⟨r'', hr'', Or.inr ⟨was, left⟩⟩
    · exact absurd was' left

structure Books (base limits : Nat → Option Limit) (settled reservations : String → Option Reservation)
    (drawn : List String) (ahead : Nat → Int → Int) : Prop where
  known : ∀ id, reservations id ≠ none → id ∈ drawn
  later : Later base limits
  based : ∀ id row, limits id = some row → ∃ row₀, base id = some row₀ ∧ row₀.resetAt ≤ row.resetAt
  opening : ∀ id row, limits id = some row → 0 ≤ row.windowStart
  balance : ∀ id row, limits id = some row → row.currentValue =
    row.windowStart + counted drawn reservations id row.resetAt + ahead id row.resetAt
  dated : ∀ id r, reservations id = some r → ∀ i ∈ r.items, Dated base i.limitId i.expectedResetAt
  once : Once settled reservations

section Rules

variable {base limits limits' : Nat → Option Limit}
variable {settled reservations reservations' : String → Option Reservation}
variable {drawn : List String} {ahead ahead' : Nat → Int → Int}

/-- Nothing is accounted for in a window later than the committed one. -/
theorem Books.counted_future (h : Books base limits settled reservations drawn ahead) {id : Nat}
    {row : Limit} (hrow : base id = some row) {resetAt : Int} (future : row.resetAt < resetAt) :
    counted drawn reservations id resetAt = 0 := by
  refine Table.total_eq_zero _ _ _ ?_
  intro key r hr
  refine booked_eq_zero ?_
  rintro i hi rfl rfl
  obtain ⟨row', hrow', hle⟩ := h.dated key r hr i hi
  rw [hrow] at hrow'
  cases hrow'
  omega

theorem Books.congr (h : Books base limits settled reservations drawn ahead)
    (same : ∀ id row, limits id = some row → ahead' id row.resetAt = ahead id row.resetAt) :
    Books base limits settled reservations drawn ahead' where
  known := h.known
  later := h.later
  based := h.based
  opening := h.opening
  balance := by
    intro id row hrow
    rw [same id row hrow]
    exact h.balance id row hrow
  dated := h.dated
  once := h.once

/-- Writing one limit row. -/
theorem Books.writeLimit (h : Books base limits settled reservations drawn ahead) {id : Nat}
    {row row' : Limit} (hrow : limits id = some row) (written : limits' id = some row')
    (others : ∀ k, k ≠ id → limits' k = limits k) (forward : row.resetAt ≤ row'.resetAt)
    (opening : 0 ≤ row'.windowStart)
    (here : row'.currentValue =
      row'.windowStart + counted drawn reservations id row'.resetAt + ahead' id row'.resetAt)
    (there : ∀ k x, k ≠ id → limits k = some x → ahead' k x.resetAt = ahead k x.resetAt) :
    Books base limits' settled reservations drawn ahead' where
  known := h.known
  later := by
    intro k row₀ hrow₀
    obtain ⟨x, hx, hle⟩ := h.later k row₀ hrow₀
    by_cases same : k = id
    · subst same
      rw [hrow] at hx
      cases hx
      exact ⟨row', written, hle.trans forward⟩
    · exact ⟨x, (others k same).trans hx, hle⟩
  based := by
    intro k x hx
    by_cases same : k = id
    · subst same
      rw [written] at hx
      cases hx
      obtain ⟨row₀, hrow₀, hle⟩ := h.based k row hrow
      exact ⟨row₀, hrow₀, hle.trans forward⟩
    · exact h.based k x ((others k same).symm.trans hx)
  opening := by
    intro k x hx
    by_cases same : k = id
    · subst same
      rw [written] at hx
      cases hx
      exact opening
    · exact h.opening k x ((others k same).symm.trans hx)
  balance := by
    intro k x hx
    by_cases same : k = id
    · subst same
      rw [written] at hx
      cases hx
      exact here
    · have hx := (others k same).symm.trans hx
      rw [there k x same hx]
      exact h.balance k x hx
  dated := h.dated
  once := h.once

/-- Counting `delta` in the current window of one limit. -/
theorem Books.add (h : Books base limits settled reservations drawn ahead) {id : Nat} {row : Limit}
    {delta : Int} (hrow : limits id = some row)
    (written : limits' id = some { row with currentValue := row.currentValue + delta })
    (others : ∀ k, k ≠ id → limits' k = limits k)
    (here : ahead' id row.resetAt = ahead id row.resetAt + delta)
    (there : ∀ k x, k ≠ id → limits k = some x → ahead' k x.resetAt = ahead k x.resetAt) :
    Books base limits' settled reservations drawn ahead' := by
  refine h.writeLimit hrow written others (le_refl _) (h.opening id row hrow) ?_ there
  have before := h.balance id row hrow
  dsimp only
  omega

/-- Starting the next window of one limit: nothing is accounted for in it. -/
theorem Books.reset (h : Books base limits settled reservations drawn fun _ _ => 0) {id : Nat}
    {row : Limit} {new : Int} (hrow : limits id = some row) (advances : row.resetAt < new)
    (written : limits' id = some { row with currentValue := 0, resetAt := new, windowStart := 0 })
    (others : ∀ k, k ≠ id → limits' k = limits k) :
    Books base limits' settled reservations drawn fun _ _ => 0 := by
  refine h.writeLimit hrow written others advances.le (le_refl 0) ?_ fun _ _ _ _ => rfl
  obtain ⟨row₀, hrow₀, hle⟩ := h.based id row hrow
  have empty := h.counted_future hrow₀ (lt_of_le_of_lt hle advances)
  dsimp only
  omega

/-- Writing one reservation. -/
theorem Books.put (h : Books base limits settled reservations drawn ahead) (distinct : drawn.Nodup)
    {id : String} {r : Reservation} (drew : id ∈ drawn) (written : reservations' id = some r)
    (others : ∀ k, k ≠ id → reservations' k = reservations k)
    (dated : ∀ i ∈ r.items, Dated base i.limitId i.expectedResetAt)
    (once : ∀ r₀, settled id = some r₀ → r₀.status = .reserved ∧ r.status ≠ .reserved)
    (moved : ∀ k row, limits k = some row → ahead' k row.resetAt + booked k row.resetAt r.items =
      ahead k row.resetAt + (reservations id).elim 0 fun r => booked k row.resetAt r.items) :
    Books base limits settled reservations' drawn ahead' where
  known := by
    intro k hk
    by_cases same : k = id
    · exact same ▸ drew
    · exact h.known k (others k same ▸ hk)
  later := h.later
  based := h.based
  opening := h.opening
  balance := by
    intro k row hrow
    have before := h.balance k row hrow
    have total : counted drawn reservations' k row.resetAt = counted drawn reservations k row.resetAt
        - (reservations id).elim 0 (fun r => booked k row.resetAt r.items)
        + (reservations' id).elim 0 (fun r => booked k row.resetAt r.items) :=
      Table.total_update _ distinct drew others
    rw [written, Option.elim_some] at total
    have shift := moved k row hrow
    omega
  dated := by
    intro k r' hr' i hi
    by_cases same : k = id
    · subst same
      rw [written] at hr'
      cases hr'
      exact dated i hi
    · exact h.dated k r' ((others k same).symm.trans hr') i hi
  once := by
    intro k r₀ hr₀
    by_cases same : k = id
    · subst same
      exact ⟨r, written, Or.inr (once r₀ hr₀)⟩
    · obtain ⟨r', hr', kept⟩ := h.once k r₀ hr₀
      exact ⟨r', (others k same).trans hr', kept⟩

/-- A drawn id that no row has yet. -/
theorem Books.draw (h : Books base limits settled reservations drawn ahead) {id : String}
    (fresh : id ∉ drawn) : Books base limits settled reservations (id :: drawn) ahead where
  known := fun k hk => List.mem_cons_of_mem id (h.known k hk)
  later := h.later
  based := h.based
  opening := h.opening
  balance := by
    intro k row hrow
    have absent : reservations id = none := by
      by_contra present
      exact fresh (h.known id present)
    have before := h.balance k row hrow
    simp only [counted] at before ⊢
    rw [Table.total_cons, absent, Option.elim_none]
    omega
  dated := h.dated
  once := h.once

/-- The rows of a balanced transaction, once committed. -/
theorem Books.committed (h : Books base limits settled reservations drawn ahead)
    (even : ∀ id row, limits id = some row → ahead id row.resetAt = 0) :
    Books limits limits reservations reservations drawn fun _ _ => 0 where
  known := h.known
  later := Later.refl limits
  based := fun _ row hrow => ⟨row, hrow, le_refl _⟩
  opening := h.opening
  balance := by
    intro id row hrow
    rw [← even id row hrow]
    exact h.balance id row hrow
  dated := fun id r hr i hi => (h.dated id r hr i hi).later h.later
  once := Once.refl reservations

end Rules

/-- A commit of `c` keeps the books of another session: it has written none of its rows, and
what it added to a window it has added to the counter as well. -/
theorem Books.interfere {limits : Table Nat Limit} {reservations : Table String Reservation}
    {drawn : List String} {ahead : Nat → Int → Int} {c c' : Nat} (other : c' ≠ c)
    (db : Books limits.committed limits.committed reservations.committed reservations.committed
      drawn fun _ _ => 0)
    (own : Books limits.committed (limits.view c) reservations.committed (reservations.view c)
      drawn fun _ _ => 0)
    (mine : Books limits.committed (limits.view c') reservations.committed (reservations.view c')
      drawn ahead)
    (bounded : ∀ id row, limits.committed id = some row → ∀ resetAt, row.resetAt < resetAt →
      ahead id resetAt = 0) :
    Books (limits.view c) ((limits.commit c).view c') (reservations.view c)
      ((reservations.commit c).view c') drawn ahead where
  known := by
    intro id hid
    rcases reservations.view_commit_cases other id with ⟨same, _⟩ | ⟨same, _⟩
    · exact mine.known id (same ▸ hid)
    · exact own.known id (same ▸ hid)
  later := by
    intro id row hrow
    rcases limits.view_commit_cases other id with ⟨same, kept⟩ | ⟨same, _⟩
    · obtain ⟨row', hrow', hle⟩ := mine.later id row (kept ▸ hrow)
      exact ⟨row', same.trans hrow', hle⟩
    · exact ⟨row, same.trans hrow, le_refl _⟩
  based := by
    intro id row hrow
    rcases limits.view_commit_cases other id with ⟨same, kept⟩ | ⟨same, _⟩
    · obtain ⟨row₀, hrow₀, hle⟩ := mine.based id row (same ▸ hrow)
      exact ⟨row₀, kept.trans hrow₀, hle⟩
    · exact ⟨row, same ▸ hrow, le_refl _⟩
  opening := by
    intro id row hrow
    rcases limits.view_commit_cases other id with ⟨same, _⟩ | ⟨same, _⟩
    · exact mine.opening id row (same ▸ hrow)
    · exact own.opening id row (same ▸ hrow)
  balance := by
    intro id row hrow
    have shift : counted drawn ((reservations.commit c).view c') id row.resetAt
        - counted drawn (reservations.view c) id row.resetAt
        = counted drawn (reservations.view c') id row.resetAt
        - counted drawn reservations.committed id row.resetAt :=
      Table.total_commit_other _ drawn reservations other
    rcases limits.view_commit_cases other id with ⟨same, kept⟩ | ⟨same, kept⟩
    · -- the row is the session's own: the commit added nothing to its window
      have hmine := same ▸ hrow
      obtain ⟨row₀, hrow₀, hle⟩ := mine.based id row hmine
      have balanced := mine.balance id row hmine
      have added : counted drawn (reservations.view c) id row.resetAt =
          counted drawn reservations.committed id row.resetAt := by
        rcases hle.lt_or_eq with future | live
        · rw [own.counted_future hrow₀ future, db.counted_future hrow₀ future]
        · have committed := db.balance id row₀ hrow₀
          have committer := own.balance id row₀ (kept.trans hrow₀)
          rw [← live]
          omega
      omega
    · -- the row is the committer's: what this session is ahead by, its items have
      have hown := same ▸ hrow
      obtain ⟨row₀, hrow₀, hle⟩ := own.based id row hown
      have balanced := own.balance id row hown
      have even : counted drawn (reservations.view c') id row.resetAt
          - counted drawn reservations.committed id row.resetAt + ahead id row.resetAt = 0 := by
        rcases hle.lt_or_eq with future | live
        · rw [mine.counted_future hrow₀ future, db.counted_future hrow₀ future,
            bounded id row₀ hrow₀ _ future]
          rfl
        · have committed := db.balance id row₀ hrow₀
          have before := mine.balance id row₀ (kept.trans hrow₀)
          rw [← live]
          omega
      omega
  dated := by
    intro id r hr i hi
    rcases reservations.view_commit_cases other id with ⟨same, _⟩ | ⟨same, _⟩
    · exact (mine.dated id r (same ▸ hr) i hi).later own.later
    · exact (own.dated id r (same ▸ hr) i hi).later own.later
  once := by
    intro id r hr
    rcases reservations.view_commit_cases other id with ⟨same, kept⟩ | ⟨same, _⟩
    · obtain ⟨r', hr', moved⟩ := mine.once id r (kept ▸ hr)
      exact ⟨r', same.trans hr', moved⟩
    · exact ⟨r, same.trans hr, Or.inl rfl⟩

end ApiKeys
