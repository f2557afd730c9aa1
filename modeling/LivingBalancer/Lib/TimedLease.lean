import Mathlib.Logic.Basic
import Mathlib.Order.Lattice

/-!
# One row that grants a lease for a while

The three statements of lease tables: a conditional upsert, a guarded extension and
a guarded delete. The clock of the takeover test and the new expiry are arguments.
-/

namespace TimedLease

universe u v
variable {Owner : Type u} {Time : Type v}

structure Lease (Owner : Type u) (Time : Type v) where
  owner : Owner
  expiresAt : Time
  deriving DecidableEq

variable [DecidableEq Owner] [LinearOrder Time]

/-- `INSERT … ON CONFLICT DO UPDATE … WHERE expired OR owner = :owner`, and whether it matched. -/
def upsert (row : Option (Lease Owner Time)) (owner : Owner) (now expiresAt : Time) :
    Option (Lease Owner Time) × Bool :=
  match row with
  | none => (some ⟨owner, expiresAt⟩, true)
  | some l =>
    if l.expiresAt < now ∨ l.owner = owner then (some ⟨owner, expiresAt⟩, true)
    else (some l, false)

/-- `UPDATE … WHERE owner = :owner AND expires_at > now`, and whether it matched. -/
def extend (row : Option (Lease Owner Time)) (owner : Owner) (now expiresAt : Time) :
    Option (Lease Owner Time) × Bool :=
  match row with
  | none => (none, false)
  | some l =>
    if l.owner = owner ∧ now < l.expiresAt then (some ⟨owner, expiresAt⟩, true)
    else (some l, false)

omit [LinearOrder Time] in
/-- `DELETE … WHERE owner = :owner`. -/
def discard (row : Option (Lease Owner Time)) (owner : Owner) : Option (Lease Owner Time) :=
  row.filter fun l => l.owner ≠ owner

variable {row : Option (Lease Owner Time)} {owner : Owner} {now expiresAt : Time}

theorem upsert_cases (row : Option (Lease Owner Time)) (owner : Owner) (now expiresAt : Time) :
    (upsert row owner now expiresAt = (row, false) ∧
        ∃ l, row = some l ∧ l.owner ≠ owner ∧ now ≤ l.expiresAt) ∨
      (upsert row owner now expiresAt = (some ⟨owner, expiresAt⟩, true) ∧
        ∀ l ∈ row, l.expiresAt < now ∨ l.owner = owner) := by
  cases row with
  | none => exact .inr ⟨rfl, nofun⟩
  | some l =>
    by_cases free : l.expiresAt < now ∨ l.owner = owner
    · refine .inr ⟨by simp [upsert, free], ?_⟩
      rintro _ ⟨⟩
      exact free
    · have held := not_or.mp free
      exact .inl ⟨by simp [upsert, free], l, rfl, held.2, not_lt.mp held.1⟩

theorem extend_cases (row : Option (Lease Owner Time)) (owner : Owner) (now expiresAt : Time) :
    (extend row owner now expiresAt = (row, false) ∧
        ∀ l ∈ row, l.owner ≠ owner ∨ l.expiresAt ≤ now) ∨
      (extend row owner now expiresAt = (some ⟨owner, expiresAt⟩, true) ∧
        ∃ l, row = some l ∧ l.owner = owner ∧ now < l.expiresAt) := by
  cases row with
  | none => exact .inl ⟨rfl, nofun⟩
  | some l =>
    by_cases live : l.owner = owner ∧ now < l.expiresAt
    · exact .inr ⟨by simp [extend, live], l, rfl, live⟩
    · refine .inl ⟨by simp [extend, live], ?_⟩
      rintro _ ⟨⟩
      exact (not_and_or.mp live).imp id not_lt.mp

omit [LinearOrder Time] in
theorem discard_cases (row : Option (Lease Owner Time)) (owner : Owner) :
    (discard row owner = row ∧ ∀ l ∈ row, l.owner ≠ owner) ∨
      (discard row owner = none ∧ ∃ l, row = some l ∧ l.owner = owner) := by
  cases row with
  | none => exact .inl ⟨rfl, nofun⟩
  | some l =>
    by_cases same : l.owner = owner
    · exact .inr ⟨by simp [discard, Option.filter, same], l, rfl, same⟩
    · refine .inl ⟨by simp [discard, Option.filter, same], ?_⟩
      rintro _ ⟨⟩
      exact same

omit [LinearOrder Time] in
theorem discard_other {l : Lease Owner Time} (other : l.owner ≠ owner) :
    discard (some l) owner = some l := by
  simp [discard, Option.filter, other]

end TimedLease
