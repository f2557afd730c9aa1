import Mathlib.Data.Int.Order.Basic
import Mathlib.Tactic.Common

/-!
# Local time

A time zone as a piecewise constant offset: an initial offset, and transitions at which the
offset changes. `wall` is what a clock of the zone shows at an instant. `toUtc` reads a
wall-clock time as an instant, with the rule for a time that no fold is given for: a repeated
time is read in its first pass, and a skipped time with the offset before the gap. The two
orders, of wall-clock times and of instants, disagree in two ways only: inside a gap
(`lt_toUtc_iff`) and in the second pass of a repeated interval (`toUtc_le_iff`).
-/

namespace LocalTime

structure Transition where
  instant : Int
  offset : Int

/-- The offset at an instant. -/
def offsetAt : Int → List Transition → Int → Int
  | before, [], _ => before
  | before, c :: rest, u => if u < c.instant then before else offsetAt c.offset rest u

/-- The offset that a wall-clock time is read with. -/
def offsetOf : Int → List Transition → Int → Int
  | before, [], _ => before
  | before, c :: rest, w =>
    if w < c.instant + max before c.offset then before else offsetOf c.offset rest w

/-- The wall-clock window of a transition ends before that of the next one begins, so that a
wall-clock time is shown twice at most, which is what one fold bit tells apart. -/
def Ordered : Int → List Transition → Prop
  | before, c :: d :: rest =>
    c.instant < d.instant ∧
      c.instant + max before c.offset ≤ d.instant + min c.offset d.offset ∧
      Ordered c.offset (d :: rest)
  | _, _ => True

/-- The offset goes from `old` to `new` at the instant `t`. -/
def Shifts : Int → List Transition → Int → Int → Int → Prop
  | _, [], _, _, _ => False
  | before, c :: rest, t, old, new =>
    (t = c.instant ∧ old = before ∧ new = c.offset) ∨ Shifts c.offset rest t old new

variable {before : Int} {c : Transition} {rest changes : List Transition}

theorem Ordered.tail (h : Ordered before (c :: rest)) : Ordered c.offset rest := by
  cases rest with
  | nil => trivial
  | cons d rest => exact h.2.2

/-- A later transition comes after the window of the first one. -/
theorem Ordered.later (h : Ordered before (c :: rest)) {t old new : Int}
    (shift : Shifts c.offset rest t old new) :
    c.instant < t ∧ c.instant + max before c.offset ≤ t + min old new := by
  induction rest generalizing before c with
  | nil => cases shift
  | cons d rest ih =>
    obtain ⟨instants, windows, tail⟩ := h
    rcases shift with ⟨rfl, rfl, rfl⟩ | shift
    · exact ⟨instants, windows⟩
    · have next := ih tail shift
      omega

/-- From a transition on, the clock shows no less than at the transition. -/
theorem Ordered.wall_ge (h : Ordered before (c :: rest)) {u : Int} (after : c.instant ≤ u) :
    c.instant + c.offset ≤ u + offsetAt c.offset rest u := by
  induction rest generalizing before c with
  | nil =>
    rw [offsetAt]
    omega
  | cons d rest ih =>
    obtain ⟨instants, windows, tail⟩ := h
    rw [offsetAt]
    split
    · omega
    · have next := ih tail (by omega)
      omega

/-- A wall-clock time behind a transition's window is read as an instant behind it. -/
theorem Ordered.toUtc_ge (h : Ordered before (c :: rest)) {w : Int}
    (after : c.instant + max before c.offset ≤ w) :
    c.instant ≤ w - offsetOf c.offset rest w := by
  induction rest generalizing before c with
  | nil =>
    rw [offsetOf]
    omega
  | cons d rest ih =>
    obtain ⟨instants, windows, tail⟩ := h
    rw [offsetOf]
    split
    · omega
    · have next := ih tail (by omega)
      omega

/-- The clock shows `w` or later before the instant that `w` is read as exactly in a gap that
skips `w`. -/
theorem lt_toUtc (h : Ordered before changes) {u w : Int}
    (reached : w ≤ u + offsetAt before changes u) :
    u < w - offsetOf before changes w ↔
      ∃ t old new, Shifts before changes t old new ∧ t ≤ u ∧ t + old ≤ w ∧ w < t + new ∧
        u < w - old := by
  induction changes generalizing before with
  | nil =>
    rw [offsetAt] at reached
    rw [offsetOf]
    constructor
    · intro ahead
      omega
    · rintro ⟨_, _, _, shift, _⟩
      cases shift
  | cons c rest ih =>
    rw [offsetAt] at reached
    rw [offsetOf]
    by_cases early : u < c.instant
    · rw [if_pos early] at reached
      rw [if_pos (by omega)]
      constructor
      · intro ahead
        omega
      · rintro ⟨t, old, new, ⟨rfl, rfl, rfl⟩ | shift, due, _⟩
        · omega
        · have later := h.later shift
          omega
    rw [if_neg early] at reached
    by_cases window : w < c.instant + max before c.offset
    · rw [if_pos window]
      constructor
      · intro ahead
        exact ⟨c.instant, before, c.offset, Or.inl ⟨rfl, rfl, rfl⟩, by omega, by omega, by omega,
          ahead⟩
      · rintro ⟨t, old, new, ⟨rfl, rfl, rfl⟩ | shift, due, inside, _, ahead⟩
        · exact ahead
        · have later := h.later shift
          omega
    · rw [if_neg window, ih h.tail reached]
      constructor
      · rintro ⟨t, old, new, shift, rest⟩
        exact ⟨t, old, new, Or.inr shift, rest⟩
      · rintro ⟨t, old, new, ⟨rfl, rfl, rfl⟩ | shift, due, inside, before_, ahead⟩
        · omega
        · exact ⟨t, old, new, shift, due, inside, before_, ahead⟩

/-- The clock shows less than `w` from the instant that `w` is read as exactly after it was set
back over `w`. -/
theorem toUtc_le (h : Ordered before changes) {u w : Int}
    (ahead : u + offsetAt before changes u < w) :
    w - offsetOf before changes w ≤ u ↔
      ∃ t old new, Shifts before changes t old new ∧ t ≤ u ∧ w < t + old := by
  induction changes generalizing before with
  | nil =>
    rw [offsetAt] at ahead
    rw [offsetOf]
    constructor
    · intro due
      omega
    · rintro ⟨_, _, _, shift, _⟩
      cases shift
  | cons c rest ih =>
    rw [offsetAt] at ahead
    rw [offsetOf]
    by_cases early : u < c.instant
    · rw [if_pos early] at ahead
      constructor
      · intro due
        split at due
        · omega
        next window =>
          have read := h.toUtc_ge (Int.not_lt.mp window)
          omega
      · rintro ⟨t, old, new, ⟨rfl, rfl, rfl⟩ | shift, due, _⟩
        · omega
        · have later := h.later shift
          omega
    rw [if_neg early] at ahead
    have shown := h.wall_ge (Int.not_lt.mp early)
    by_cases window : w < c.instant + max before c.offset
    · rw [if_pos window]
      constructor
      · intro due
        exact ⟨c.instant, before, c.offset, Or.inl ⟨rfl, rfl, rfl⟩, by omega, by omega⟩
      · rintro ⟨t, old, new, ⟨rfl, rfl, rfl⟩ | shift, due, inside⟩
        · omega
        · cases rest with
          | nil => cases shift
          | cons d rest =>
            have next : d.instant ≤ t := by
              rcases shift with ⟨rfl, _⟩ | shift
              · exact le_refl _
              · exact le_of_lt (h.tail.later shift).1
            have windows := h.2.1
            have clock := h.tail.wall_ge (le_trans next due)
            rw [offsetAt, if_neg (by omega)] at ahead
            omega
    · rw [if_neg window, ih h.tail ahead]
      constructor
      · rintro ⟨t, old, new, shift, rest⟩
        exact ⟨t, old, new, Or.inr shift, rest⟩
      · rintro ⟨t, old, new, ⟨rfl, rfl, rfl⟩ | shift, due, inside⟩
        · omega
        · exact ⟨t, old, new, shift, due, inside⟩

/-- A skipped time is read with the offset before its gap. -/
theorem offsetOf_gap (h : Ordered before changes) {t old new w : Int}
    (shift : Shifts before changes t old new) (skipped : t + old ≤ w) (gap : w < t + new) :
    offsetOf before changes w = old := by
  induction changes generalizing before with
  | nil => cases shift
  | cons c rest ih =>
    rw [offsetOf]
    rcases shift with ⟨rfl, rfl, rfl⟩ | shift
    · rw [if_pos (by omega)]
    · have later := h.later shift
      rw [if_neg (by omega), ih h.tail shift]

/-- A time that no gap skips is shown at the instant that it is read as. -/
theorem wall_toUtc (h : Ordered before changes) {w : Int}
    (shown : ∀ t old new, Shifts before changes t old new → t + old ≤ w → t + new ≤ w) :
    (w - offsetOf before changes w) +
      offsetAt before changes (w - offsetOf before changes w) = w := by
  induction changes generalizing before with
  | nil =>
    rw [offsetOf, offsetAt]
    omega
  | cons c rest ih =>
    rw [offsetOf]
    have first := shown c.instant before c.offset (Or.inl ⟨rfl, rfl, rfl⟩)
    by_cases window : w < c.instant + max before c.offset
    · rw [if_pos window, offsetAt, if_pos (by omega)]
      omega
    · have read := h.toUtc_ge (Int.not_lt.mp window)
      rw [if_neg window, offsetAt, if_neg (by omega)]
      exact ih h.tail fun t old new shift => shown t old new (Or.inr shift)

/-! ## Zones -/

structure Zone where
  initial : Int
  transitions : List Transition
  ordered : Ordered initial transitions

namespace Zone

def Shifts (zone : Zone) (t old new : Int) : Prop :=
  LocalTime.Shifts zone.initial zone.transitions t old new

/-- What a clock of the zone shows at an instant. -/
def wall (zone : Zone) (u : Int) : Int := u + offsetAt zone.initial zone.transitions u

/-- The instant that a wall-clock time is read as. -/
def toUtc (zone : Zone) (w : Int) : Int := w - offsetOf zone.initial zone.transitions w

theorem lt_toUtc_iff (zone : Zone) {u w : Int} (reached : w ≤ zone.wall u) :
    u < zone.toUtc w ↔
      ∃ t old new, zone.Shifts t old new ∧ t ≤ u ∧ t + old ≤ w ∧ w < t + new ∧ u < w - old :=
  lt_toUtc zone.ordered reached

theorem toUtc_le_iff (zone : Zone) {u w : Int} (ahead : zone.wall u < w) :
    zone.toUtc w ≤ u ↔ ∃ t old new, zone.Shifts t old new ∧ t ≤ u ∧ w < t + old :=
  toUtc_le zone.ordered ahead

theorem toUtc_gap (zone : Zone) {t old new w : Int} (shift : zone.Shifts t old new)
    (skipped : t + old ≤ w) (gap : w < t + new) : zone.toUtc w = w - old := by
  rw [toUtc, offsetOf_gap zone.ordered shift skipped gap]

theorem wall_toUtc (zone : Zone) {w : Int}
    (shown : ∀ t old new, zone.Shifts t old new → t + old ≤ w → t + new ≤ w) :
    zone.wall (zone.toUtc w) = w :=
  LocalTime.wall_toUtc zone.ordered shown

end Zone

end LocalTime
