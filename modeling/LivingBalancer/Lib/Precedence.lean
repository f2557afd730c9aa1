import Mathlib.Data.List.Basic
import Mathlib.Tactic.TypeStar

/-!
# What precedes what in a log

Logs list the newest record first.
-/

namespace Precedence

variable {Record : Type*} {p q p' q' : Record → Prop} {log : List Record}

/-- A record that meets `p` has an earlier one that meets `q`. -/
def Follows (p q : Record → Prop) (log : List Record) : Prop :=
  ∃ later r earlier, log = later ++ r :: earlier ∧ p r ∧ ∃ e ∈ earlier, q e

theorem Follows.now {r e : Record} (hp : p r) (he : e ∈ log) (hq : q e) :
    Follows p q (r :: log) :=
  ⟨[], r, log, rfl, hp, e, he, hq⟩

theorem Follows.append (h : Follows p q log) (new : List Record) : Follows p q (new ++ log) := by
  obtain ⟨later, r, earlier, rfl, hp, hq⟩ := h
  exact ⟨new ++ later, r, earlier, by rw [List.append_assoc], hp, hq⟩

theorem Follows.imp (h : Follows p q log) (hp : ∀ r, p r → p' r) (hq : ∀ r, q r → q' r) :
    Follows p' q' log := by
  obtain ⟨later, r, earlier, rfl, hr, e, he, hqe⟩ := h
  exact ⟨later, r, earlier, rfl, hp r hr, e, he, hq e hqe⟩

end Precedence
