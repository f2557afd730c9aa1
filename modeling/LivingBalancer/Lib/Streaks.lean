import Mathlib.Data.List.Infix

/-!
# Streaks in a log

The latest entries of a log, newest first, that all have a property.
-/

namespace Streaks

universe u
variable {α : Type u}

def Streak (p : α → Prop) (log span : List α) : Prop := span <+: log ∧ ∀ r ∈ span, p r

variable {p : α → Prop} {log span : List α}

theorem Streak.nil (p : α → Prop) (log : List α) : Streak p log [] := ⟨List.nil_prefix, nofun⟩

theorem Streak.cons (streak : Streak p log span) {r : α} (hr : p r) :
    Streak p (r :: log) (r :: span) :=
  ⟨List.prefix_cons_inj r |>.mpr streak.1, List.forall_mem_cons.mpr ⟨hr, streak.2⟩⟩

/-- A streak ends before the first entry without the property. -/
theorem Streak.length_le {newer older : List α} {r : α}
    (streak : Streak p (newer ++ r :: older) span) (hr : ¬ p r) : span.length ≤ newer.length := by
  by_contra longer
  have inside : newer.length < span.length := by omega
  obtain ⟨rest, heq⟩ := streak.1
  have there : span[newer.length]? = some r := by
    have same := congrArg (·[newer.length]?) heq
    simpa [List.getElem?_append_left inside] using same
  have here : span[newer.length] = r := List.getElem_eq_iff inside |>.mpr there
  exact hr (here ▸ streak.2 _ (List.getElem_mem inside))

end Streaks
