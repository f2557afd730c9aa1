import Mathlib.Algebra.BigOperators.Group.List.Basic
import Mathlib.Algebra.Order.BigOperators.Group.List
import Mathlib.Tactic.Ring
import Mathlib.Tactic.LinearCombination

/-!
# Tables with row locks and uncommitted rows

A table holds committed rows, the rows each session wrote and has not committed, and
the row locks. A session reads its own rows over the committed ones, as under
read-committed isolation. Writing a row takes its lock; commit and rollback give the
locks back. Deadlocks are not detected here: a session that waits is not enabled.
-/

universe u v

/-- A row a session has written is locked by it. A written `none` is a deleted row. -/
@[ext] structure Table (κ : Type u) (β : Type v) where
  committed : κ → Option β
  pending : Nat → κ → Option (Option β)
  lock : κ → Option Nat
  owned : ∀ c k, pending c k ≠ none → lock k = some c

namespace Table

variable {κ : Type u} {β : Type v}

def ofRows (rows : κ → Option β) : Table κ β where
  committed := rows
  pending := fun _ _ => none
  lock := fun _ => none
  owned := fun _ _ h => absurd rfl h

/-- The rows as session `c` reads them. -/
def view (t : Table κ β) (c : Nat) (k : κ) : Option β := (t.pending c k).getD (t.committed k)

def Free (t : Table κ β) (c : Nat) (k : κ) : Prop := t.lock k = none ∨ t.lock k = some c

instance (t : Table κ β) (c : Nat) (k : κ) : Decidable (t.Free c k) :=
  inferInstanceAs (Decidable (_ ∨ _))

theorem pending_of_other {t : Table κ β} {c c' : Nat} (other : c' ≠ c) {k : κ}
    (held : t.pending c k ≠ none) : t.pending c' k = none := by
  by_contra both
  have same : some c' = some c := (t.owned c' k both).symm.trans (t.owned c k held)
  exact other (Option.some.inj same)

theorem pending_of_free {t : Table κ β} {c c' : Nat} (other : c' ≠ c) {k : κ} (free : t.Free c k) :
    t.pending c' k = none := by
  by_contra held
  have locked := t.owned c' k held
  rcases free with unlocked | mine
  · rw [unlocked] at locked
    cases locked
  · rw [mine] at locked
    exact other (Option.some.inj locked).symm

theorem view_of_none {t : Table κ β} {c : Nat} {k : κ} (h : t.pending c k = none) :
    t.view c k = t.committed k := by
  simp [view, h]

section Write

variable [DecidableEq κ]

/-- Session `c` writes a row that no other session has locked. -/
def put (t : Table κ β) (c : Nat) (k : κ) (row : Option β) (free : t.Free c k) : Table κ β where
  committed := t.committed
  pending := fun c' k' => if c' = c ∧ k' = k then some row else t.pending c' k'
  lock := fun k' => if k' = k then some c else t.lock k'
  owned := by
    intro c' k' held
    by_cases mine : c' = c ∧ k' = k
    · rw [if_pos mine.2, mine.1]
    · rw [if_neg mine] at held
      by_cases row : k' = k
      · subst row
        have other : c' ≠ c := fun same => mine ⟨same, rfl⟩
        exact absurd (pending_of_free other free) held
      · rw [if_neg row]
        exact t.owned c' k' held

/-- `none` while another session holds the lock: the statement waits. -/
def write (t : Table κ β) (c : Nat) (k : κ) (row : Option β) : Option (Table κ β) :=
  if free : t.Free c k then some (t.put c k row free) else none

@[simp] theorem committed_put (t : Table κ β) (c : Nat) (k : κ) (row : Option β)
    (free : t.Free c k) : (t.put c k row free).committed = t.committed := rfl

theorem view_put (t : Table κ β) (c : Nat) (k : κ) (row : Option β) (free : t.Free c k) (k' : κ) :
    (t.put c k row free).view c k' = if k' = k then row else t.view c k' := by
  simp only [view, put]
  by_cases same : k' = k
  · simp [same]
  · simp [same]

theorem view_put_self (t : Table κ β) (c : Nat) (k : κ) (row : Option β) (free : t.Free c k) :
    (t.put c k row free).view c k = row := by
  rw [view_put, if_pos rfl]

theorem view_put_ne (t : Table κ β) (c : Nat) {k k' : κ} (row : Option β) (free : t.Free c k)
    (h : k' ≠ k) : (t.put c k row free).view c k' = t.view c k' := by
  rw [view_put, if_neg h]

theorem view_put_other (t : Table κ β) {c c' : Nat} (other : c' ≠ c) (k : κ) (row : Option β)
    (free : t.Free c k) : (t.put c k row free).view c' = t.view c' := by
  funext k'
  simp [view, put, other]

theorem pending_put {t : Table κ β} {c c' : Nat} {k k' : κ} {row : Option β} (free : t.Free c k)
    (h : (t.put c k row free).pending c' k' ≠ none) : t.pending c' k' ≠ none ∨ c' = c ∧ k' = k := by
  by_cases mine : c' = c ∧ k' = k
  · exact Or.inr mine
  · refine Or.inl ?_
    simpa [put, mine] using h

theorem write_eq_some {t t' : Table κ β} {c : Nat} {k : κ} {row : Option β} :
    t.write c k row = some t' ↔ ∃ free, t' = t.put c k row free := by
  simp only [write]
  constructor
  · intro h
    split at h
    · rename_i free
      exact ⟨free, (Option.some.inj h).symm⟩
    · cases h
  · rintro ⟨free, rfl⟩
    rw [dif_pos free]

/-- An `UPDATE` of one row, and whether it matched. The condition is first judged on the
rows `c` reads, so a row that does not match is passed over even while it is locked. -/
def update (t : Table κ β) (c : Nat) (k : κ) (cond : β → Bool) (set : β → β) :
    Option (Table κ β × Bool) :=
  match t.view c k with
  | none => some (t, false)
  | some row => if cond row then (t.write c k (some (set row))).map (·, true) else some (t, false)

/-- What an `UPDATE` can do. -/
theorem update_cases {t t' : Table κ β} {c : Nat} {k : κ} {cond : β → Bool} {set : β → β} {hit : Bool}
    (h : t.update c k cond set = some (t', hit)) :
    (hit = false ∧ t' = t ∧ ∀ row, t.view c k = some row → cond row = false) ∨
      (hit = true ∧ ∃ row free, t.view c k = some row ∧ cond row = true ∧
        t' = t.put c k (some (set row)) free) := by
  simp only [update] at h
  cases hrow : t.view c k with
  | none =>
    rw [hrow] at h
    cases h
    exact Or.inl ⟨rfl, rfl, fun row h => nomatch h⟩
  | some row =>
    rw [hrow] at h
    by_cases matched : cond row
    · simp only [matched, if_true] at h
      obtain ⟨written, hwrite, heq⟩ := Option.map_eq_some_iff.mp h
      obtain ⟨free, rfl⟩ := write_eq_some.mp hwrite
      cases heq
      exact Or.inr ⟨rfl, row, free, rfl, matched, rfl⟩
    · simp only [matched, Bool.false_eq_true, if_false] at h
      cases h
      refine Or.inl ⟨rfl, rfl, ?_⟩
      rintro row' ⟨⟩
      exact Bool.eq_false_iff.mpr matched

end Write

section Close

/-- The end of a transaction of `c`, with the given rows committed. -/
def close (t : Table κ β) (c : Nat) (rows : κ → Option β) : Table κ β where
  committed := rows
  pending := fun c' k => if c' = c then none else t.pending c' k
  lock := fun k => if t.lock k = some c then none else t.lock k
  owned := by
    intro c' k held
    by_cases mine : c' = c
    · rw [if_pos mine] at held
      exact absurd rfl held
    · rw [if_neg mine] at held
      have locked := t.owned c' k held
      rw [if_neg ?_, locked]
      rw [locked]
      exact fun same => mine (Option.some.inj same)

theorem pending_close {t : Table κ β} {c c' : Nat} {rows : κ → Option β} {k : κ}
    (h : (t.close c rows).pending c' k ≠ none) : t.pending c' k ≠ none := by
  by_cases mine : c' = c
  · simp [close, mine] at h
  · simpa [close, mine] using h

def commit (t : Table κ β) (c : Nat) : Table κ β := t.close c (t.view c)

def rollback (t : Table κ β) (c : Nat) : Table κ β := t.close c t.committed

@[simp] theorem committed_commit (t : Table κ β) (c : Nat) : (t.commit c).committed = t.view c := rfl

@[simp] theorem committed_rollback (t : Table κ β) (c : Nat) :
    (t.rollback c).committed = t.committed := rfl

@[simp] theorem view_commit (t : Table κ β) (c : Nat) : (t.commit c).view c = t.view c := by
  funext k
  simp [view, commit, close]

@[simp] theorem view_rollback (t : Table κ β) (c : Nat) : (t.rollback c).view c = t.committed := by
  funext k
  simp [view, rollback, close]

theorem view_rollback_other (t : Table κ β) {c c' : Nat} (other : c' ≠ c) :
    (t.rollback c).view c' = t.view c' := by
  funext k
  simp [view, rollback, close, other]

/-- After a commit of `c`, another session reads its own rows over those of `c`. -/
theorem view_commit_other (t : Table κ β) {c c' : Nat} (other : c' ≠ c) (k : κ) :
    (t.commit c).view c' k = (t.pending c' k).getD (t.view c k) := by
  simp [view, commit, close, other]

/-- Of two sessions at most one has written a row, so past a commit of `c` another one reads
the row as it wrote it, or as `c` did. -/
theorem view_commit_cases (t : Table κ β) {c c' : Nat} (other : c' ≠ c) (k : κ) :
    ((t.commit c).view c' k = t.view c' k ∧ t.view c k = t.committed k) ∨
      ((t.commit c).view c' k = t.view c k ∧ t.view c' k = t.committed k) := by
  rw [view_commit_other t other]
  cases held : t.pending c' k with
  | none => exact Or.inr ⟨rfl, view_of_none held⟩
  | some row =>
    have untouched : t.pending c k = none := pending_of_other (Ne.symm other) (by simp [held])
    exact Or.inl ⟨by simp [view, held], view_of_none untouched⟩

end Close

section Moves

/-- What a statement of session `c` does to a table; the flag says whether it commits. -/
inductive Move [DecidableEq κ] (c : Nat) : Bool → Table κ β → Table κ β → Prop where
  | stay (t : Table κ β) : Move c false t t
  | put (t : Table κ β) (k : κ) (row : Option β) (free : t.Free c k) :
      Move c false t (t.put c k row free)
  | rollback (t : Table κ β) : Move c false t (t.rollback c)
  | commit (t : Table κ β) : Move c true t (t.commit c)

variable [DecidableEq κ] {c c' : Nat} {commits : Bool} {t t' : Table κ β}

theorem Move.committed (h : Move c commits t t') :
    t'.committed = if commits then t.view c else t.committed := by
  cases h with
  | stay | put | rollback => rfl
  | commit => rfl

theorem Move.pending_other (h : Move c commits t t') (other : c' ≠ c) (k : κ) :
    t'.pending c' k = t.pending c' k := by
  cases h with
  | stay => rfl
  | put => exact if_neg fun both => other both.1
  | rollback => exact if_neg other
  | commit => exact if_neg other

/-- A row another session has written stays as it is committed. -/
theorem Move.committed_of_held (h : Move c commits t t') (other : c' ≠ c) {k : κ}
    (held : t.pending c' k ≠ none) : t'.committed k = t.committed k := by
  rw [h.committed]
  split
  · exact view_of_none (pending_of_other (Ne.symm other) held)
  · rfl

end Moves

section Erase

/-! Rolling a session back takes it out of a run of the others. -/

variable {t t' : Table κ β} {c e : Nat}

theorem Free.rollback {k : κ} (free : t.Free c k) (e : Nat) : (t.rollback e).Free c k := by
  simp only [Free, Table.rollback, close]
  split
  · exact Or.inl rfl
  · exact free

theorem rollback_idem (t : Table κ β) (e : Nat) : (t.rollback e).rollback e = t.rollback e := by
  ext1
  · rfl
  · funext c' k
    simp only [rollback, close]
    split <;> rfl
  · funext k
    simp only [rollback, close]
    split <;> simp_all

theorem rollback_comm (t : Table κ β) (c e : Nat) :
    (t.rollback c).rollback e = (t.rollback e).rollback c := by
  ext1
  · rfl
  · funext c' k
    simp only [rollback, close]
    split <;> split <;> rfl
  · funext k
    simp only [rollback, close]
    split <;> split <;> simp_all

theorem commit_rollback_other (t : Table κ β) (other : c ≠ e) :
    (t.commit c).rollback e = (t.rollback e).commit c := by
  ext1
  · exact (view_rollback_other t other).symm
  · funext c' k
    simp only [rollback, commit, close]
    split <;> split <;> rfl
  · funext k
    simp only [rollback, commit, close]
    split <;> split <;> simp_all

variable [DecidableEq κ]

theorem put_rollback (t : Table κ β) (k : κ) (row : Option β) (free : t.Free e k) :
    (t.put e k row free).rollback e = t.rollback e := by
  ext1
  · rfl
  · funext c' k'
    simp only [rollback, close, put]
    split
    · rfl
    · rename_i other
      rw [if_neg fun both => other both.1]
  · funext k'
    simp only [rollback, close, put]
    by_cases same : k' = k
    · subst same
      rcases free with unlocked | mine
      · simp [unlocked]
      · simp [mine]
    · simp [same]

/-- What a session does before it commits is gone when it rolls back. -/
theorem Move.rollback_eq (h : Move e false t t') : t'.rollback e = t.rollback e := by
  cases h with
  | stay => rfl
  | put _ k row free => exact put_rollback t k row free
  | rollback => exact rollback_idem t e

theorem put_rollback_other (other : c ≠ e) (k : κ) (row : Option β) (free : t.Free c k) :
    (t.put c k row free).rollback e = (t.rollback e).put c k row (free.rollback e) := by
  ext1
  · rfl
  · funext c' k'
    simp only [rollback, close, put]
    by_cases mine : c' = e
    · subst mine
      simp [Ne.symm other]
    · simp [mine]
  · funext k'
    simp only [rollback, close, put]
    by_cases same : k' = k
    · simp [same, other]
    · simp [same]

theorem write_rollback_other (other : c ≠ e) {k : κ} {row : Option β}
    (h : t.write c k row = some t') : (t.rollback e).write c k row = some (t'.rollback e) := by
  obtain ⟨free, rfl⟩ := write_eq_some.mp h
  exact write_eq_some.mpr ⟨free.rollback e, put_rollback_other other k row free⟩

theorem update_rollback_other (other : c ≠ e) {k : κ} {cond : β → Bool} {set : β → β} {hit : Bool}
    (h : t.update c k cond set = some (t', hit)) :
    (t.rollback e).update c k cond set = some (t'.rollback e, hit) := by
  simp only [update] at h ⊢
  rw [view_rollback_other t other]
  cases hrow : t.view c k with
  | none =>
    rw [hrow] at h
    cases h
    rfl
  | some row =>
    rw [hrow] at h
    dsimp only at h ⊢
    split at h
    · rename_i matched
      obtain ⟨written, hwrite, heq⟩ := Option.map_eq_some_iff.mp h
      cases heq
      rw [if_pos matched, write_rollback_other other hwrite]
      rfl
    · rename_i unmatched
      cases h
      rw [if_neg unmatched]

end Erase

section Total

variable (g : β → Int)

/-- The sum of `g` over the rows of the given keys. -/
def total (keys : List κ) (rows : κ → Option β) : Int :=
  (keys.map fun k => (rows k).elim 0 g).sum

@[simp] theorem total_cons (k : κ) (keys : List κ) (rows : κ → Option β) :
    total g (k :: keys) rows = (rows k).elim 0 g + total g keys rows := by
  simp [total]

theorem total_nonneg (keys : List κ) (rows : κ → Option β)
    (h : ∀ k row, rows k = some row → 0 ≤ g row) : 0 ≤ total g keys rows := by
  refine List.sum_nonneg ?_
  intro x hx
  obtain ⟨k, _, rfl⟩ := List.mem_map.mp hx
  cases hrow : rows k with
  | none => exact le_refl 0
  | some row => exact h k row hrow

theorem total_eq_zero (keys : List κ) (rows : κ → Option β)
    (h : ∀ k row, rows k = some row → g row = 0) : total g keys rows = 0 := by
  refine List.sum_eq_zero ?_
  intro x hx
  obtain ⟨k, _, rfl⟩ := List.mem_map.mp hx
  cases hrow : rows k with
  | none => rfl
  | some row => exact h k row hrow

/-- One row is at most the whole, when no row is negative. -/
theorem le_total {keys : List κ} {rows : κ → Option β}
    (h : ∀ k row, rows k = some row → 0 ≤ g row) {k : κ} (hk : k ∈ keys) {row : β}
    (hrow : rows k = some row) : g row ≤ total g keys rows := by
  induction keys with
  | nil => cases hk
  | cons k' rest ih =>
    have here : 0 ≤ (rows k').elim 0 g := by
      cases hrow' : rows k' with
      | none => exact le_refl 0
      | some row' => exact h k' row' hrow'
    have there := total_nonneg g rest rows h
    rw [total_cons]
    rcases List.mem_cons.mp hk with rfl | hk
    · rw [hrow]
      exact le_add_of_nonneg_right there
    · exact (ih hk).trans (le_add_of_nonneg_left here)

theorem total_congr {keys : List κ} {rows rows' : κ → Option β} (h : ∀ k ∈ keys, rows k = rows' k) :
    total g keys rows = total g keys rows' := by
  simp only [total]
  refine congrArg List.sum (List.map_congr_left ?_)
  intro k hk
  rw [h k hk]

theorem total_eq_add {f₁ f₂ : β → Int} (keys : List κ) (rows : κ → Option β)
    (h : ∀ k row, rows k = some row → g row = f₁ row + f₂ row) :
    total g keys rows = total f₁ keys rows + total f₂ keys rows := by
  induction keys with
  | nil => rfl
  | cons k rest ih =>
    rw [total_cons, total_cons, total_cons, ih]
    cases hrow : rows k with
    | none => simp
    | some row =>
      simp only [Option.elim_some]
      rw [h k row hrow]
      ring

/-- Changing one row changes the sum by that row. -/
theorem total_update [DecidableEq κ] {keys : List κ} (distinct : keys.Nodup) {k : κ} (hk : k ∈ keys)
    {rows rows' : κ → Option β} (same : ∀ k', k' ≠ k → rows' k' = rows k') :
    total g keys rows' = total g keys rows - (rows k).elim 0 g + (rows' k).elim 0 g := by
  induction keys with
  | nil => cases hk
  | cons k' rest ih =>
    obtain ⟨fresh, distinct⟩ := List.nodup_cons.mp distinct
    rw [total_cons, total_cons]
    by_cases here : k' = k
    · subst here
      have untouched : total g rest rows' = total g rest rows := by
        refine total_congr g ?_
        intro x hx
        exact same x fun hxk : x = k' => fresh (hxk ▸ hx)
      rw [untouched]
      ring
    · rw [same k' here, ih distinct ((List.mem_cons.mp hk).resolve_left (Ne.symm here))]
      ring

/-- What a session adds to the sum does not depend on another one's commit. -/
theorem total_commit_other (keys : List κ) (t : Table κ β) {c c' : Nat} (other : c' ≠ c) :
    total g keys ((t.commit c).view c') - total g keys (t.view c) =
      total g keys (t.view c') - total g keys t.committed := by
  induction keys with
  | nil => rfl
  | cons k rest ih =>
    have here : ((t.commit c).view c' k).elim 0 g - (t.view c k).elim 0 g =
        (t.view c' k).elim 0 g - (t.committed k).elim 0 g := by
      rcases view_commit_cases t other k with ⟨mine, untouched⟩ | ⟨theirs, untouched⟩
      · rw [mine, untouched]
      · rw [theirs, untouched]
        ring
    simp only [total_cons]
    linear_combination ih + here

end Total

end Table
