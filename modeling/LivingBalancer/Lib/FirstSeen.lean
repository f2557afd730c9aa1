import Mathlib.Data.List.Basic
import Mathlib.Tactic.TypeStar

/-!
# Lists without repeated items

An item may be dropped when its identity has been seen: in what came before the list, or
at an item of the list that is kept before it. Items without an identity stay.
-/

namespace FirstSeen

variable {α κ : Type*} {ident : α → Option κ} {Same : α → α → Prop}
variable {seen seen' : List κ} {as bs cs : List α}

/-- `Trimmed ident Same seen as bs`: `bs` is `as` without items whose identity has been seen. -/
inductive Trimmed (ident : α → Option κ) (Same : α → α → Prop) :
    List κ → List α → List α → Prop
  | nil (seen : List κ) : Trimmed ident Same seen [] []
  | keep {seen : List κ} {a b : α} {as bs : List α} (same : Same a b)
      (rest : Trimmed ident Same ((ident a).toList ++ seen) as bs) :
      Trimmed ident Same seen (a :: as) (b :: bs)
  | drop {seen : List κ} {a : α} {i : κ} {as bs : List α} (known : ident a = some i)
      (before : i ∈ seen) (rest : Trimmed ident Same seen as bs) :
      Trimmed ident Same seen (a :: as) bs

theorem Trimmed.map {f : α → α} (same : ∀ a ∈ as, Same a (f a)) (seen : List κ) :
    Trimmed ident Same seen as (as.map f) := by
  induction as generalizing seen with
  | nil => exact .nil seen
  | cons a as ih =>
    refine .keep (same a List.mem_cons_self) (ih ?_ _)
    exact fun b hb => same b (List.mem_cons_of_mem a hb)

theorem Trimmed.refl (same : ∀ a ∈ as, Same a a) (seen : List κ) :
    Trimmed ident Same seen as as := by
  have kept : Trimmed ident Same seen as (as.map id) := .map same seen
  rwa [List.map_id] at kept

/-- Two trimmings, one after the other; an item kept by the first and dropped by the second
has its identity in what the second had seen. -/
theorem Trimmed.trans (hident : ∀ a b, Same a b → ident a = ident b)
    (htrans : ∀ a b c, Same a b → Same b c → Same a c)
    (first : Trimmed ident Same seen as bs) (second : Trimmed ident Same seen' bs cs)
    (sub : seen ⊆ seen') : Trimmed ident Same seen' as cs := by
  induction first generalizing seen' cs with
  | nil => cases second with
    | nil => exact .nil seen'
  | @keep seen a b as bs same rest ih =>
    have known := hident a b same
    cases second with
    | keep same' rest' =>
      refine .keep (htrans a b _ same same') (ih (by rwa [known]) ?_)
      intro i hi
      rcases List.mem_append.mp hi with own | old
      · exact List.mem_append_left _ own
      · exact List.mem_append_right _ (sub old)
    | @drop _ _ i _ _ known' before rest' =>
      refine .drop (known.trans known') before (ih rest' ?_)
      intro j hj
      rcases List.mem_append.mp hj with own | old
      · rw [known, known', Option.toList_some, List.mem_singleton] at own
        rwa [own]
      · exact sub old
  | drop known before rest ih => exact .drop known (sub before) (ih second sub)

/-- Where nothing is kept, everything has been seen before the list. -/
theorem Trimmed.all_seen (h : Trimmed ident Same seen as []) :
    ∀ a ∈ as, ∃ i ∈ seen, ident a = some i := by
  generalize none_kept : ([] : List α) = kept at h
  induction h with
  | nil => nofun
  | keep => cases none_kept
  | drop known before rest ih =>
    intro b hb
    rcases List.mem_cons.mp hb with rfl | later
    · exact ⟨_, before, known⟩
    · exact ih none_kept b later

theorem Trimmed.mem (h : Trimmed ident Same seen as bs) : ∀ b ∈ bs, ∃ a ∈ as, Same a b := by
  induction h with
  | nil => nofun
  | @keep seen a b as bs same rest ih =>
    intro c hc
    rcases List.mem_cons.mp hc with rfl | later
    · exact ⟨a, List.mem_cons_self, same⟩
    · obtain ⟨a', mem, same'⟩ := ih c later
      exact ⟨a', List.mem_cons_of_mem a mem, same'⟩
  | @drop seen a i as bs known before rest ih =>
    intro c hc
    obtain ⟨a', mem, same'⟩ := ih c hc
    exact ⟨a', List.mem_cons_of_mem a mem, same'⟩

end FirstSeen
