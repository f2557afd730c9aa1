import Mathlib.Data.List.Basic

/-!
# Cutting a list at a delimiter

`cut` finds the first occurrence of a delimiter. What it finds does not change when more is
appended, so a reader that cuts as it goes finds what it would find in the whole.
-/

namespace Delimited

universe u
variable {α : Type u} [DecidableEq α] {sep s tail : List α}

/-- What stands before the first occurrence of `sep`, and what stands behind it. -/
def cut (sep : List α) : List α → Option (List α × List α)
  | [] => none
  | x :: s =>
    if sep <+: x :: s then some ([], (x :: s).drop sep.length)
    else (cut sep s).map fun p => (x :: p.1, p.2)

theorem cut_eq_some {raw rest : List α} (h : cut sep s = some (raw, rest)) :
    s = raw ++ sep ++ rest := by
  induction s generalizing raw with
  | nil => cases h
  | cons x s ih =>
    rw [cut] at h
    split at h
    · rename_i first
      cases h
      exact (List.prefix_iff_eq_append.mp first).symm
    · obtain ⟨⟨raw', rest'⟩, later, heq⟩ := Option.map_eq_some_iff.mp h
      cases heq
      rw [ih later, List.cons_append, List.cons_append]

theorem cut_shorter {raw rest : List α} (some_sep : sep ≠ []) (h : cut sep s = some (raw, rest)) :
    rest.length < s.length := by
  have sep_pos := List.length_pos_of_ne_nil some_sep
  have whole := congrArg List.length (cut_eq_some h)
  rw [List.length_append, List.length_append] at whole
  omega

/-- More input leaves a cut where it is. -/
theorem cut_append {raw rest : List α} (h : cut sep s = some (raw, rest)) (t : List α) :
    cut sep (s ++ t) = some (raw, rest ++ t) := by
  induction s generalizing raw with
  | nil => cases h
  | cons x s ih =>
    rw [cut] at h
    rw [List.cons_append, cut]
    split at h
    · rename_i first
      cases h
      have still : sep <+: x :: (s ++ t) := first.trans (List.prefix_append (x :: s) t)
      rw [if_pos still, ← List.cons_append, List.drop_append_of_le_length first.length_le]
    · rename_i later
      obtain ⟨⟨raw', rest'⟩, found, heq⟩ := Option.map_eq_some_iff.mp h
      cases heq
      -- the delimiter found in `s` would end before one that reaches into `t`
      have room : sep.length ≤ (x :: s).length := by
        have whole := congrArg List.length (cut_eq_some found)
        rw [List.length_append, List.length_append] at whole
        rw [List.length_cons]
        omega
      have still : ¬ sep <+: x :: (s ++ t) := by
        intro first
        exact later (List.prefix_of_prefix_length_le first (List.prefix_append (x :: s) t) room)
      rw [if_neg still, ih found]
      rfl

/-- `s` cut as often as it can be: the blocks, and the rest with no delimiter in it. -/
inductive Pieces (sep : List α) : List α → List (List α) → List α → Prop where
  | rest {s : List α} : cut sep s = none → Pieces sep s [] s
  | block {s raw tail : List α} {blocks : List (List α)} {rest : List α} :
      cut sep s = some (raw, tail) → Pieces sep tail blocks rest → Pieces sep s (raw :: blocks) rest

theorem Pieces.exists (some_sep : sep ≠ []) (s : List α) : ∃ blocks rest, Pieces sep s blocks rest := by
  induction size : s.length using Nat.strongRecOn generalizing s with
  | ind n ih =>
    cases h : cut sep s with
    | none => exact ⟨[], s, .rest h⟩
    | some found =>
      obtain ⟨raw, tail⟩ := found
      obtain ⟨blocks, rest, pieces⟩ := ih tail.length (size ▸ cut_shorter some_sep h) tail rfl
      exact ⟨raw :: blocks, rest, .block h pieces⟩

end Delimited
