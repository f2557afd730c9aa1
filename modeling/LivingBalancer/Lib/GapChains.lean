import LivingBalancer.Lib.Dict
import Mathlib.Logic.Relation
import Mathlib.Order.Lattice

/-!
# Values chained by small gaps

A sorted list falls into chains, in which every value is near the one before it. Each value is
filed under the first of its chain; two values are in one chain exactly when some sequence of
near values joins them.
-/

namespace GapChains

universe u
variable {α : Type u}

/-- Each value with the first of its chain; `prev` is the value before the list. -/
def chainFrom (near : α → α → Prop) [DecidableRel near] (anchor prev : α) :
    List α → List (α × α)
  | [] => []
  | v :: rest =>
    if near prev v then (v, anchor) :: chainFrom near anchor v rest
    else (v, v) :: chainFrom near v v rest

def anchors (near : α → α → Prop) [DecidableRel near] : List α → List (α × α)
  | [] => []
  | v :: rest => (v, v) :: chainFrom near v v rest

/-- Joined by near values of the list. -/
def Joined [LE α] (near : α → α → Prop) (xs : List α) : α → α → Prop :=
  Relation.EqvGen fun a b => a ∈ xs ∧ b ∈ xs ∧ a ≤ b ∧ near a b

section

variable {near : α → α → Prop} [DecidableRel near]

theorem chainFrom_keys (anchor prev : α) (rest : List α) :
    (chainFrom near anchor prev rest).map Prod.fst = rest := by
  induction rest generalizing anchor prev with
  | nil => rfl
  | cons v rest ih =>
    rw [chainFrom]
    split
    · rw [List.map_cons, ih]
    · rw [List.map_cons, ih]

end

variable [LinearOrder α] {near : α → α → Prop} [DecidableRel near]

/-- `d.get(a, a)` on the filed values. -/
def anchorOf (near : α → α → Prop) [DecidableRel near] (xs : List α) (a : α) : α :=
  (Dict.lookup a (anchors near xs)).getD a

theorem joined_chainFrom {xs : List α} {anchor prev : α} {rest : List α}
    (sorted : (prev :: rest).Pairwise (· < ·)) (inside : ∀ v ∈ prev :: rest, v ∈ xs)
    (joined : Joined near xs anchor prev) {v w : α} (mem : (v, w) ∈ chainFrom near anchor prev rest) :
    Joined near xs w v := by
  induction rest generalizing anchor prev with
  | nil => cases mem
  | cons head rest ih =>
    obtain ⟨first, later⟩ := List.pairwise_cons.mp sorted
    have later' : ∀ u ∈ head :: rest, u ∈ xs := fun u hu => inside u (List.mem_cons_of_mem _ hu)
    rw [chainFrom] at mem
    split at mem
    · next close =>
      have step : Joined near xs anchor head :=
        joined.trans _ _ _ (.rel _ _ ⟨inside prev List.mem_cons_self, later' head List.mem_cons_self,
          (first head List.mem_cons_self).le, close⟩)
      rcases List.mem_cons.mp mem with own | below
      · cases own
        exact step
      · exact ih later later' step below
    · rcases List.mem_cons.mp mem with own | below
      · cases own
        exact .refl _
      · exact ih later later' (.refl head) below

theorem joined_anchorOf {xs : List α} (sorted : xs.Pairwise (· < ·)) (a : α) :
    Joined near xs (anchorOf near xs a) a := by
  rw [anchorOf]
  cases found : Dict.lookup a (anchors near xs) with
  | none => exact .refl a
  | some w =>
    cases xs with
    | nil => cases found
    | cons v rest =>
      rw [anchors, Dict.lookup] at found
      split at found
      · next own =>
        cases found
        exact own ▸ .refl _
      · have nodup : ((chainFrom near v v rest).map Prod.fst).Nodup := by
          rw [chainFrom_keys]
          exact (List.pairwise_cons.mp sorted).2.imp fun h => h.ne
        have mem := Dict.mem_of_get (d := ⟨_, nodup⟩) found
        exact joined_chainFrom sorted (fun _ h => h) (.refl v) mem

/-- A value near one of the chain, at or before `prev`, belongs to the chain. -/
theorem lookup_chainFrom (convex : ∀ a b c d, a ≤ b → b ≤ c → c ≤ d → near a d → near b c)
    {anchor prev : α} {rest : List α} (sorted : (prev :: rest).Pairwise (· < ·)) {a b : α}
    (before : a ≤ prev) (mem : b ∈ rest) (close : near a b) :
    Dict.lookup b (chainFrom near anchor prev rest) = some anchor := by
  induction rest generalizing prev with
  | nil => cases mem
  | cons head rest ih =>
    obtain ⟨first, later⟩ := List.pairwise_cons.mp sorted
    have above : prev < head := first head List.mem_cons_self
    have bound : head ≤ b := by
      rcases List.mem_cons.mp mem with rfl | below
      · exact le_refl _
      · exact ((List.pairwise_cons.mp later).1 b below).le
    rw [chainFrom, if_pos (convex a prev head b before above.le bound close), Dict.lookup]
    split
    · rfl
    · next other =>
      have below := (List.mem_cons.mp mem).resolve_left fun same => other same.symm
      exact ih later (before.trans above.le) below

theorem lookup_near (convex : ∀ a b c d, a ≤ b → b ≤ c → c ≤ d → near a d → near b c)
    {anchor prev : α} {rest : List α} (sorted : (prev :: rest).Pairwise (· < ·)) {a b : α}
    (ha : a ∈ rest) (hb : b ∈ rest) (le : a < b) (close : near a b) :
    Dict.lookup a (chainFrom near anchor prev rest) =
      Dict.lookup b (chainFrom near anchor prev rest) := by
  induction rest generalizing anchor prev with
  | nil => cases ha
  | cons head rest ih =>
    obtain ⟨-, later⟩ := List.pairwise_cons.mp sorted
    have below : b ∈ rest := by
      refine (List.mem_cons.mp hb).resolve_left fun own => ?_
      rcases List.mem_cons.mp ha with rfl | after
      · exact le.ne own.symm
      · exact lt_asymm le (own ▸ (List.pairwise_cons.mp later).1 a after)
    have apart : head ≠ b := ((List.pairwise_cons.mp later).1 b below).ne
    have step (anchor : α) : Dict.lookup a ((head, anchor) :: chainFrom near anchor head rest) =
        Dict.lookup b ((head, anchor) :: chainFrom near anchor head rest) := by
      rw [Dict.lookup, Dict.lookup, if_neg apart]
      split
      · next own =>
        exact (lookup_chainFrom convex later own.ge below close).symm
      · next other =>
        have after := (List.mem_cons.mp ha).resolve_left fun same => other same.symm
        exact ih later after below
    rw [chainFrom]
    split
    · exact step anchor
    · exact step head

theorem anchorOf_near (convex : ∀ a b c d, a ≤ b → b ≤ c → c ≤ d → near a d → near b c)
    {xs : List α} (sorted : xs.Pairwise (· < ·)) {a b : α} (ha : a ∈ xs) (hb : b ∈ xs) (le : a < b)
    (close : near a b) : anchorOf near xs a = anchorOf near xs b := by
  cases xs with
  | nil => cases ha
  | cons v rest =>
    obtain ⟨first, later⟩ := List.pairwise_cons.mp sorted
    have below : b ∈ rest := by
      refine (List.mem_cons.mp hb).resolve_left fun own => ?_
      rcases List.mem_cons.mp ha with rfl | after
      · exact le.ne own.symm
      · exact lt_asymm le (own ▸ first a after)
    have apart : v ≠ b := (first b below).ne
    rw [anchorOf, anchorOf, anchors, Dict.lookup, Dict.lookup, if_neg apart]
    rcases List.mem_cons.mp ha with rfl | after
    · rw [if_pos rfl, lookup_chainFrom convex sorted (le_refl _) below close]
      rfl
    · have same : Dict.lookup a (chainFrom near v v rest) = Dict.lookup b (chainFrom near v v rest) :=
        lookup_near convex sorted after below le close
      have known : (Dict.lookup b (chainFrom near v v rest)).isSome = true := by
        rw [Option.isSome_iff_ne_none, Ne, Dict.lookup_eq_none, chainFrom_keys, not_not]
        exact below
      obtain ⟨w, found⟩ := Option.isSome_iff_exists.mp known
      rw [if_neg (first a after).ne, same, found]
      rfl

/-- Two values are filed under one anchor exactly when near values of the list join them. -/
theorem anchorOf_eq_iff (convex : ∀ a b c d, a ≤ b → b ≤ c → c ≤ d → near a d → near b c)
    {xs : List α} (sorted : xs.Pairwise (· < ·)) {a b : α} :
    anchorOf near xs a = anchorOf near xs b ↔ Joined near xs a b := by
  constructor
  · intro same
    have first : Joined near xs (anchorOf near xs a) a := joined_anchorOf sorted a
    have second : Joined near xs (anchorOf near xs b) b := joined_anchorOf sorted b
    exact .trans _ _ _ (.symm _ _ first) (same ▸ second)
  · intro joined
    induction joined with
    | rel a b close =>
      obtain ⟨ha, hb, le, close⟩ := close
      rcases le.eq_or_lt with rfl | lt
      · rfl
      · exact anchorOf_near convex sorted ha hb lt close
    | refl a => rfl
    | symm a b _ ih => exact ih.symm
    | trans a b c _ _ ih ih' => exact ih.trans ih'

end GapChains
