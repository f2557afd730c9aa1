import Mathlib.Data.List.Nodup
import Mathlib.Data.List.Perm.Basic

/-!
# Insertion-ordered dictionaries

Association lists whose keys carry a proof of being distinct. Assignment to a
present key keeps its position and a new key goes to the end, so iteration order
is that of a Python dict. Only lookup, assignment and removal are developed.
-/

universe u v

/-- A finite map with distinct keys, in insertion order. -/
structure Dict (κ : Type u) (β : Type v) where
  items : List (κ × β)
  nodup : (items.map Prod.fst).Nodup

namespace Dict

variable {κ : Type u} {β : Type v}

def empty : Dict κ β := ⟨[], List.nodup_nil⟩

def keys (d : Dict κ β) : List κ := d.items.map Prod.fst

def values (d : Dict κ β) : List β := d.items.map Prod.snd

/-- Drop every item whose key and value fail `p`. -/
def filter (d : Dict κ β) (p : κ × β → Bool) : Dict κ β where
  items := d.items.filter p
  nodup := d.nodup.sublist ((List.filter_sublist (p := p)).map Prod.fst)

variable [DecidableEq κ]

def lookup (k : κ) : List (κ × β) → Option β
  | [] => none
  | (k', v) :: rest => if k' = k then some v else lookup k rest

def assign (k : κ) (v : β) : List (κ × β) → List (κ × β)
  | [] => [(k, v)]
  | (k', v') :: rest => if k' = k then (k, v) :: rest else (k', v') :: assign k v rest

theorem assign_fresh {k : κ} {items : List (κ × β)} (h : lookup k items = none) (v : β) :
    assign k v items = items ++ [(k, v)] := by
  induction items with
  | nil => rfl
  | cons p rest ih =>
    by_cases same : p.1 = k
    · simp [lookup, same] at h
    · simp only [lookup, if_neg same] at h
      simp [assign, same, ih h]

theorem lookup_eq_none {k : κ} {items : List (κ × β)} :
    lookup k items = none ↔ k ∉ items.map Prod.fst := by
  induction items with
  | nil => simp [lookup]
  | cons p rest ih =>
    by_cases same : p.1 = k
    · simp [lookup, same]
    · simp only [lookup, if_neg same, ih, List.map_cons, List.mem_cons, not_or]
      exact ⟨fun h => ⟨Ne.symm same, h⟩, fun h => h.2⟩

theorem assign_keys {k : κ} {items : List (κ × β)} (h : k ∈ items.map Prod.fst) (v : β) :
    (assign k v items).map Prod.fst = items.map Prod.fst := by
  induction items with
  | nil => simp at h
  | cons p rest ih =>
    by_cases same : p.1 = k
    · simp [assign, same]
    · have hrest : k ∈ rest.map Prod.fst := by
        rcases List.mem_cons.mp h with heq | htail
        · exact absurd heq.symm same
        · exact htail
      simp [assign, same, ih hrest]

def get (d : Dict κ β) (k : κ) : Option β := lookup k d.items

/-- `d[k] = v`. -/
def set (d : Dict κ β) (k : κ) (v : β) : Dict κ β where
  items := assign k v d.items
  nodup := by
    by_cases present : k ∈ d.items.map Prod.fst
    · rw [assign_keys present]
      exact d.nodup
    · rw [assign_fresh (lookup_eq_none.mpr present), List.map_append, List.nodup_append]
      refine ⟨d.nodup, List.nodup_singleton k, ?_⟩
      intro a ha b hb same
      obtain rfl := List.mem_singleton.mp hb
      exact present (same ▸ ha)

/-- `d.pop(k, None)`. -/
def pop (d : Dict κ β) (k : κ) : Dict κ β := d.filter fun p => decide (p.1 ≠ k)

/-- `d.setdefault(k, v)`. -/
def setdefault (d : Dict κ β) (k : κ) (v : β) : Dict κ β :=
  if (d.get k).isNone then d.set k v else d

def modify (d : Dict κ β) (k : κ) (default : β) (f : β → β) : Dict κ β :=
  d.set k (f ((d.get k).getD default))

@[simp] theorem get_empty (k : κ) : (empty : Dict κ β).get k = none := rfl

theorem lookup_assign (k k' : κ) (v : β) (items : List (κ × β)) :
    lookup k' (assign k v items) = if k' = k then some v else lookup k' items := by
  induction items with
  | nil =>
    by_cases same : k' = k
    · simp [assign, lookup, same]
    · simp [assign, lookup, same, Ne.symm same]
  | cons p rest ih =>
    by_cases here : p.1 = k
    · subst here
      by_cases same : k' = p.1
      · simp [assign, lookup, same]
      · simp [assign, lookup, same, Ne.symm same]
    · by_cases there : p.1 = k'
      · subst there
        simp [assign, lookup, here]
      · simp [assign, lookup, here, there, ih]

theorem assign_assign (k : κ) (v v' : β) (items : List (κ × β)) :
    assign k v (assign k v' items) = assign k v items := by
  induction items with
  | nil => simp [assign]
  | cons p rest ih =>
    by_cases here : p.1 = k
    · simp [assign, here]
    · simp [assign, here, ih]

theorem get_set (d : Dict κ β) (k k' : κ) (v : β) :
    (d.set k v).get k' = if k' = k then some v else d.get k' :=
  lookup_assign k k' v d.items

@[simp] theorem get_set_self (d : Dict κ β) (k : κ) (v : β) : (d.set k v).get k = some v := by
  rw [get_set, if_pos rfl]

theorem get_modify (d : Dict κ β) (k k' : κ) (v : β) (f : β → β) :
    (d.modify k v f).get k' = if k' = k then some (f ((d.get k).getD v)) else d.get k' :=
  get_set d k k' _

theorem get_setdefault (d : Dict κ β) (k k' : κ) (v : β) :
    (d.setdefault k v).get k' = (d.get k').or (if k = k' then some v else none) := by
  unfold setdefault
  by_cases same : k = k'
  · subst same
    cases known : d.get k <;> simp [known]
  · cases known : d.get k with
    | none => simp [get_set, same, Ne.symm same]
    | some w => simp [same]

theorem setdefault_of_get {d : Dict κ β} {k : κ} {v : β} (present : d.get k = some v) (w : β) :
    d.setdefault k w = d := by
  simp [setdefault, present]

/-- The first of the values with a key stays. -/
theorem get_setdefault_all (key : β → κ) (vs : List β) (d : Dict κ β) (k : κ) :
    (vs.foldl (fun d v => d.setdefault (key v) v) d).get k =
      (d.get k).or (vs.find? fun v => decide (key v = k)) := by
  induction vs generalizing d with
  | nil => simp
  | cons v rest ih =>
    rw [List.foldl_cons, ih, get_setdefault, Option.or_assoc, List.find?_cons]
    by_cases own : key v = k <;> simp [own]

theorem mem_of_lookup {k : κ} {v : β} {items : List (κ × β)} (h : lookup k items = some v) :
    (k, v) ∈ items := by
  induction items with
  | nil => simp [lookup] at h
  | cons p rest ih =>
    by_cases same : p.1 = k
    · have hv : p.2 = v := by simpa [lookup, same] using h
      exact List.mem_cons.mpr (Or.inl (by rw [← same, ← hv]))
    · simp only [lookup, if_neg same] at h
      exact List.mem_cons_of_mem _ (ih h)

theorem mem_of_get {d : Dict κ β} {k : κ} {v : β} (h : d.get k = some v) : (k, v) ∈ d.items :=
  mem_of_lookup h

theorem get_of_mem {d : Dict κ β} {k : κ} {v : β} (h : (k, v) ∈ d.items) : d.get k = some v := by
  cases found : d.get k with
  | none =>
    have absent := lookup_eq_none.mp found
    exact absurd (List.mem_map.mpr ⟨_, h, rfl⟩) absent
  | some w =>
    have sameItem := List.inj_on_of_nodup_map d.nodup (mem_of_get found) h rfl
    exact congrArg some (Prod.mk.inj sameItem).2

theorem get_eq_some_iff {d : Dict κ β} {k : κ} {v : β} : d.get k = some v ↔ (k, v) ∈ d.items :=
  ⟨mem_of_get, get_of_mem⟩

theorem get_filter (d : Dict κ β) (p : κ × β → Bool) (k : κ) :
    (d.filter p).get k = (d.get k).filter fun v => p (k, v) := by
  ext v
  rw [get_eq_some_iff, Option.filter_eq_some_iff, get_eq_some_iff]
  exact List.mem_filter

theorem get_pop (d : Dict κ β) (k k' : κ) :
    (d.pop k).get k' = if k' = k then none else d.get k' := by
  simp only [pop]
  rw [get_filter]
  by_cases same : k' = k
  · simp [same]
  · cases d.get k' with
    | none => simp
    | some v => simp [same]

theorem mem_values {d : Dict κ β} {v : β} : v ∈ d.values ↔ ∃ k, d.get k = some v := by
  simp only [values]
  constructor
  · intro h
    obtain ⟨⟨k, w⟩, hmem, rfl⟩ := List.mem_map.mp h
    exact ⟨k, get_of_mem hmem⟩
  · rintro ⟨k, h⟩
    exact List.mem_map.mpr ⟨_, mem_of_get h, rfl⟩

theorem values_set_fresh {d : Dict κ β} {k : κ} (h : d.get k = none) (v : β) :
    (d.set k v).values = d.values ++ [v] := by
  simp [values, set, assign_fresh h]

/-- Two dictionaries whose lookups look the same have the same values, as they look. -/
theorem values_perm {δ : Type v} {γ : Type*} {d : Dict κ β} {e : Dict κ δ} {f : β → γ} {g : δ → γ}
    (same : ∀ k, (d.get k).map f = (e.get k).map g) : (d.values.map f).Perm (e.values.map g) := by
  have shown {δ : Type v} (d : Dict κ δ) (f : δ → γ) :
      d.values.map f = (d.items.map fun p => (p.1, f p.2)).map Prod.snd := by
    simp [values]
  have distinct {δ : Type v} (d : Dict κ δ) (f : δ → γ) :
      (d.items.map fun p => (p.1, f p.2)).Nodup := by
    have keys : ((d.items.map fun p => (p.1, f p.2)).map Prod.fst).Nodup := by
      rw [List.map_map]
      exact d.nodup
    exact keys.of_map _
  have mem {δ : Type v} (d : Dict κ δ) (f : δ → γ) (k : κ) (c : γ) :
      (k, c) ∈ d.items.map (fun p => (p.1, f p.2)) ↔ (d.get k).map f = some c := by
    rw [List.mem_map, Option.map_eq_some_iff]
    constructor
    · rintro ⟨⟨k', v⟩, there, eq⟩
      cases eq
      exact ⟨v, get_of_mem there, rfl⟩
    · rintro ⟨v, found, rfl⟩
      exact ⟨(k, v), mem_of_get found, rfl⟩
  rw [shown, shown]
  refine List.Perm.map _ ((List.perm_ext_iff_of_nodup (distinct d f) (distinct e g)).mpr ?_)
  rintro ⟨k, c⟩
  rw [mem, mem, same]

/-- Removing a present key takes exactly its value out. -/
theorem values_perm_pop {d : Dict κ β} {k : κ} {v : β} (h : d.get k = some v) :
    d.values.Perm (v :: (d.pop k).values) := by
  obtain ⟨items, nodup⟩ := d
  simp only [get, values, pop, filter] at h ⊢
  induction items with
  | nil => simp [lookup] at h
  | cons p rest ih =>
    obtain ⟨notin, nodupRest⟩ := List.nodup_cons.mp nodup
    by_cases same : p.1 = k
    · have hv : p.2 = v := by simpa [lookup, same] using h
      have keep : rest.filter (fun q => decide (q.1 ≠ k)) = rest := by
        refine List.filter_eq_self.mpr fun q hq => decide_eq_true ?_
        intro hqk
        exact notin (List.mem_map.mpr ⟨q, hq, hqk.trans same.symm⟩)
      rw [List.filter_cons_of_neg (by simp [same]), keep]
      simp [hv]
    · simp only [lookup, if_neg same] at h
      rw [List.filter_cons_of_pos (by simp [same])]
      simp only [List.map_cons]
      exact ((ih nodupRest h).cons p.2).trans (List.Perm.swap v p.2 _)

end Dict
