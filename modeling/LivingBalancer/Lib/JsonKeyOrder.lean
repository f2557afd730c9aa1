import LivingBalancer.Lib.JsonRoundTrip

/-!
# Values up to the order of their keys

Two values whose objects have each key once are the same up to the order of keys exactly when
they are equal with their keys sorted, and exactly when `dumps` writes the same text for both.
-/

namespace PyJson

variable {F : Type} {fmt : FloatText F}

/-- The second value is the first with the keys of objects, at any depth, in another order. -/
inductive KeysReordered : JsonValue F → JsonValue F → Prop
  | refl (v : JsonValue F) : KeysReordered v v
  | keys {items items' : List (Str × JsonValue F)} (perm : items.Perm items') :
      KeysReordered (.dict items) (.dict items')
  | element {x y : JsonValue F} (front back : List (JsonValue F)) (inner : KeysReordered x y) :
      KeysReordered (.list (front ++ x :: back)) (.list (front ++ y :: back))
  | member {v w : JsonValue F} (k : Str) (front back : List (Str × JsonValue F))
      (inner : KeysReordered v w) :
      KeysReordered (.dict (front ++ (k, v) :: back)) (.dict (front ++ (k, w) :: back))
  | trans {u v w : JsonValue F} (first : KeysReordered u v) (second : KeysReordered v w) :
      KeysReordered u w

namespace KeysReordered

theorem symm {v w : JsonValue F} (h : KeysReordered v w) : KeysReordered w v := by
  induction h with
  | refl v => exact .refl v
  | keys perm => exact .keys perm.symm
  | element front back _ ih => exact .element front back ih
  | member k front back _ ih => exact .member k front back ih
  | trans _ _ ih ih' => exact ih'.trans ih

/-- Both have each key once, and the same value when sorted. -/
theorem sorted {v w : JsonValue F} (h : KeysReordered v w) (distinct : v.Distinct) :
    w.Distinct ∧ w.sortKeys = v.sortKeys := by
  induction h with
  | refl v => exact ⟨distinct, rfl⟩
  | @keys items items' perm =>
    obtain ⟨nodup, values⟩ := distinct
    refine ⟨⟨(perm.map Prod.fst).nodup_iff.mp nodup, itemsDistinct_iff.mpr fun p hp => ?_⟩, ?_⟩
    · exact itemsDistinct_iff.mp values p (perm.mem_iff.mpr hp)
    · have sortedPerm : ((sortItems items').insertionSort KeyLe).Perm
          ((sortItems items).insertionSort KeyLe) := by
        refine ((sortItems items').perm_insertionSort KeyLe).trans (.trans ?_
          ((sortItems items).perm_insertionSort KeyLe).symm)
        rw [sortItems_eq_map, sortItems_eq_map]
        exact perm.symm.map _
      have keys : (((sortItems items).insertionSort KeyLe).map Prod.fst).Nodup := by
        rw [(((sortItems items).perm_insertionSort KeyLe).map Prod.fst).nodup_iff, sortItems_keys]
        exact nodup
      rw [JsonValue.sortKeys, JsonValue.sortKeys]
      refine congrArg JsonValue.dict (sortedPerm.eq_of_pairwise (fun p q hp hq pq qp => ?_)
        (List.pairwise_insertionSort KeyLe _) (List.pairwise_insertionSort KeyLe _))
      exact List.inj_on_of_nodup_map keys (sortedPerm.mem_iff.mp hp) hq (le_antisymm pq qp)
  | @element x y front back inner ih =>
    rw [JsonValue.Distinct, allDistinct_iff] at distinct ⊢
    obtain ⟨distinctY, same⟩ := ih (distinct x (by simp))
    refine ⟨fun z hz => ?_, ?_⟩
    · rcases List.mem_append.mp hz with early | late
      · exact distinct z (List.mem_append_left _ early)
      · rcases List.mem_cons.mp late with rfl | later
        · exact distinctY
        · exact distinct z (List.mem_append_right _ (List.mem_cons_of_mem x later))
    · simp only [JsonValue.sortKeys, sortAll_eq_map, List.map_append, List.map_cons, same]
  | @member v w k front back inner ih =>
    obtain ⟨nodup, values⟩ := distinct
    rw [itemsDistinct_iff] at values
    obtain ⟨distinctW, same⟩ := ih (values (k, v) (by simp))
    refine ⟨⟨by simpa using nodup, itemsDistinct_iff.mpr fun p hp => ?_⟩, ?_⟩
    · rcases List.mem_append.mp hp with early | late
      · exact values p (List.mem_append_left _ early)
      · rcases List.mem_cons.mp late with rfl | later
        · exact distinctW
        · exact values p (List.mem_append_right _ (List.mem_cons_of_mem (k, v) later))
    · simp only [JsonValue.sortKeys, sortItems_eq_map, List.map_append, List.map_cons, same]
  | trans _ _ ih ih' =>
    obtain ⟨distinctV, same⟩ := ih distinct
    obtain ⟨distinctW, same'⟩ := ih' distinctV
    exact ⟨distinctW, same'.trans same⟩

theorem elements {f : JsonValue F → JsonValue F} (front xs : List (JsonValue F))
    (each : ∀ x ∈ xs, KeysReordered x (f x)) :
    KeysReordered (.list (front ++ xs)) (.list (front ++ xs.map f)) := by
  induction xs generalizing front with
  | nil => exact .refl _
  | cons x xs ih =>
    have head := KeysReordered.element front xs (each x List.mem_cons_self)
    have tail := ih (front ++ [f x]) fun y hy => each y (List.mem_cons_of_mem x hy)
    rw [List.append_assoc, List.append_assoc] at tail
    exact head.trans tail

theorem members {f : JsonValue F → JsonValue F} (front items : List (Str × JsonValue F))
    (each : ∀ p ∈ items, KeysReordered p.2 (f p.2)) :
    KeysReordered (.dict (front ++ items)) (.dict (front ++ items.map fun p => (p.1, f p.2))) := by
  induction items generalizing front with
  | nil => exact .refl _
  | cons p items ih =>
    have head := KeysReordered.member p.1 front items (each p List.mem_cons_self)
    have tail := ih (front ++ [(p.1, f p.2)]) fun q hq => each q (List.mem_cons_of_mem p hq)
    rw [List.append_assoc, List.append_assoc] at tail
    exact head.trans tail

end KeysReordered

mutual
theorem reordered_sortKeys : ∀ v : JsonValue F, KeysReordered v v.sortKeys
  | .null | .bool _ | .int _ | .float _ | .str _ => by
    rw [JsonValue.sortKeys]
    exact .refl _
  | .list xs => by
    rw [JsonValue.sortKeys, sortAll_eq_map]
    exact .elements [] xs (reordered_all xs)
  | .dict items => by
    rw [JsonValue.sortKeys]
    refine .trans ?_ (.keys ((sortItems items).perm_insertionSort KeyLe).symm)
    rw [sortItems_eq_map]
    exact .members [] items (reordered_items items)
theorem reordered_all : ∀ xs : List (JsonValue F), ∀ x ∈ xs, KeysReordered x x.sortKeys
  | [], _, hx => nomatch hx
  | x :: xs, y, hy => by
    rcases List.mem_cons.mp hy with same | later
    · rw [same]
      exact reordered_sortKeys x
    · exact reordered_all xs y later
theorem reordered_items : ∀ items : List (Str × JsonValue F), ∀ p ∈ items,
    KeysReordered p.2 p.2.sortKeys
  | [], _, hp => nomatch hp
  | (k, v) :: items, p, hp => by
    rcases List.mem_cons.mp hp with same | later
    · rw [same]
      exact reordered_sortKeys v
    · exact reordered_items items p later
end

theorem keysReordered_iff {v w : JsonValue F} (hv : v.Distinct) :
    KeysReordered v w ↔ w.Distinct ∧ w.sortKeys = v.sortKeys := by
  constructor
  · exact fun h => h.sorted hv
  · rintro ⟨-, same⟩
    have back := (reordered_sortKeys w).symm
    rw [same] at back
    exact (reordered_sortKeys v).trans back

/-- `dumps` writes the same text for values that are the same when sorted, and for no others. -/
theorem dumps_eq_iff {v w : JsonValue F} (hv : v.Distinct) (hw : w.Distinct) :
    dumps fmt v = dumps fmt w ↔ v.sortKeys = w.sortKeys := by
  constructor
  · intro same
    have read : loads fmt (dumps fmt v) = some v.sortKeys := loads_dumps hv
    rw [same, loads_dumps hw] at read
    exact (Option.some.inj read).symm
  · intro same
    rw [dumps, dumps, same]

end PyJson
