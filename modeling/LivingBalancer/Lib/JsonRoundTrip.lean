import LivingBalancer.Lib.JsonReading

/-!
# What `dumps` writes, `loads` reads

Up to the order of the keys, on values whose objects have each key once; these are the
values that `loads` returns.
-/

namespace PyJson

variable {F : Type} {fmt : FloatText F}

/-! ## Sorted keys -/

theorem sortAll_eq_map (xs : List (JsonValue F)) : sortAll xs = xs.map JsonValue.sortKeys := by
  induction xs with
  | nil => rw [sortAll, List.map_nil]
  | cons x xs ih => rw [sortAll, ih, List.map_cons]

theorem sortItems_eq_map (items : List (Str × JsonValue F)) :
    sortItems items = items.map fun p => (p.1, p.2.sortKeys) := by
  induction items with
  | nil => rw [sortItems, List.map_nil]
  | cons p items ih => rw [sortItems, ih, List.map_cons]

theorem allDistinct_iff {xs : List (JsonValue F)} : AllDistinct xs ↔ ∀ x ∈ xs, x.Distinct := by
  induction xs with
  | nil => exact iff_of_true trivial nofun
  | cons x xs ih => rw [AllDistinct, ih, List.forall_mem_cons]

theorem itemsDistinct_iff {items : List (Str × JsonValue F)} :
    ItemsDistinct items ↔ ∀ p ∈ items, p.2.Distinct := by
  induction items with
  | nil => exact iff_of_true trivial nofun
  | cons p items ih => rw [ItemsDistinct, ih, List.forall_mem_cons]

section KeyOrder

variable {β : Type*}

instance : Std.Total (@KeyLe β) := ⟨fun p q => le_total p.1 q.1⟩

instance : IsTrans (Str × β) KeyLe := ⟨fun _ _ _ h h' => le_trans h h'⟩

end KeyOrder

theorem sortItems_keys (items : List (Str × JsonValue F)) :
    (sortItems items).map Prod.fst = items.map Prod.fst := by
  rw [sortItems_eq_map, List.map_map]
  rfl

theorem sortItems_insertionSort (items : List (Str × JsonValue F)) :
    sortItems (items.insertionSort KeyLe) = (sortItems items).insertionSort KeyLe := by
  rw [sortItems_eq_map, sortItems_eq_map]
  exact List.map_insertionSort KeyLe KeyLe _ _ fun _ _ _ _ => Iff.rfl

mutual
theorem sortKeys_distinct : ∀ v : JsonValue F, v.Distinct → v.sortKeys.Distinct
  | .null, h | .bool _, h | .int _, h | .float _, h | .str _, h => by
    rw [JsonValue.sortKeys]
    exact h
  | .list xs, h => by
    rw [JsonValue.sortKeys]
    exact sortAll_distinct xs h
  | .dict items, h => by
    obtain ⟨nodup, values⟩ := h
    have sorted := (sortItems items).perm_insertionSort KeyLe
    rw [JsonValue.sortKeys]
    refine ⟨((sorted.map Prod.fst).nodup_iff).mpr ?_, itemsDistinct_iff.mpr fun p hp => ?_⟩
    · rw [sortItems_keys]
      exact nodup
    · exact itemsDistinct_iff.mp (sortItems_distinct items values) p (sorted.mem_iff.mp hp)
theorem sortAll_distinct : ∀ xs : List (JsonValue F), AllDistinct xs → AllDistinct (sortAll xs)
  | [], h => by
    rw [sortAll]
    exact h
  | x :: xs, h => by
    rw [sortAll]
    exact ⟨sortKeys_distinct x h.1, sortAll_distinct xs h.2⟩
theorem sortItems_distinct : ∀ items : List (Str × JsonValue F), ItemsDistinct items →
    ItemsDistinct (sortItems items)
  | [], h => by
    rw [sortItems]
    exact h
  | (k, v) :: items, h => by
    rw [sortItems]
    exact ⟨sortKeys_distinct v h.1, sortItems_distinct items h.2⟩
end

mutual
theorem sortKeys_sortKeys : ∀ v : JsonValue F, v.sortKeys.sortKeys = v.sortKeys
  | .null | .bool _ | .int _ | .float _ | .str _ => by simp only [JsonValue.sortKeys]
  | .list xs => by
    simp only [JsonValue.sortKeys, sortAll_sortAll xs]
  | .dict items => by
    simp only [JsonValue.sortKeys, sortItems_insertionSort, sortItems_sortItems items]
    rw [List.Pairwise.insertionSort_eq (List.pairwise_insertionSort KeyLe _)]
theorem sortAll_sortAll : ∀ xs : List (JsonValue F), sortAll (sortAll xs) = sortAll xs
  | [] => by simp only [sortAll]
  | x :: xs => by simp only [sortAll, sortKeys_sortKeys x, sortAll_sortAll xs]
theorem sortItems_sortItems : ∀ items : List (Str × JsonValue F),
    sortItems (sortItems items) = sortItems items
  | [] => by simp only [sortItems]
  | (k, v) :: items => by
    simp only [sortItems, sortKeys_sortKeys v, sortItems_sortItems items]
end

theorem lookup_sorted {items : List (Str × JsonValue F)} (nodup : (items.map Prod.fst).Nodup)
    (k : Str) : Dict.lookup k ((sortItems items).insertionSort KeyLe) =
      (Dict.lookup k items).map JsonValue.sortKeys := by
  have sorted := (sortItems items).perm_insertionSort KeyLe
  have keys : (((sortItems items).insertionSort KeyLe).map Prod.fst).Nodup := by
    rw [(sorted.map Prod.fst).nodup_iff, sortItems_keys]
    exact nodup
  have left := @Dict.get_eq_some_iff _ _ _ ⟨_, keys⟩ k
  have right := @Dict.get_eq_some_iff _ _ _ ⟨items, nodup⟩ k
  simp only [Dict.get] at left right
  ext v
  rw [left, sorted.mem_iff, sortItems_eq_map, List.mem_map, Option.map_eq_some_iff]
  constructor
  · rintro ⟨⟨k', v'⟩, hmem, ⟨⟩⟩
    exact ⟨v', right.mpr hmem, rfl⟩
  · rintro ⟨v', found, rfl⟩
    exact ⟨(k, v'), right.mp found, rfl⟩

/-! ## `loads` -/

theorem dumps_sortKeys (v : JsonValue F) : dumps fmt v.sortKeys = dumps fmt v := by
  rw [dumps, dumps, sortKeys_sortKeys]

/-- What `dumps` writes, `loads` reads. -/
theorem loads_dumps {v : JsonValue F} (h : v.Distinct) :
    loads fmt (dumps fmt v) = some v.sortKeys := by
  have reads : Reads fmt v.sortKeys := reads_compact _ (sortKeys_distinct v h)
  have read := reads _ [] (Nat.le_refl _) closed_nil
  have next := reads.skipSpace []
  obtain ⟨c, rest, same, starts⟩ := reads.head
  rw [List.append_nil] at read next
  have mark : (dumps fmt v).head? ≠ some 0xfeff := by
    rw [dumps, same]
    rintro ⟨⟩
    exact starts (by decide)
  rw [loads, if_neg mark, dumps, next, read]
  rfl

/-! ## What a scan has read -/

/-- A string, an empty or a filled object or array, or a scalar. -/
theorem scanOnce_cases {fuel : ℕ} {s r : Str} {v : JsonValue F}
    (h : scanOnce fmt (fuel + 1) s = some (v, r)) :
    (∃ rest t, s = code '"' :: rest ∧ scanString rest = some (t, r) ∧ v = .str t) ∨
    (∃ rest, s = code '\x7b' :: rest ∧ skipSpace rest = code '\x7d' :: r ∧ v = .dict []) ∨
    (∃ rest pairs, s = code '\x7b' :: rest ∧
      scanMembers fmt fuel (skipSpace rest) = some (pairs, r) ∧ v = .dict (dictOf pairs)) ∨
    (∃ rest, s = code '[' :: rest ∧ skipSpace rest = code ']' :: r ∧ v = .list []) ∨
    (∃ rest items, s = code '[' :: rest ∧
      scanElements fmt fuel (skipSpace rest) = some (items, r) ∧ v = .list items) ∨
    (∃ c rest, s = c :: rest ∧ (c ≠ code '"' ∧ c ≠ code '\x7b' ∧ c ≠ code '[') ∧
      scanScalar fmt s = some (v, r)) := by
  cases s with
  | nil =>
    rw [scanOnce] at h
    cases h
  | cons c rest =>
    rw [scanOnce] at h
    split_ifs at h with quotes brace bracket
    · obtain ⟨p, read, same⟩ := Option.map_eq_some_iff.mp h
      cases same
      exact .inl ⟨rest, p.1, by rw [quotes], read, rfl⟩
    · split at h
      · rename_i d rest' skipped
        split_ifs at h with closing
        · cases h
          exact .inr (.inl ⟨rest, by rw [brace], by rw [skipped, closing], rfl⟩)
        · obtain ⟨p, read, same⟩ := Option.map_eq_some_iff.mp h
          cases same
          exact .inr (.inr (.inl ⟨rest, p.1, by rw [brace], by rw [skipped]; exact read, rfl⟩))
      · cases h
    · split at h
      · rename_i d rest' skipped
        split_ifs at h with closing
        · cases h
          exact .inr (.inr (.inr (.inl ⟨rest, by rw [bracket], by rw [skipped, closing], rfl⟩)))
        · obtain ⟨p, read, same⟩ := Option.map_eq_some_iff.mp h
          cases same
          exact .inr (.inr (.inr (.inr (.inl
            ⟨rest, p.1, by rw [bracket], by rw [skipped]; exact read, rfl⟩))))
      · cases h
    · exact .inr (.inr (.inr (.inr (.inr ⟨c, rest, rfl, ⟨quotes, brace, bracket⟩, h⟩))))

/-- A value, and behind it the end of the array or a comma and the other elements. -/
theorem scanElements_cases {fuel : ℕ} {s r : Str} {items : List (JsonValue F)}
    (h : scanElements fmt (fuel + 1) s = some (items, r)) :
    ∃ v t c rest, scanOnce fmt fuel s = some (v, t) ∧ skipSpace t = c :: rest ∧
      (c = code ']' ∧ r = rest ∧ items = [v] ∨ c = code ',' ∧
        ∃ later, scanElements fmt fuel (skipSpace rest) = some (later, r) ∧ items = v :: later) := by
  rw [scanElements] at h
  split at h
  · rename_i v t head
    split at h
    · rename_i c rest skipped
      split_ifs at h with closing comma
      · cases h
        exact ⟨v, t, c, r, head, skipped, .inl ⟨closing, rfl, rfl⟩⟩
      · obtain ⟨p, read, same⟩ := Option.map_eq_some_iff.mp h
        cases same
        exact ⟨v, t, c, rest, head, skipped, .inr ⟨comma, p.1, read, rfl⟩⟩
    · cases h
  · cases h

/-- A key and a value, and behind them the end of the object or a comma and the others. -/
theorem scanMembers_cases {fuel : ℕ} {s r : Str} {items : List (Str × JsonValue F)}
    (h : scanMembers fmt (fuel + 1) s = some (items, r)) :
    ∃ k s' v t c rest, scanKey s = some (k, s') ∧ scanOnce fmt fuel s' = some (v, t) ∧
      skipSpace t = c :: rest ∧ (c = code '\x7d' ∧ r = rest ∧ items = [(k, v)] ∨ c = code ',' ∧
        ∃ later, scanMembers fmt fuel (skipSpace rest) = some (later, r) ∧
          items = (k, v) :: later) := by
  rw [scanMembers] at h
  split at h
  · rename_i k s' key
    split at h
    · rename_i v t head
      split at h
      · rename_i c rest skipped
        split_ifs at h with closing comma
        · cases h
          exact ⟨k, s', v, t, c, r, key, head, skipped, .inl ⟨closing, rfl, rfl⟩⟩
        · obtain ⟨p, read, same⟩ := Option.map_eq_some_iff.mp h
          cases same
          exact ⟨k, s', v, t, c, rest, key, head, skipped, .inr ⟨comma, p.1, read, rfl⟩⟩
      · cases h
    · cases h
  · cases h

theorem dictOf_nodup (pairs : List (Str × JsonValue F)) :
    ((dictOf pairs).map Prod.fst).Nodup :=
  Dict.nodup _

theorem mem_assign {β : Type*} {k : Str} {v : β} {items : List (Str × β)} {p : Str × β}
    (h : p ∈ Dict.assign k v items) : p = (k, v) ∨ p ∈ items := by
  induction items with
  | nil => exact .inl (List.mem_singleton.mp h)
  | cons q items ih =>
    rw [Dict.assign] at h
    split_ifs at h
    · rcases List.mem_cons.mp h with rfl | later
      · exact .inl rfl
      · exact .inr (List.mem_cons_of_mem _ later)
    · rcases List.mem_cons.mp h with rfl | later
      · exact .inr List.mem_cons_self
      · rcases ih later with same | old
        · exact .inl same
        · exact .inr (List.mem_cons_of_mem _ old)

theorem mem_dictOf {pairs : List (Str × JsonValue F)} {p : Str × JsonValue F}
    (h : p ∈ dictOf pairs) : p ∈ pairs := by
  have grows : ∀ (rest : List (Str × JsonValue F)) (d : Dict Str (JsonValue F)),
      p ∈ (rest.foldl (fun d p => d.set p.1 p.2) d).items → p ∈ d.items ∨ p ∈ rest := by
    intro rest
    induction rest with
    | nil => exact fun d hp => .inl hp
    | cons q rest ih =>
      intro d hp
      rcases ih _ hp with before | later
      · rcases mem_assign before with rfl | old
        · exact .inr List.mem_cons_self
        · exact .inl old
      · exact .inr (List.mem_cons_of_mem _ later)
  rcases grows pairs Dict.empty h with before | mem
  · cases before
  · exact mem

theorem toValue_distinct (m : NumberMatch) : (m.toValue fmt).Distinct := by
  rw [NumberMatch.toValue]
  split_ifs <;> exact trivial

theorem scanScalar_distinct {s r : Str} {v : JsonValue F} (h : scanScalar fmt s = some (v, r)) :
    v.Distinct := by
  rw [scanScalar] at h
  cases number : matchNumber s with
  | none =>
    rw [number] at h
    split_ifs at h <;> cases h <;> exact trivial
  | some p =>
    simp only [number] at h
    split_ifs at h
    · cases h
      exact trivial
    · cases h
      exact trivial
    · cases h
      exact trivial
    · cases h
      exact toValue_distinct p.1

/-- What is read with some fuel has each key once. -/
structure ScansDistinct (fmt : FloatText F) (fuel : ℕ) : Prop where
  value : ∀ s v r, scanOnce fmt fuel s = some (v, r) → v.Distinct
  elements : ∀ s xs r, scanElements fmt fuel s = some (xs, r) → AllDistinct xs
  members : ∀ s items r, scanMembers fmt fuel s = some (items, r) → ItemsDistinct items

theorem ScansDistinct.scanOnce {fuel : ℕ} (ih : ScansDistinct fmt fuel) {s r : Str}
    {v : JsonValue F} (h : scanOnce fmt (fuel + 1) s = some (v, r)) : v.Distinct := by
  rcases scanOnce_cases h with ⟨_, _, -, -, rfl⟩ | ⟨_, -, -, rfl⟩ | ⟨_, pairs, -, members, rfl⟩ |
    ⟨_, -, -, rfl⟩ | ⟨_, _, -, elements, rfl⟩ | ⟨_, _, -, -, scalar⟩
  · exact trivial
  · exact ⟨List.nodup_nil, trivial⟩
  · refine ⟨dictOf_nodup pairs, itemsDistinct_iff.mpr fun q hq => ?_⟩
    exact itemsDistinct_iff.mp (ih.members _ _ _ members) q (mem_dictOf hq)
  · exact trivial
  · exact ih.elements _ _ _ elements
  · exact scanScalar_distinct scalar

theorem ScansDistinct.scanElements {fuel : ℕ} (ih : ScansDistinct fmt fuel) {s r : Str}
    {xs : List (JsonValue F)} (h : scanElements fmt (fuel + 1) s = some (xs, r)) :
    AllDistinct xs := by
  obtain ⟨v, t, c, rest, head, -, ⟨-, -, rfl⟩ | ⟨-, later, read, rfl⟩⟩ := scanElements_cases h
  · exact ⟨ih.value _ _ _ head, trivial⟩
  · exact ⟨ih.value _ _ _ head, ih.elements _ _ _ read⟩

theorem ScansDistinct.scanMembers {fuel : ℕ} (ih : ScansDistinct fmt fuel) {s r : Str}
    {items : List (Str × JsonValue F)} (h : scanMembers fmt (fuel + 1) s = some (items, r)) :
    ItemsDistinct items := by
  obtain ⟨k, s', v, t, c, rest, -, head, -, ⟨-, -, rfl⟩ | ⟨-, later, read, rfl⟩⟩ :=
    scanMembers_cases h
  · exact ⟨ih.value _ _ _ head, trivial⟩
  · exact ⟨ih.value _ _ _ head, ih.members _ _ _ read⟩

theorem scansDistinct (fuel : ℕ) : ScansDistinct fmt fuel := by
  induction fuel with
  | zero => exact ⟨nofun, nofun, nofun⟩
  | succ fuel ih =>
    exact ⟨fun _ _ _ => ih.scanOnce, fun _ _ _ => ih.scanElements, fun _ _ _ => ih.scanMembers⟩

theorem loads_distinct {s : Str} {v : JsonValue F} (h : loads fmt s = some v) : v.Distinct := by
  rw [loads] at h
  split_ifs at h
  split at h
  · rename_i w rest read
    split_ifs at h
    cases h
    exact (scansDistinct _).value _ _ _ read
  · cases h

end PyJson
