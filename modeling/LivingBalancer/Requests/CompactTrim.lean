import Mathlib.Data.List.GetD
import LivingBalancer.Requests.CompactRequired

/-!
# The trim of an oversized compact request

Head, tail and anchors are selected, tool calls paired within the budget, and optional items
dropped from the middle until the rest fits; each omitted run leaves a marker.
-/

namespace CompactTrim

open PyJson Requests
open ToolCallDedupe (Obj Obj.get asStr asObj)

variable {F : Type}

/-! ## The trim -/

section Trim

variable (fmt : FloatText F)

/-- `_compact_trim_prefix_count`, from the used tokens on. -/
def compactTrimPrefixCount (used : ℕ) : List ℕ → ℕ
  | [] => 0
  | count :: rest =>
    if compactUpstreamHeadEstimatedTokens < used + count then 0
    else compactTrimPrefixCount (used + count) rest + 1

/-- The loop of `_compact_trim_suffix_indices` over the indices from the end. -/
def suffixFrom (counts : List ℕ) (selected : Finset ℕ) (budget : ℕ) :
    List ℕ → ℕ → Finset ℕ → Finset ℕ
  | [], _, indices => indices
  | i :: rest, used, indices =>
    if i ∈ selected then suffixFrom counts selected budget rest used indices
    else if indices ≠ ∅ ∧ budget < used + counts.getD i 0 then indices
    else if indices = ∅ ∧ budget < counts.getD i 0 then insert i indices
    else suffixFrom counts selected budget rest (used + counts.getD i 0) (insert i indices)

/-- `_compact_trim_suffix_indices`. -/
def compactTrimSuffixIndices (counts : List ℕ) (selected : Finset ℕ) (startIndex budget : ℕ) :
    Finset ℕ :=
  suffixFrom counts selected budget
    ((List.range counts.length).filter fun i => decide (startIndex ≤ i)).reverse 0 ∅

def markerTokens : ℕ := estimatedJsonArrayItemTokens fmt (compactTrimMarker 0 0)

/-- Head, anchors, tail and what is required, with the tool calls paired. -/
def compactSelectedIndices (input : List (JsonValue F)) (counts : List ℕ)
    (preserved required : Finset ℕ) : Finset ℕ :=
  let headCount := compactTrimPrefixCount 0 counts
  let selected := preserved ∪ Finset.range headCount
  let selectedTokens := ∑ i ∈ selected, counts.getD i 0
  let tailBudget := maxCompactUpstreamEstimatedTokens - selectedTokens - markerTokens fmt
  let tail := compactTrimSuffixIndices counts selected headCount tailBudget
  compactReconciledToolCallIndices counts
    ((maxCompactUpstreamEstimatedTokens - markerTokens fmt : ℕ) : ℤ) required true input
    (selected ∪ tail ∪ required)

/-- The loop of `_compact_fit_selected_indices_to_wire_budget`. -/
def fitSelected (input : List (JsonValue F)) (counts : List ℕ) (required : Finset ℕ) :
    List ℕ → Finset ℕ → Finset ℕ
  | [], selected => selected
  | i :: rest, selected =>
    if estimatedJsonTokens fmt (.list (trimmedInputWithMarkers input counts selected)) ≤
        maxCompactUpstreamEstimatedTokens then selected
    else if i ∉ selected then fitSelected input counts required rest selected
    else
      let trial := compactReconciledToolCallIndices counts
        ((maxCompactUpstreamEstimatedTokens - markerTokens fmt : ℕ) : ℤ) required false input
        (selected.erase i)
      if required ⊆ trial ∧ trial ≠ selected then fitSelected input counts required rest trial
      else fitSelected input counts required rest selected

/-- The distance from the ends, then the index. -/
def fromEnds (n i j : ℕ) : Prop :=
  min j (n - 1 - j) < min i (n - 1 - i) ∨ min j (n - 1 - j) = min i (n - 1 - i) ∧ j ≤ i

instance (n : ℕ) : DecidableRel (fromEnds n) := fun _ _ => inferInstanceAs (Decidable (_ ∨ _))

/-- `_compact_fit_selected_indices_to_wire_budget`. -/
def compactFitSelectedIndicesToWireBudget (input : List (JsonValue F)) (counts : List ℕ)
    (selected required : Finset ℕ) : Finset ℕ :=
  let optional := (List.range input.length).filter fun i => decide (i ∈ selected ∧ i ∉ required)
  fitSelected fmt input counts required (optional.insertionSort (fromEnds input.length)) selected

def anchorsTooLarge : Str :=
  text "Compact input exceeds the upstream size limit and cannot be trimmed " ++
    text "without removing required state anchors."

def contextTooLarge : Str :=
  text "Compact input still exceeds the upstream size limit after retaining required compact context."

/-- `_trim_compact_input_for_upstream` on the list under `input`. -/
def trimCompactInputForUpstream (input : List (JsonValue F)) :
    Except CompactError (List (JsonValue F)) :=
  let counts := input.map (estimatedJsonArrayItemTokens fmt)
  if estimatedJsonTokens fmt (.list input) ≤ maxCompactUpstreamEstimatedTokens then .ok input
  else do
    let preserved ← compactStateAnchorIndices 0 input
    let anchors := if input = [] then preserved else insert (input.length - 1) preserved
    let required := compactReconciledToolCallIndices counts (counts.sum : ℤ) anchors true input anchors
    if maxCompactUpstreamEstimatedTokens <
        estimatedJsonTokens fmt (.list (trimmedInputWithMarkers input counts required)) then
      throw (.tooLarge anchorsTooLarge)
    else
      let selected := compactFitSelectedIndicesToWireBudget fmt input counts
        (compactSelectedIndices fmt input counts preserved required) required
      let trimmed := if selected.card = input.length then input
        else trimmedInputWithMarkers input counts selected
      if maxCompactUpstreamEstimatedTokens < estimatedJsonTokens fmt (.list trimmed) then
        throw (.tooLarge contextTooLarge)
      else pure trimmed

end Trim

/-! ## State anchors -/

section StateAnchors

variable {item : Obj F} {xs : List (JsonValue F)} {i k : ℕ}

/-- What makes an item a state anchor. -/
def isStateAnchor (item : Obj F) : Bool :=
  oneOf ["additional_tools"] (item.get "type") ||
    (messageType (item.get "type") && oneOf instructionRoles (item.get "role")) || namesState item

/-- The item at an index is an anchor or a directive. -/
def stateAnchorAt (input : List (JsonValue F)) (i : ℕ) : Bool :=
  (input[i]?.bind asObj).any fun item => isPreservedNonMessageDirective item || isStateAnchor item

/-- The values that an item is looked up with can be hashed. -/
def hashableItem (value : JsonValue F) : Bool :=
  (asObj value).all fun item => oneOf ["additional_tools"] (item.get "type") ||
    (hashable (item.get "type") && (!messageType (item.get "type") || hashable (item.get "role")))

theorem compactItemIsStateAnchor_eq (item : Obj F) : compactItemIsStateAnchor item =
    if hashableItem (.dict item) then .ok (isStateAnchor item) else .error .unhashable := by
  rw [compactItemIsStateAnchor, hashableItem, isStateAnchor]
  simp only [asObj, Option.all_some]
  by_cases bundle : oneOf ["additional_tools"] (item.get "type") = true
  · simp [bundle]
  · by_cases typed : hashable (item.get "type") = true
    · by_cases message : messageType (item.get "type") = true
      · by_cases role : hashable (item.get "role") = true
        · simp [bundle, inSet, typed, message, role]
          rfl
        · simp [bundle, inSet, typed, message, role]
          rfl
      · simp [bundle, inSet, typed, message]
        rfl
    · simp [bundle, inSet, typed]
      rfl

theorem stateAnchorAt_cons_zero (value : JsonValue F) (rest : List (JsonValue F)) :
    stateAnchorAt (value :: rest) 0 =
      (asObj value).any fun item => isPreservedNonMessageDirective item || isStateAnchor item := rfl

theorem stateAnchorAt_cons_succ (value : JsonValue F) (rest : List (JsonValue F)) :
    stateAnchorAt (value :: rest) (i + 1) = stateAnchorAt rest i := by
  rw [stateAnchorAt, List.getElem?_cons_succ, stateAnchorAt]

/-- The developer message behind a tool bundle is an anchor of its own. -/
theorem stateAnchorAt_developer
    (h : ((xs.head?.bind asObj).any fun next =>
      oneOf ["developer"] (next.get "role") && messageType (next.get "type")) = true) :
    stateAnchorAt xs 0 = true := by
  cases xs with
  | nil => cases h
  | cons value rest =>
    rw [List.head?_cons, Option.bind_some] at h
    rw [stateAnchorAt_cons_zero]
    cases known : asObj value with
    | none =>
      rw [known] at h
      cases h
    | some next =>
      rw [known, Option.any_some] at h
      obtain ⟨developer, message⟩ := Bool.and_eq_true_iff.mp h
      obtain ⟨w, mem, role⟩ := oneOf_eq_true developer
      have instruction : oneOf instructionRoles (next.get "role") = true := by
        rw [role, List.mem_singleton.mp mem]
        rfl
      simp [isStateAnchor, message, instruction]

theorem compactStateAnchorIndices_ok (hash : ∀ value ∈ xs, hashableItem value = true) :
    ∃ s, compactStateAnchorIndices k xs = .ok s ∧
      ∀ i, i ∈ s ↔ ∃ j, i = k + j ∧ stateAnchorAt xs j = true := by
  induction xs generalizing k with
  | nil => exact ⟨∅, rfl, fun i => by simp [stateAnchorAt]⟩
  | cons value rest ih =>
    obtain ⟨here, others⟩ := List.forall_mem_cons.mp hash
    obtain ⟨later, found, members⟩ := ih (k := k + 1) others
    -- the index itself, and the indices behind it
    have shift : ∀ i, (∃ j, i = k + j ∧ stateAnchorAt (value :: rest) j = true) ↔
        (i = k ∧ stateAnchorAt (value :: rest) 0 = true) ∨ i ∈ later := by
      intro i
      rw [members]
      constructor
      · rintro ⟨j, rfl, at_⟩
        cases j with
        | zero => exact .inl ⟨rfl, at_⟩
        | succ j => exact .inr ⟨j, by omega, by rwa [stateAnchorAt_cons_succ] at at_⟩
      · rintro (⟨rfl, at_⟩ | ⟨j, rfl, at_⟩)
        · exact ⟨0, rfl, at_⟩
        · exact ⟨j + 1, by omega, by rwa [stateAnchorAt_cons_succ]⟩
    rw [compactStateAnchorIndices]
    cases known : asObj value with
    | none =>
      refine ⟨later, found, fun i => ?_⟩
      rw [shift, stateAnchorAt_cons_zero, known]
      simp
    | some item =>
      have isDict := ToolCallDedupe.asObj_eq_some known
      subst isDict
      simp only [compactItemIsStateAnchor_eq, here, if_true, found]
      refine ⟨_, rfl, fun i => ?_⟩
      rw [shift, stateAnchorAt_cons_zero, known, Option.any_some, Finset.mem_union, Finset.mem_union]
      have own : i ∈ (if isPreservedNonMessageDirective item || isStateAnchor item then
          ({k} : Finset ℕ) else ∅) ↔
          i = k ∧ (isPreservedNonMessageDirective item || isStateAnchor item) = true := by
        split <;> simp [*]
      rw [own]
      refine ⟨?_, fun either => either.imp_left .inr⟩
      rintro ((bundle | here) | there)
      · split at bundle
        · rename_i tools
          have anchor : (isPreservedNonMessageDirective item || isStateAnchor item) = true := by
            simp [isStateAnchor, tools]
          split at bundle
          · rename_i developer
            obtain rfl | next := Finset.mem_insert.mp bundle
            · exact .inl ⟨rfl, anchor⟩
            · refine .inr ((members i).mpr ⟨0, Finset.mem_singleton.mp next, ?_⟩)
              exact stateAnchorAt_developer developer
          · exact .inl ⟨Finset.mem_singleton.mp bundle, anchor⟩
        · exact absurd bundle (Finset.notMem_empty i)
      · exact .inl here
      · exact .inr there

theorem compactStateAnchorIndices_error (hash : ∃ value ∈ xs, hashableItem value = false) :
    compactStateAnchorIndices k xs = .error .unhashable := by
  induction xs generalizing k with
  | nil => simp at hash
  | cons value rest ih =>
    rw [compactStateAnchorIndices]
    cases known : asObj value with
    | none =>
      obtain ⟨other, mem, bad⟩ := hash
      obtain rfl | later := List.mem_cons.mp mem
      · rw [hashableItem, known] at bad
        cases bad
      · exact ih ⟨other, later, bad⟩
    | some item =>
      have isDict := ToolCallDedupe.asObj_eq_some known
      subst isDict
      by_cases here : hashableItem (.dict item) = true
      · have later : ∃ value ∈ rest, hashableItem value = false := by
          obtain ⟨other, mem, bad⟩ := hash
          obtain rfl | later := List.mem_cons.mp mem
          · rw [here] at bad
            cases bad
          · exact ⟨other, later, bad⟩
        simp only [compactItemIsStateAnchor_eq, here, if_true, ih later]
        rfl
      · simp only [compactItemIsStateAnchor_eq, here]
        rfl

end StateAnchors

/-! ## Omitted runs -/

section Omitted

variable {counts : List ℕ} {kept : ℕ → Prop} {s : Finset ℕ} {i : ℕ} {xs out : List (JsonValue F)}

/-- The list from an index on, each longest run that is not kept replaced by one marker. -/
inductive Omits (counts : List ℕ) (kept : ℕ → Prop) :
    ℕ → List (JsonValue F) → List (JsonValue F) → Prop where
  | nil (i : ℕ) : Omits counts kept i [] []
  | keep {i : ℕ} {item : JsonValue F} {rest out : List (JsonValue F)} (here : kept i)
      (later : Omits counts kept (i + 1) rest out) :
      Omits counts kept i (item :: rest) (item :: out)
  | marker {i : ℕ} {run rest out : List (JsonValue F)} (some_ : run ≠ [])
      (none_ : ∀ j, i ≤ j → j < i + run.length → ¬ kept j)
      (ends : rest = [] ∨ kept (i + run.length))
      (later : Omits counts kept (i + run.length) rest out) :
      Omits counts kept i (run ++ rest)
        (compactTrimMarker run.length ((counts.drop i).take run.length).sum :: out)

theorem withMarkersFrom_run {run rest : List (JsonValue F)} {omittedItems omittedTokens : ℕ}
    (none_ : ∀ j, i ≤ j → j < i + run.length → j ∉ s) :
    withMarkersFrom counts s i omittedItems omittedTokens (run ++ rest) =
      withMarkersFrom counts s (i + run.length) (omittedItems + run.length)
        (omittedTokens + ((counts.drop i).take run.length).sum) rest := by
  induction run generalizing i omittedItems omittedTokens with
  | nil => simp
  | cons item run ih =>
    have absent := none_ i (le_refl i) (by simp)
    rw [List.cons_append, withMarkersFrom, if_neg absent, ih fun j low high => ?_]
    · have tokens : ((counts.drop i).take (run.length + 1)).sum =
          counts.getD i 0 + ((counts.drop (i + 1)).take run.length).sum := by
        by_cases inside : i < counts.length
        · rw [List.drop_eq_getElem_cons inside, List.take_succ_cons, List.sum_cons,
            List.getD_eq_getElem _ _ inside]
        · rw [List.drop_eq_nil_of_le (by omega), List.drop_eq_nil_of_le (by omega),
            List.getD_eq_default _ _ (by omega)]
          simp
      rw [List.length_cons, tokens]
      congr 1 <;> omega
    · rw [List.length_cons] at none_
      exact none_ j (by omega) (by omega)

theorem exists_run (s : Finset ℕ) (i : ℕ) (xs : List (JsonValue F)) :
    ∃ run rest, xs = run ++ rest ∧ (∀ j, i ≤ j → j < i + run.length → j ∉ s) ∧
      (rest = [] ∨ i + run.length ∈ s) := by
  induction xs generalizing i with
  | nil => exact ⟨[], [], rfl, fun j low high => absurd high (by simpa using low), .inl rfl⟩
  | cons item xs ih =>
    by_cases here : i ∈ s
    · exact ⟨[], item :: xs, rfl, fun j low high => absurd high (by simpa using low), .inr here⟩
    · obtain ⟨run, rest, rfl, none_, ends⟩ := ih (i + 1)
      refine ⟨item :: run, rest, rfl, fun j low high => ?_, ends.imp_right fun kept => ?_⟩
      · rw [List.length_cons] at high
        by_cases first : j = i
        · rwa [first]
        · exact none_ j (by omega) (by omega)
      · rw [List.length_cons]
        have shift : i + (run.length + 1) = i + 1 + run.length := by omega
        rwa [shift]

theorem exists_omits (counts : List ℕ) (s : Finset ℕ) (n i : ℕ) (xs : List (JsonValue F))
    (bound : xs.length ≤ n) : ∃ out, Omits counts (· ∈ s) i xs out := by
  induction n generalizing i xs with
  | zero =>
    rw [List.length_eq_zero_iff.mp (Nat.le_zero.mp bound)]
    exact ⟨[], .nil i⟩
  | succ n ih =>
    cases xs with
    | nil => exact ⟨[], .nil i⟩
    | cons item xs =>
      rw [List.length_cons] at bound
      by_cases here : i ∈ s
      · obtain ⟨out, later⟩ := ih (i + 1) xs (by omega)
        exact ⟨_, .keep here later⟩
      · obtain ⟨run, rest, same, none_, ends⟩ := exists_run s i (item :: xs)
        cases run with
        | nil =>
          have kept := ends.resolve_left (by rw [← List.nil_append rest, ← same]; exact List.cons_ne_nil _ _)
          exact absurd kept here
        | cons first run =>
          rw [List.cons_append, List.cons.injEq] at same
          obtain ⟨rfl, rfl⟩ := same
          rw [List.length_append] at bound
          obtain ⟨out, later⟩ := ih (i + (item :: run).length) rest (by omega)
          exact ⟨_, .marker (List.cons_ne_nil item run) none_ ends later⟩

theorem omits_iff : Omits counts (· ∈ s) i xs out ↔ withMarkersFrom counts s i 0 0 xs = out := by
  have forward : ∀ {out}, Omits counts (· ∈ s) i xs out → withMarkersFrom counts s i 0 0 xs = out := by
    intro out h
    induction h with
    | nil i => rfl
    | keep here later ih =>
      rw [withMarkersFrom, if_pos here, ih]
      rfl
    | @marker i run rest out some_ none_ ends later ih =>
      have length : run.length ≠ 0 := fun none_ => some_ (List.length_eq_zero_iff.mp none_)
      rw [withMarkersFrom_run none_, Nat.zero_add, Nat.zero_add]
      cases rest with
      | nil =>
        rw [← ih, withMarkersFrom, withMarkersFrom, if_neg length, if_pos rfl]
      | cons item rest =>
        have here := ends.resolve_left (List.cons_ne_nil item rest)
        rw [withMarkersFrom, if_pos here, if_neg length]
        rw [withMarkersFrom, if_pos here, if_pos rfl] at ih
        rw [← ih]
        rfl
  refine ⟨forward, ?_⟩
  rintro rfl
  obtain ⟨out, h⟩ := exists_omits counts s xs.length i xs (le_refl _)
  rwa [forward h]

end Omitted
/-! ## What fits -/

section Fit

variable {fmt : FloatText F} {input : List (JsonValue F)} {counts : List ℕ}
variable {required selected : Finset ℕ}

/-- The whole input, or what is selected of it with markers, is not over the limit. -/
def Fits (fmt : FloatText F) (input : List (JsonValue F)) : Prop :=
  estimatedJsonTokens fmt (.list input) ≤ maxCompactUpstreamEstimatedTokens

instance : Decidable (Fits fmt input) := inferInstanceAs (Decidable (_ ≤ _))

/-- A selection that the greedy loop may rely on and keeps. -/
structure Keeps (input : List (JsonValue F)) (required selected : Finset ℕ) : Prop where
  sub : required ⊆ selected
  paired : Paired input required selected

theorem fitSelected_spec (whole : Whole input required)
    (fits : Fits fmt (trimmedInputWithMarkers input counts required)) (optional : List ℕ)
    (apart : ∀ i ∈ optional, i ∉ required) (keeps : Keeps input required selected)
    (rest : ∀ i ∈ selected, i ∉ required → i ∈ optional) :
    Keeps input required (fitSelected fmt input counts required optional selected) ∧
      fitSelected fmt input counts required optional selected ⊆ selected ∧
      Fits fmt (trimmedInputWithMarkers input counts
        (fitSelected fmt input counts required optional selected)) := by
  induction optional generalizing selected with
  | nil =>
    have all : selected = required := by
      refine Finset.Subset.antisymm (fun i mem => ?_) keeps.sub
      by_contra free
      exact absurd (rest i mem free) List.not_mem_nil
    rw [fitSelected, all]
    exact ⟨all ▸ keeps, Finset.Subset.refl _, fits⟩
  | cons i later ih =>
    have apartLater : ∀ j ∈ later, j ∉ required := fun j mem => apart j (List.mem_cons_of_mem i mem)
    rw [fitSelected]
    split
    · rename_i enough
      exact ⟨keeps, Finset.Subset.refl _, enough⟩
    · split
      · rename_i gone
        refine ih apartLater keeps fun j mem free => ?_
        exact (List.mem_cons.mp (rest j mem free)).resolve_left fun same => gone (same ▸ mem)
      · rename_i there
        have free := apart i List.mem_cons_self
        have sub : required ⊆ selected.erase i := fun j mem =>
          Finset.mem_erase.mpr ⟨fun same => free (same ▸ mem), keeps.sub mem⟩
        -- without additions the trial only loses indices
        have framed := @reconciled_framed _ counts
          ((maxCompactUpstreamEstimatedTokens - markerTokens fmt : ℕ) : ℤ) required false input _ sub
        have smaller : compactReconciledToolCallIndices counts
            ((maxCompactUpstreamEstimatedTokens - markerTokens fmt : ℕ) : ℤ) required false input
            (selected.erase i) ⊆ selected.erase i := fun j mem =>
          (framed.within j mem).resolve_right fun added => absurd added.1 (by decide)
        have different : compactReconciledToolCallIndices counts
            ((maxCompactUpstreamEstimatedTokens - markerTokens fmt : ℕ) : ℤ) required false input
            (selected.erase i) ≠ selected := fun same => by
          rw [same] at smaller
          exact Finset.notMem_erase i selected (smaller (not_not.mp there))
        simp only
        rw [if_pos ⟨framed.kept, different⟩]
        obtain ⟨kept, inside, fits'⟩ := ih apartLater ⟨framed.kept, reconciled_paired whole sub⟩
          fun j mem freeJ => by
            have lost := Finset.mem_erase.mp (smaller mem)
            exact (List.mem_cons.mp (rest j lost.2 freeJ)).resolve_left lost.1
        exact ⟨kept, inside.trans (smaller.trans (Finset.erase_subset i selected)), fits'⟩

theorem compactTrimPrefixCount_le (used : ℕ) (counts : List ℕ) :
    compactTrimPrefixCount used counts ≤ counts.length := by
  induction counts generalizing used with
  | nil => exact le_refl 0
  | cons count rest ih =>
    rw [compactTrimPrefixCount]
    split
    · exact Nat.zero_le _
    · exact Nat.succ_le_succ (ih _)

theorem suffixFrom_subset {budget : ℕ} (is : List ℕ) (used : ℕ) (indices : Finset ℕ) {i : ℕ}
    (mem : i ∈ suffixFrom counts selected budget is used indices) : i ∈ is ∨ i ∈ indices := by
  induction is generalizing used indices with
  | nil => exact .inr mem
  | cons j rest ih =>
    rw [suffixFrom] at mem
    split at mem
    · exact (ih _ _ mem).imp_left (List.mem_cons_of_mem j)
    · split at mem
      · exact .inr mem
      · split at mem
        · obtain rfl | old := Finset.mem_insert.mp mem
          · exact .inl List.mem_cons_self
          · exact .inr old
        · obtain later | new := ih _ _ mem
          · exact .inl (List.mem_cons_of_mem j later)
          · obtain rfl | old := Finset.mem_insert.mp new
            · exact .inl List.mem_cons_self
            · exact .inr old

theorem compactSelectedIndices_lt {preserved : Finset ℕ} (length : counts.length = input.length)
    (sub : required ⊆ Finset.range input.length) (anchors : preserved ⊆ Finset.range input.length) :
    compactSelectedIndices fmt input counts preserved required ⊆ Finset.range input.length := by
  intro i mem
  simp only [compactSelectedIndices] at mem
  obtain old | new := (reconciled_framed Finset.subset_union_right).within i mem
  · obtain old | mem := Finset.mem_union.mp old
    · obtain old | mem := Finset.mem_union.mp old
      · obtain mem | head := Finset.mem_union.mp old
        · exact anchors mem
        · have := compactTrimPrefixCount_le 0 counts
          have := Finset.mem_range.mp head
          exact Finset.mem_range.mpr (by omega)
      · obtain there | none_ := suffixFrom_subset _ _ _ mem
        · have := List.mem_range.mp (List.mem_of_mem_filter (List.mem_reverse.mp there))
          exact Finset.mem_range.mpr (by omega)
        · exact absurd none_ (Finset.notMem_empty i)
    · exact sub mem
  · exact Finset.mem_range.mpr new.2

theorem compactSelectedIndices_keeps {preserved : Finset ℕ} (whole : Whole input required) :
    Keeps input required (compactSelectedIndices fmt input counts preserved required) :=
  ⟨(reconciled_framed Finset.subset_union_right).kept,
    reconciled_paired whole Finset.subset_union_right⟩

theorem withMarkersFrom_all {i : ℕ} {s : Finset ℕ} {xs : List (JsonValue F)}
    (all : ∀ j, i ≤ j → j < i + xs.length → j ∈ s) : withMarkersFrom counts s i 0 0 xs = xs := by
  induction xs generalizing i with
  | nil => rfl
  | cons item rest ih =>
    rw [List.length_cons] at all
    rw [withMarkersFrom, if_pos (all i (le_refl i) (by omega)), if_pos rfl,
      ih fun j low high => all j (by omega) (by omega)]
    rfl

end Fit

/-! ## The whole trim -/

section Whole

variable (fmt : FloatText F) (input : List (JsonValue F))

/-- The state anchors and the last item. -/
def mustKeep : Finset ℕ :=
  (Finset.range input.length).filter fun i => stateAnchorAt input i ∨ i + 1 = input.length

/-- The estimates of the items. -/
def itemTokens : List ℕ := input.map (estimatedJsonArrayItemTokens fmt)

/-- Every tool output follows a call with its id. -/
def OutputsFollowCalls : Prop :=
  ∀ o id, At outputId input o id → ∃ c, c < o ∧ At callId input c id

/-- The result of a trim that goes through. -/
structure Trimmed (kept : Finset ℕ) (out : List (JsonValue F)) : Prop where
  fits : Fits fmt out
  required : ∀ i, Required input (mustKeep input) i → i ∈ kept
  marked : Omits (itemTokens fmt input) (· ∈ kept) 0 input out
  outputs : OutputsFollowCalls input → ∀ o ∈ kept, IsOutput input o →
    ∃ c ∈ kept, OutputOf input c o
  calls : OutputsFollowCalls input → ∀ c ∈ kept, IsCall input c → ¬ Required input (mustKeep input) c →
    (∃ o, OutputOf input c o) ∧ ∀ o, OutputOf input c o → o ∈ kept

/-- What is required of an input fits with its markers. -/
def RequiredFits : Prop :=
  ∃ out, Omits (itemTokens fmt input) (Required input (mustKeep input)) 0 input out ∧ Fits fmt out

/-- An input that fits is left alone; else the trim raises exactly if what is required does not
fit, and trims otherwise. -/
structure TrimsCompact : Prop where
  alone : Fits fmt input → trimCompactInputForUpstream fmt input = .ok input
  raises : ¬ Fits fmt input →
    (trimCompactInputForUpstream fmt input = .error (.tooLarge anchorsTooLarge) ↔
      ¬ RequiredFits fmt input)
  trims : ¬ Fits fmt input → RequiredFits fmt input →
    ∃ kept out, trimCompactInputForUpstream fmt input = .ok out ∧ Trimmed fmt input kept out

end Whole
section Main

variable {fmt : FloatText F} {input : List (JsonValue F)}

theorem mustKeep_lt : ∀ i ∈ mustKeep input, i < input.length :=
  fun _ mem => Finset.mem_range.mp (Finset.mem_of_mem_filter _ mem)

theorem itemTokens_length : (itemTokens fmt input).length = input.length := List.length_map _

/-- The required indices as the code finds them. -/
def requiredIndices (fmt : FloatText F) (input : List (JsonValue F)) : Finset ℕ :=
  compactReconciledToolCallIndices (itemTokens fmt input) (itemTokens fmt input).sum (mustKeep input)
    true input (mustKeep input)

theorem mem_requiredIndices {i : ℕ} :
    i ∈ requiredIndices fmt input ↔ Required input (mustKeep input) i :=
  mem_reconciled_anchors mustKeep_lt itemTokens_length

theorem requiredIndices_whole : Whole input (requiredIndices fmt input) := by
  intro c o own
  rw [mem_requiredIndices, mem_requiredIndices]
  exact ⟨fun kept => .output kept own, fun kept => .call kept own⟩

theorem requiredIndices_lt : requiredIndices fmt input ⊆ Finset.range input.length := by
  intro i mem
  obtain old | new := (reconciled_framed (Finset.Subset.refl _)).within i mem
  · exact Finset.mem_range.mpr (mustKeep_lt i old)
  · exact Finset.mem_range.mpr new.2

theorem requiredFits_iff : RequiredFits fmt input ↔
    Fits fmt (trimmedInputWithMarkers input (itemTokens fmt input) (requiredIndices fmt input)) := by
  have same : Required input (mustKeep input) = (· ∈ requiredIndices fmt input) :=
    funext fun i => propext mem_requiredIndices.symm
  rw [RequiredFits, same]
  constructor
  · rintro ⟨out, omits, fits⟩
    rw [trimmedInputWithMarkers, omits_iff.mp omits]
    exact fits
  · exact fun fits => ⟨_, omits_iff.mpr rfl, fits⟩

/-- What the trim selects in the end. -/
def finalIndices (fmt : FloatText F) (input : List (JsonValue F)) (preserved : Finset ℕ) : Finset ℕ :=
  compactFitSelectedIndicesToWireBudget fmt input (itemTokens fmt input)
    (compactSelectedIndices fmt input (itemTokens fmt input) preserved (requiredIndices fmt input))
    (requiredIndices fmt input)

theorem finalIndices_spec {preserved : Finset ℕ} (anchors : preserved ⊆ Finset.range input.length)
    (fits : Fits fmt (trimmedInputWithMarkers input (itemTokens fmt input)
      (requiredIndices fmt input))) :
    Keeps input (requiredIndices fmt input) (finalIndices fmt input preserved) ∧
      finalIndices fmt input preserved ⊆ Finset.range input.length ∧
      Fits fmt (trimmedInputWithMarkers input (itemTokens fmt input)
        (finalIndices fmt input preserved)) := by
  have within := @compactSelectedIndices_lt _ fmt input (itemTokens fmt input)
    (requiredIndices fmt input) preserved itemTokens_length requiredIndices_lt anchors
  obtain ⟨keeps, sub, enough⟩ := fitSelected_spec requiredIndices_whole fits
    (((List.range input.length).filter fun i => decide
      (i ∈ compactSelectedIndices fmt input (itemTokens fmt input) preserved
        (requiredIndices fmt input) ∧ i ∉ requiredIndices fmt input)).insertionSort
      (fromEnds input.length))
    (fun i mem => (of_decide_eq_true
      (List.mem_filter.mp ((List.mem_insertionSort _).mp mem)).2).2)
    (compactSelectedIndices_keeps requiredIndices_whole)
    fun i mem free => (List.mem_insertionSort _).mpr (List.mem_filter.mpr
      ⟨List.mem_range.mpr (Finset.mem_range.mp (within mem)), decide_eq_true ⟨mem, free⟩⟩)
  exact ⟨keeps, sub.trans within, enough⟩

theorem outputOf_of_follows (follows : OutputsFollowCalls input) {o : ℕ}
    (output : IsOutput input o) : ∃ c, OutputOf input c o := by
  obtain ⟨id, at_⟩ := output
  obtain ⟨c, before, call⟩ := follows o id at_
  cases matched : matchingCallIndex (indicesOf callId input id) o with
  | none =>
    exfalso
    have mem := mem_indicesOf.mpr call
    rw [matchingCallIndex] at matched
    cases calls : indicesOf callId input id with
    | nil =>
      rw [calls] at mem
      cases mem
    | cons first rest =>
      rw [calls] at matched
      split at matched
      · cases matched
      · cases matched
  | some c' =>
    refine ⟨c', ((matchingCallIndex_eq_some at_).mp matched).resolve_right ?_⟩
    rintro ⟨id', _, at', early, _⟩
    cases at_.symm.trans at'
    exact early c call before

theorem stateAnchorAt_lt {i : ℕ} (h : stateAnchorAt input i = true) : i < input.length := by
  by_contra outside
  rw [stateAnchorAt, List.getElem?_eq_none (Nat.not_lt.mp outside)] at h
  cases h

theorem insert_last_eq_mustKeep {preserved : Finset ℕ}
    (members : ∀ i, i ∈ preserved ↔ ∃ j, i = 0 + j ∧ stateAnchorAt input j = true) :
    (if input = [] then preserved else insert (input.length - 1) preserved) = mustKeep input := by
  have anchors : ∀ i, i ∈ preserved ↔ stateAnchorAt input i = true := by
    intro i
    rw [members]
    constructor
    · rintro ⟨j, rfl, at_⟩
      rwa [Nat.zero_add]
    · exact fun at_ => ⟨i, (Nat.zero_add i).symm, at_⟩
  ext i
  rw [mustKeep, Finset.mem_filter, Finset.mem_range]
  by_cases empty : input = []
  · rw [if_pos empty, anchors]
    subst empty
    simp [stateAnchorAt]
  · have positive := List.length_pos_iff.mpr empty
    rw [if_neg empty, Finset.mem_insert, anchors]
    constructor
    · rintro (rfl | at_)
      · exact ⟨by omega, .inr (by omega)⟩
      · exact ⟨stateAnchorAt_lt at_, .inl at_⟩
    · rintro ⟨_, at_ | last⟩
      · exact .inr at_
      · exact .inl (by omega)

theorem trim_of_hashable (big : ¬ Fits fmt input)
    (hash : ∀ value ∈ input, hashableItem value = true) :
    ∃ preserved ⊆ Finset.range input.length, trimCompactInputForUpstream fmt input =
      if Fits fmt (trimmedInputWithMarkers input (itemTokens fmt input) (requiredIndices fmt input))
      then
        let trimmed := if (finalIndices fmt input preserved).card = input.length then input
          else trimmedInputWithMarkers input (itemTokens fmt input) (finalIndices fmt input preserved)
        if Fits fmt trimmed then .ok trimmed else .error (.tooLarge contextTooLarge)
      else .error (.tooLarge anchorsTooLarge) := by
  obtain ⟨preserved, found, members⟩ := compactStateAnchorIndices_ok (k := 0) hash
  refine ⟨preserved, fun i mem => ?_, ?_⟩
  · obtain ⟨j, rfl, at_⟩ := (members i).mp mem
    rw [Nat.zero_add]
    exact Finset.mem_range.mpr (stateAnchorAt_lt at_)
  · have anchors := insert_last_eq_mustKeep members
    rw [trimCompactInputForUpstream]
    simp only [if_neg (show ¬ estimatedJsonTokens fmt (.list input) ≤
      maxCompactUpstreamEstimatedTokens from big), found]
    change (if maxCompactUpstreamEstimatedTokens < estimatedJsonTokens fmt (.list
      (trimmedInputWithMarkers input (itemTokens fmt input) (compactReconciledToolCallIndices
        (itemTokens fmt input) (itemTokens fmt input).sum
        (if input = [] then preserved else insert (input.length - 1) preserved) true input
        (if input = [] then preserved else insert (input.length - 1) preserved)))) then _ else _) = _
    rw [anchors]
    by_cases fits : Fits fmt (trimmedInputWithMarkers input (itemTokens fmt input)
      (requiredIndices fmt input))
    · rw [if_pos fits]
      refine (if_neg (not_lt.mpr fits)).trans ?_
      by_cases enough : Fits fmt (if (finalIndices fmt input preserved).card = input.length then input
          else trimmedInputWithMarkers input (itemTokens fmt input) (finalIndices fmt input preserved))
      · simp only [if_pos enough]
        exact if_neg (not_lt.mpr enough)
      · simp only [if_neg enough]
        exact if_pos (not_le.mp enough)
    · rw [if_neg fits]
      exact if_pos (not_le.mp fits)

/-- A value that cannot be hashed ends the trim of an oversized input with a `TypeError`. -/
theorem trim_of_unhashable (big : ¬ Fits fmt input) (bad : ∃ value ∈ input, hashableItem value = false) :
    trimCompactInputForUpstream fmt input = .error .unhashable := by
  rw [trimCompactInputForUpstream]
  simp only [if_neg (show ¬ estimatedJsonTokens fmt (.list input) ≤
    maxCompactUpstreamEstimatedTokens from big), compactStateAnchorIndices_error bad]
  rfl

theorem not_trims_of_unhashable (big : ¬ Fits fmt input)
    (bad : ∃ value ∈ input, hashableItem value = false) : ¬ TrimsCompact fmt input := by
  intro trims
  have raised := trim_of_unhashable big bad
  by_cases fits : RequiredFits fmt input
  · obtain ⟨kept, out, result, _⟩ := trims.trims big fits
    rw [raised] at result
    cases result
  · have result := (trims.raises big).mpr fits
    rw [raised] at result
    cases result

theorem trims_compact_iff (fmt : FloatText F) (input : List (JsonValue F)) :
    TrimsCompact fmt input ↔ Fits fmt input ∨ ∀ value ∈ input, hashableItem value = true := by
  constructor
  · intro trims
    by_contra neither
    obtain ⟨big, unhashable⟩ := not_or.mp neither
    exact not_trims_of_unhashable big (by simpa using unhashable) trims
  · intro either
    by_cases small : Fits fmt input
    · refine ⟨fun _ => ?_, fun big => absurd small big, fun big => absurd small big⟩
      rw [trimCompactInputForUpstream]
      exact if_pos small
    · obtain ⟨preserved, sub, result⟩ := trim_of_hashable small (either.resolve_left small)
      by_cases fits : Fits fmt (trimmedInputWithMarkers input (itemTokens fmt input)
        (requiredIndices fmt input))
      · obtain ⟨keeps, within, enough⟩ := finalIndices_spec sub fits
        have partial_ : (finalIndices fmt input preserved).card ≠ input.length := by
          intro all
          have whole : finalIndices fmt input preserved = Finset.range input.length :=
            Finset.eq_of_subset_of_card_le within (by rw [Finset.card_range, all])
          rw [whole, trimmedInputWithMarkers, withMarkersFrom_all fun j _ high =>
            Finset.mem_range.mpr (by omega)] at enough
          exact small enough
        rw [if_pos fits] at result
        simp only [if_neg partial_, if_pos enough] at result
        have trimmed : Trimmed fmt input (finalIndices fmt input preserved)
            (trimmedInputWithMarkers input (itemTokens fmt input) (finalIndices fmt input preserved)) :=
          { fits := enough
            required := fun i kept => keeps.sub (mem_requiredIndices.mpr kept)
            marked := omits_iff.mpr rfl
            outputs := fun follows o mem output => by
              obtain ⟨c, own⟩ := outputOf_of_follows follows output
              exact ⟨c, keeps.paired.call c o own mem, own⟩
            calls := fun _ c mem call free => keeps.paired.outputs c call mem fun kept =>
              free (mem_requiredIndices.mp kept) }
        refine ⟨fun fit => absurd fit small, fun _ => ?_, fun _ _ => ⟨_, _, result, trimmed⟩⟩
        rw [result]
        exact ⟨fun h => (by cases h), fun h => absurd (requiredFits_iff.mpr fits) h⟩
      · rw [if_neg fits] at result
        refine ⟨fun fit => absurd fit small, fun _ => ?_,
          fun _ fit => absurd (requiredFits_iff.mp fit) fits⟩
        exact ⟨fun _ fit => fits (requiredFits_iff.mp fit), fun _ => result⟩

/-- A text of this length and an item whose type is a list. -/
def longInput (n : ℕ) : List (JsonValue {t : Str // isFloatLiteral t = true}) :=
  [.str (List.replicate n (code 'a')), .dict [(text "type", .list [])]]

theorem longInput_big {n : ℕ} (long : maxCompactUpstreamEstimatedTokens * estimatedCharsPerToken ≤ n) :
    ¬ Fits literalFloats (longInput n) := by
  have letters : ((List.replicate n (code 'a')).flatMap escapeAscii).length = n := by
    have single : (escapeAscii (code 'a')).length = 1 := by decide
    rw [List.length_flatMap, List.map_replicate, List.sum_replicate, single, nsmul_one, Nat.cast_id]
  have chars : n < (wireText literalFloats (JsonValue.list (longInput n)).sortKeys).length := by
    rw [longInput, JsonValue.sortKeys, sortAll, JsonValue.sortKeys, wireText, wireText, quoteAscii]
    simp only [List.length_cons, List.length_append, letters]
    omega
  rw [maxCompactUpstreamEstimatedTokens, estimatedCharsPerToken] at long
  rw [Fits, estimatedJsonTokens, tokensOfChars, estimatedCharsPerToken,
    maxCompactUpstreamEstimatedTokens]
  omega

theorem unhashable_type_raises :
    trimCompactInputForUpstream literalFloats (longInput 400000) = .error .unhashable ∧
      ¬ TrimsCompact literalFloats (longInput 400000) := by
  have bad : ∃ value ∈ longInput 400000, hashableItem value = false :=
    ⟨_, List.mem_cons_of_mem _ List.mem_cons_self, by decide⟩
  have big := longInput_big (n := 400000) (by decide)
  exact ⟨trim_of_unhashable big bad, not_trims_of_unhashable big bad⟩

end Main
end CompactTrim
