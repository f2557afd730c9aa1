import Mathlib.Algebra.BigOperators.Group.Finset.Basic
import Mathlib.Algebra.Order.BigOperators.Group.Finset
import LivingBalancer.Requests.CompactItems

/-!
# Tool calls and their outputs in one selection

`_compact_reconciled_tool_call_indices`: every selected output gets its call, every selected call
its outputs, or they go. Protected indices stay.
-/

namespace CompactTrim

open PyJson Requests

variable {F : Type}

/-! ## The two loops -/

/-- `reconciled` and `selected_tokens`. -/
structure Selection where
  indices : Finset ℕ
  tokens : ℤ

/-- `matching_call_index`. -/
def matchingCallIndex (callIndices : List ℕ) (outputIndex : ℕ) : Option ℕ :=
  match (callIndices.filter fun c => decide (c < outputIndex)).getLast? with
  | some c => some c
  | none => callIndices.head?

/-- `matching_output_indices`. -/
def matchingOutputIndices (callIndices : List ℕ) (callIndex : ℕ) (outputIndices : List ℕ) : List ℕ :=
  let next := (callIndices.filter fun c => decide (callIndex < c)).head?
  outputIndices.filter fun o => decide (callIndex < o) && next.all fun c => decide (o < c)

section Loops

variable (counts : List ℕ) (budget : ℤ) (guarded : Finset ℕ) (allowPairAdditions : Bool)

/-- `add_indices`; `none` if the tokens would exceed the budget. -/
def addIndices (sel : Selection) (indices : List ℕ) : Option Selection :=
  let missing := indices.filter fun i => decide (i ∉ sel.indices)
  let missingTokens : ℤ := (missing.map fun i => (counts.getD i 0 : ℤ)).sum
  if budget < sel.tokens + missingTokens then none
  else some ⟨sel.indices ∪ missing.toFinset, sel.tokens + missingTokens⟩

/-- `remove_indices`. -/
def removeIndices (sel : Selection) (indices : List ℕ) : Selection :=
  indices.foldl (fun sel i =>
    if i ∈ sel.indices ∧ i ∉ guarded then ⟨sel.indices.erase i, sel.tokens - counts.getD i 0⟩
    else sel) sel

/-- The loop over the selected outputs with one id. -/
def reconcileOutput (callIndices : List ℕ) (sel : Selection) (outputIndex : ℕ) : Selection :=
  match matchingCallIndex callIndices outputIndex with
  | none => removeIndices counts guarded sel [outputIndex]
  | some callIndex =>
    if !allowPairAdditions && decide (callIndex ∉ sel.indices) then
      removeIndices counts guarded sel [outputIndex]
    else
      (addIndices counts budget sel [callIndex]).getD (removeIndices counts guarded sel [outputIndex])

/-- The loop over the calls with one id. -/
def reconcileCall (callIndices outputIndices : List ℕ) (sel : Selection) (callIndex : ℕ) :
    Selection :=
  if callIndex ∈ sel.indices then
    let matched := matchingOutputIndices callIndices callIndex outputIndices
    if matched = [] then removeIndices counts guarded sel [callIndex]
    else if !allowPairAdditions && matched.any fun i => decide (i ∉ sel.indices) then
      removeIndices counts guarded sel (callIndex :: matched)
    else
      (addIndices counts budget sel matched).getD
        (removeIndices counts guarded sel (callIndex :: matched))
  else sel

def reconcileOutputs (calls outputs : Dict Str (List ℕ)) (sel : Selection) : Selection :=
  outputs.items.foldl (fun sel p =>
    (p.2.filter fun o => decide (o ∈ sel.indices)).foldl
      (reconcileOutput counts budget guarded allowPairAdditions ((calls.get p.1).getD [])) sel) sel

def reconcileCalls (calls outputs : Dict Str (List ℕ)) (sel : Selection) : Selection :=
  calls.items.foldl (fun sel p => p.2.foldl
    (reconcileCall counts budget guarded allowPairAdditions p.2 ((outputs.get p.1).getD [])) sel) sel

def selectionOf (selected : Finset ℕ) : Selection :=
  ⟨selected, ∑ i ∈ selected, (counts.getD i 0 : ℤ)⟩

/-- `_compact_reconciled_tool_call_indices`. -/
def compactReconciledToolCallIndices (input : List (JsonValue F)) (selected : Finset ℕ) :
    Finset ℕ :=
  let calls := indicesById callId input
  let outputs := indicesById outputId input
  (reconcileCalls counts budget guarded allowPairAdditions calls outputs
    (reconcileOutputs counts budget guarded allowPairAdditions calls outputs
      (selectionOf counts selected))).indices

end Loops

/-! ## Calls, outputs and their indices -/

section Indices

variable {idOf : JsonValue F → Option Str} {input : List (JsonValue F)} {id : Str} {c o i : ℕ}

def indicesOf (idOf : JsonValue F → Option Str) (input : List (JsonValue F)) (id : Str) : List ℕ :=
  (input.zipIdx.filter fun p => decide (idOf p.1 = some id)).map Prod.snd

/-- The item at an index has this id. -/
def At (idOf : JsonValue F → Option Str) (input : List (JsonValue F)) (i : ℕ) (id : Str) : Prop :=
  input[i]?.bind idOf = some id

theorem mem_indicesOf : i ∈ indicesOf idOf input id ↔ At idOf input i id := by
  simp only [indicesOf, At, List.mem_map, List.mem_filter, decide_eq_true_eq,
    Option.bind_eq_some_iff]
  constructor
  · rintro ⟨⟨item, _⟩, ⟨mem, own⟩, rfl⟩
    exact ⟨item, List.mem_zipIdx_iff_getElem?.mp mem, own⟩
  · rintro ⟨item, found, own⟩
    exact ⟨(item, i), ⟨List.mem_zipIdx_iff_getElem?.mpr found, own⟩, rfl⟩

theorem indicesOf_sorted (idOf : JsonValue F → Option Str) (input : List (JsonValue F)) (id : Str) :
    (indicesOf idOf input id).Pairwise (· < ·) := by
  have range : (input.zipIdx.map Prod.snd).Pairwise (· < ·) := by
    rw [List.zipIdx_map_snd]
    exact List.pairwise_lt_range'
  exact range.sublist (List.filter_sublist.map _)

theorem indicesById_get (idOf : JsonValue F → Option Str) (input : List (JsonValue F)) (id : Str) :
    ((indicesById idOf input).get id).getD [] = indicesOf idOf input id := by
  have loop : ∀ step : Dict Str (List ℕ) → JsonValue F × ℕ → Dict Str (List ℕ),
      (∀ d p, ((step d p).get id).getD [] =
        (d.get id).getD [] ++ if idOf p.1 = some id then [p.2] else []) →
      ∀ (ps : List (JsonValue F × ℕ)) (d : Dict Str (List ℕ)), ((ps.foldl step d).get id).getD [] =
        (d.get id).getD [] ++ (ps.filter fun p => decide (idOf p.1 = some id)).map Prod.snd := by
    intro step files ps
    induction ps with
    | nil => simp
    | cons p rest ih =>
      intro d
      rw [List.foldl_cons, ih, files]
      by_cases own : idOf p.1 = some id
      · simp [own]
      · simp [own]
  refine loop _ (fun d p => ?_) input.zipIdx .empty
  cases own : idOf p.1 with
  | none => simp
  | some other =>
    by_cases same : id = other
    · subst same
      simp [Dict.get_modify]
    · simp [Dict.get_modify, same, Ne.symm same]

/-- The groups are the ids with their indices. -/
theorem mem_indicesById {p : Str × List ℕ} (mem : p ∈ (indicesById idOf input).items) :
    p.2 = indicesOf idOf input p.1 := by
  rw [← indicesById_get, Dict.get_of_mem mem]
  rfl

theorem indicesById_mem (at_ : At idOf input i id) :
    (id, indicesOf idOf input id) ∈ (indicesById idOf input).items := by
  have own := indicesById_get idOf input id
  have mem := mem_indicesOf.mpr at_
  rw [← own] at mem ⊢
  cases found : (indicesById idOf input).get id with
  | none =>
    rw [found] at mem
    cases mem
  | some is => exact Dict.mem_of_get found

theorem oneOf_eq_true {words : List String} {v : JsonValue F} (h : oneOf words v = true) :
    ∃ w ∈ words, v = .str (text w) := by
  cases v with
  | str t =>
    obtain ⟨w, mem, same⟩ := List.any_eq_true.mp h
    exact ⟨w, mem, congrArg JsonValue.str (of_decide_eq_true same)⟩
  | _ => cases h

theorem call_not_output {other : Str} (call : At callId input i id) :
    ¬ At outputId input i other := by
  intro output
  obtain ⟨item, found, own⟩ := Option.bind_eq_some_iff.mp call
  obtain ⟨item', found', own'⟩ := Option.bind_eq_some_iff.mp output
  cases found.symm.trans found'
  obtain ⟨d, known, own⟩ := Option.bind_eq_some_iff.mp own
  obtain ⟨d', known', own'⟩ := Option.bind_eq_some_iff.mp own'
  cases known.symm.trans known'
  split at own
  · rename_i isCall
    split at own'
    · rename_i isOutput
      have apart : ∀ w ∈ compactToolCallItemTypes, ∀ w' ∈ compactToolCallOutputItemTypes,
          text w ≠ text w' := by decide
      obtain ⟨w, mem, type⟩ := oneOf_eq_true isCall
      obtain ⟨w', mem', type'⟩ := oneOf_eq_true isOutput
      rw [type] at type'
      exact apart w mem w' mem' (JsonValue.str.inj type')
    · cases own'
  · cases own

/-- The call is the last one with the id of the output before it. -/
def OutputOf (input : List (JsonValue F)) (c o : ℕ) : Prop :=
  ∃ id, At callId input c id ∧ At outputId input o id ∧ c < o ∧
    ∀ c', At callId input c' id → c < c' → o < c'

theorem OutputOf.unique {c' : ℕ} (h : OutputOf input c o) (h' : OutputOf input c' o) : c = c' := by
  obtain ⟨id, call, output, before, next⟩ := h
  obtain ⟨id', call', output', before', next'⟩ := h'
  cases output.symm.trans output'
  obtain less | same | more := lt_trichotomy c c'
  · exact absurd (next c' call' less) (by omega)
  · exact same
  · exact absurd (next' c call more) (by omega)

theorem last_of_sorted {is : List ℕ} (sorted : is.Pairwise (· < ·)) (mem : i ∈ is)
    (last : ∀ j ∈ is, j ≤ i) : is.getLast? = some i := by
  obtain ⟨before, after, rfl⟩ := List.append_of_mem mem
  cases after with
  | nil => simp
  | cons j rest =>
    have less := List.rel_of_pairwise_cons (List.pairwise_append.mp sorted).2.1
      (List.mem_cons_self (a := j) (l := rest))
    have := last j (by simp)
    omega

theorem matchingCallIndex_of_outputOf (h : OutputOf input c o) (output : At outputId input o id) :
    matchingCallIndex (indicesOf callId input id) o = some c := by
  obtain ⟨id', call, output', before, next⟩ := h
  cases output.symm.trans output'
  have last : ((indicesOf callId input id).filter fun c => decide (c < o)).getLast? = some c := by
    refine last_of_sorted ((indicesOf_sorted _ _ _).filter _) ?_ fun j mem => ?_
    · exact List.mem_filter.mpr ⟨mem_indicesOf.mpr call, decide_eq_true before⟩
    · obtain ⟨there, less⟩ := List.mem_filter.mp mem
      have := of_decide_eq_true less
      by_contra more
      exact absurd (next j (mem_indicesOf.mp there) (by omega)) (by omega)
  rw [matchingCallIndex, last]

/-- The call of an output is the last before it, or the first of all where none is before it. -/
theorem matchingCallIndex_cases (output : At outputId input o id)
    (h : matchingCallIndex (indicesOf callId input id) o = some c) :
    OutputOf input c o ∨ At callId input c id ∧ (∀ c', At callId input c' id → ¬ c' < o) ∧
      ∀ c', At callId input c' id → c ≤ c' := by
  rw [matchingCallIndex] at h
  cases last : ((indicesOf callId input id).filter fun c => decide (c < o)).getLast? with
  | some c' =>
    rw [last] at h
    cases h
    left
    obtain ⟨before, same⟩ := List.getLast?_eq_some_iff.mp last
    have mem : c ∈ (indicesOf callId input id).filter fun c => decide (c < o) := by
      rw [same]
      simp
    obtain ⟨there, less⟩ := List.mem_filter.mp mem
    refine ⟨id, mem_indicesOf.mp there, output, of_decide_eq_true less, fun c' call' more => ?_⟩
    by_contra notBefore
    have different : c' ≠ o := fun same => call_not_output (same ▸ call') output
    have mem' : c' ∈ (indicesOf callId input id).filter fun c => decide (c < o) :=
      List.mem_filter.mpr ⟨mem_indicesOf.mpr call', decide_eq_true (by omega)⟩
    have sorted := (indicesOf_sorted callId input id).filter fun c => decide (c < o)
    rw [same] at mem' sorted
    obtain earlier | here := List.mem_append.mp mem'
    · have := (List.pairwise_append.mp sorted).2.2 c' earlier c (List.mem_singleton_self c)
      omega
    · rw [List.mem_singleton] at here
      omega
  | none =>
    rw [last] at h
    right
    obtain ⟨rest, same⟩ := List.head?_eq_some_iff.mp h
    have sorted := indicesOf_sorted callId input id
    refine ⟨mem_indicesOf.mp (by rw [same]; exact List.mem_cons_self), fun c' call' less => ?_,
      fun c' call' => ?_⟩
    · have empty := List.getLast?_eq_none_iff.mp last
      have mem : c' ∈ (indicesOf callId input id).filter fun c => decide (c < o) :=
        List.mem_filter.mpr ⟨mem_indicesOf.mpr call', decide_eq_true less⟩
      rw [empty] at mem
      cases mem
    · have mem := mem_indicesOf.mpr call'
      rw [same] at mem sorted
      obtain rfl | later := List.mem_cons.mp mem
      · exact le_refl _
      · exact (List.rel_of_pairwise_cons sorted later).le

theorem mem_matchingOutputIndices (call : At callId input c id) :
    o ∈ matchingOutputIndices (indicesOf callId input id) c (indicesOf outputId input id) ↔
      OutputOf input c o := by
  have sorted := (indicesOf_sorted callId input id).filter fun c' => decide (c < c')
  have behind : (((indicesOf callId input id).filter fun c' => decide (c < c')).head?.all
      fun c' => decide (o < c')) = true ↔ ∀ c', At callId input c' id → c < c' → o < c' := by
    have each : (∀ c', At callId input c' id → c < c' → o < c') ↔
        ∀ c' ∈ (indicesOf callId input id).filter fun c' => decide (c < c'), o < c' := by
      simp only [List.mem_filter, mem_indicesOf, decide_eq_true_eq, and_imp]
    rw [each]
    cases later : (indicesOf callId input id).filter fun c' => decide (c < c') with
    | nil => simp
    | cons next rest =>
      rw [later] at sorted
      simp only [List.head?_cons, Option.all_some, decide_eq_true_eq, List.forall_mem_cons]
      refine ⟨fun first => ⟨first, fun c' mem => ?_⟩, fun both => both.1⟩
      exact first.trans (List.rel_of_pairwise_cons sorted mem)
  rw [matchingOutputIndices, List.mem_filter, Bool.and_eq_true, decide_eq_true_eq, mem_indicesOf]
  constructor
  · rintro ⟨output, before, next⟩
    exact ⟨id, call, output, before, behind.mp next⟩
  · rintro ⟨id', call', output, before, next⟩
    cases call.symm.trans call'
    exact ⟨output, before, behind.mpr next⟩

end Indices

/-! ## What a step does -/

section Step

variable {counts : List ℕ} {budget : ℤ} {guarded : Finset ℕ} {allowPairAdditions : Bool}
variable {sel r : Selection} {is callIndices outputIndices : List ℕ} {c o i : ℕ}

theorem mem_removeIndices : i ∈ (removeIndices counts guarded sel is).indices ↔
    i ∈ sel.indices ∧ (i ∈ is → i ∈ guarded) := by
  induction is generalizing sel with
  | nil => simp [removeIndices]
  | cons j rest ih =>
    rw [removeIndices, List.foldl_cons]
    refine (@ih (if j ∈ sel.indices ∧ j ∉ guarded then
      ⟨sel.indices.erase j, sel.tokens - counts.getD j 0⟩ else sel)).trans ?_
    split
    · rename_i present
      by_cases same : i = j
      · subst same
        simp [present.2]
      · simp [same]
    · rename_i absent
      by_cases same : i = j
      · subst same
        simp only [List.mem_cons_self, true_implies]
        tauto
      · simp [same]

theorem mem_addIndices (h : addIndices counts budget sel is = some r) :
    i ∈ r.indices ↔ i ∈ sel.indices ∨ i ∈ is := by
  rw [addIndices] at h
  split at h
  · cases h
  · cases h
    simp only [Finset.mem_union, List.mem_toFinset, List.mem_filter, decide_eq_true_eq]
    tauto

/-- An output brings its call, or goes. -/
theorem reconcileOutput_cases (counts : List ℕ) (budget : ℤ) (guarded : Finset ℕ)
    (allowPairAdditions : Bool) (callIndices : List ℕ) (sel : Selection) (o : ℕ) :
    (∃ c, matchingCallIndex callIndices o = some c ∧ (allowPairAdditions = true ∨ c ∈ sel.indices) ∧
      ∀ i, i ∈ (reconcileOutput counts budget guarded allowPairAdditions callIndices sel o).indices ↔
        i ∈ sel.indices ∨ i = c) ∨
    ∀ i, i ∈ (reconcileOutput counts budget guarded allowPairAdditions callIndices sel o).indices ↔
      i ∈ sel.indices ∧ (i = o → i ∈ guarded) := by
  have removed : ∀ i, i ∈ (removeIndices counts guarded sel [o]).indices ↔
      i ∈ sel.indices ∧ (i = o → i ∈ guarded) := fun i => by
    rw [mem_removeIndices, List.mem_singleton]
  rw [reconcileOutput]
  cases matched : matchingCallIndex callIndices o with
  | none => exact .inr removed
  | some c =>
    by_cases refused : (!allowPairAdditions && decide (c ∉ sel.indices)) = true
    · simp only [refused, if_true]
      exact .inr removed
    · simp only [refused]
      cases added : addIndices counts budget sel [c] with
      | none => exact .inr removed
      | some r =>
        refine .inl ⟨c, rfl, ?_, fun i => ?_⟩
        · by_cases allowed : allowPairAdditions = true
          · exact .inl allowed
          · simpa [allowed] using refused
        · simpa using mem_addIndices added

/-- A selected call brings its outputs, or goes with them. -/
theorem reconcileCall_cases (counts : List ℕ) (budget : ℤ) (guarded : Finset ℕ)
    (allowPairAdditions : Bool) (callIndices outputIndices : List ℕ) {sel : Selection} {c : ℕ}
    (selected : c ∈ sel.indices) :
    (matchingOutputIndices callIndices c outputIndices ≠ [] ∧
      (allowPairAdditions = true ∨
        ∀ i ∈ matchingOutputIndices callIndices c outputIndices, i ∈ sel.indices) ∧
      ∀ i, i ∈ (reconcileCall counts budget guarded allowPairAdditions callIndices outputIndices sel
          c).indices ↔
        i ∈ sel.indices ∨ i ∈ matchingOutputIndices callIndices c outputIndices) ∨
    ∀ i, i ∈ (reconcileCall counts budget guarded allowPairAdditions callIndices outputIndices sel
        c).indices ↔
      i ∈ sel.indices ∧
        (i ∈ c :: matchingOutputIndices callIndices c outputIndices → i ∈ guarded) := by
  rw [reconcileCall, if_pos selected]
  by_cases none_ : matchingOutputIndices callIndices c outputIndices = []
  · rw [none_]
    exact .inr fun i => mem_removeIndices
  · by_cases refused : (!allowPairAdditions &&
        (matchingOutputIndices callIndices c outputIndices).any fun i => decide (i ∉ sel.indices)) = true
    · simp only [none_, refused, if_true, if_false]
      exact .inr fun i => mem_removeIndices
    · simp only [none_, refused, if_false]
      cases added : addIndices counts budget sel
          (matchingOutputIndices callIndices c outputIndices) with
      | none => exact .inr fun i => mem_removeIndices
      | some r =>
        refine .inl ⟨none_, ?_, fun i => mem_addIndices added⟩
        by_cases allowed : allowPairAdditions = true
        · exact .inl allowed
        · simpa [allowed] using refused

end Step
/-! ## Both loops -/

section Folds

variable {σ α : Type*} {f : σ → α → σ} {I : σ → Prop} {Q : α → σ → Prop}

/-- What each step brings about for its own item, and no other step undoes, holds at the end. -/
theorem foldl_each (xs : List α) {s : σ} (start : I s) (keeps : ∀ s, ∀ x ∈ xs, I s → I (f s x))
    (does : ∀ s, ∀ x ∈ xs, I s → Q x (f s x))
    (stays : ∀ s, ∀ x ∈ xs, ∀ y ∈ xs, x ≠ y → I s → Q x s → Q x (f s y)) :
    I (xs.foldl f s) ∧ ∀ x ∈ xs, Q x (xs.foldl f s) := by
  induction xs using List.reverseRecOn with
  | nil => exact ⟨start, fun x mem => (List.not_mem_nil mem).elim⟩
  | append_singleton before last ih =>
    have sub : ∀ x ∈ before, x ∈ before ++ [last] := fun x mem => List.mem_append_left _ mem
    have own : last ∈ before ++ [last] := List.mem_append_right _ (List.mem_singleton_self last)
    obtain ⟨inv, each⟩ := ih (fun s x mem => keeps s x (sub x mem))
      (fun s x mem => does s x (sub x mem))
      (fun s x mem y mem' => stays s x (sub x mem) y (sub y mem'))
    rw [List.foldl_append, List.foldl_cons, List.foldl_nil]
    refine ⟨keeps _ last own inv, fun x mem => ?_⟩
    by_cases same : x = last
    · subst same
      exact does _ x own inv
    · obtain earlier | here := List.mem_append.mp mem
      · exact stays _ x mem last own same inv (each x earlier)
      · exact absurd (List.mem_singleton.mp here) same

end Folds

section Reconcile

variable {counts : List ℕ} {budget : ℤ} {guarded : Finset ℕ} {allowPairAdditions : Bool}
variable {input : List (JsonValue F)} {sel : Selection} {c o i : ℕ}

/-- An item of the input that is a tool output. -/
def IsOutput (input : List (JsonValue F)) (o : ℕ) : Prop := ∃ id, At outputId input o id

def IsCall (input : List (JsonValue F)) (c : ℕ) : Prop := ∃ id, At callId input c id

theorem OutputOf.isCall (h : OutputOf input c o) : IsCall input c := by
  obtain ⟨id, call, _⟩ := h
  exact ⟨id, call⟩

theorem OutputOf.isOutput (h : OutputOf input c o) : IsOutput input o := by
  obtain ⟨id, _, output, _⟩ := h
  exact ⟨id, output⟩

theorem IsCall.not_output (call : IsCall input i) : ¬ IsOutput input i := by
  obtain ⟨id, call⟩ := call
  rintro ⟨other, output⟩
  exact call_not_output call output

/-- The step of an output with the calls of the input. -/
def outputStep (counts : List ℕ) (budget : ℤ) (guarded : Finset ℕ) (allowPairAdditions : Bool)
    (input : List (JsonValue F)) (id : Str) : Selection → ℕ → Selection :=
  reconcileOutput counts budget guarded allowPairAdditions (indicesOf callId input id)

def callStep (counts : List ℕ) (budget : ℤ) (guarded : Finset ℕ) (allowPairAdditions : Bool)
    (input : List (JsonValue F)) (id : Str) : Selection → ℕ → Selection :=
  reconcileCall counts budget guarded allowPairAdditions (indicesOf callId input id)
    (indicesOf outputId input id)

/-- The groups of a dictionary of indices, one after the other. -/
theorem groups_each {idOf : JsonValue F → Option Str} (g : Str → Selection → ℕ → Selection)
    (pick : Selection → ℕ → Bool) {I : Selection → Prop} {T : ℕ → Prop} {Q : ℕ → Selection → Prop}
    (start : I sel)
    (known : ∀ s i, I s → (∃ id, At idOf input i id) → pick s i = true → T i)
    (keeps : ∀ s id i, At idOf input i id → T i → I s → I (g id s i))
    (does : ∀ s id i, At idOf input i id → T i → I s → Q i (g id s i))
    (unpicked : ∀ s i, (∃ id, At idOf input i id) → I s → pick s i = false → Q i s)
    (stays : ∀ s id i j, (∃ id, At idOf input i id) → At idOf input j id → T j → i ≠ j → I s →
      Q i s → Q i (g id s j)) :
    I ((indicesById idOf input).items.foldl (fun s p => (p.2.filter (pick s)).foldl (g p.1) s) sel) ∧
    ∀ i, (∃ id, At idOf input i id) → Q i ((indicesById idOf input).items.foldl
      (fun s p => (p.2.filter (pick s)).foldl (g p.1) s) sel) := by
  have owned : ∀ p ∈ (indicesById idOf input).items, ∀ i, i ∈ p.2 ↔ At idOf input i p.1 := by
    intro p mem i
    rw [mem_indicesById mem, mem_indicesOf]
  have inner : ∀ s, I s → ∀ p ∈ (indicesById idOf input).items,
      I ((p.2.filter (pick s)).foldl (g p.1) s) ∧
        ∀ i ∈ p.2.filter (pick s), Q i ((p.2.filter (pick s)).foldl (g p.1) s) := by
    intro s inv p mem
    have each : ∀ i ∈ p.2.filter (pick s), At idOf input i p.1 ∧ T i := by
      intro i there
      obtain ⟨here, picked⟩ := List.mem_filter.mp there
      have at_ := (owned p mem i).mp here
      exact ⟨at_, known s i inv ⟨_, at_⟩ picked⟩
    refine foldl_each _ inv (fun s i there => ?_) (fun s i there => ?_) fun s i there j there' => ?_
    · exact keeps s p.1 i (each i there).1 (each i there).2
    · exact does s p.1 i (each i there).1 (each i there).2
    · exact stays s p.1 i j ⟨_, (each i there).1⟩ (each j there').1 (each j there').2
  have apart : ∀ s, I s → ∀ p ∈ (indicesById idOf input).items, ∀ i, (∃ id, At idOf input i id) →
      i ∉ p.2.filter (pick s) → Q i s → Q i ((p.2.filter (pick s)).foldl (g p.1) s) := by
    intro s inv p mem i own absent before
    refine (List.foldlRecOn (motive := fun s => I s ∧ Q i s) _ (g p.1) ⟨inv, before⟩
      fun s both j there => ?_).2
    obtain ⟨here, picked⟩ := List.mem_filter.mp there
    have at_ := (owned p mem j).mp here
    have different : i ≠ j := fun same => absent (same ▸ there)
    have known_ := known _ j inv ⟨_, at_⟩ picked
    exact ⟨keeps s p.1 j at_ known_ both.1, stays s p.1 i j own at_ known_ different both.1 both.2⟩
  have all := foldl_each (Q := fun (p : Str × List ℕ) s => ∀ i ∈ p.2, Q i s)
    (f := fun s (p : Str × List ℕ) => (p.2.filter (pick s)).foldl (g p.1) s)
    (indicesById idOf input).items start (fun s p mem inv => (inner s inv p mem).1)
    (fun s p mem inv i here => by
      by_cases picked : pick s i = true
      · exact (inner s inv p mem).2 i (List.mem_filter.mpr ⟨here, picked⟩)
      · have own : ∃ id, At idOf input i id := ⟨_, (owned p mem i).mp here⟩
        refine apart s inv p mem i own (fun there => picked (List.mem_filter.mp there).2) ?_
        exact unpicked s i own inv (Bool.eq_false_iff.mpr picked))
    (fun s p mem p' mem' different inv before i here => by
      have own := (owned p mem i).mp here
      refine apart s inv p' mem' i ⟨_, own⟩ (fun there => different ?_) (before i here)
      have own' := (owned p' mem' i).mp (List.mem_of_mem_filter there)
      have same : p.1 = p'.1 := Option.some.inj (own.symm.trans own')
      refine Prod.ext same ?_
      rw [mem_indicesById mem, mem_indicesById mem', same])
  refine ⟨all.1, fun i own => ?_⟩
  obtain ⟨id, at_⟩ := own
  exact all.2 _ (indicesById_mem at_) i (mem_indicesOf.mpr at_)

theorem reconcileOutputs_eq (counts : List ℕ) (budget : ℤ) (guarded : Finset ℕ)
    (allowPairAdditions : Bool) (input : List (JsonValue F)) (sel : Selection) :
    reconcileOutputs counts budget guarded allowPairAdditions (indicesById callId input)
      (indicesById outputId input) sel =
    (indicesById outputId input).items.foldl (fun s p =>
      (p.2.filter fun o => decide (o ∈ s.indices)).foldl
        (outputStep counts budget guarded allowPairAdditions input p.1) s) sel := by
  simp only [reconcileOutputs, indicesById_get]
  rfl

theorem reconcileCalls_eq (counts : List ℕ) (budget : ℤ) (guarded : Finset ℕ)
    (allowPairAdditions : Bool) (input : List (JsonValue F)) (sel : Selection) :
    reconcileCalls counts budget guarded allowPairAdditions (indicesById callId input)
      (indicesById outputId input) sel =
    (indicesById callId input).items.foldl (fun s p =>
      (p.2.filter fun _ => true).foldl
        (callStep counts budget guarded allowPairAdditions input p.1) s) sel := by
  rw [reconcileCalls]
  refine List.foldl_ext _ _ _ fun s p mem => ?_
  rw [List.filter_true, indicesById_get, callStep, ← mem_indicesById mem]

theorem At.lt_length {idOf : JsonValue F → Option Str} {id : Str} (h : At idOf input i id) :
    i < input.length := by
  obtain ⟨item, found, _⟩ := Option.bind_eq_some_iff.mp h
  exact (List.getElem?_eq_some_iff.mp found).1

/-- The call that an output brings is a call of the input. -/
theorem matching_isCall {id : Str} (output : At outputId input o id)
    (h : matchingCallIndex (indicesOf callId input id) o = some c) : At callId input c id := by
  obtain ⟨id', call, output', _⟩ | ⟨call, _⟩ := matchingCallIndex_cases output h
  · cases output.symm.trans output'
    exact call
  · exact call

/-- Guarded indices stay, and what is new is in the input and comes only with additions. -/
structure Framed (guarded selected : Finset ℕ) (allowPairAdditions : Bool)
    (input : List (JsonValue F)) (s : Finset ℕ) : Prop where
  kept : guarded ⊆ s
  within : ∀ i ∈ s, i ∈ selected ∨ allowPairAdditions = true ∧ i < input.length

variable {selected : Finset ℕ}

theorem Framed.outputStep {id : Str} (output : At outputId input o id)
    (h : Framed guarded selected allowPairAdditions input sel.indices) :
    Framed guarded selected allowPairAdditions input
      (outputStep counts budget guarded allowPairAdditions input id sel o).indices := by
  obtain ⟨c, matched, allowed, members⟩ | members :=
    reconcileOutput_cases counts budget guarded allowPairAdditions (indicesOf callId input id) sel o
  · refine ⟨fun i mem => (members i).mpr (.inl (h.kept mem)), fun i mem => ?_⟩
    obtain old | rfl := (members i).mp mem
    · exact h.within i old
    · exact allowed.elim (fun allowed => .inr ⟨allowed, (matching_isCall output matched).lt_length⟩)
        (h.within i)
  · exact ⟨fun i mem => (members i).mpr ⟨h.kept mem, fun _ => mem⟩,
      fun i mem => h.within i ((members i).mp mem).1⟩

theorem Framed.callStep {id : Str} (call : At callId input c id)
    (h : Framed guarded selected allowPairAdditions input sel.indices) :
    Framed guarded selected allowPairAdditions input
      (callStep counts budget guarded allowPairAdditions input id sel c).indices := by
  by_cases present : c ∈ sel.indices
  · obtain ⟨_, allowed, members⟩ | members := reconcileCall_cases counts budget guarded
      allowPairAdditions (indicesOf callId input id) (indicesOf outputId input id) present
    · refine ⟨fun i mem => (members i).mpr (.inl (h.kept mem)), fun i mem => ?_⟩
      obtain old | new := (members i).mp mem
      · exact h.within i old
      · obtain ⟨_, _, output, _⟩ := (mem_matchingOutputIndices call).mp new
        exact allowed.elim (fun allowed => .inr ⟨allowed, output.lt_length⟩)
          fun inside => h.within i (inside i new)
    · exact ⟨fun i mem => (members i).mpr ⟨h.kept mem, fun _ => mem⟩,
        fun i mem => h.within i ((members i).mp mem).1⟩
  · rwa [CompactTrim.callStep, reconcileCall, if_neg present]

theorem reconciled_framed (sub : guarded ⊆ selected) :
    Framed guarded selected allowPairAdditions input
      (compactReconciledToolCallIndices counts budget guarded allowPairAdditions input selected) := by
  have start : Framed guarded selected allowPairAdditions input (selectionOf counts selected).indices :=
    ⟨sub, fun i mem => .inl mem⟩
  have first := (groups_each (CompactTrim.outputStep counts budget guarded allowPairAdditions input)
    (fun s o => decide (o ∈ s.indices)) (Q := fun _ _ => True) (T := fun _ => True)
    (I := fun s => Framed guarded selected allowPairAdditions input s.indices)
    start (fun _ _ _ _ _ => trivial)
    (fun s id o output _ inv => inv.outputStep output) (fun _ _ _ _ _ _ => trivial)
    (fun _ _ _ _ _ => trivial) fun _ _ _ _ _ _ _ _ _ _ => trivial).1
  rw [← reconcileOutputs_eq] at first
  have second := (groups_each (CompactTrim.callStep counts budget guarded allowPairAdditions input)
    (fun _ _ => true) (Q := fun _ _ => True) (T := fun _ => True)
    (I := fun s => Framed guarded selected allowPairAdditions input s.indices)
    first (fun _ _ _ _ _ => trivial)
    (fun s id o call _ inv => inv.callStep call) (fun _ _ _ _ _ _ => trivial)
    (fun _ _ _ _ _ => trivial) fun _ _ _ _ _ _ _ _ _ _ => trivial).1
  rw [← reconcileCalls_eq] at second
  exact second

/-! ### Pairs -/

/-- A call is in the set exactly if its outputs are. -/
def Whole (input : List (JsonValue F)) (s : Finset ℕ) : Prop :=
  ∀ c o, OutputOf input c o → (c ∈ s ↔ o ∈ s)

/-- Every kept output has its call, every kept call that is not guarded all of its outputs. -/
structure Paired (input : List (JsonValue F)) (guarded s : Finset ℕ) : Prop where
  call : ∀ c o, OutputOf input c o → o ∈ s → c ∈ s
  outputs : ∀ c, IsCall input c → c ∈ s → c ∉ guarded →
    (∃ o, OutputOf input c o) ∧ ∀ o, OutputOf input c o → o ∈ s

theorem outputStep_does (whole : Whole input guarded) {id : Str} (output : At outputId input o id)
    (kept : guarded ⊆ sel.indices) :
    ∀ c, OutputOf input c o →
      o ∈ (outputStep counts budget guarded allowPairAdditions input id sel o).indices →
      c ∈ (outputStep counts budget guarded allowPairAdditions input id sel o).indices := by
  intro c own mem
  obtain ⟨c', matched, _, members⟩ | members :=
    reconcileOutput_cases counts budget guarded allowPairAdditions (indicesOf callId input id) sel o
  · rw [matchingCallIndex_of_outputOf own output] at matched
    cases matched
    exact (members c).mpr (.inr rfl)
  · have guardedOutput := ((members o).mp mem).2 rfl
    have guardedCall := (whole c o own).mpr guardedOutput
    exact (members c).mpr ⟨kept guardedCall, fun _ => guardedCall⟩

theorem outputStep_stays {id : Str} {j : ℕ} (output : At outputId input j id)
    (before : ∀ c, OutputOf input c o → o ∈ sel.indices → c ∈ sel.indices) :
    ∀ c, OutputOf input c o →
      o ∈ (outputStep counts budget guarded allowPairAdditions input id sel j).indices →
      c ∈ (outputStep counts budget guarded allowPairAdditions input id sel j).indices := by
  intro c own mem
  obtain ⟨c', matched, _, members⟩ | members :=
    reconcileOutput_cases counts budget guarded allowPairAdditions (indicesOf callId input id) sel j
  · obtain old | rfl := (members o).mp mem
    · exact (members c).mpr (.inl (before c own old))
    · have call : IsCall input o := ⟨id, matching_isCall output matched⟩
      exact absurd own.isOutput call.not_output
  · refine (members c).mpr ⟨before c own ((members o).mp mem).1, fun same => ?_⟩
    subst same
    exact absurd ⟨id, output⟩ own.isCall.not_output

/-- What the step of a call may rely on. -/
structure CallsLeft (input : List (JsonValue F)) (guarded s : Finset ℕ) : Prop where
  kept : guarded ⊆ s
  call : ∀ c o, OutputOf input c o → o ∈ s → c ∈ s

/-- What a step does to a call and its outputs: nothing, or all of them, or none but guarded ones. -/
theorem callStep_cases (counts : List ℕ) (budget : ℤ) (guarded : Finset ℕ)
    (allowPairAdditions : Bool) {id : Str} (call : At callId input c id)
    (present : c ∈ sel.indices) :
    ((∃ o, OutputOf input c o) ∧ (allowPairAdditions = true ∨ ∀ o, OutputOf input c o → o ∈ sel.indices) ∧
      ∀ i, i ∈ (callStep counts budget guarded allowPairAdditions input id sel c).indices ↔
        i ∈ sel.indices ∨ OutputOf input c i) ∨
    ∀ i, i ∈ (callStep counts budget guarded allowPairAdditions input id sel c).indices ↔
      i ∈ sel.indices ∧ (i = c ∨ OutputOf input c i → i ∈ guarded) := by
  obtain ⟨some_, allowed, members⟩ | members := reconcileCall_cases counts budget guarded
    allowPairAdditions (indicesOf callId input id) (indicesOf outputId input id) present
  · left
    refine ⟨?_, allowed.imp_right fun inside o own => inside o ((mem_matchingOutputIndices call).mpr own),
      fun i => (members i).trans (or_congr_right (mem_matchingOutputIndices call))⟩
    obtain ⟨o, mem⟩ := List.exists_mem_of_ne_nil _ some_
    exact ⟨o, (mem_matchingOutputIndices call).mp mem⟩
  · right
    intro i
    refine (members i).trans (and_congr_right fun _ => ?_)
    rw [List.mem_cons, mem_matchingOutputIndices call]

theorem CallsLeft.callStep (whole : Whole input guarded) {id : Str} (call : At callId input c id)
    (h : CallsLeft input guarded sel.indices) : CallsLeft input guarded
      (callStep counts budget guarded allowPairAdditions input id sel c).indices := by
  by_cases present : c ∈ sel.indices
  · obtain ⟨_, _, members⟩ | members :=
      callStep_cases counts budget guarded allowPairAdditions call present
    · refine ⟨fun i mem => (members i).mpr (.inl (h.kept mem)), fun c' o own mem => ?_⟩
      refine (members c').mpr (.inl ?_)
      obtain old | new := (members o).mp mem
      · exact h.call c' o own old
      · rwa [own.unique new]
    · refine ⟨fun i mem => (members i).mpr ⟨h.kept mem, fun _ => mem⟩, fun c' o own mem => ?_⟩
      obtain ⟨old, guardedOutput⟩ := (members o).mp mem
      refine (members c').mpr ⟨h.call c' o own old, fun touched => ?_⟩
      obtain rfl | output := touched
      · exact (whole c' o own).mpr (guardedOutput (.inr own))
      · exact absurd output.isOutput own.isCall.not_output
  · rwa [CompactTrim.callStep, reconcileCall, if_neg present]

theorem callStep_stays {id : Str} {d : ℕ} (call : At callId input d id) (different : c ≠ d)
    (own : IsCall input c)
    (before : c ∈ sel.indices → c ∉ guarded →
      (∃ o, OutputOf input c o) ∧ ∀ o, OutputOf input c o → o ∈ sel.indices)
    (mem : c ∈ (callStep counts budget guarded allowPairAdditions input id sel d).indices)
    (free : c ∉ guarded) : (∃ o, OutputOf input c o) ∧ ∀ o, OutputOf input c o →
      o ∈ (callStep counts budget guarded allowPairAdditions input id sel d).indices := by
  by_cases present : d ∈ sel.indices
  · obtain ⟨_, _, members⟩ | members :=
      callStep_cases counts budget guarded allowPairAdditions call present
    · obtain old | output := (members c).mp mem
      · obtain ⟨some_, inside⟩ := before old free
        exact ⟨some_, fun o output => (members o).mpr (.inl (inside o output))⟩
      · exact absurd output.isOutput own.not_output
    · obtain ⟨some_, inside⟩ := before ((members c).mp mem).1 free
      refine ⟨some_, fun o output => (members o).mpr ⟨inside o output, fun touched => ?_⟩⟩
      obtain rfl | other := touched
      · exact absurd output.isOutput (IsCall.not_output ⟨id, call⟩)
      · exact absurd (output.unique other) different
  · rw [CompactTrim.callStep, reconcileCall, if_neg present] at mem ⊢
    exact before mem free

/-- In a selection that holds the guarded indices, every pair is kept or dropped as one. -/
theorem reconciled_paired (whole : Whole input guarded) (sub : guarded ⊆ selected) :
    Paired input guarded
      (compactReconciledToolCallIndices counts budget guarded allowPairAdditions input selected) := by
  have start : Framed guarded selected allowPairAdditions input (selectionOf counts selected).indices :=
    ⟨sub, fun i mem => .inl mem⟩
  have first := groups_each (CompactTrim.outputStep counts budget guarded allowPairAdditions input)
    (fun s o => decide (o ∈ s.indices)) (T := fun _ => True)
    (Q := fun o s => ∀ c, OutputOf input c o → o ∈ s.indices → c ∈ s.indices)
    (I := fun s => Framed guarded selected allowPairAdditions input s.indices)
    start (fun _ _ _ _ _ => trivial)
    (fun s id o output _ inv => inv.outputStep output)
    (fun s id o output _ inv => outputStep_does whole output inv.kept)
    (fun s o _ _ absent c _ mem => absurd mem (of_decide_eq_false absent))
    fun s id o j _ output _ _ _ before => outputStep_stays output before
  rw [← reconcileOutputs_eq] at first
  obtain ⟨framed, each⟩ := first
  have second := groups_each (CompactTrim.callStep counts budget guarded allowPairAdditions input)
    (fun _ _ => true) (T := fun _ => True)
    (Q := fun c s => c ∈ s.indices → c ∉ guarded →
      (∃ o, OutputOf input c o) ∧ ∀ o, OutputOf input c o → o ∈ s.indices)
    (I := fun s => CallsLeft input guarded s.indices)
    ⟨framed.kept, fun c o own => each o own.isOutput c own⟩ (fun _ _ _ _ _ => trivial)
    (fun s id c call _ inv => inv.callStep whole call)
    (fun s id c call _ inv mem free => by
      by_cases present : c ∈ s.indices
      · obtain ⟨some_, _, members⟩ | members :=
          callStep_cases counts budget guarded allowPairAdditions call present
        · exact ⟨some_, fun o own => (members o).mpr (.inr own)⟩
        · exact absurd (((members c).mp mem).2 (.inl rfl)) free
      · rw [CompactTrim.callStep, reconcileCall, if_neg present] at mem
        exact absurd mem present)
    (fun _ _ _ _ always => by cases always)
    fun s id c d own call _ different inv before mem free =>
      callStep_stays call different own before mem free
  rw [← reconcileCalls_eq] at second
  exact ⟨second.1.call, second.2⟩

end Reconcile
end CompactTrim
