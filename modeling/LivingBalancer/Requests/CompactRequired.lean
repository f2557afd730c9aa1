import LivingBalancer.Requests.CompactReconcile

/-!
# What a trim must keep

The anchors and the last item with their tool-call partners, as a closure. With the tokens of the
whole input as its budget the reconciliation computes it.
-/

namespace CompactTrim

open PyJson Requests

variable {F : Type}

/-! ## The closure -/

section Closure

variable {input : List (JsonValue F)} {c o : ℕ}

/-- The first call with the id of an output that no such call precedes. -/
def FirstCall (input : List (JsonValue F)) (c o : ℕ) : Prop :=
  ∃ id, At callId input c id ∧ At outputId input o id ∧
    (∀ c', At callId input c' id → ¬ c' < o) ∧ ∀ c', At callId input c' id → c ≤ c'

/-- The anchors closed under tool-call partners: the call of an output, the outputs of a call, and
for an output that no call precedes the first call with its id if it has outputs. -/
inductive Required (input : List (JsonValue F)) (anchors : Finset ℕ) : ℕ → Prop where
  | anchor {i : ℕ} (mem : i ∈ anchors) : Required input anchors i
  | call {c o : ℕ} (kept : Required input anchors o) (own : OutputOf input c o) :
      Required input anchors c
  | output {c o : ℕ} (kept : Required input anchors c) (own : OutputOf input c o) :
      Required input anchors o
  | first {c o o' : ℕ} (kept : Required input anchors o) (first : FirstCall input c o)
      (own : OutputOf input c o') : Required input anchors c

theorem FirstCall.isCall (h : FirstCall input c o) : IsCall input c := by
  obtain ⟨id, call, _⟩ := h
  exact ⟨id, call⟩

theorem FirstCall.not_outputOf {c' : ℕ} (h : FirstCall input c o) : ¬ OutputOf input c' o := by
  rintro ⟨id', call', output', before, _⟩
  obtain ⟨id, _, output, early, _⟩ := h
  cases output.symm.trans output'
  exact early c' call' before

/-- What `matching_call_index` finds. -/
def Matches (input : List (JsonValue F)) (c o : ℕ) : Prop := OutputOf input c o ∨ FirstCall input c o

theorem Matches.isCall (h : Matches input c o) : IsCall input c :=
  h.elim OutputOf.isCall FirstCall.isCall

theorem matchingCallIndex_eq_some {id : Str} (output : At outputId input o id) :
    matchingCallIndex (indicesOf callId input id) o = some c ↔ Matches input c o := by
  constructor
  · intro h
    refine (matchingCallIndex_cases output h).imp_right ?_
    rintro ⟨call, early, least⟩
    exact ⟨id, call, output, early, least⟩
  · rintro (own | ⟨id', call, output', early, least⟩)
    · exact matchingCallIndex_of_outputOf own output
    · cases output.symm.trans output'
      have none_ : (indicesOf callId input id).filter (fun c => decide (c < o)) = [] :=
        List.filter_eq_nil_iff.mpr fun c' mem less =>
          early c' (mem_indicesOf.mp mem) (of_decide_eq_true less)
      rw [matchingCallIndex, none_, List.getLast?_nil]
      have mem := mem_indicesOf.mpr call
      have sorted := indicesOf_sorted callId input id
      cases calls : indicesOf callId input id with
      | nil =>
        rw [calls] at mem
        cases mem
      | cons c' rest =>
        have first := least c' (mem_indicesOf.mp (by rw [calls]; exact List.mem_cons_self))
        rw [calls] at mem sorted
        obtain rfl | later := List.mem_cons.mp mem
        · rfl
        · have := List.rel_of_pairwise_cons sorted later
          omega

end Closure

/-! ## A budget for everything -/

section Sums

variable {counts : List ℕ} {guarded : Finset ℕ} {sel r : Selection} {is : List ℕ}

/-- The tokens are those of the selected indices. -/
structure Sums (counts : List ℕ) (sel : Selection) : Prop where
  tokens : sel.tokens = ∑ i ∈ sel.indices, (counts.getD i 0 : ℤ)
  bounded : ∀ i ∈ sel.indices, i < counts.length

theorem sum_range_getD (counts : List ℕ) :
    ∑ i ∈ Finset.range counts.length, (counts.getD i 0 : ℤ) = (counts.sum : ℤ) := by
  induction counts with
  | nil => rfl
  | cons n rest ih =>
    rw [List.length_cons, Finset.sum_range_succ', List.sum_cons]
    simp only [List.getD_cons_succ, List.getD_cons_zero]
    rw [ih]
    push_cast
    ring

theorem Sums.removeIndices (h : Sums counts sel) : Sums counts (removeIndices counts guarded sel is) := by
  refine ⟨?_, fun i mem => h.bounded i (mem_removeIndices.mp mem).1⟩
  induction is generalizing sel with
  | nil => exact h.tokens
  | cons i rest ih =>
    rw [CompactTrim.removeIndices, List.foldl_cons]
    refine ih ?_
    split
    · rename_i present
      refine ⟨?_, fun j mem => h.bounded j (Finset.mem_of_mem_erase mem)⟩
      rw [Finset.sum_erase_eq_sub present.1, h.tokens]
    · exact h

/-- With the tokens of the whole input as the budget nothing is refused. -/
theorem Sums.addIndices (h : Sums counts sel) (inside : ∀ i ∈ is, i < counts.length)
    (nodup : is.Nodup) :
    ∃ r, addIndices counts (counts.sum : ℤ) sel is = some r ∧ Sums counts r := by
  have disjoint : Disjoint sel.indices (is.filter fun i => decide (i ∉ sel.indices)).toFinset := by
    refine Finset.disjoint_left.mpr fun i present there => ?_
    have absent := (List.mem_filter.mp (List.mem_toFinset.mp there)).2
    exact of_decide_eq_true absent present
  have missing : ((is.filter fun i => decide (i ∉ sel.indices)).map
      fun i => (counts.getD i 0 : ℤ)).sum =
      ∑ i ∈ (is.filter fun i => decide (i ∉ sel.indices)).toFinset, (counts.getD i 0 : ℤ) :=
    (List.sum_toFinset _ (nodup.filter _)).symm
  have bounded : ∀ i ∈ sel.indices ∪ (is.filter fun i => decide (i ∉ sel.indices)).toFinset,
      i < counts.length := by
    intro i mem
    obtain old | new := Finset.mem_union.mp mem
    · exact h.bounded i old
    · exact inside i (List.mem_of_mem_filter (List.mem_toFinset.mp new))
  have total : sel.tokens + ((is.filter fun i => decide (i ∉ sel.indices)).map
      fun i => (counts.getD i 0 : ℤ)).sum ≤ (counts.sum : ℤ) := by
    rw [h.tokens, missing, ← Finset.sum_union disjoint, ← sum_range_getD]
    refine Finset.sum_le_sum_of_subset_of_nonneg (fun i mem => ?_) fun i _ _ => by omega
    exact Finset.mem_range.mpr (bounded i mem)
  rw [CompactTrim.addIndices, if_neg (not_lt.mpr total)]
  refine ⟨_, rfl, ?_, bounded⟩
  rw [Finset.sum_union disjoint, ← missing, h.tokens]

end Sums

/-! ## The reconciliation of the anchors -/

section Anchors

variable {counts : List ℕ} {anchors : Finset ℕ} {input : List (JsonValue F)} {sel : Selection}
variable {id : Str} {c o i : ℕ}

/-- The step with additions, all tokens as the budget, and the anchors guarded. -/
theorem outputStep_all (sums : Sums counts sel) (length : counts.length = input.length)
    (output : At outputId input o id) (anchor : o ∈ anchors) :
    Sums counts (outputStep counts counts.sum anchors true input id sel o) ∧
    ∀ i, i ∈ (outputStep counts counts.sum anchors true input id sel o).indices ↔
      i ∈ sel.indices ∨ Matches input i o := by
  have single : ∀ c, matchingCallIndex (indicesOf callId input id) o = some c ↔ Matches input c o :=
    fun c => matchingCallIndex_eq_some output
  rw [outputStep, reconcileOutput]
  cases matched : matchingCallIndex (indicesOf callId input id) o with
  | none =>
    refine ⟨sums.removeIndices, fun i => ?_⟩
    have unmatched : ¬ Matches input i o := fun h => by
      rw [← single, matched] at h
      cases h
    rw [mem_removeIndices, List.mem_singleton]
    refine ⟨fun both => .inl both.1, fun either => ⟨either.resolve_right unmatched, ?_⟩⟩
    rintro rfl
    exact anchor
  | some c =>
    obtain ⟨r, added, sums'⟩ := @Sums.addIndices counts sel [c] sums
      (fun i mem => by
        rw [List.mem_singleton.mp mem, length]
        exact (matching_isCall output matched).lt_length)
      (List.nodup_singleton c)
    simp only [Bool.not_true, Bool.false_and, Bool.false_eq_true, if_false, added, Option.getD_some]
    refine ⟨sums', fun i => ?_⟩
    rw [mem_addIndices added, List.mem_singleton, ← single, matched, Option.some.injEq]
    exact or_congr_right eq_comm

variable (anchors) in
theorem callStep_sums (sums : Sums counts sel) (length : counts.length = input.length)
    (call : At callId input c id) :
    Sums counts (callStep counts counts.sum anchors true input id sel c) := by
  rw [callStep, reconcileCall]
  split
  · simp only [Bool.not_true, Bool.false_and, Bool.false_eq_true, if_false]
    split
    · exact sums.removeIndices
    · obtain ⟨r, added, sums'⟩ := @Sums.addIndices counts sel
        (matchingOutputIndices (indicesOf callId input id) c (indicesOf outputId input id)) sums
        (fun i mem => by
          obtain ⟨_, _, output, _⟩ := (mem_matchingOutputIndices call).mp mem
          rw [length]
          exact output.lt_length)
        (((indicesOf_sorted outputId input id).imp fun less => less.ne).filter _)
      rw [added]
      exact sums'
  · exact sums

variable (anchors) in
/-- A call with outputs brings them all. -/
theorem callStep_all (sums : Sums counts sel) (length : counts.length = input.length)
    (call : At callId input c id) (present : c ∈ sel.indices) (some_ : ∃ o, OutputOf input c o) :
    ∀ i, i ∈ (callStep counts counts.sum anchors true input id sel c).indices ↔
      i ∈ sel.indices ∨ OutputOf input c i := by
  intro i
  obtain ⟨o, own⟩ := some_
  have matched : matchingOutputIndices (indicesOf callId input id) c (indicesOf outputId input id) ≠
      [] := List.ne_nil_of_mem ((mem_matchingOutputIndices call).mpr own)
  obtain ⟨r, added, _⟩ := @Sums.addIndices counts sel
    (matchingOutputIndices (indicesOf callId input id) c (indicesOf outputId input id)) sums
    (fun i mem => by
      obtain ⟨_, _, output, _⟩ := (mem_matchingOutputIndices call).mp mem
      rw [length]
      exact output.lt_length)
    (((indicesOf_sorted outputId input id).imp fun less => less.ne).filter _)
  rw [callStep, reconcileCall, if_pos present]
  simp only [matched, Bool.not_true, Bool.false_and, Bool.false_eq_true, if_false, added,
    Option.getD_some]
  rw [mem_addIndices added, mem_matchingOutputIndices call]

variable (counts anchors) in
/-- A call without outputs goes unless it is an anchor. -/
theorem callStep_none (call : At callId input c id) (present : c ∈ sel.indices)
    (none_ : ¬ ∃ o, OutputOf input c o) :
    ∀ i, i ∈ (callStep counts counts.sum anchors true input id sel c).indices ↔
      i ∈ sel.indices ∧ (i = c → i ∈ anchors) := by
  intro i
  have matched : matchingOutputIndices (indicesOf callId input id) c (indicesOf outputId input id) =
      [] := List.eq_nil_iff_forall_not_mem.mpr fun o mem =>
    none_ ⟨o, (mem_matchingOutputIndices call).mp mem⟩
  rw [callStep, reconcileCall, if_pos present]
  simp only [matched, if_true]
  rw [mem_removeIndices, List.mem_singleton]

/-- What the first loop makes of the anchors. -/
structure WithCalls (counts : List ℕ) (anchors : Finset ℕ) (input : List (JsonValue F))
    (sel : Selection) : Prop where
  sums : Sums counts sel
  kept : anchors ⊆ sel.indices
  origin : ∀ i ∈ sel.indices, i ∈ anchors ∨ ∃ o ∈ anchors, IsOutput input o ∧ Matches input i o

theorem WithCalls.anchor (h : WithCalls counts anchors input sel) (mem : o ∈ sel.indices)
    (output : IsOutput input o) : o ∈ anchors := by
  obtain anchor | ⟨_, _, _, matches_⟩ := h.origin o mem
  · exact anchor
  · exact absurd output matches_.isCall.not_output

theorem withCalls_outputs (bounded : ∀ i ∈ anchors, i < input.length)
    (length : counts.length = input.length) :
    WithCalls counts anchors input (reconcileOutputs counts counts.sum anchors true
      (indicesById callId input) (indicesById outputId input) (selectionOf counts anchors)) ∧
    ∀ o, IsOutput input o → o ∈ anchors → ∀ c, Matches input c o →
      c ∈ (reconcileOutputs counts counts.sum anchors true (indicesById callId input)
        (indicesById outputId input) (selectionOf counts anchors)).indices := by
  rw [reconcileOutputs_eq]
  have start : WithCalls counts anchors input (selectionOf counts anchors) :=
    ⟨⟨rfl, fun i mem => length ▸ bounded i mem⟩, fun _ mem => mem, fun i mem => .inl mem⟩
  refine groups_each (outputStep counts counts.sum anchors true input)
    (fun s o => decide (o ∈ s.indices)) (T := fun o => o ∈ anchors)
    (I := fun s => WithCalls counts anchors input s)
    (Q := fun o s => o ∈ anchors → ∀ c, Matches input c o → c ∈ s.indices) start
    (fun s o inv output picked => inv.anchor (of_decide_eq_true picked) output)
    (fun s id o output anchor inv => ?_) (fun s id o output anchor inv _ c own => ?_)
    (fun s o _ inv absent anchor => absurd (inv.kept anchor) (of_decide_eq_false absent))
    fun s id o j _ output anchor _ inv before anchor' c own => ?_
  · obtain ⟨sums, members⟩ := outputStep_all inv.sums length output anchor
    refine ⟨sums, fun i mem => (members i).mpr (.inl (inv.kept mem)), fun i mem => ?_⟩
    obtain old | new := (members i).mp mem
    · exact inv.origin i old
    · exact .inr ⟨o, anchor, ⟨id, output⟩, new⟩
  · exact ((outputStep_all inv.sums length output anchor).2 c).mpr (.inr own)
  · exact ((outputStep_all inv.sums length output anchor).2 c).mpr (.inl (before anchor' c own))

/-- What the second loop makes of a selection. -/
structure WithOutputs (counts : List ℕ) (anchors : Finset ℕ) (input : List (JsonValue F))
    (before : Finset ℕ) (sel : Selection) : Prop where
  sums : Sums counts sel
  kept : anchors ⊆ sel.indices
  origin : ∀ i ∈ sel.indices, i ∈ before ∨ ∃ c ∈ before, OutputOf input c i
  calls : ∀ c ∈ before, (∃ o, OutputOf input c o) → c ∈ sel.indices

/-- A call has brought its outputs, or is gone. -/
structure Settled (anchors : Finset ℕ) (input : List (JsonValue F)) (before : Finset ℕ) (c : ℕ)
    (s : Finset ℕ) : Prop where
  present : c ∈ s → c ∈ anchors ∨ ∃ o, OutputOf input c o
  outputs : c ∈ before → ∀ o, OutputOf input c o → o ∈ s

variable {before : Finset ℕ}

theorem WithOutputs.from_before (h : WithOutputs counts anchors input before sel)
    (mem : c ∈ sel.indices) (call : IsCall input c) : c ∈ before := by
  obtain old | ⟨_, _, own⟩ := h.origin c mem
  · exact old
  · exact absurd own.isOutput call.not_output

theorem WithOutputs.callStep (h : WithOutputs counts anchors input before sel)
    (length : counts.length = input.length) (call : At callId input c id) :
    WithOutputs counts anchors input before
      (callStep counts counts.sum anchors true input id sel c) := by
  have sums := callStep_sums anchors h.sums length call
  by_cases present : c ∈ sel.indices
  · by_cases some_ : ∃ o, OutputOf input c o
    · have members := callStep_all anchors h.sums length call present some_
      refine ⟨sums, fun i mem => (members i).mpr (.inl (h.kept mem)), fun i mem => ?_,
        fun c' mem own => (members c').mpr (.inl (h.calls c' mem own))⟩
      obtain old | new := (members i).mp mem
      · exact h.origin i old
      · exact .inr ⟨c, h.from_before present ⟨id, call⟩, new⟩
    · have members := callStep_none counts anchors call present some_
      refine ⟨sums, fun i mem => (members i).mpr ⟨h.kept mem, fun _ => mem⟩,
        fun i mem => h.origin i ((members i).mp mem).1, fun c' mem own => ?_⟩
      refine (members c').mpr ⟨h.calls c' mem own, ?_⟩
      rintro rfl
      exact absurd own some_
  · rwa [CompactTrim.callStep, reconcileCall, if_neg present]

theorem callStep_settled (h : WithOutputs counts anchors input before sel)
    (length : counts.length = input.length) (call : At callId input c id) :
    Settled anchors input before c
      (callStep counts counts.sum anchors true input id sel c).indices := by
  by_cases present : c ∈ sel.indices
  · by_cases some_ : ∃ o, OutputOf input c o
    · have members := callStep_all anchors h.sums length call present some_
      exact ⟨fun _ => .inr some_, fun _ o own => (members o).mpr (.inr own)⟩
    · have members := callStep_none counts anchors call present some_
      exact ⟨fun mem => .inl (((members c).mp mem).2 rfl), fun _ o own => absurd ⟨o, own⟩ some_⟩
  · rw [callStep, reconcileCall, if_neg present]
    exact ⟨fun mem => absurd mem present, fun old o own => absurd (h.calls c old ⟨o, own⟩) present⟩

theorem callStep_keeps_settled {d : ℕ} (h : WithOutputs counts anchors input before sel)
    (length : counts.length = input.length) (call : At callId input d id) (own : IsCall input c)
    (settled : Settled anchors input before c sel.indices) : Settled anchors input before c
      (callStep counts counts.sum anchors true input id sel d).indices := by
  by_cases present : d ∈ sel.indices
  · by_cases some_ : ∃ o, OutputOf input d o
    · have members := callStep_all anchors h.sums length call present some_
      refine ⟨fun mem => ?_, fun old o output => (members o).mpr (.inl (settled.outputs old o output))⟩
      obtain there | output := (members c).mp mem
      · exact settled.present there
      · exact absurd output.isOutput own.not_output
    · have members := callStep_none counts anchors call present some_
      refine ⟨fun mem => settled.present ((members c).mp mem).1, fun old o output => ?_⟩
      refine (members o).mpr ⟨settled.outputs old o output, ?_⟩
      rintro rfl
      exact absurd output.isOutput (IsCall.not_output ⟨id, call⟩)
  · rwa [callStep, reconcileCall, if_neg present]

/-- The reconciled anchors are the anchors closed under tool-call partners. -/
theorem mem_reconciled_anchors (bounded : ∀ i ∈ anchors, i < input.length)
    (length : counts.length = input.length) :
    i ∈ compactReconciledToolCallIndices counts counts.sum anchors true input anchors ↔
      Required input anchors i := by
  obtain ⟨first, brought⟩ := withCalls_outputs bounded length
  have second := groups_each (callStep counts counts.sum anchors true input) (fun _ _ => true)
    (T := fun _ => True)
    (I := fun s => WithOutputs counts anchors input (reconcileOutputs counts counts.sum anchors true
      (indicesById callId input) (indicesById outputId input) (selectionOf counts anchors)).indices s)
    (Q := fun c s => Settled anchors input (reconcileOutputs counts counts.sum anchors true
      (indicesById callId input) (indicesById outputId input) (selectionOf counts anchors)).indices c
      s.indices)
    ⟨first.sums, first.kept, fun _ mem => .inl mem, fun _ mem _ => mem⟩ (fun _ _ _ _ _ => trivial)
    (fun s id c call _ inv => inv.callStep length call)
    (fun s id c call _ inv => callStep_settled inv length call)
    (fun _ _ _ _ always => by cases always)
    fun s id c d own call _ _ inv settled => callStep_keeps_settled inv length call own settled
  rw [← reconcileCalls_eq] at second
  obtain ⟨inv, settled⟩ := second
  change i ∈ (reconcileCalls counts counts.sum anchors true _ _ _).indices ↔ _
  generalize reconcileOutputs counts counts.sum anchors true (indicesById callId input)
    (indicesById outputId input) (selectionOf counts anchors) = start at first brought inv settled ⊢
  generalize reconcileCalls counts counts.sum anchors true (indicesById callId input)
    (indicesById outputId input) start = final at inv settled ⊢
  -- a call of the first loop is required once it has outputs
  have callRequired : ∀ c ∈ start.indices, IsCall input c →
      (c ∈ anchors ∨ ∃ o, OutputOf input c o) → Required input anchors c := by
    intro c mem call reason
    by_cases anchor : c ∈ anchors
    · exact .anchor anchor
    · obtain ⟨o', own'⟩ := reason.resolve_left anchor
      obtain ⟨o, there, _, own | early⟩ := (first.origin c mem).resolve_left anchor
      · exact .call (.anchor there) own
      · exact .first (.anchor there) early own'
  constructor
  · intro mem
    obtain old | ⟨c, there, own⟩ := inv.origin i mem
    · by_cases anchor : i ∈ anchors
      · exact .anchor anchor
      · obtain ⟨o, _, _, matches_⟩ := (first.origin i old).resolve_left anchor
        exact callRequired i old matches_.isCall ((settled i matches_.isCall).present mem)
    · exact .output (callRequired c there own.isCall (.inr ⟨i, own⟩)) own
  · intro required
    induction required with
    | anchor mem => exact inv.kept mem
    | @call c o _ own ih =>
      obtain old | ⟨c', there, own'⟩ := inv.origin o ih
      · have anchor := first.anchor old own.isOutput
        exact inv.calls c (brought o own.isOutput anchor c (.inl own)) ⟨o, own⟩
      · rw [own.unique own']
        exact inv.calls c' there ⟨o, own'⟩
    | @output c o _ own ih =>
      exact (settled c own.isCall).outputs (inv.from_before ih own.isCall) o own
    | @first c o o' _ early own ih =>
      have output : IsOutput input o := by
        obtain ⟨id, _, output, _⟩ := early
        exact ⟨id, output⟩
      obtain old | ⟨c', _, own'⟩ := inv.origin o ih
      · have anchor := first.anchor old output
        exact inv.calls c (brought o output anchor c (.inr early)) ⟨o', own⟩
      · exact absurd own' early.not_outputOf

end Anchors
end CompactTrim
