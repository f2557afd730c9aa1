import Mathlib.Data.List.Basic
import LivingBalancer.Chat.ChatCompletions

/-!
# What a slot holds

A slot that no delta has reached reads as the blank state, so a merge changes the one slot of
its delta. A call is written into the message exactly when it has an id, a name or text.
-/

namespace Chat

open PyJson
open ToolCallDedupe (Obj Obj.get asStr asObj)

variable {F : Type}

/-! ## Slots of a list -/

/-- The call of a slot, blank behind the end of the list. -/
def callAt (calls : List ToolCallState) (i : ℕ) : ToolCallState := (calls[i]?).getD { index := i }

theorem callAt_nil (i : ℕ) : callAt [] i = { index := i } := rfl

theorem padToolCalls_length (calls : List ToolCallState) (index : ℕ) :
    index < (padToolCalls calls index).length := by
  simp only [padToolCalls, List.length_append, List.length_map, List.length_range']
  omega

theorem callAt_pad (calls : List ToolCallState) (index i : ℕ) :
    callAt (padToolCalls calls index) i = callAt calls i := by
  rw [callAt, callAt, padToolCalls]
  by_cases old : i < calls.length
  · rw [List.getElem?_append_left old]
  · have past : calls.length ≤ i := by omega
    rw [List.getElem?_append_right past, List.getElem?_eq_none past, List.getElem?_map]
    by_cases new : i - calls.length < index + 1 - calls.length
    · rw [List.getElem?_range' new]
      simp only [Option.map_some, Option.getD_some, Option.getD_none, Nat.one_mul]
      congr
      omega
    · rw [List.getElem?_eq_none (by simpa using new)]
      rfl

theorem callAt_set {calls : List ToolCallState} {i : ℕ} (inside : i < calls.length)
    (call : ToolCallState) (j : ℕ) :
    callAt (calls.set i call) j = if j = i then call else callAt calls j := by
  rw [callAt, callAt, List.getElem?_set]
  by_cases same : i = j
  · subst same
    simp [inside]
  · simp [same, Ne.symm same]

theorem callAt_merge (calls : List ToolCallState) (delta : ToolCallDelta) (i : ℕ) :
    callAt (mergeToolCallDelta calls delta) i
      = if i = delta.index then (callAt calls i).applyDelta delta else callAt calls i := by
  rw [← callAt_pad calls delta.index i, callAt, callAt, mergeToolCallDelta]
  by_cases same : i = delta.index
  · subst same
    have inside := padToolCalls_length calls delta.index
    rw [List.getElem?_modify_eq, if_pos rfl, List.getElem?_eq_getElem inside]
    rfl
  · rw [List.getElem?_modify_ne _ _ (Ne.symm same), if_neg same]

/-- A list, read slot by slot up to any bound behind its end. -/
theorem filterMap_range {α β : Type} (read : α → Option β) (slots : List α) (at_ : ℕ → α)
    (inside : ∀ i (h : i < slots.length), at_ i = slots[i]) {n : ℕ} (long : slots.length ≤ n)
    (blank : ∀ i, slots.length ≤ i → read (at_ i) = none) :
    slots.filterMap read = (List.range n).filterMap fun i => read (at_ i) := by
  obtain ⟨k, rfl⟩ := Nat.exists_eq_add_of_le long
  rw [List.range_add, List.filterMap_append]
  have behind : ((List.range k).map (slots.length + ·)).filterMap (fun i => read (at_ i)) = [] := by
    rw [List.filterMap_eq_nil_iff]
    intro i mem
    obtain ⟨j, -, rfl⟩ := List.mem_map.mp mem
    exact blank _ (Nat.le_add_right _ _)
  have front : (List.range slots.length).map at_ = slots := by
    refine List.ext_getElem (by simp) fun i h _ => ?_
    rw [List.getElem_map, List.getElem_range]
    exact inside i (by simpa using h)
  rw [behind, List.append_nil]
  conv_lhs => rw [← front]
  rw [List.filterMap_map]
  rfl

/-! ## Calls with anything in them -/

/-- The call has an id, a name or argument text. -/
def Filled (call : ToolCallState) : Prop :=
  call.callId ≠ none ∨ call.name ≠ none ∨ call.arguments ≠ []

theorem toMessageToolCall_none_iff (call : ToolCallState) :
    call.toMessageToolCall = none ↔ ¬ Filled call := by
  obtain ⟨index, callId, name, arguments, toolType, _, _, _, _⟩ := call
  cases callId <;> cases name <;> cases arguments <;>
    simp [ToolCallState.toMessageToolCall, buildToolCallFunction, Filled]

theorem compactToolCalls_ne_nil_iff (calls : List ToolCallState) :
    compactToolCalls calls ≠ [] ↔ ∃ i, Filled (callAt calls i) := by
  rw [compactToolCalls, Ne, List.filterMap_eq_nil_iff]
  constructor
  · intro some_filled
    simp only [not_forall, exists_prop] at some_filled
    obtain ⟨call, mem, shown⟩ := some_filled
    obtain ⟨i, inside, rfl⟩ := List.mem_iff_getElem.mp mem
    refine ⟨i, ?_⟩
    rw [callAt, List.getElem?_eq_getElem inside]
    by_contra empty
    exact shown ((toMessageToolCall_none_iff _).mpr empty)
  · rintro ⟨i, filled⟩ none_filled
    by_cases inside : i < calls.length
    · rw [callAt, List.getElem?_eq_getElem inside] at filled
      exact (toMessageToolCall_none_iff _).mp (none_filled _ (List.getElem_mem inside)) filled
    · rw [callAt, List.getElem?_eq_none (by omega)] at filled
      simp [Filled] at filled

/-! ## Calls made of deltas -/

/-- The calls that deltas have left. -/
def callsOf (deltas : List ToolCallDelta) : List ToolCallState := deltas.foldl mergeToolCallDelta []

theorem callsOf_concat (deltas : List ToolCallDelta) (delta : ToolCallDelta) :
    callsOf (deltas ++ [delta]) = mergeToolCallDelta (callsOf deltas) delta := by
  rw [callsOf, List.foldl_append]
  rfl

theorem callAt_concat (deltas : List ToolCallDelta) (delta : ToolCallDelta) (i : ℕ) :
    callAt (callsOf (deltas ++ [delta])) i
      = if i = delta.index then (callAt (callsOf deltas) i).applyDelta delta
        else callAt (callsOf deltas) i := by
  rw [callsOf_concat, callAt_merge]

/-- Neither id, name nor type of a delta is the empty text. -/
structure Stated (delta : ToolCallDelta) : Prop where
  callId : delta.callId ≠ some []
  name : delta.name ≠ some []
  toolType : delta.toolType ≠ some []

/-- The whole arguments of the slot, as an empty text. -/
def Blanks (i : ℕ) (delta : ToolCallDelta) : Prop :=
  delta.index = i ∧ delta.argumentsMode = .replace ∧ delta.arguments = some []

/-- The delta leaves something in its call, whatever `later` says. -/
def Leaves (delta : ToolCallDelta) (later : List ToolCallDelta) : Prop :=
  delta.callId ≠ none ∨ delta.name ≠ none ∨
    (delta.arguments ≠ none ∧ delta.arguments ≠ some [] ∧ ∀ d ∈ later, ¬ Blanks delta.index d)

theorem overwrite_ne_none {target value : Option Str} (stated : value ≠ some []) :
    overwrite target value ≠ none ↔ value ≠ none ∨ target ≠ none := by
  cases value with
  | none => simp [overwrite]
  | some t =>
    cases t with
    | nil => exact absurd rfl stated
    | cons c rest => simp [overwrite]

theorem applyDelta_arguments_ne_nil (call : ToolCallState) (delta : ToolCallDelta) :
    (call.applyDelta delta).arguments ≠ [] ↔
      (delta.arguments ≠ none ∧ delta.arguments ≠ some []) ∨
      (call.arguments ≠ [] ∧ ¬ (delta.argumentsMode = .replace ∧ delta.arguments = some [])) := by
  cases arguments : delta.arguments with
  | none => simp [ToolCallState.applyDelta, arguments]
  | some t =>
    cases mode : delta.argumentsMode with
    | append =>
      by_cases empty : call.arguments = []
      · simp [ToolCallState.applyDelta, arguments, mode, empty]
      · simp [ToolCallState.applyDelta, arguments, mode, empty]
    | replace => cases t <;> simp [ToolCallState.applyDelta, arguments, mode]

/-- A part of a call that some deltas set and some clear is there when a delta has set it that
no later delta of the slot has cleared. -/
theorem callAt_part (part : ToolCallState → Prop) (sets clears : ToolCallDelta → Prop)
    {deltas : List ToolCallDelta} (blank : ∀ i : ℕ, ¬ part { index := i })
    (applied : ∀ call, ∀ delta ∈ deltas,
      (part (call.applyDelta delta) ↔ sets delta ∨ part call ∧ ¬ clears delta)) (i : ℕ) :
    part (callAt (callsOf deltas) i) ↔ ∃ before delta later, deltas = before ++ delta :: later ∧
      delta.index = i ∧ sets delta ∧ ∀ d ∈ later, d.index = i → ¬ clears d := by
  induction deltas using List.reverseRecOn with
  | nil => simp [callsOf, callAt_nil, blank]
  | append_singleton deltas delta ih =>
    have ih := ih fun call d mem => applied call d (List.mem_append_left _ mem)
    have here := applied (callAt (callsOf deltas) i) delta (by simp)
    rw [callAt_concat]
    constructor
    · intro present
      by_cases own : i = delta.index
      · rw [if_pos own, here] at present
        rcases present with sets | ⟨before, kept⟩
        · exact ⟨deltas, delta, [], rfl, own.symm, sets, by simp⟩
        · obtain ⟨front, d, later, rfl, index, sets, uncleared⟩ := ih.mp before
          refine ⟨front, d, later ++ [delta], by simp, index, sets, ?_⟩
          intro e mem
          rcases List.mem_append.mp mem with mem | mem
          · exact uncleared e mem
          · rw [List.mem_singleton.mp mem]
            exact fun _ => kept
      · rw [if_neg own] at present
        obtain ⟨front, d, later, rfl, index, sets, uncleared⟩ := ih.mp present
        refine ⟨front, d, later ++ [delta], by simp, index, sets, ?_⟩
        intro e mem
        rcases List.mem_append.mp mem with mem | mem
        · exact uncleared e mem
        · rw [List.mem_singleton.mp mem]
          exact fun same => absurd same.symm own
    · rintro ⟨front, d, later, split, index, sets, uncleared⟩
      rcases List.eq_nil_or_concat later with rfl | ⟨later, last, rfl⟩
      · obtain ⟨-, same⟩ := List.append_inj' split rfl
        obtain rfl : delta = d := List.singleton_inj.mp same
        rw [if_pos index.symm, here]
        exact .inl sets
      · rw [List.concat_eq_append, ← List.cons_append, ← List.append_assoc] at split
        rw [List.concat_eq_append] at uncleared
        obtain ⟨rfl, same⟩ := List.append_inj' split rfl
        obtain rfl : delta = last := List.singleton_inj.mp same
        have present := ih.mpr ⟨front, d, later, rfl, index, sets,
          fun e mem => uncleared e (List.mem_append_left _ mem)⟩
        split_ifs with own
        · rw [here]
          exact .inr ⟨present, uncleared delta (by simp) own.symm⟩
        · exact present

/-- Something is left of a list of deltas when one of them leaves something. -/
theorem filled_iff {deltas : List ToolCallDelta} (stated : ∀ delta ∈ deltas, Stated delta) :
    (∃ i, Filled (callAt (callsOf deltas) i)) ↔
      ∃ before delta later, deltas = before ++ delta :: later ∧ Leaves delta later := by
  have ids := callAt_part (fun call => call.callId ≠ none) (fun delta => delta.callId ≠ none)
    (fun _ => False) (fun _ => by simp) fun call delta (mem : delta ∈ deltas) => by
      simpa [ToolCallState.applyDelta] using overwrite_ne_none (stated delta mem).callId
  have names := callAt_part (fun call => call.name ≠ none) (fun delta => delta.name ≠ none)
    (fun _ => False) (fun _ => by simp) fun call delta (mem : delta ∈ deltas) => by
      simpa [ToolCallState.applyDelta] using overwrite_ne_none (stated delta mem).name
  have texts := callAt_part (fun call => call.arguments ≠ [])
    (fun delta => delta.arguments ≠ none ∧ delta.arguments ≠ some [])
    (fun delta => delta.argumentsMode = .replace ∧ delta.arguments = some []) (fun _ => by simp)
    fun call delta (_ : delta ∈ deltas) => applyDelta_arguments_ne_nil call delta
  constructor
  · rintro ⟨i, id | name | arguments⟩
    · obtain ⟨before, delta, later, split, -, sets, -⟩ := (ids i).mp id
      exact ⟨before, delta, later, split, .inl sets⟩
    · obtain ⟨before, delta, later, split, -, sets, -⟩ := (names i).mp name
      exact ⟨before, delta, later, split, .inr (.inl sets)⟩
    · obtain ⟨before, delta, later, split, index, sets, uncleared⟩ := (texts i).mp arguments
      refine ⟨before, delta, later, split, .inr (.inr ⟨sets.1, sets.2, fun d mem blanks => ?_⟩)⟩
      exact uncleared d mem (blanks.1.trans index) blanks.2
  · rintro ⟨before, delta, later, split, id | name | ⟨stated, shown, uncleared⟩⟩
    · exact ⟨delta.index, .inl ((ids _).mpr ⟨before, delta, later, split, rfl, id, by simp⟩)⟩
    · exact ⟨delta.index, .inr (.inl ((names _).mpr
        ⟨before, delta, later, split, rfl, name, by simp⟩))⟩
    · refine ⟨delta.index, .inr (.inr ((texts _).mpr
        ⟨before, delta, later, split, rfl, ⟨stated, shown⟩, fun d mem index clears => ?_⟩))⟩
      exact uncleared d mem ⟨index, clears⟩

/-! ## Deltas of events -/

theorem firstStr_ne_nil (values : List (JsonValue F)) : firstStr values ≠ some [] := by
  intro h
  obtain ⟨value, -, found⟩ := List.exists_of_findSome?_eq_some h
  exact absurd rfl (of_decide_eq_true (Option.filter_eq_some_iff.mp found).2)

theorem or_ne_nil {a b : Option Str} (ha : a ≠ some []) (hb : b ≠ some []) : a.or b ≠ some [] := by
  cases a with
  | none => simpa using hb
  | some t => simpa using ha

/-- The texts of a delta that are none of its arguments are not empty. -/
theorem stated_of_payload {payload : Obj F} {ix ix' : ToolCallIndex} {delta : ToolCallDelta}
    (h : toolCallDeltaFromPayload payload ix = (some delta, ix')) : Stated delta := by
  rw [toolCallDeltaFromPayload] at h
  split_ifs at h
  case neg => cases h
  split at h
  · cases h
  · rename_i fields extracted
    cases h
    simp only [extractToolCallFields] at extracted
    split_ifs at extracted
    cases extracted
    refine ⟨or_ne_nil (firstStr_ne_nil _) (firstStr_ne_nil _),
      or_ne_nil (firstStr_ne_nil _) (or_ne_nil (firstStr_ne_nil _)
        (or_ne_nil (firstStr_ne_nil _) (firstStr_ne_nil _))), ?_⟩
    intro empty
    obtain ⟨t, found, same⟩ := Option.map_eq_some_iff.mp empty
    have shown : t ≠ [] := by
      rintro rfl
      exact firstStr_ne_nil _ (Option.filter_eq_some_iff.mp found).1
    split_ifs at same
    · exact absurd same (by decide)
    · exact shown same

/-- The deltas read from events, in order. -/
def toolDeltas : List (Obj F) → ToolCallIndex → List ToolCallDelta
  | [], _ => []
  | payload :: rest, ix =>
    (toolCallDeltaFromPayload payload ix).1.toList
      ++ toolDeltas rest (toolCallDeltaFromPayload payload ix).2

/-- The index behind events. -/
def indexAfter (payloads : List (Obj F)) (ix : ToolCallIndex) : ToolCallIndex :=
  payloads.foldl (fun ix payload => (toolCallDeltaFromPayload payload ix).2) ix

theorem indexAfter_append (front back : List (Obj F)) (ix : ToolCallIndex) :
    indexAfter (front ++ back) ix = indexAfter back (indexAfter front ix) :=
  List.foldl_append

theorem toolDeltas_append (front back : List (Obj F)) (ix : ToolCallIndex) :
    toolDeltas (front ++ back) ix = toolDeltas front ix ++ toolDeltas back (indexAfter front ix) := by
  induction front generalizing ix with
  | nil => rfl
  | cons payload rest ih =>
    rw [List.cons_append, toolDeltas, toolDeltas, ih, List.append_assoc]
    rfl

theorem stated_of_events (payloads : List (Obj F)) (ix : ToolCallIndex) :
    ∀ delta ∈ toolDeltas payloads ix, Stated delta := by
  induction payloads generalizing ix with
  | nil => simp [toolDeltas]
  | cons payload rest ih =>
    intro delta mem
    rcases List.mem_append.mp mem with here | later
    · exact stated_of_payload (Prod.ext (Option.mem_toList.mp here) rfl)
    · exact ih _ delta later

end Chat
