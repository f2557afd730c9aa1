import LivingBalancer.Chat.ToolCallSlots
import LivingBalancer.Lib.FirstOccurrence

/-!
# Slots of interleaved tool calls

An event reaches its slot through its output index, else through its routing key, and the slot is
filed under both and under the id of the item. The slots follow the calls as long as each event
reaches what its own call has filed, or opens the next slot as the first event of its call.
-/

namespace ToolCallRouting

open PyJson Chat FirstOccurrence
open ToolCallDedupe (Obj Obj.get asStr asObj)

variable {κ : Type*} {F : Type}

/-! ## Routes -/

/-- What an event reaches its slot by, with the key of its item. -/
structure Route where
  output : Option ℤ
  key : Option Str
  itemKey : Option Str
  keyed : key = none → itemKey = none

namespace Route

/-- The keys that the slot is filed under. -/
def keys (r : Route) : List Str := r.key.toList ++ r.itemKey.toList

/-- Nothing to reach a slot by. -/
def Bare (r : Route) : Prop := r.output = none ∧ r.key = none

instance : DecidablePred Bare := fun r => inferInstanceAs (Decidable (r.output = none ∧ r.key = none))

theorem mem_keys {r : Route} {k : Str} : k ∈ r.keys ↔ r.key = some k ∨ r.itemKey = some k := by
  simp [keys]

theorem Bare.keys {r : Route} (bare : r.Bare) : r.keys = [] := by
  simp [Route.keys, bare.2, r.keyed bare.2]

end Route

/-- The `routing_id` of `_tool_call_delta_from_payload`. -/
def routingId (payload : Obj F) (fields : ToolCallFields) : Option Str :=
  fields.callId.or (firstStr [payload.get "item_id", getIn (asObj (payload.get "item")) "id"])

/-- The key of `_register_item_id_alias`. -/
def itemKey (payload : Obj F) : Option Str :=
  (asObj (payload.get "item")).bind fun item =>
    match asStr (item.get "id") with
    | some (c :: rest) =>
      if asStr (item.get "call_id") = some (c :: rest) then none else some (text "id:" ++ c :: rest)
    | _ => none

theorem callId_ne_nil {payload : Obj F} {fields : ToolCallFields}
    (h : extractToolCallFields payload = some fields) : fields.callId ≠ some [] := by
  simp only [extractToolCallFields] at h
  split_ifs at h
  cases h
  exact or_ne_nil (firstStr_ne_nil _) (firstStr_ne_nil _)

theorem toolCallKey_eq_none {callId name : Option Str} (stated : callId ≠ some [])
    (h : toolCallKey callId name = none) : callId = none := by
  cases callId with
  | none => rfl
  | some t =>
    cases t with
    | nil => exact absurd rfl stated
    | cons c rest => cases h

theorem itemKey_eq_none {payload : Obj F} {fields : ToolCallFields}
    (extracted : extractToolCallFields payload = some fields)
    (h : toolCallKey (routingId payload fields) fields.name = none) : itemKey payload = none := by
  have unrouted := toolCallKey_eq_none (or_ne_nil (callId_ne_nil extracted) (firstStr_ne_nil _)) h
  have noId := List.findSome?_eq_none_iff.mp (Option.or_eq_none_iff.mp unrouted).2
    (getIn (asObj (payload.get "item")) "id") (by simp)
  unfold itemKey
  cases item : asObj (payload.get "item") with
  | none => rfl
  | some d =>
    rw [item] at noId
    change (asStr (d.get "id")).filter _ = none at noId
    rw [Option.bind_some]
    split
    · rename_i c rest id
      rw [id] at noId
      simp at noId
    · rfl

/-- The route of an event that gives a delta. -/
def routeOf (payload : Obj F) : Option Route :=
  if isToolCallEvent payload then
    match extracted : extractToolCallFields payload with
    | none => none
    | some fields =>
      some ⟨asInt (payload.get "output_index"),
        toolCallKey (routingId payload fields) fields.name, itemKey payload, itemKey_eq_none extracted⟩
  else none

/-! ## What an event does to the index -/

/-- The slot that a route reaches. -/
def known (ix : ToolCallIndex) (r : Route) : Option ℕ :=
  (r.output.bind ix.outputIndexMap.get).or (r.key.bind ix.indexes.get)

def slotOf (ix : ToolCallIndex) (r : Route) : ℕ :=
  (known ix r).getD (if r.Bare then 0 else ix.nextIndex)

/-- The slot is filed under the key and the output index, and a new one is counted. -/
theorem indexForOutputIndex_eq (ix : ToolCallIndex) (callId name : Option Str) (r : Route)
    (key : r.key = toolCallKey callId name) :
    ix.indexForOutputIndex r.output callId name = (slotOf ix r,
      { indexes := r.key.elim ix.indexes fun k => ix.indexes.setdefault k (slotOf ix r)
        nextIndex := if known ix r = none ∧ ¬ r.Bare then ix.nextIndex + 1 else ix.nextIndex
        outputIndexMap :=
          r.output.elim ix.outputIndexMap fun o => ix.outputIndexMap.setdefault o (slotOf ix r) }) := by
  obtain ⟨output, key', itemKey, keyed⟩ := r
  simp only at key
  unfold ToolCallIndex.indexForOutputIndex
  simp only [slotOf, known, Route.Bare, ← key]
  cases output with
  | none =>
    cases key' with
    | none => simp
    | some k =>
      cases filed : ix.indexes.get k with
      | some idx => simp [filed, Dict.setdefault_of_get filed]
      | none => simp [filed, ToolCallIndex.route]
  | some o =>
    cases registered : ix.outputIndexMap.get o with
    | some idx => cases key' <;> simp [registered, Dict.setdefault_of_get registered, ToolCallIndex.route]
    | none =>
      cases key' with
      | none => simp [registered, ToolCallIndex.registerOutputIndex]
      | some k =>
        cases filed : ix.indexes.get k with
        | some idx =>
          simp [registered, filed, Dict.setdefault_of_get filed, ToolCallIndex.registerOutputIndex]
        | none =>
          simp [registered, filed, ToolCallIndex.route, ToolCallIndex.registerOutputIndex]

/-- The slot of a route is filed where nothing was. -/
structure Files (ix : ToolCallIndex) (r : Route) (ix' : ToolCallIndex) : Prop where
  keys : ∀ k, ix'.indexes.get k =
    (ix.indexes.get k).or (if k ∈ r.keys then some (slotOf ix r) else none)
  outputs : ∀ o, ix'.outputIndexMap.get o =
    (ix.outputIndexMap.get o).or (if r.output = some o then some (slotOf ix r) else none)
  next : ix'.nextIndex = if known ix r = none ∧ ¬ r.Bare then ix.nextIndex + 1 else ix.nextIndex

/-- The output index is registered by then, so that the item's key is all that is added. -/
theorem registerItemIdAlias_eq {payload : Obj F} {index : ℕ} {ix : ToolCallIndex}
    (registered : ∀ o, asInt (payload.get "output_index") = some o → ix.outputIndexMap.get o ≠ none) :
    registerItemIdAlias payload index ix = { ix with
      indexes := (itemKey payload).elim ix.indexes fun k => ix.indexes.setdefault k index } := by
  have kept : ∀ o, asInt (payload.get "output_index") = some o → ∀ indexes : Dict Str ℕ,
      ToolCallIndex.registerOutputIndex { ix with indexes := indexes } o index =
        { ix with indexes := indexes } := by
    intro o output indexes
    obtain ⟨v, found⟩ := Option.ne_none_iff_exists'.mp (registered o output)
    simp [ToolCallIndex.registerOutputIndex, Dict.setdefault_of_get found]
  unfold registerItemIdAlias itemKey
  cases asObj (payload.get "item") with
  | none => rfl
  | some item =>
    simp only [Option.bind_some]
    cases output : asInt (payload.get "output_index") with
    | none =>
      cases asStr (item.get "id") with
      | none => rfl
      | some id =>
        cases id with
        | nil => rfl
        | cons c rest =>
          by_cases own : asStr (item.get "call_id") = some (c :: rest)
          · simp only [if_pos own]
            rfl
          · simp only [if_neg own]
            rfl
    | some o =>
      cases asStr (item.get "id") with
      | none => exact kept o output ix.indexes
      | some id =>
        cases id with
        | nil => exact kept o output ix.indexes
        | cons c rest =>
          by_cases own : asStr (item.get "call_id") = some (c :: rest)
          · simp only [if_pos own]
            exact kept o output ix.indexes
          · simp only [if_neg own]
            exact kept o output _

theorem toolCallDelta_of_none {payload : Obj F} (h : routeOf payload = none) (ix : ToolCallIndex) :
    toolCallDeltaFromPayload payload ix = (none, ix) := by
  unfold routeOf at h
  unfold toolCallDeltaFromPayload
  split_ifs at h ⊢
  · split at h
    · rename_i extracted
      rw [extracted]
    · cases h
  · rfl

theorem mem_keys_or {r : Route} {k : Str} {slot : ℕ} (found : Option ℕ) :
    (found.or (if r.key = some k then some slot else none)).or
        (if r.itemKey = some k then some slot else none)
      = found.or (if k ∈ r.keys then some slot else none) := by
  by_cases key : r.key = some k <;> by_cases item : r.itemKey = some k <;>
    simp [Route.mem_keys, key, item]

theorem get_elim_setdefault {α : Type} [DecidableEq α] (d : Dict α ℕ) (key : Option α) (slot : ℕ)
    (k : α) : (key.elim d fun k => d.setdefault k slot).get k =
      (d.get k).or (if key = some k then some slot else none) := by
  cases key <;> simp [Dict.get_setdefault]

theorem toolCallDelta_of_route {payload : Obj F} {r : Route} (h : routeOf payload = some r)
    (ix : ToolCallIndex) : ∃ delta ix', toolCallDeltaFromPayload payload ix = (some delta, ix') ∧
      delta.index = slotOf ix r ∧ Files ix r ix' := by
  obtain ⟨fields, about, extracted, output, key, item⟩ : ∃ fields, isToolCallEvent payload = true ∧
      extractToolCallFields payload = some fields ∧ r.output = asInt (payload.get "output_index") ∧
      r.key = toolCallKey (routingId payload fields) fields.name ∧ r.itemKey = itemKey payload := by
    unfold routeOf at h
    split_ifs at h with about
    split at h
    · cases h
    · rename_i fields extracted
      cases h
      exact ⟨fields, about, extracted, rfl, rfl, rfl⟩
  have indexed := indexForOutputIndex_eq ix _ _ r key
  simp only [toolCallDeltaFromPayload, if_pos about, extracted]
  rw [← routingId, ← output, indexed]
  refine ⟨_, _, rfl, rfl, ?_⟩
  simp only
  rw [registerItemIdAlias_eq, ← item]
  · exact {
      keys := fun k => by rw [get_elim_setdefault, get_elim_setdefault, mem_keys_or]
      outputs := fun o => get_elim_setdefault _ _ _ _
      next := rfl }
  · intro o found
    rw [get_elim_setdefault, output, if_pos found]
    simp

/-! ## Runs -/

/-- The calls and indexes of the deltas that events give. -/
def slots : List (κ × Obj F) → ToolCallIndex → List (κ × ℕ)
  | [], _ => []
  | (call, payload) :: rest, ix =>
    ((toolCallDeltaFromPayload payload ix).1.map fun delta => (call, delta.index)).toList
      ++ slots rest (toolCallDeltaFromPayload payload ix).2

/-- The calls and routes of those events. -/
def history (events : List (κ × Obj F)) : List (κ × Route) :=
  events.filterMap fun e => (routeOf e.2).map fun r => (e.1, r)

def callsOf (before : List (κ × Route)) : List κ := before.map Prod.fst

theorem callsOf_concat (before : List (κ × Route)) (call : κ) (r : Route) :
    callsOf (before ++ [(call, r)]) = callsOf before ++ [call] := by
  rw [callsOf, List.map_append]
  rfl

theorem slots_concat (events : List (κ × Obj F)) (e : κ × Obj F) (ix : ToolCallIndex) :
    slots (events ++ [e]) ix = slots events ix ++
      ((toolCallDeltaFromPayload e.2 (indexAfter (events.map Prod.snd) ix)).1.map
        fun delta => (e.1, delta.index)).toList := by
  induction events generalizing ix with
  | nil => simp [slots, indexAfter]
  | cons e' rest ih =>
    rw [List.cons_append, slots, slots, ih, List.append_assoc]
    rfl

theorem indexAfter_concat (events : List (κ × Obj F)) (call : κ) (payload : Obj F)
    (ix : ToolCallIndex) : indexAfter ((events ++ [(call, payload)]).map Prod.snd) ix =
      (toolCallDeltaFromPayload payload (indexAfter (events.map Prod.snd) ix)).2 := by
  rw [List.map_append, indexAfter_append]
  rfl

theorem history_concat (events : List (κ × Obj F)) (e : κ × Obj F) :
    history (events ++ [e]) = history events ++ ((routeOf e.2).map fun r => (e.1, r)).toList := by
  rw [history, List.filterMap_append]
  cases routed : routeOf e.2 <;> simp [history, routed]

theorem slots_calls (events : List (κ × Obj F)) (ix : ToolCallIndex) :
    (slots events ix).map Prod.fst = callsOf (history events) := by
  induction events using List.reverseRecOn with
  | nil => rfl
  | append_singleton events e ih =>
    rw [slots_concat, history_concat, callsOf, List.map_append, List.map_append, ih, callsOf]
    congr 1
    cases routed : routeOf e.2 with
    | none => rw [toolCallDelta_of_none routed]; rfl
    | some r =>
      obtain ⟨delta, ix', given, -⟩ :=
        toolCallDelta_of_route routed (indexAfter (events.map Prod.snd) ix)
      rw [given]
      rfl

/-! ## Who has filed a slot -/

/-- The call that has filed a key first. -/
def filer (before : List (κ × Route)) (k : Str) : Option κ :=
  (before.find? fun e => decide (k ∈ e.2.keys)).map Prod.fst

def outputFiler (before : List (κ × Route)) (o : ℤ) : Option κ :=
  (before.find? fun e => decide (e.2.output = some o)).map Prod.fst

/-- The call whose slot a route reaches. -/
def reached (before : List (κ × Route)) (r : Route) : Option κ :=
  (r.output.bind (outputFiler before)).or (r.key.bind (filer before))

theorem filer_concat (before : List (κ × Route)) (call : κ) (r : Route) (k : Str) :
    filer (before ++ [(call, r)]) k
      = (filer before k).or (if k ∈ r.keys then some call else none) := by
  rw [filer, List.find?_append, Option.map_or, filer]
  by_cases files : k ∈ r.keys <;> simp [files]

theorem outputFiler_concat (before : List (κ × Route)) (call : κ) (r : Route) (o : ℤ) :
    outputFiler (before ++ [(call, r)]) o
      = (outputFiler before o).or (if r.output = some o then some call else none) := by
  rw [outputFiler, List.find?_append, Option.map_or, outputFiler]
  by_cases files : r.output = some o <;> simp [files]

theorem filer_mem {before : List (κ × Route)} {k : Str} {call : κ} (h : filer before k = some call) :
    ∃ e ∈ before, e.1 = call ∧ k ∈ e.2.keys := by
  obtain ⟨e, found, rfl⟩ := Option.map_eq_some_iff.mp h
  exact ⟨e, List.mem_of_find?_eq_some found, rfl, by simpa using List.find?_some found⟩

theorem outputFiler_mem {before : List (κ × Route)} {o : ℤ} {call : κ}
    (h : outputFiler before o = some call) : ∃ e ∈ before, e.1 = call ∧ e.2.output = some o := by
  obtain ⟨e, found, rfl⟩ := Option.map_eq_some_iff.mp h
  exact ⟨e, List.mem_of_find?_eq_some found, rfl, by simpa using List.find?_some found⟩

def SlotTaken (before : List (κ × Route)) : Prop := ∃ e ∈ before, ¬ e.2.Bare

instance (before : List (κ × Route)) : Decidable (SlotTaken before) :=
  inferInstanceAs (Decidable (∃ e ∈ before, ¬ e.2.Bare))

theorem slotTaken_concat (before : List (κ × Route)) (call : κ) (r : Route) :
    SlotTaken (before ++ [(call, r)]) ↔ SlotTaken before ∨ ¬ r.Bare := by
  simp [SlotTaken, or_and_right, exists_or]

theorem reached_mem {before : List (κ × Route)} {r : Route} {call : κ}
    (h : reached before r = some call) : call ∈ callsOf before ∧ SlotTaken before := by
  rcases Option.or_eq_some_iff.mp h with output | ⟨-, key⟩
  · obtain ⟨o, -, found⟩ := Option.bind_eq_some_iff.mp output
    obtain ⟨e, mem, rfl, has⟩ := outputFiler_mem found
    refine ⟨List.mem_map_of_mem mem, e, mem, fun bare => ?_⟩
    rw [bare.1] at has
    cases has
  · obtain ⟨k, -, found⟩ := Option.bind_eq_some_iff.mp key
    obtain ⟨e, mem, rfl, has⟩ := filer_mem found
    refine ⟨List.mem_map_of_mem mem, e, mem, fun bare => ?_⟩
    rw [bare.keys] at has
    cases has

theorem reached_of_untaken {before : List (κ × Route)} (untaken : ¬ SlotTaken before) (r : Route) :
    reached before r = none := by
  cases found : reached before r with
  | none => rfl
  | some c => exact absurd (reached_mem found).2 untaken

/-! ## Events in their own slots -/

/-- A route that reaches no slot takes the next one, unless no slot has been taken yet. -/
def Opens (before : List (κ × Route)) (r : Route) : Prop := ¬ r.Bare ∧ SlotTaken before

instance (before : List (κ × Route)) (r : Route) : Decidable (Opens before r) :=
  inferInstanceAs (Decidable (¬ r.Bare ∧ SlotTaken before))

/-- The event reaches a slot of its own call, or a new slot with a new call, or the first slot with
the first call. -/
def Placed (before : List (κ × Route)) (call : κ) (r : Route) : Prop :=
  match reached before r with
  | some earlier => earlier = call
  | none =>
    if Opens before r then call ∉ callsOf before
    else ∀ first ∈ (callsOf before).head?, first = call

/-- Once a slot has been taken, the calls that take the next one are the new ones. -/
theorem Placed.new_iff {before : List (κ × Route)} {call : κ} {r : Route}
    (placed : Placed before call r) (taken : SlotTaken before) :
    reached before r = none ∧ ¬ r.Bare ↔ call ∉ callsOf before := by
  rw [Placed] at placed
  cases found : reached before r with
  | some c =>
    rw [found] at placed
    obtain rfl : c = call := placed
    simp [(reached_mem found).1]
  | none =>
    rw [found] at placed
    by_cases bare : r.Bare
    · simp only [if_neg fun opens : Opens before r => opens.1 bare] at placed
      obtain ⟨e, mem, -⟩ := taken
      obtain ⟨first, head⟩ : ∃ first, (callsOf before).head? = .some first :=
        Option.isSome_iff_exists.mp (List.isSome_head?.mpr (List.ne_nil_of_mem (List.mem_map_of_mem mem)))
      obtain rfl := placed first head
      simp [bare, List.mem_of_head? head]
    · simp only [if_pos (show Opens before r from ⟨bare, taken⟩)] at placed
      simp [bare, placed]

/-- Every event that gives a delta is placed among those before it. -/
def Routed (events : List (κ × Obj F)) : Prop :=
  ∀ front call payload back, events = front ++ (call, payload) :: back →
    ∀ r, routeOf payload = some r → Placed (history front) call r

theorem routed_concat {events : List (κ × Obj F)} {call : κ} {payload : Obj F} :
    Routed (events ++ [(call, payload)]) ↔
      Routed events ∧ ∀ r, routeOf payload = some r → Placed (history events) call r := by
  constructor
  · intro routed
    refine ⟨fun front c p back split => ?_, routed events call payload [] rfl⟩
    exact routed front c p (back ++ [(call, payload)]) (by rw [split, List.append_assoc]; rfl)
  · rintro ⟨routed, last⟩ front c p back split
    rcases List.eq_nil_or_concat back with rfl | ⟨back', e, rfl⟩
    · obtain ⟨rfl, same⟩ := List.append_inj' split rfl
      cases same
      exact last
    · rw [List.concat_eq_append, ← List.cons_append, ← List.append_assoc] at split
      exact routed front c p back' (List.append_inj' split rfl).1

/-! ## Calls that are introduced -/

/-- Output indexes and routing keys belong to one call each, a call has one output index, and an
event without one has a key that an earlier event filed. -/
structure Introduced (h : List (κ × Route)) : Prop where
  outputs : ∀ e ∈ h, ∀ e' ∈ h, e.2.output ≠ none → e.2.output = e'.2.output → e.1 = e'.1
  output : ∀ e ∈ h, ∀ e' ∈ h, e.1 = e'.1 → e.2.output ≠ none → e'.2.output ≠ none →
    e.2.output = e'.2.output
  keys : ∀ e ∈ h, ∀ e' ∈ h, ∀ k ∈ e.2.keys, k ∈ e'.2.keys → e.1 = e'.1
  filed : ∀ before e after, h = before ++ e :: after → e.2.output = none →
    ∃ k ∈ e.2.key, ∃ f ∈ before, k ∈ f.2.keys

/-- A call has an event with its output index, no later than any other. -/
theorem Introduced.opener {h : List (κ × Route)} (introduced : Introduced h)
    {before after : List (κ × Route)} {e : κ × Route} (split : h = before ++ e :: after) :
    ∃ f ∈ before ++ [e], f.1 = e.1 ∧ f.2.output ≠ none := by
  induction len : before.length using Nat.strong_induction_on generalizing before e after with
  | _ n ih =>
    by_cases bare : e.2.output = none
    · obtain ⟨k, key, f, mem, files⟩ := introduced.filed before e after split bare
      obtain ⟨front, back, rfl⟩ := List.append_of_mem mem
      have same : f.1 = e.1 := introduced.keys f (by simp [split]) e (by simp [split]) k files
        (Route.mem_keys.mpr (.inl key))
      rw [List.append_assoc, List.cons_append] at split
      obtain ⟨g, opens, call, has⟩ := ih front.length (by simp at len; omega) split rfl
      refine ⟨g, ?_, call.trans same, has⟩
      rcases List.mem_append.mp opens with opens | opens
      · simp [opens]
      · simp [List.mem_singleton.mp opens]
    · exact ⟨e, by simp, rfl, bare⟩

theorem outputFiler_none {before : List (κ × Route)} {o : ℤ} (h : outputFiler before o = none) :
    ∀ e ∈ before, e.2.output ≠ some o := by
  simpa [outputFiler] using h

theorem filer_none {before : List (κ × Route)} {k : Str} (h : filer before k = none) :
    ∀ e ∈ before, k ∉ e.2.keys := by
  simpa [filer] using h

theorem Introduced.placed {h before after : List (κ × Route)} (introduced : Introduced h)
    {call : κ} {r : Route} (split : h = before ++ (call, r) :: after) : Placed before call r := by
  have inside : ∀ e ∈ before, e ∈ h := fun e mem => split ▸ List.mem_append_left _ mem
  have own : (call, r) ∈ h := by simp [split]
  rw [Placed]
  cases found : reached before r with
  | some c =>
    rcases Option.or_eq_some_iff.mp found with output | ⟨-, key⟩
    · obtain ⟨o, has, files⟩ := Option.bind_eq_some_iff.mp output
      obtain ⟨e, mem, rfl, same⟩ := outputFiler_mem files
      exact introduced.outputs e (inside e mem) _ own (by simp [same]) (same.trans has.symm)
    · obtain ⟨k, has, files⟩ := Option.bind_eq_some_iff.mp key
      obtain ⟨e, mem, rfl, same⟩ := filer_mem files
      exact introduced.keys e (inside e mem) _ own k same (Route.mem_keys.mpr (.inl has))
  | none =>
    obtain ⟨unregistered, unfiled⟩ := Option.or_eq_none_iff.mp found
    have stated : r.output ≠ none := by
      intro bare
      obtain ⟨k, has, f, mem, files⟩ := introduced.filed before _ after split bare
      rw [show r.key = some k from has] at unfiled
      exact filer_none unfiled f mem files
    have first : ∀ e ∈ before, e.1 = call → e.2.output = none := by
      intro e mem same
      by_contra has
      have equal := introduced.output e (inside e mem) _ own same has stated
      obtain ⟨o, output⟩ := Option.ne_none_iff_exists'.mp stated
      rw [output] at unregistered
      exact outputFiler_none unregistered e mem (equal.trans output)
    by_cases opens : Opens before r
    · simp only [if_pos opens]
      intro old
      obtain ⟨e, mem, same⟩ := List.mem_map.mp old
      obtain ⟨front, back, rfl⟩ := List.append_of_mem mem
      rw [List.append_assoc, List.cons_append] at split
      obtain ⟨f, mem, call, has⟩ := introduced.opener split
      refine has (first f ?_ (call.trans same))
      rcases List.mem_append.mp mem with mem | mem
      · exact List.mem_append_left _ mem
      · simp [List.mem_singleton.mp mem]
    · simp only [if_neg opens]
      cases before with
      | nil => nofun
      | cons e rest =>
        have taken : SlotTaken (e :: rest) := by
          refine ⟨e, List.mem_cons_self, fun bare => ?_⟩
          obtain ⟨k, -, f, mem, -⟩ := introduced.filed [] e (rest ++ (call, r) :: after) split bare.1
          cases mem
        exact absurd ⟨fun bare => stated bare.1, taken⟩ opens

/-- Calls that are introduced have their slots, whatever the interleaving. -/
theorem Introduced.routed {events : List (κ × Obj F)} (introduced : Introduced (history events)) :
    Routed events := by
  intro front call payload back split r route
  have whole : history events = history front ++ (call, r) :: history back := by
    simp [split, history, route]
  exact introduced.placed whole

variable [DecidableEq κ]

/-- The maps hold the numbers of the calls that filed first. -/
structure Tracks (before : List (κ × Route)) (ix : ToolCallIndex) : Prop where
  keys : ∀ k, ix.indexes.get k = (filer before k).map (rank (callsOf before))
  outputs : ∀ o, ix.outputIndexMap.get o = (outputFiler before o).map (rank (callsOf before))
  next : ix.nextIndex = if SlotTaken before then (callsOf before).eraseDups.length else 0
  untaken : ¬ SlotTaken before → ∀ call ∈ callsOf before, ∀ first ∈ (callsOf before).head?,
    first = call

theorem tracks_start : Tracks ([] : List (κ × Route)) .start := by
  constructor <;> simp [ToolCallIndex.start, filer, outputFiler, callsOf]

theorem Tracks.known_eq {before : List (κ × Route)} {ix : ToolCallIndex} (tracks : Tracks before ix)
    (r : Route) : known ix r = (reached before r).map (rank (callsOf before)) := by
  obtain ⟨output, key, _, _⟩ := r
  rw [known, reached, Option.map_or]
  cases output <;> cases key <;> simp [tracks.keys, tracks.outputs]

/-- The slot is the number of the call exactly when the event is placed. -/
theorem Tracks.slot_iff {before : List (κ × Route)} {ix : ToolCallIndex} (tracks : Tracks before ix)
    (call : κ) (r : Route) :
    slotOf ix r = rank (callsOf before ++ [call]) call ↔ Placed before call r := by
  rw [slotOf, tracks.known_eq, Placed]
  cases found : reached before r with
  | some earlier =>
    have mem := (reached_mem found).1
    simp only [Option.map_some, Option.getD_some]
    rw [← rank_concat_old mem, rank_inj (List.mem_append_left _ mem)]
  | none =>
    simp only [Option.map_none, Option.getD_none]
    by_cases opens : Opens before r
    · rw [if_neg opens.1, if_pos opens, tracks.next, if_pos opens.2, eq_comm, rank_concat_eq_length]
    · have zero : (if r.Bare then 0 else ix.nextIndex) = 0 := by
        by_cases bare : r.Bare
        · exact if_pos bare
        · rw [if_neg bare, tracks.next, if_neg fun taken => opens ⟨bare, taken⟩]
      rw [zero, if_neg opens, eq_comm, rank_concat_eq_zero]

theorem Tracks.map_rank {before : List (κ × Route)} {o : Option κ}
    (known : ∀ c, o = some c → c ∈ callsOf before) (call : κ) :
    o.map (rank (callsOf before)) = o.map (rank (callsOf before ++ [call])) := by
  cases o with
  | none => rfl
  | some c => rw [Option.map_some, Option.map_some, rank_concat_old (known c rfl)]

/-- While no slot has been taken, all events are of one call. -/
theorem Tracks.untaken_call {before : List (κ × Route)} {ix : ToolCallIndex}
    (tracks : Tracks before ix) {call : κ} {r : Route} (untaken : ¬ SlotTaken before)
    (placed : Placed before call r) : ∀ c ∈ callsOf before, c = call := by
  rw [Placed, reached_of_untaken untaken r] at placed
  simp only [if_neg fun opens : Opens before r => untaken opens.2] at placed
  intro c mem
  cases first : (callsOf before).head? with
  | none => simp [List.head?_eq_none_iff.mp first] at mem
  | some f => rw [← tracks.untaken untaken c mem f first, placed f first]

/-- Every call has a slot of its own. -/
theorem Tracks.next_concat {before : List (κ × Route)} {ix ix' : ToolCallIndex}
    (tracks : Tracks before ix) {call : κ} {r : Route} (placed : Placed before call r)
    (files : Files ix r ix') : ix'.nextIndex = if SlotTaken (before ++ [(call, r)])
      then (callsOf before ++ [call]).eraseDups.length else 0 := by
  rw [files.next, tracks.next]
  simp only [tracks.known_eq, Option.map_eq_none_iff, slotTaken_concat]
  by_cases taken : SlotTaken before
  · simp only [placed.new_iff taken, taken, true_or, if_true, eraseDups_concat]
    by_cases old : call ∈ callsOf before <;> simp [old]
  · rw [eraseDups_concat_same (tracks.untaken_call taken placed)]
    simp [reached_of_untaken taken, taken]

theorem Tracks.concat {before : List (κ × Route)} {ix ix' : ToolCallIndex}
    (tracks : Tracks before ix) {call : κ} {r : Route} (placed : Placed before call r)
    (files : Files ix r ix') : Tracks (before ++ [(call, r)]) ix' := by
  have slot := (tracks.slot_iff call r).mpr placed
  constructor
  · intro k
    rw [files.keys, tracks.keys, slot, filer_concat, Option.map_or, callsOf_concat,
      ← Tracks.map_rank]
    · by_cases h : k ∈ r.keys <;> simp [h]
    · intro c found
      obtain ⟨e, mem, rfl, -⟩ := filer_mem found
      exact List.mem_map_of_mem mem
  · intro o
    rw [files.outputs, tracks.outputs, slot, outputFiler_concat, Option.map_or, callsOf_concat,
      ← Tracks.map_rank]
    · by_cases h : r.output = some o <;> simp [h]
    · intro c found
      obtain ⟨e, mem, rfl, -⟩ := outputFiler_mem found
      exact List.mem_map_of_mem mem
  · rw [callsOf_concat]
    exact tracks.next_concat placed files
  · intro untaken
    have same := tracks.untaken_call (fun taken => untaken (by simp [slotTaken_concat, taken])) placed
    have all : ∀ c ∈ callsOf (before ++ [(call, r)]), c = call := by
      rw [callsOf_concat]
      intro c mem
      rcases List.mem_append.mp mem with mem | mem
      · exact same c mem
      · exact List.mem_singleton.mp mem
    intro c mem first head
    rw [all c mem, all first (List.mem_of_head? head)]

theorem tracks_of_routed {events : List (κ × Obj F)} (routed : Routed events) :
    Tracks (history events) (indexAfter (events.map Prod.snd) .start) := by
  induction events using List.reverseRecOn with
  | nil => exact tracks_start
  | append_singleton events e ih =>
    obtain ⟨call, payload⟩ := e
    obtain ⟨before, last⟩ := routed_concat.mp routed
    rw [indexAfter_concat, history_concat]
    cases route : routeOf payload with
    | none =>
      rw [toolCallDelta_of_none route]
      simpa using ih before
    | some r =>
      obtain ⟨delta, ix', given, -, files⟩ := toolCallDelta_of_route route
        (indexAfter (events.map Prod.snd) .start)
      rw [given]
      exact (ih before).concat (last r route) files

/-- Deltas have the numbers of their calls exactly when each event reaches a slot of its own call,
or opens one for it. -/
theorem slots_numbered_iff (events : List (κ × Obj F)) :
    Numbered (slots events .start) ↔ Routed events := by
  induction events using List.reverseRecOn with
  | nil => exact iff_of_true (numbered_iff.mpr nofun) fun front _ _ _ split => by simp at split
  | append_singleton events e ih =>
    obtain ⟨call, payload⟩ := e
    rw [slots_concat, routed_concat]
    cases route : routeOf payload with
    | none =>
      rw [toolCallDelta_of_none route]
      simpa using ih
    | some r =>
      obtain ⟨delta, ix', given, slot, -⟩ := toolCallDelta_of_route route
        (indexAfter (events.map Prod.snd) .start)
      rw [given, Option.map_some, Option.toList_some, numbered_concat, slots_calls, slot, ih]
      refine and_congr_right fun routed => ?_
      rw [(tracks_of_routed routed).slot_iff]
      simp

/-! ## Merged and split calls -/

/-- The ids that an event names its call by. -/
def identifiers (payload : Obj F) : List Str :=
  (["call_id", "tool_call_id", "item_id"].filterMap fun k => asStr (payload.get k))
    ++ ["id", "call_id", "tool_call_id"].filterMap fun k =>
      asStr (getIn (asObj (payload.get "item")) k)

def outputIndex (payload : Obj F) : Option ℤ := asInt (payload.get "output_index")

/-- Output indexes and ids are distinct between calls, and each id comes first with the output
index. -/
structure Distinct (events : List (κ × Obj F)) : Prop where
  outputs : ∀ e ∈ events, ∀ e' ∈ events, ∀ o ∈ outputIndex e.2, o ∈ outputIndex e'.2 → e.1 = e'.1
  output : ∀ e ∈ events, ∀ e' ∈ events, e.1 = e'.1 →
    ∀ o ∈ outputIndex e.2, ∀ o' ∈ outputIndex e'.2, o = o'
  ids : ∀ e ∈ events, ∀ e' ∈ events, ∀ id ∈ identifiers e.2, id ∈ identifiers e'.2 → e.1 = e'.1
  first : ∀ e ∈ events, ∀ id ∈ identifiers e.2,
    ∀ e' ∈ events.find? fun e => decide (id ∈ identifiers e.2), outputIndex e'.2 ≠ none

def argumentsDelta (members : Obj Empty) : Obj Empty :=
  (text "type", .str (text "response.function_call_arguments.delta"))
    :: (text "delta", .str (text "\x7b")) :: members

/-- Two calls of one function, told apart by their output indexes. -/
def namedCalls : List (ℕ × Obj Empty) :=
  [(0, argumentsDelta [(text "output_index", .int 0), (text "name", .str (text "f"))]),
    (1, argumentsDelta [(text "output_index", .int 1), (text "name", .str (text "f"))])]

/-- One call, with an item id that is not filed beside the call id. -/
def itemCall : List (ℕ × Obj Empty) :=
  [(0, argumentsDelta [(text "output_index", .int 0), (text "call_id", .str (text "call")),
      (text "item_id", .str (text "item"))]),
    (0, argumentsDelta [(text "item_id", .str (text "item"))])]

theorem slots_merge_and_split :
    (Distinct namedCalls ∧ slots namedCalls .start = [(0, 0), (1, 0)]
      ∧ ¬ Numbered (slots namedCalls .start)) ∧
    (Distinct itemCall ∧ slots itemCall .start = [(0, 0), (0, 1)]
      ∧ ¬ Numbered (slots itemCall .start)) := by
  have merged : slots namedCalls .start = [(0, 0), (1, 0)] := by decide +kernel
  have divided : slots itemCall .start = [(0, 0), (0, 1)] := by decide +kernel
  refine ⟨⟨⟨?_, ?_, ?_, ?_⟩, merged, ?_⟩, ⟨?_, ?_, ?_, ?_⟩, divided, ?_⟩
  · decide +kernel
  · decide +kernel
  · decide +kernel
  · decide +kernel
  · rw [merged]
    exact fun numbered => absurd ((numbered.same (0, 0) (by simp) (1, 0) (by simp)).mpr rfl) (by decide)
  · decide +kernel
  · decide +kernel
  · decide +kernel
  · decide +kernel
  · rw [divided]
    exact fun numbered => absurd ((numbered.same (0, 0) (by simp) (0, 1) (by simp)).mp rfl) (by decide)

end ToolCallRouting
