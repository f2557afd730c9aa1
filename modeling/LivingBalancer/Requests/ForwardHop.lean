import LivingBalancer.Lib.PyText
import LivingBalancer.Requests.SettledItems

/-!
# A request over the owner-forward hop

Each field of a dump is read back as it is. The input items are too, unless the dump has lost the
Lite bundle that kept its instruction messages where they are.
-/

namespace Requests

open PyJson
open ToolCallDedupe (Obj Obj.get Obj.set asStr asObj)

variable {F : Type}

/-! ## Lookups in a dump -/

theorem text_injective : Function.Injective text := by
  intro s t same
  rw [text, text] at same
  exact String.toList_injective (List.map_injective_iff.mpr (fun _ _ => Char.toNat_inj.mp) same)

theorem lookup_append (k : Str) (front back : Obj F) :
    Dict.lookup k (front ++ back) = (Dict.lookup k front).or (Dict.lookup k back) := by
  induction front with
  | nil => rfl
  | cons p rest ih =>
    rw [List.cons_append, Dict.lookup, Dict.lookup, ih]
    split_ifs
    · rfl
    · rfl

theorem lookup_filter (k : Str) (p : Str × JsonValue F → Bool) (keeps : ∀ v, p (k, v) = true)
    (d : Obj F) : Dict.lookup k (d.filter p) = Dict.lookup k d := by
  rw [← List.filterMap_eq_filter, lookup_filterMap]
  · rintro ⟨_, v⟩ rfl
    exact Option.guard_eq_some_iff.mpr ⟨rfl, keeps v⟩
  · intro q q' kept
    rw [(Option.guard_eq_some_iff.mp kept).1]

theorem lookup_dumpFields {fields : List (String × Option (JsonValue F))}
    (nodup : (fields.map Prod.fst).Nodup) {k : String} {v : Option (JsonValue F)}
    (mem : (k, v) ∈ fields) : Dict.lookup (text k) (dumpFields fields) = v := by
  have fresh {k : String} {rest : List (String × Option (JsonValue F))}
      (new : k ∉ rest.map Prod.fst) : Dict.lookup (text k) (dumpFields rest) = none := by
    rw [Dict.lookup_eq_none]
    intro inside
    obtain ⟨p, dumped, same⟩ := List.mem_map.mp inside
    obtain ⟨q, mem, made⟩ := List.mem_filterMap.mp dumped
    obtain ⟨v, -, rfl⟩ := Option.map_eq_some_iff.mp made
    exact new (List.mem_map.mpr ⟨q, mem, text_injective same⟩)
  induction fields with
  | nil => cases mem
  | cons p rest ih =>
    rw [List.map_cons, List.nodup_cons] at nodup
    have cons : dumpFields (p :: rest) = (p.2.map fun v => (text p.1, v)).toList ++ dumpFields rest := by
      rw [dumpFields, List.filterMap_cons]
      cases p.2 <;> rfl
    rcases List.mem_cons.mp mem with rfl | mem
    · rw [cons, lookup_append, fresh nodup.1]
      cases v with
      | none => rfl
      | some v => simp [Dict.lookup]
    · have other : text p.1 ≠ text k := by
        intro same
        rw [text_injective same] at nodup
        exact nodup.1 (List.mem_map.mpr ⟨_, mem, rfl⟩)
      rw [cons, lookup_append, ih nodup.2 mem]
      cases p.2 with
      | none => rfl
      | some v => simp [Dict.lookup, other]

/-- No extra key of the request is a field. -/
def ExtraKeys (r : ResponsesRequest F) : Prop := ∀ p ∈ r.extra, among fieldNames p.1 = false

theorem among_text {words : List String} {word : String} (mem : word ∈ words) :
    among words (text word) = true := by
  rw [among, List.any_eq_true]
  exact ⟨word, mem, decide_eq_true rfl⟩

theorem fields_names (r : ResponsesRequest F) : r.fields.map Prod.fst = fieldNames := rfl

theorem lookup_extra {r : ResponsesRequest F} (extra : ExtraKeys r) {k : String}
    (field : k ∈ fieldNames) (p : Str × JsonValue F → Bool) :
    Dict.lookup (text k) (r.extra.filter p) = none := by
  rw [Dict.lookup_eq_none]
  intro inside
  obtain ⟨q, mem, same⟩ := List.mem_map.mp inside
  have outside := extra q (List.mem_of_mem_filter mem)
  rw [same, among_text field] at outside
  cases outside

theorem lookup_modelDump {r : ResponsesRequest F} (extra : ExtraKeys r) {k : String}
    {v : Option (JsonValue F)} (mem : (k, v) ∈ r.fields) :
    Dict.lookup (text k) r.modelDump = v := by
  have field : k ∈ fieldNames := by
    rw [← fields_names r]
    exact List.mem_map.mpr ⟨_, mem, rfl⟩
  rw [ResponsesRequest.modelDump, lookup_append, lookup_extra extra field, Option.or_none]
  exact lookup_dumpFields (by rw [fields_names]; decide) mem

theorem lookup_forwarding {r : ResponsesRequest F} (extra : ExtraKeys r) {k : String}
    {v : Option (JsonValue F)} (mem : (k, v) ∈ r.fields) (other : k ≠ "tools") :
    Dict.lookup (text k) r.modelDumpForForwarding = v := by
  rw [ResponsesRequest.modelDumpForForwarding]
  split_ifs
  · exact lookup_modelDump extra mem
  · rw [lookup_filter, lookup_modelDump extra mem]
    intro v
    simpa using fun same => other (text_injective same)

theorem lookup_tools {r : ResponsesRequest F} (extra : ExtraKeys r) :
    Dict.lookup (text "tools") r.modelDumpForForwarding
      = if r.toolsSent then some (.list r.tools) else none := by
  rw [ResponsesRequest.modelDumpForForwarding]
  split_ifs
  · exact lookup_modelDump extra (by simp [ResponsesRequest.fields])
  · rw [Dict.lookup_eq_none]
    intro inside
    obtain ⟨q, mem, same⟩ := List.mem_map.mp inside
    exact of_decide_eq_true (List.mem_filter.mp mem).2 same

/-- The extra keys behind a dump are those that are not null. -/
theorem extra_forwarding {r : ResponsesRequest F} (extra : ExtraKeys r) :
    (r.modelDumpForForwarding.filter fun p => !among fieldNames p.1)
      = r.extra.filter fun p => !isNone p.2 := by
  have dumped : (r.modelDump.filter fun p => !among fieldNames p.1)
      = r.extra.filter fun p => !isNone p.2 := by
    rw [ResponsesRequest.modelDump, List.filter_append, List.filter_eq_nil_iff.mpr,
      List.nil_append, List.filter_eq_self.mpr]
    · intro p mem
      rw [extra p (List.mem_of_mem_filter mem), Bool.not_false]
    · intro p mem
      obtain ⟨q, field, made⟩ := List.mem_filterMap.mp mem
      obtain ⟨v, -, rfl⟩ := Option.map_eq_some_iff.mp made
      have named : q.1 ∈ fieldNames := by
        rw [← fields_names r]
        exact List.mem_map_of_mem field
      simp [among_text named]
  rw [ResponsesRequest.modelDumpForForwarding]
  split_ifs
  · exact dumped
  · rw [List.filter_filter, ← dumped]
    refine List.filter_congr fun p _ => ?_
    by_cases tools : p.1 = text "tools"
    · have field : among fieldNames (text "tools") = true := among_text (by decide)
      simp [tools, field]
    · simp [tools]

/-! ## Accepted requests -/

/-- What validation leaves in a request. -/
structure Valid (py : Pydantic F) (r : ResponsesRequest F) : Prop where
  model : r.model ≠ []
  input : sanitizeInputItems py.toPython r.input = .ok r.input
  tools : validateToolTypes true r.tools = .ok r.tools
  unsent : r.toolsSent = false → r.tools = []
  toolChoice : ∀ v, r.toolChoice = some v → readToolChoice v = .ok v
  reasoning : ∀ d, r.reasoning = some d → py.reasoning (.dict d) = some d
  store : r.store = false
  include_ : validateInclude r.include_ = .ok r.include_
  serviceTier : ∀ t, r.serviceTier = some t → normalizeServiceTierAliasValue t = t
  previousResponseId : ∀ t, r.previousResponseId = some t → Sse.strip t = t ∧ t ≠ []
  truncation : ∀ t, r.truncation = some t → t = text "auto" ∨ t = text "disabled"
  text : ∀ d, r.text = some d → py.text (.dict d) = some d
  conversation : conversationConflict r.conversation r.previousResponseId = false
  extra : ExtraKeys r

theorem optionalField_read {α : Type} {data : Obj F} {name : String}
    {read : JsonValue F → Except RequestError α} {x : Option α}
    (h : optionalField data name read = .ok x) :
    ∀ a, x = some a → ∃ v, read v = .ok a := by
  rintro a rfl
  rw [optionalField] at h
  split at h
  · cases h
  · rename_i v _ _
    cases value : read v with
    | error e =>
      rw [value] at h
      cases h
    | ok b =>
      rw [value] at h
      cases h
      exact ⟨v, value⟩
  · cases h

theorem readWith_ok {α : Type} {name : String} {read : JsonValue F → Option α} {v : JsonValue F}
    {a : α} (h : readWith name read v = .ok a) : read v = some a := by
  rw [readWith] at h
  split at h
  · rename_i x found
    cases h
    exact found
  · cases h

theorem map_ok {ε α β : Type} {x : Except ε α} {f : α → β} {b : β}
    (h : x.map f = .ok b) : ∃ a, x = .ok a ∧ f a = b := by
  cases x with
  | error e => cases h
  | ok a =>
    cases h
    exact ⟨a, rfl, rfl⟩

theorem normalizeToolType_idem (t : Str) : normalizeToolType (normalizeToolType t) = normalizeToolType t := by
  rw [normalizeToolType.eq_def t]
  split_ifs with preview
  · decide
  · rw [normalizeToolType, if_neg preview]

theorem normalizeTyped_idem (d : Obj F) : normalizeTyped (normalizeTyped d) = normalizeTyped d := by
  rw [normalizeTyped.eq_def d]
  split
  · rename_i t named
    split_ifs with same
    · rw [normalizeTyped, named]
      exact if_pos same
    · rw [normalizeTyped, get_set_self]
      exact if_pos (normalizeToolType_idem t)
  · rename_i none_
    rw [normalizeTyped, none_]

theorem readToolChoice_idem {v w : JsonValue F} (h : readToolChoice v = .ok w) :
    readToolChoice w = .ok w := by
  cases v with
  | str t =>
    cases h
    rfl
  | dict d =>
    cases h
    rw [normalizeToolChoice, readToolChoice, normalizeToolChoice, normalizeTyped_idem]
  | _ => cases h

theorem validateToolType_builtin (tool : JsonValue F) :
    ∃ tool', validateToolType true tool = .ok tool' ∧ validateToolType true tool' = .ok tool' := by
  have typed (d : Obj F) : validateToolType true (.dict d) = .ok (.dict (normalizeTyped d)) := by
    rw [validateToolType]
    split
    · simp
    · rfl
  cases tool with
  | dict d =>
    refine ⟨_, typed d, ?_⟩
    rw [typed, normalizeTyped_idem]
  | _ => exact ⟨_, rfl, rfl⟩

theorem validateToolTypes_builtin (tools : List (JsonValue F)) :
    ∃ tools', validateToolTypes true tools = .ok tools' ∧ validateToolTypes true tools' = .ok tools' := by
  induction tools with
  | nil => exact ⟨[], rfl, rfl⟩
  | cons tool rest ih =>
    obtain ⟨tool', here, again⟩ := validateToolType_builtin tool
    obtain ⟨rest', later, againRest⟩ := ih
    refine ⟨tool' :: rest', ?_, ?_⟩
    · rw [validateToolTypes, here, later]
      rfl
    · rw [validateToolTypes, again, againRest]
      rfl

theorem validateInclude_ok {entries entries' : List Str} (h : validateInclude entries = .ok entries') :
    entries' = entries := by
  induction entries generalizing entries' with
  | nil =>
    cases h
    rfl
  | cons entry rest ih =>
    rw [validateInclude] at h
    split_ifs at h
    obtain ⟨rest', later, rfl⟩ := map_ok h
    rw [ih later]

theorem serviceTier_idem (t : Str) :
    normalizeServiceTierAliasValue (normalizeServiceTierAliasValue t)
      = normalizeServiceTierAliasValue t := by
  rw [normalizeServiceTierAliasValue.eq_def t]
  split_ifs with fast
  · decide
  · rw [normalizeServiceTierAliasValue, if_neg fast]

theorem previousResponseId_strip {t u : Str} (h : normalizePreviousResponseId t = some u) :
    Sse.strip u = u ∧ u ≠ [] := by
  rw [normalizePreviousResponseId] at h
  split_ifs at h with empty
  cases h
  exact ⟨PyText.trim_idem Sse.isWhitespace t, empty⟩

theorem readInput_settled {py : Python F} {v : JsonValue F} {items : List (JsonValue F)}
    (h : readInput py v = .ok items) : sanitizeInputItems py items = .ok items := by
  rw [readInput.eq_def] at h
  split at h
  · exact (sanitizeInputItems_settles h).1
  · exact (sanitizeInputItems_settles h).1
  · cases h

theorem requiredField_ok {α : Type} {data : Obj F} {name : String}
    {read : JsonValue F → Except RequestError α} {a : α} (h : requiredField data name read = .ok a) :
    ∃ v, Dict.lookup (text name) data = some v ∧ read v = .ok a := by
  rw [requiredField] at h
  split at h
  · rename_i v found
    exact ⟨v, found, h⟩
  · cases h

theorem defaultField_ok {α : Type} {data : Obj F} {name : String} {default : α}
    {read : JsonValue F → Except RequestError α} {a : α}
    (h : defaultField data name default read = .ok a) :
    (Dict.lookup (text name) data = none ∧ a = default) ∨
      ∃ v, Dict.lookup (text name) data = some v ∧ read v = .ok a := by
  rw [defaultField] at h
  split at h
  · rename_i v found
    exact .inr ⟨v, found, h⟩
  · rename_i missing
    cases h
    exact .inl ⟨missing, rfl⟩

theorem readModel_ok {v : JsonValue F} {model : Str} (h : readModel v = .ok model) : model ≠ [] := by
  obtain ⟨t, -, h⟩ := bind_ok h
  split_ifs at h with empty
  cases h
  exact empty

theorem readTools_ok {v : JsonValue F} {tools : List (JsonValue F)} (h : readTools v = .ok tools) :
    validateToolTypes true tools = .ok tools := by
  rw [readTools.eq_def] at h
  split at h
  · rename_i sent
    obtain ⟨tools', made, again⟩ := validateToolTypes_builtin sent
    rw [made] at h
    cases h
    exact again
  · cases h

theorem readInclude_ok {v : JsonValue F} {entries : List Str} (h : readInclude v = .ok entries) :
    validateInclude entries = .ok entries := by
  rw [readInclude.eq_def] at h
  split at h
  · obtain ⟨texts, -, h⟩ := bind_ok h
    rw [validateInclude_ok h]
    rw [validateInclude_ok h] at h
    exact h
  · cases h

theorem readTruncation_ok {v : JsonValue F} {t : Str} (h : readTruncation v = .ok t) :
    t = text "auto" ∨ t = text "disabled" := by
  obtain ⟨u, -, h⟩ := bind_ok h
  split_ifs at h with known
  cases h
  exact known

/-- An accepted request, and the input it was made of. -/
theorem validateFields_ok {py : Pydantic F} {data : Obj F} {r : ResponsesRequest F}
    (accepted : validateFields py data = .ok r) :
    Valid py r ∧ ∃ v, Dict.lookup (text "input") data = some v ∧
      readInput py.toPython v = .ok r.input := by
  obtain ⟨model, modelRead, h⟩ := bind_ok accepted
  obtain ⟨instructions, -, h⟩ := bind_ok h
  obtain ⟨input, inputRead, h⟩ := bind_ok h
  obtain ⟨tools, toolsRead, h⟩ := bind_ok h
  obtain ⟨toolChoice, choiceRead, h⟩ := bind_ok h
  obtain ⟨parallelToolCalls, -, h⟩ := bind_ok h
  obtain ⟨reasoning, reasoningRead, h⟩ := bind_ok h
  obtain ⟨store, storeRead, h⟩ := bind_ok h
  obtain ⟨stream, -, h⟩ := bind_ok h
  obtain ⟨include_, includeRead, h⟩ := bind_ok h
  obtain ⟨serviceTier, tierRead, h⟩ := bind_ok h
  obtain ⟨conversation, -, h⟩ := bind_ok h
  obtain ⟨previousResponseId, -, h⟩ := bind_ok h
  obtain ⟨truncation, truncationRead, h⟩ := bind_ok h
  obtain ⟨promptCacheKey, -, h⟩ := bind_ok h
  obtain ⟨controls, controlsRead, h⟩ := bind_ok h
  dsimp only at h
  split_ifs at h with conflict
  · cases h
  cases h
  obtain ⟨modelValue, -, modelRead⟩ := requiredField_ok modelRead
  obtain ⟨inputValue, found, inputRead⟩ := requiredField_ok inputRead
  refine ⟨?_, inputValue, found, inputRead⟩
  constructor
  case model => exact readModel_ok modelRead
  case input => exact readInput_settled inputRead
  case tools =>
    rcases defaultField_ok toolsRead with ⟨-, rfl⟩ | ⟨v, -, sent⟩
    · rfl
    · exact readTools_ok sent
  case unsent =>
    intro unsent
    rcases defaultField_ok toolsRead with ⟨-, rfl⟩ | ⟨v, present, -⟩
    · rfl
    · dsimp only at unsent
      rw [present] at unsent
      cases unsent
  case toolChoice =>
    intro v chosen
    obtain ⟨w, made⟩ := optionalField_read choiceRead v chosen
    exact readToolChoice_idem made
  case reasoning =>
    intro d given
    obtain ⟨v, made⟩ := optionalField_read reasoningRead d given
    exact py.reasoning_dump v d (readWith_ok made)
  case store =>
    rcases defaultField_ok storeRead with ⟨-, rfl⟩ | ⟨v, -, made⟩
    · rfl
    · obtain ⟨b, -, same⟩ := map_ok made
      exact same.symm
  case include_ =>
    rcases defaultField_ok includeRead with ⟨-, rfl⟩ | ⟨v, -, made⟩
    · rfl
    · exact readInclude_ok made
  case serviceTier =>
    intro t given
    obtain ⟨v, made⟩ := optionalField_read tierRead t given
    obtain ⟨u, -, rfl⟩ := map_ok made
    exact serviceTier_idem u
  case previousResponseId =>
    intro t given
    obtain ⟨u, -, made⟩ := Option.bind_eq_some_iff.mp given
    exact previousResponseId_strip made
  case truncation =>
    intro t given
    obtain ⟨v, made⟩ := optionalField_read truncationRead t given
    exact readTruncation_ok made
  case text =>
    intro d given
    obtain ⟨v, made⟩ := optionalField_read controlsRead d given
    exact py.text_dump v d (readWith_ok made)
  case conversation => exact Bool.eq_false_iff.mpr conflict
  case extra => exact fun p mem => (Bool.not_eq_true' _).mp (List.mem_filter.mp mem).2

/-! ## Reading a dump back -/

/-- The request behind a dump: its null extra fields are gone. -/
def ResponsesRequest.dumped (r : ResponsesRequest F) : ResponsesRequest F :=
  { r with extra := r.extra.filter fun p => !isNone p.2 }

theorem requiredField_dump {α : Type} {data : Obj F} {name : String}
    {read : JsonValue F → Except RequestError α} {a : α} {v : JsonValue F}
    (found : Dict.lookup (text name) data = some v) (reads : read v = .ok a) :
    requiredField data name read = .ok a := by
  rw [requiredField, found]
  exact reads

theorem defaultField_dump {α : Type} {data : Obj F} {name : String} {default : α}
    {read : JsonValue F → Except RequestError α} {a : α} {v : JsonValue F}
    (found : Dict.lookup (text name) data = some v) (reads : read v = .ok a) :
    defaultField data name default read = .ok a := by
  rw [defaultField, found]
  exact reads

theorem optionalField_dump {α : Type} {data : Obj F} {name : String}
    {read : JsonValue F → Except RequestError α} {x : Option α} (dump : α → JsonValue F)
    (found : Dict.lookup (text name) data = x.map dump)
    (reads : ∀ a, x = some a → read (dump a) = .ok a) (shown : ∀ a, x = some a → dump a ≠ .null) :
    optionalField data name read = .ok x := by
  rw [optionalField, found]
  cases x with
  | none => rfl
  | some a =>
    have given := reads a rfl
    have notNull := shown a rfl
    rw [Option.map_some]
    generalize dump a = v at given notNull
    cases v with
    | null => exact absurd rfl notNull
    | _ =>
      dsimp only
      rw [given]
      rfl

theorem readWith_dump {α : Type} {name : String} {read : JsonValue F → Option α} {v : JsonValue F}
    {a : α} (h : read v = some a) : readWith name read v = .ok a := by
  rw [readWith, h]

theorem readStrs_dump (name : String) (texts : List Str) :
    readStrs name (texts.map (JsonValue.str (F := F))) = .ok texts := by
  induction texts with
  | nil => rfl
  | cons t rest ih =>
    rw [List.map_cons, readStrs, ih]
    rfl

theorem readModel_dump {t : Str} (shown : t ≠ []) : readModel (.str t : JsonValue F) = .ok t := by
  rw [readModel]
  exact if_neg shown

theorem readServiceTier_dump {t : Str} (settled : normalizeServiceTierAliasValue t = t) :
    readServiceTier (.str t : JsonValue F) = .ok t := by
  rw [readServiceTier]
  exact congrArg Except.ok settled

theorem readTruncation_dump {t : Str} (known : t = text "auto" ∨ t = text "disabled") :
    readTruncation (.str t : JsonValue F) = .ok t := by
  rw [readTruncation]
  exact if_pos known

theorem readToolChoice_shown {v : JsonValue F} (h : readToolChoice v = .ok v) : v ≠ .null := by
  rintro rfl
  cases h

/-- Every field of a valid request is read back from its dump. -/
theorem validateFields_dump {py : Pydantic F} {r : ResponsesRequest F} (valid : Valid py r) :
    validateFields py r.modelDumpForForwarding = .ok r.dumped := by
  have found {k : String} {v : Option (JsonValue F)} (mem : (k, v) ∈ r.fields) (other : k ≠ "tools") :=
    lookup_forwarding valid.extra mem other
  have model : requiredField r.modelDumpForForwarding "model" readModel = .ok r.model :=
    requiredField_dump (v := .str r.model) (found (by simp [ResponsesRequest.fields]) (by decide))
      (readModel_dump valid.model)
  have instructions : requiredField r.modelDumpForForwarding "instructions" (readStr "instructions")
      = .ok r.instructions :=
    requiredField_dump (v := .str r.instructions)
      (found (by simp [ResponsesRequest.fields]) (by decide)) rfl
  have input : requiredField r.modelDumpForForwarding "input" (readInput py.toPython) = .ok r.input :=
    requiredField_dump (v := .list r.input)
      (found (by simp [ResponsesRequest.fields]) (by decide)) valid.input
  have tools : defaultField r.modelDumpForForwarding "tools" [] readTools = .ok r.tools := by
    cases sent : r.toolsSent with
    | true =>
      refine defaultField_dump (v := .list r.tools) ?_ valid.tools
      rw [lookup_tools valid.extra, sent, if_pos rfl]
    | false =>
      rw [defaultField, lookup_tools valid.extra, sent, if_neg (by simp), valid.unsent sent]
  have sent : (Dict.lookup (text "tools") r.modelDumpForForwarding).isSome = r.toolsSent := by
    rw [lookup_tools valid.extra]
    cases r.toolsSent <;> rfl
  have toolChoice : optionalField r.modelDumpForForwarding "tool_choice" readToolChoice
      = .ok r.toolChoice :=
    optionalField_dump id
      (by rw [Option.map_id]; exact found (by simp [ResponsesRequest.fields]) (by decide))
      valid.toolChoice fun v given => readToolChoice_shown (valid.toolChoice v given)
  have texts (name : String) {x : Option Str} (read : JsonValue F → Except RequestError Str)
      (mem : (name, x.map .str) ∈ r.fields) (other : name ≠ "tools")
      (reads : ∀ t, x = some t → read (.str t) = .ok t) :
      optionalField r.modelDumpForForwarding name read = .ok x :=
    optionalField_dump .str (found mem other) reads (by simp)
  have objects (name : String) {x : Option (Obj F)} {read : JsonValue F → Option (Obj F)}
      (mem : (name, x.map .dict) ∈ r.fields) (other : name ≠ "tools")
      (reads : ∀ d, x = some d → read (.dict d) = some d) :
      optionalField r.modelDumpForForwarding name (readWith name read) = .ok x :=
    optionalField_dump .dict (found mem other) (fun d given => readWith_dump (reads d given)) (by simp)
  have bools (name : String) {x : Option Bool} (mem : (name, x.map .bool) ∈ r.fields)
      (other : name ≠ "tools") :
      optionalField r.modelDumpForForwarding name (readWith name py.bool) = .ok x :=
    optionalField_dump .bool (found mem other) (fun b _ => readWith_dump (py.bool_dump b)) (by simp)
  have store : defaultField r.modelDumpForForwarding "store" false (readStore py.bool) = .ok r.store := by
    refine defaultField_dump (v := .bool r.store)
      (found (by simp [ResponsesRequest.fields]) (by decide)) ?_
    rw [readStore, readWith_dump (py.bool_dump r.store), valid.store]
    rfl
  have include_ : defaultField r.modelDumpForForwarding "include" [] readInclude = .ok r.include_ := by
    refine defaultField_dump (v := .list (r.include_.map .str))
      (found (by simp [ResponsesRequest.fields]) (by decide)) ?_
    rw [readInclude, readStrs_dump]
    exact valid.include_
  have parallel := bools "parallel_tool_calls" (x := r.parallelToolCalls)
    (by simp [ResponsesRequest.fields]) (by decide)
  have stream := bools "stream" (x := r.stream) (by simp [ResponsesRequest.fields]) (by decide)
  have reasoning := objects "reasoning" (by simp [ResponsesRequest.fields]) (by decide)
    valid.reasoning
  have controls := objects "text" (by simp [ResponsesRequest.fields]) (by decide) valid.text
  have tier := texts "service_tier" readServiceTier (by simp [ResponsesRequest.fields]) (by decide)
    fun t given => readServiceTier_dump (valid.serviceTier t given)
  have conversation := texts "conversation" (readStr "conversation") (x := r.conversation)
    (by simp [ResponsesRequest.fields]) (by decide) fun _ _ => rfl
  have previous := texts "previous_response_id" (readStr "previous_response_id")
    (x := r.previousResponseId) (by simp [ResponsesRequest.fields]) (by decide) fun _ _ => rfl
  have truncation := texts "truncation" readTruncation (by simp [ResponsesRequest.fields]) (by decide)
    fun t given => readTruncation_dump (valid.truncation t given)
  have cacheKey := texts "prompt_cache_key" (readStr "prompt_cache_key") (x := r.promptCacheKey)
    (by simp [ResponsesRequest.fields]) (by decide) fun _ _ => rfl
  have stripped : r.previousResponseId.bind normalizePreviousResponseId = r.previousResponseId := by
    cases given : r.previousResponseId with
    | none => rfl
    | some t =>
      obtain ⟨same, shown⟩ := valid.previousResponseId t given
      rw [Option.bind_some, normalizePreviousResponseId, same, if_neg shown]
  rw [validateFields, model, instructions, input, tools, toolChoice, parallel, reasoning, store,
    stream, include_, tier, conversation, previous, truncation, cacheKey, controls]
  simp only [bind, Except.bind, stripped, valid.conversation, sent, extra_forwarding valid.extra]
  rfl

/-! ## The hop -/

theorem assign_same {d : Obj F} {k : Str} {v : JsonValue F} (found : Dict.lookup k d = some v) :
    Dict.assign k v d = d := by
  induction d with
  | nil => cases found
  | cons p rest ih =>
    obtain ⟨k', v'⟩ := p
    rw [Dict.lookup] at found
    split_ifs at found with here
    · cases found
      rw [Dict.assign, if_pos here, here]
    · rw [Dict.assign, if_neg here, ih found]

theorem isResponsesLiteInput_eq (items : List (JsonValue F)) :
    isResponsesLiteInput items = items.any isLiteItem := rfl

/-- Without instruction messages, or with a Lite bundle, an object with texts as instructions is
kept. -/
theorem normalize_same {data : Obj F} {items : List (JsonValue F)} {instructions : Str}
    (input : Dict.lookup (text "input") data = some (.list items))
    (given : Dict.lookup (text "instructions") data = some (.str instructions))
    (kept : isResponsesLiteInput items = true ∨ items.any isInstructionItem = false) :
    normalizeResponsesInputInstructions data = data := by
  rw [normalizeResponsesInputInstructions, input]
  dsimp only
  split_ifs with lite changed
  · rfl
  · have none_ := kept.resolve_left lite
    obtain ⟨parts, same⟩ := hoistItems_same none_
    have existing : (asStr (data.get "instructions")).getD [] = instructions := by
      rw [Obj.get, given]
      rfl
    rw [parts, same, existing]
    have merged : mergeResponsesInstructions instructions [] = instructions := rfl
    rw [merged]
    change Dict.assign _ _ (Dict.assign _ _ data) = data
    rw [assign_same given, assign_same input]
  · rfl

/-- What is validated as input: the items themselves behind a Lite bundle, else items without
instruction messages. -/
theorem normalize_input (data : Obj F) (v : JsonValue F)
    (found : Dict.lookup (text "input") (normalizeResponsesInputInstructions data) = some v) :
    (∃ items, Dict.lookup (text "input") data = some (.list items) ∧ v = .list items ∧
        isResponsesLiteInput items = true) ∨
      ((∀ items, Dict.lookup (text "input") data = some (.list items) →
          isResponsesLiteInput items = false) ∧
        ∀ items, v = .list items → items.any isInstructionItem = false) := by
  rw [normalizeResponsesInputInstructions.eq_def] at found
  split at found
  · rename_i items input
    have none_ := hoistItems_none items
    have unchanged : (hoistItems items).2.2 = false → items.any isInstructionItem = false :=
      hoistItems_unchanged
    generalize hoistItems items = hoisted at found none_ unchanged
    obtain ⟨parts, kept, changed⟩ := hoisted
    have notLite : ¬ isResponsesLiteInput items = true →
        ∀ items', Dict.lookup (text "input") data = some (.list items') →
          isResponsesLiteInput items' = false := by
      intro lite items' same
      rw [input] at same
      cases same
      exact Bool.eq_false_iff.mpr lite
    split_ifs at found with lite
    · rw [input] at found
      cases found
      exact .inl ⟨items, input, rfl, lite⟩
    · cases changed with
      | true =>
        refine .inr ⟨notLite lite, fun items' same => ?_⟩
        dsimp only at found
        rw [if_pos rfl, Obj.set, Dict.lookup_assign, if_pos rfl] at found
        cases found
        cases same
        exact none_
      | false =>
        refine .inr ⟨notLite lite, fun items' same => ?_⟩
        dsimp only at found
        rw [if_neg (by simp), input] at found
        cases found
        cases same
        exact unchanged rfl
  · rename_i other
    refine .inr ⟨fun items same => absurd same (other items), fun items same => ?_⟩
    rw [same] at found
    exact absurd found (other items)

theorem readInput_string (py : Python F) (t : Str) {items : List (JsonValue F)}
    (h : readInput py (.str t) = .ok items) : items.any isInstructionItem = false := by
  obtain ⟨-, instructions, -⟩ := sanitizeInputItems_settles h
  rw [instructions]
  rfl

/-- All Lite bundles of the input are tool messages, and the input has an instruction message. -/
def LosesLiteBundle (body : JsonValue F) : Prop :=
  ∃ data items, body = .dict data ∧ Dict.lookup (text "input") data = some (.list items) ∧
    isResponsesLiteInput items = true ∧
    (∀ item ∈ items, isLiteItem item = true → hasToolRole item = true) ∧
    ∃ item ∈ items, isInstructionItem item = true

theorem losesLiteBundle_iff {py : Pydantic F} {data : Obj F} {r : ResponsesRequest F}
    (accepted : validate py (.dict data) = .ok r) :
    LosesLiteBundle (.dict data) ↔
      isResponsesLiteInput r.input = false ∧ r.input.any isInstructionItem = true := by
  obtain ⟨-, v, found, input⟩ := validateFields_ok accepted
  rcases normalize_input data v found with ⟨items, given, rfl, lite⟩ | ⟨notLite, none_⟩
  · obtain ⟨-, instructions, bundles⟩ := sanitizeInputItems_settles input
    rw [isResponsesLiteInput_eq, instructions, bundles]
    have tools : (items.any fun item => isLiteItem item && !hasToolRole item) = false ↔
        ∀ item ∈ items, isLiteItem item = true → hasToolRole item = true := by
      simp [List.any_eq_false]
    rw [tools, List.any_eq_true]
    constructor
    · rintro ⟨data', items', same, given', -, lost, instruction⟩
      cases same
      rw [given] at given'
      cases given'
      exact ⟨lost, instruction⟩
    · rintro ⟨lost, instruction⟩
      exact ⟨data, items, rfl, given, lite, lost, instruction⟩
  · have silent : r.input.any isInstructionItem = false := by
      cases v with
      | str t => exact readInput_string py.toPython t input
      | list items =>
        obtain ⟨-, instructions, -⟩ := sanitizeInputItems_settles input
        rw [instructions]
        exact none_ items rfl
      | _ => cases input
    refine iff_of_false ?_ (by simp [silent])
    rintro ⟨data', items', same, given', lite, -⟩
    cases same
    rw [notLite items' given'] at lite
    cases lite

theorem dumped_modelDump (r : ResponsesRequest F) : r.dumped.modelDump = r.modelDump := by
  have twice : (r.extra.filter fun p => !isNone p.2).filter (fun p => !isNone p.2)
      = r.extra.filter fun p => !isNone p.2 := by
    rw [List.filter_filter]
    simp
  rw [ResponsesRequest.modelDump, ResponsesRequest.modelDump]
  exact congrArg (dumpFields r.fields ++ ·) twice

theorem dumped_forwarding (r : ResponsesRequest F) :
    r.dumped.modelDumpForForwarding = r.modelDumpForForwarding := by
  rw [ResponsesRequest.modelDumpForForwarding, ResponsesRequest.modelDumpForForwarding,
    dumped_modelDump]
  rfl

/-- The forwarded body is accepted again, as a request with the same dumps and with `tools` sent
or not as before, unless the body loses its Lite bundle. -/
theorem forward_hop_iff (py : Pydantic F) {body : JsonValue F} {r : ResponsesRequest F}
    (accepted : validate py body = .ok r) :
    (∃ r', validate py (.dict r.modelDumpForForwarding) = .ok r' ∧
        r'.modelDumpForForwarding = r.modelDumpForForwarding ∧ r'.modelDump = r.modelDump ∧
        r'.toolsSent = r.toolsSent) ↔
      ¬ LosesLiteBundle body := by
  cases body with
  | dict data =>
    rw [losesLiteBundle_iff accepted]
    obtain ⟨valid, -⟩ := validateFields_ok accepted
    have input : Dict.lookup (text "input") r.modelDumpForForwarding = some (.list r.input) :=
      lookup_forwarding valid.extra (by simp [ResponsesRequest.fields]) (by decide)
    have instructions : Dict.lookup (text "instructions") r.modelDumpForForwarding
        = some (.str r.instructions) :=
      lookup_forwarding valid.extra (by simp [ResponsesRequest.fields]) (by decide)
    constructor
    · rintro ⟨r', again, same, -⟩ ⟨notLite, instruction⟩
      -- The second validation hoists what the first has left.
      obtain ⟨valid', v, found, input'⟩ := validateFields_ok again
      have silent : r'.input.any isInstructionItem = false := by
        rcases normalize_input _ v found with ⟨items, given, -, lite⟩ | ⟨-, none_⟩
        · rw [input] at given
          cases given
          rw [notLite] at lite
          cases lite
        · cases v with
          | str t => exact readInput_string py.toPython t input'
          | list items =>
            obtain ⟨-, instructions, -⟩ := sanitizeInputItems_settles input'
            rw [instructions]
            exact none_ items rfl
          | _ => cases input'
      have dumped : Dict.lookup (text "input") r'.modelDumpForForwarding = some (.list r'.input) :=
        lookup_forwarding valid'.extra (by simp [ResponsesRequest.fields]) (by decide)
      rw [same, input, Option.some.injEq, JsonValue.list.injEq] at dumped
      rw [dumped, silent] at instruction
      cases instruction
    · intro kept
      have same : normalizeResponsesInputInstructions r.modelDumpForForwarding
          = r.modelDumpForForwarding := by
        refine normalize_same input instructions ?_
        by_cases lite : isResponsesLiteInput r.input = true
        · exact .inl lite
        · refine .inr (Bool.eq_false_iff.mpr fun instruction => kept ⟨?_, instruction⟩)
          exact Bool.eq_false_iff.mpr lite
      refine ⟨r.dumped, ?_, dumped_forwarding r, dumped_modelDump r, rfl⟩
      rw [validate, same]
      exact validateFields_dump valid
  | _ => cases accepted

def plainPydantic : Pydantic {t : Str // isFloatLiteral t = true} where
  fmt := literalFloats
  eq a b := decide (dumps literalFloats a = dumps literalFloats b)
  eq_none := by decide
  bool
    | .bool b => some b
    | _ => none
  reasoning := asObj
  text := asObj
  bool_dump _ := rfl
  reasoning_dump _ _ _ := rfl
  text_dump _ _ _ := rfl

/-- A request with a Lite bundle under a role, and a developer message. -/
def bundleItems (role : String) : List (JsonValue {t : Str // isFloatLiteral t = true}) :=
  [.dict [(text "type", .str (text "additional_tools")), (text "role", .str (text role)),
      (text "tool_call_id", .str (text "c")), (text "output", .str (text "x"))],
    .dict [(text "role", .str (text "developer")), (text "content", .str (text "Be brief."))]]

def bundleBody (role : String) : JsonValue {t : Str // isFloatLiteral t = true} :=
  .dict [(text "model", .str (text "gpt")), (text "instructions", .str []),
    (text "input", .list (bundleItems role))]

theorem forward_hop_developer :
    ∃ r, validate plainPydantic (bundleBody "developer") = .ok r ∧
      ∃ r', validate plainPydantic (.dict r.modelDumpForForwarding) = .ok r' ∧
        r'.modelDumpForForwarding = r.modelDumpForForwarding ∧ r'.modelDump = r.modelDump ∧
        r'.toolsSent = r.toolsSent := by
  obtain ⟨r, accepted⟩ : ∃ r, validate plainPydantic (bundleBody "developer") = .ok r := ⟨_, rfl⟩
  refine ⟨r, accepted, (forward_hop_iff plainPydantic accepted).mpr ?_⟩
  rintro ⟨data, items, same, given, -, lost, -⟩
  cases same
  have found : some (JsonValue.list (bundleItems "developer")) = some (JsonValue.list items) := given
  cases found
  have tool := lost _ List.mem_cons_self rfl
  exact absurd tool (by decide)

/-- The bundle of a tool message becomes a function call output, so the owner hoists the developer
message that the origin has left in the input. -/
theorem forward_hop_breaks :
    ∃ r r', validate plainPydantic (bundleBody "tool") = .ok r ∧
      validate plainPydantic (.dict r.modelDumpForForwarding) = .ok r' ∧
      (r.instructions = [] ∧ r.input.length = 2) ∧
      (r'.instructions = text "Be brief." ∧ r'.input.length = 1) ∧
      r'.modelDumpForForwarding ≠ r.modelDumpForForwarding := by
  refine ⟨_, _, rfl, rfl, ⟨rfl, rfl⟩, ⟨rfl, rfl⟩, fun same => ?_⟩
  have instructions : some (JsonValue.str (text "Be brief.")) = some (JsonValue.str []) :=
    congrArg (Dict.lookup (text "instructions")) same
  exact absurd (JsonValue.str.inj (Option.some.inj instructions)) (by decide)

end Requests
