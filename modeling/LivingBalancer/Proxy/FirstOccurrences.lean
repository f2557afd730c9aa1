import LivingBalancer.Proxy.ToolCallIdentity

/-!
# No first occurrence is dropped

Every key of the seen map stands for a call that was sent on. So an event that is
suppressed, and a tool use that is taken out of a wrapper, comes after a call with its
identity that was sent.
-/

namespace ToolCallDedupe

open PyJson FirstSeen Runs

variable {F : Type} {fmt : FloatText F}

/-! ## Calls in a payload -/

/-- A finished call item whose argument is a text. -/
structure CallItem (F : Type) where
  record : Obj F
  item : Obj F
  itemType : Str
  argument : Str

def callItem (fmt : FloatText F) (payload : Option (Obj F)) : Option (CallItem F) :=
  (doneItem payload).bind fun p => (argumentValueOf fmt p.2).bind fun q =>
    (asStr q.2).map fun argument => ⟨p.1, p.2, q.1, argument⟩

def CallItem.name (c : CallItem F) : Option Str := asStr (c.item.get "name")

def CallItem.itemNamespace (c : CallItem F) : Option Str := asStr (c.item.get "namespace")

/-- The tool uses of a wrapper. -/
def wrapperUses (fmt : FloatText F) (payload : Option (Obj F)) : Option (List (JsonValue F)) :=
  (callItem fmt payload).bind fun c =>
    if c.name = some parallelToolCallName then (toolUsesOf fmt c.argument).map Prod.snd else none

/-- The identity of a call that is no wrapper. -/
def directIdentity (fmt : FloatText F) (c : CallItem F) : CallIdentity where
  itemType := c.itemType
  itemNamespace := c.itemNamespace
  name := c.name.map normalizeToolCallName
  argumentKey :=
    canonicalDownstreamSideEffectArgumentKey fmt (c.name.map normalizeToolCallName) c.argument

def CallItem.calls (fmt : FloatText F) (c : CallItem F) : List CallIdentity :=
  if c.name = some parallelToolCallName then
    ((toolUsesOf fmt c.argument).map fun p => p.2.filterMap (useIdentity fmt)).getD []
  else [directIdentity fmt c]

/-- The calls that a payload has. -/
def callsOf (fmt : FloatText F) (payload : Option (Obj F)) : List CallIdentity :=
  ((callItem fmt payload).map (CallItem.calls fmt)).getD []

/-- The payload with its item's `arguments` replaced. -/
def withArguments (payload : Option (Obj F)) (argument : Str) : Option (Obj F) :=
  ((doneItem payload).map fun p =>
    some (p.1.set "item" (.dict (p.2.set "arguments" (.str argument))))).getD payload

/-- The calls that were sent on, and the tool uses that were kept in their wrappers. -/
def forwardedCalls (fmt : FloatText F) (log : List (Delivery F)) : List CallIdentity :=
  log.flatMap fun d => (d.sent.map (callsOf fmt)).getD []

/-- What is dropped of an event has an identity in `before`: the call of a suppressed event,
every tool use of a suppressed wrapper, and every tool use that is not in the arguments that
a wrapper is sent with; a tool use may also repeat one that is kept earlier in its wrapper. -/
inductive DropsOnlyRepeats (fmt : FloatText F) (before : List CallIdentity) : Delivery F → Prop
  | call {received : Option (Obj F)} (c : CallItem F) (found : callItem fmt received = some c)
      (plain : c.name ≠ some parallelToolCallName) (repeated : directIdentity fmt c ∈ before) :
      DropsOnlyRepeats fmt before ⟨received, none⟩
  | wrapper {received : Option (Obj F)} (uses : List (JsonValue F)) (nonempty : uses ≠ [])
      (found : wrapperUses fmt received = some uses)
      (repeated : ∀ u ∈ uses, ∃ i ∈ before, useIdentity fmt u = some i) :
      DropsOnlyRepeats fmt before ⟨received, none⟩
  | whole (received : Option (Obj F)) : DropsOnlyRepeats fmt before ⟨received, some received⟩
  | part {received : Option (Obj F)} (uses kept : List (JsonValue F)) (argument : Str)
      (found : wrapperUses fmt received = some uses)
      (written : (toolUsesOf fmt argument).map Prod.snd = some kept)
      (trimmed : Trimmed (useIdentity fmt) SameValue before uses kept) :
      DropsOnlyRepeats fmt before ⟨received, some (withArguments received argument)⟩

/-! ## Payloads -/

theorem Obj.get_set_self (d : Obj F) (k : String) (v : JsonValue F) : (d.set k v).get k = v := by
  rw [Obj.get, Obj.set, Dict.lookup_assign, if_pos rfl, Option.getD_some]

theorem Obj.get_set_of_ne (d : Obj F) {k k' : String} (v : JsonValue F) (h : text k' ≠ text k) :
    (d.set k v).get k' = d.get k' := by
  rw [Obj.get, Obj.set, Dict.lookup_assign, if_neg h, Obj.get]

theorem Obj.set_set (d : Obj F) (k : String) (v v' : JsonValue F) :
    (d.set k v).set k v' = d.set k v' :=
  Dict.assign_assign _ _ _ _

theorem Obj.set_distinct {d : Obj F} (h : (JsonValue.dict d).Distinct) (k : String)
    {v : JsonValue F} (hv : v.Distinct) : (JsonValue.dict (d.set k v)).Distinct := by
  refine ⟨(Dict.set ⟨d, h.1⟩ (text k) v).nodup, itemsDistinct_iff.mpr fun p hp => ?_⟩
  rcases mem_assign hp with rfl | old
  · exact hv
  · exact itemsDistinct_iff.mp h.2 p old

theorem doneItem_eq_some {payload : Option (Obj F)} {record item : Obj F}
    (h : doneItem payload = some (record, item)) : payload = some record ∧
    asStr (record.get "type") = some (text "response.output_item.done") ∧
    record.get "item" = .dict item := by
  cases payload with
  | none => cases h
  | some payload =>
    rw [doneItem] at h
    split_ifs at h with done
    obtain ⟨item', found, same⟩ := Option.map_eq_some_iff.mp h
    cases same
    exact ⟨rfl, done, asObj_eq_some found⟩

theorem withArguments_of_item {payload : Option (Obj F)} {record item : Obj F}
    (h : doneItem payload = some (record, item)) (argument : Str) :
    withArguments payload argument =
      some (record.set "item" (.dict (item.set "arguments" (.str argument)))) := by
  rw [withArguments, h]
  rfl

theorem doneItem_withArguments {payload : Option (Obj F)} {record item : Obj F}
    (h : doneItem payload = some (record, item)) (argument : Str) :
    doneItem (withArguments payload argument) =
      some (record.set "item" (.dict (item.set "arguments" (.str argument))),
        item.set "arguments" (.str argument)) := by
  obtain ⟨-, done, -⟩ := doneItem_eq_some h
  have other : text "type" ≠ text "item" := by decide
  rw [withArguments_of_item h, doneItem, Obj.get_set_of_ne _ _ other, if_pos done,
    Obj.get_set_self]
  rfl

theorem withArguments_withArguments {payload : Option (Obj F)} {record item : Obj F}
    (h : doneItem payload = some (record, item)) (first second : Str) :
    withArguments (withArguments payload first) second = withArguments payload second := by
  rw [withArguments_of_item (doneItem_withArguments h first), withArguments_of_item h,
    Obj.set_set, Obj.set_set]

theorem callItem_eq_some {payload : Option (Obj F)} {c : CallItem F}
    (h : callItem fmt payload = some c) : doneItem payload = some (c.record, c.item) ∧
    ∃ argument, argumentValueOf fmt c.item = some (c.itemType, argument) ∧
      asStr argument = some c.argument := by
  obtain ⟨⟨record, item⟩, done, h⟩ := Option.bind_eq_some_iff.mp h
  obtain ⟨⟨itemType, argument⟩, found, h⟩ := Option.bind_eq_some_iff.mp h
  obtain ⟨argument', str, rfl⟩ := Option.map_eq_some_iff.mp h
  exact ⟨done, argument, found, str⟩

/-- New arguments are those of a function call, and the argument of no other call. -/
theorem argumentValueOf_set {item : Obj F} {itemType : Str} {argument : JsonValue F}
    (h : argumentValueOf fmt item = some (itemType, argument)) (new : JsonValue F) :
    argumentValueOf fmt (item.set "arguments" new) =
      some (itemType, if itemType = text "function_call" then new else argument) := by
  have type : text "type" ≠ text "arguments" := by decide
  have input : text "input" ≠ text "arguments" := by decide
  have operation : text "operation" ≠ text "arguments" := by decide
  rw [argumentValueOf] at h ⊢
  rw [Obj.get_set_of_ne _ _ type, Obj.get_set_of_ne _ _ input, Obj.get_set_of_ne _ _ operation,
    Obj.get_set_self]
  cases found : asStr (item.get "type") with
  | none =>
    rw [found] at h
    cases h
  | some itemType' =>
    simp only [found] at h ⊢
    by_cases function : itemType' = text "function_call"
    · rw [if_pos function] at h ⊢
      cases h
      rw [if_pos function]
    · rw [if_neg function] at h ⊢
      have kept : itemType = itemType' := by
        split_ifs at h
        · cases h
          rfl
        · cases object : asObj (item.get "operation") with
          | none =>
            rw [object] at h
            cases h
            rfl
          | some operation =>
            rw [object] at h
            cases h
            rfl
      rw [h, kept, if_neg function]

theorem argumentValueOf_type {item : Obj F} {itemType : Str} {argument : JsonValue F}
    (h : argumentValueOf fmt item = some (itemType, argument)) : itemType ≠ parallelToolUse := by
  have function : text "function_call" ≠ parallelToolUse := by decide
  have custom : text "custom_tool_call" ≠ parallelToolUse := by decide
  have patch : text "apply_patch_call" ≠ parallelToolUse := by decide
  rw [argumentValueOf] at h
  split at h
  · split_ifs at h with isFunction isCustom isPatch
    · cases h
      exact fun same => function (isFunction.symm.trans same)
    · cases h
      exact fun same => custom (isCustom.symm.trans same)
    · split at h
      · cases h
        exact fun same => patch (isPatch.symm.trans same)
      · cases h
        exact fun same => patch (isPatch.symm.trans same)
  · cases h

theorem callItem_withArguments {payload : Option (Obj F)} {c : CallItem F}
    (h : callItem fmt payload = some c) (argument : Str) : ∃ c',
    callItem fmt (withArguments payload argument) = some c' ∧ c'.name = c.name ∧
      c'.itemType = c.itemType ∧
      c'.argument = if c.itemType = text "function_call" then argument else c.argument := by
  obtain ⟨done, old, found, str⟩ := callItem_eq_some h
  have name : text "name" ≠ text "arguments" := by decide
  refine ⟨⟨c.record.set "item" (.dict (c.item.set "arguments" (.str argument))),
    c.item.set "arguments" (.str argument), c.itemType,
    if c.itemType = text "function_call" then argument else c.argument⟩, ?_, ?_, rfl, rfl⟩
  · rw [callItem, doneItem_withArguments done, Option.bind_some,
      argumentValueOf_set found, Option.bind_some]
    split_ifs
    · rfl
    · simp only [str, Option.map_some]
  · exact congrArg asStr (Obj.get_set_of_ne _ _ name)

theorem wrapperUses_eq {payload : Option (Obj F)} {c : CallItem F}
    (h : callItem fmt payload = some c) (wrapper : c.name = some parallelToolCallName) :
    wrapperUses fmt payload = (toolUsesOf fmt c.argument).map Prod.snd := by
  rw [wrapperUses, h, Option.bind_some, if_pos wrapper]

/-! ## Arguments -/

theorem toolUsesOf_eq_some {argument : Str} {d : Obj F} {uses : List (JsonValue F)}
    (h : toolUsesOf fmt argument = some (d, uses)) :
    (JsonValue.dict d).Distinct ∧ AllDistinct uses := by
  rw [toolUsesOf] at h
  split at h
  · rename_i d' read
    obtain ⟨uses', list, same⟩ := Option.map_eq_some_iff.mp h
    cases same
    obtain ⟨v, loaded, object⟩ := Option.bind_eq_some_iff.mp read
    have distinct := loads_distinct loaded
    rw [asObj_eq_some object] at distinct
    have uses := get_distinct distinct "tool_uses"
    rw [asList_eq_some list] at uses
    exact ⟨distinct, uses⟩
  · cases h

/-- The arguments that a wrapper is given are read as its tool uses. -/
theorem toolUsesOf_dumps {d : Obj F} (h : (JsonValue.dict d).Distinct)
    {uses : List (JsonValue F)} (distinct : AllDistinct uses) :
    (toolUsesOf fmt (dumps fmt (.dict (d.set "tool_uses" (.list uses))))).map Prod.snd =
      some (sortAll uses) := by
  have whole : (JsonValue.dict (d.set "tool_uses" (.list uses))).Distinct :=
    Obj.set_distinct h "tool_uses" distinct
  rw [toolUsesOf, jsonObjectFromArgument, loads_dumps whole, sortKeys_dict]
  simp only [Option.bind_some, asObj]
  rw [sortObj_get whole, Obj.get_set_self, asList_sortKeys]
  rfl

theorem trimmed_distinct {before : List CallIdentity} {uses kept : List (JsonValue F)}
    (h : Trimmed (useIdentity fmt) SameValue before uses kept) : AllDistinct kept := by
  refine allDistinct_iff.mpr fun v hv => ?_
  obtain ⟨u, -, same⟩ := h.mem v hv
  exact same.right

theorem trimmed_trans {before before' : List CallIdentity} {uses deduped kept : List (JsonValue F)}
    (first : Trimmed (useIdentity fmt) SameValue before uses deduped)
    (second : Trimmed (useIdentity fmt) SameValue before' deduped kept) (sub : before ⊆ before') :
    Trimmed (useIdentity fmt) SameValue before' uses kept :=
  first.trans (fun _ _ same => same.useIdentity_eq) (fun _ _ _ => SameValue.trans) second sub

/-- Writing tool uses and reading them back changes the order of their keys at most. -/
theorem trimmed_sortAll {before : List CallIdentity} {uses kept : List (JsonValue F)}
    (h : Trimmed (useIdentity fmt) SameValue before uses kept) :
    Trimmed (useIdentity fmt) SameValue before uses (sortAll kept) := by
  have distinct := allDistinct_iff.mp (trimmed_distinct h)
  rw [sortAll_eq_map]
  exact trimmed_trans h (.map (fun v hv => .sorted (distinct v hv)) before) (List.Subset.refl _)

theorem filterMap_sortAll {uses : List (JsonValue F)} (h : AllDistinct uses) :
    (sortAll uses).filterMap (useIdentity fmt) = uses.filterMap (useIdentity fmt) := by
  rw [sortAll_eq_map, List.filterMap_map]
  refine List.filterMap_congr fun u hu => ?_
  exact (SameValue.sorted (allDistinct_iff.mp h u hu)).useIdentity_eq.symm

/-! ## The loop inside a wrapper -/

theorem dedupeToolUses_trimmed (fmt : FloatText F) {uses : List (JsonValue F)}
    (distinct : AllDistinct uses) {before : List CallIdentity}
    (known : ∀ i ∈ before, ∃ v : JsonValue F, v.Distinct ∧ useIdentity fmt v = some i) :
    Trimmed (useIdentity fmt) SameValue before uses
      (dedupeToolUses fmt (before.map (·.argumentKey)) uses).1 := by
  induction uses generalizing before with
  | nil =>
    rw [dedupeToolUses]
    exact .nil before
  | cons u uses ih =>
    obtain ⟨first, others⟩ := distinct
    rw [dedupeToolUses]
    cases found : dedupeRecipient u with
    | none =>
      have none : useIdentity fmt u = none := by rw [useIdentity, found, Option.map_none]
      refine .keep (.refl first) ?_
      rw [none]
      exact ih others known
    | some p =>
      obtain ⟨name, d⟩ := p
      have identity : useIdentity fmt u = some ⟨parallelToolUse, none,
          some (normalizeToolCallName name), canonicalParallelToolUseKey fmt d⟩ := by
        rw [useIdentity, found, Option.map_some]
      simp only
      split_ifs with repeated
      · obtain ⟨i, mem, key⟩ := List.mem_map.mp repeated
        obtain ⟨v, hv, same⟩ := known i mem
        have one := useIdentity_eq_of_key first hv identity same key.symm
        exact .drop identity (by rwa [one]) (ih others known)
      · refine .keep (.refl first) ?_
        rw [identity]
        refine ih others fun i hi => ?_
        rcases List.mem_cons.mp hi with rfl | old
        · exact ⟨u, first, identity⟩
        · exact known i old

theorem dedupeParallelToolUsesArgument_changed {argument rewritten : Str} {removed : ℕ}
    (h : dedupeParallelToolUsesArgument fmt argument = (rewritten, true, removed)) :
    ∃ uses deduped, (toolUsesOf fmt argument).map Prod.snd = some uses ∧
      (toolUsesOf fmt rewritten).map Prod.snd = some deduped ∧
      Trimmed (useIdentity fmt) SameValue [] uses deduped := by
  rw [dedupeParallelToolUsesArgument] at h
  cases read : toolUsesOf fmt argument with
  | none =>
    rw [read] at h
    cases h
  | some p =>
    obtain ⟨d, uses⟩ := p
    obtain ⟨distinct, all⟩ := toolUsesOf_eq_some read
    have once : Trimmed (useIdentity fmt) SameValue [] uses (dedupeToolUses fmt [] uses).1 :=
      dedupeToolUses_trimmed fmt all nofun
    simp only [read] at h
    by_cases unchanged : (dedupeToolUses fmt [] uses).2 = 0
    · rw [if_pos unchanged] at h
      cases h
    · rw [if_neg unchanged] at h
      cases h
      exact ⟨uses, _, rfl, toolUsesOf_dumps distinct (trimmed_distinct once), trimmed_sortAll once⟩

/-- What the rewrite leaves: the payload, or a wrapper without nested repetitions. -/
inductive RewriteEffect (fmt : FloatText F) (payload : Option (Obj F)) : Option (Obj F) → Prop
  | same : RewriteEffect fmt payload payload
  | trimmed (c : CallItem F) (uses deduped : List (JsonValue F)) (argument : Str)
      (found : callItem fmt payload = some c) (wrapper : c.name = some parallelToolCallName)
      (function : c.itemType = text "function_call")
      (read : (toolUsesOf fmt c.argument).map Prod.snd = some uses)
      (written : (toolUsesOf fmt argument).map Prod.snd = some deduped)
      (trimmed : Trimmed (useIdentity fmt) SameValue [] uses deduped) :
      RewriteEffect fmt payload (withArguments payload argument)

theorem rewriteParallelToolCallPayload_effect (payload : Option (Obj F)) :
    RewriteEffect fmt payload (rewriteParallelToolCallPayload fmt payload).1 := by
  rw [rewriteParallelToolCallPayload]
  split
  · rename_i record item done
    split_ifs with wrapper
    · obtain ⟨function, name⟩ := wrapper
      split
      · rename_i argumentValue str
        split
        · rename_i rewritten removed changed
          obtain ⟨uses, deduped, read, written, once⟩ :=
            dedupeParallelToolUsesArgument_changed changed
          have call : callItem fmt payload =
              some ⟨record, item, text "function_call", argumentValue⟩ := by
            rw [callItem, done, Option.bind_some, argumentValueOf, function]
            simp only [if_true, Option.bind_some, str, Option.map_some]
          rw [← withArguments_of_item done]
          exact .trimmed _ uses deduped _ call name rfl read written once
        · exact .same
      · exact .same
    · exact .same
  · exact .same

/-! ## The seen map -/

/-- Every key stands for a call in `calls`. -/
def SeenIn (seen : SeenKeys) (calls : List CallIdentity) : Prop :=
  ∀ key, (seen.get key).isSome = true → key.identity ∈ calls

theorem SeenIn.mono {seen : SeenKeys} {calls calls' : List CallIdentity} (h : SeenIn seen calls)
    (sub : calls ⊆ calls') : SeenIn seen calls' :=
  fun key hkey => sub (h key hkey)

theorem SeenIn.filter {seen : SeenKeys} {calls : List CallIdentity} (h : SeenIn seen calls)
    (p : ToolCallDedupeKey × Unit → Bool) : SeenIn (seen.filter p) calls := by
  intro key hkey
  obtain ⟨u, hu⟩ := Option.isSome_iff_exists.mp hkey
  rw [Dict.get_filter, Option.filter_eq_some_iff] at hu
  exact h key (Option.isSome_iff_exists.mpr ⟨u, hu.1⟩)

theorem SeenIn.set {seen : SeenKeys} {calls : List CallIdentity} (h : SeenIn seen calls)
    {key : ToolCallDedupeKey} (sent : key.identity ∈ calls) : SeenIn (seen.set key ()) calls := by
  intro key' hkey
  rw [Dict.get_set] at hkey
  split_ifs at hkey with own
  · rw [own]
    exact sent
  · exact h key' hkey

theorem SeenIn.evict {seen : SeenKeys} {calls : List CallIdentity} (h : SeenIn seen calls) :
    SeenIn (evict seen) calls := by
  intro key hkey
  obtain ⟨u, hu⟩ := Option.isSome_iff_exists.mp hkey
  have old : (key, u) ∈ seen.items := (dropOldest_sublist _ _).subset (Dict.mem_of_get hu)
  exact h key (Option.isSome_iff_exists.mpr ⟨u, Dict.get_of_mem old⟩)

theorem SeenIn.not_seen {seen : SeenKeys} {calls : List CallIdentity} (h : SeenIn seen calls)
    {key : ToolCallDedupeKey} (found : (seen.get key).isSome = true) {i : CallIdentity}
    (same : key.identity = i) : i ∈ calls := by
  rw [← same]
  exact h key found

/-- The loop over the tool uses of a wrapper. -/
theorem keepToolUses_trimmed (fmt : FloatText F) {responseId : Str} {uses : List (JsonValue F)}
    (distinct : AllDistinct uses) {seen : SeenKeys} {before : List CallIdentity}
    (h : SeenIn seen before) :
    Trimmed (useIdentity fmt) SameValue before uses
      (keepToolUses fmt responseId seen uses).2.1 ∧
    SeenIn (keepToolUses fmt responseId seen uses).1
      ((keepToolUses fmt responseId seen uses).2.1.filterMap (useIdentity fmt) ++ before) ∧
    ((keepToolUses fmt responseId seen uses).2.2 = 0 →
      (keepToolUses fmt responseId seen uses).2.1 = uses) := by
  induction uses generalizing seen before with
  | nil =>
    rw [keepToolUses]
    exact ⟨.nil before, h, fun _ => rfl⟩
  | cons u uses ih =>
    obtain ⟨first, others⟩ := distinct
    rw [keepToolUses]
    cases found : dedupeRecipient u with
    | none =>
      have none : useIdentity fmt u = none := by rw [useIdentity, found, Option.map_none]
      obtain ⟨trimmed, kept, whole⟩ := ih others h
      refine ⟨.keep (.refl first) ?_, ?_, fun removed => ?_⟩
      · rw [none]
        exact trimmed
      · rw [List.filterMap_cons_none none]
        exact kept
      · simp only [whole removed]
    | some p =>
      obtain ⟨name, d⟩ := p
      have identity : useIdentity fmt u = some ⟨parallelToolUse, none,
          some (normalizeToolCallName name), canonicalParallelToolUseKey fmt d⟩ := by
        rw [useIdentity, found, Option.map_some]
      simp only
      split_ifs with repeated
      · obtain ⟨trimmed, kept, whole⟩ := ih others h
        exact ⟨.drop identity (h.not_seen repeated rfl) trimmed, kept, fun none => by cases none⟩
      · have sent := (h.mono (List.subset_cons_self ⟨parallelToolUse, none,
          some (normalizeToolCallName name), canonicalParallelToolUseKey fmt d⟩ before)).set
            (show ToolCallDedupeKey.identity ⟨responseId, parallelToolUse, none, some name, none,
              canonicalParallelToolUseKey fmt d⟩ ∈ _ from List.mem_cons_self)
        obtain ⟨trimmed, kept, whole⟩ := ih others sent
        refine ⟨.keep (.refl first) ?_, kept.mono ?_, fun removed => ?_⟩
        · rw [identity]
          exact trimmed
        · rw [List.filterMap_cons_some identity]
          intro i hi
          rcases List.mem_append.mp hi with later | earlier
          · exact List.mem_append_left _ (List.mem_cons_of_mem _ later)
          · rcases List.mem_cons.mp earlier with rfl | old
            · exact List.mem_cons_self
            · exact List.mem_append_right _ old
        · exact congrArg (u :: ·) (whole removed)

/-- What becomes of a call that is no wrapper. -/
inductive CallMarked (before : List CallIdentity) (i : CallIdentity) : Bool × SeenKeys → Prop
  | repeated {seen : SeenKeys} (sent : i ∈ before) (seenIn : SeenIn seen before) :
      CallMarked before i (true, seen)
  | first {seen : SeenKeys} (seenIn : SeenIn seen (i :: before)) :
      CallMarked before i (false, seen)

theorem crossResponseKey_identity (key : ToolCallDedupeKey) :
    (crossResponseKey key).1.identity = key.identity := by
  rw [crossResponseKey]
  split_ifs <;> rfl

theorem markSideEffectCall_marked {seen : SeenKeys} {before : List CallIdentity}
    (h : SeenIn seen before) (key : ToolCallDedupeKey) (scopeByResponseId : Bool) :
    CallMarked before key.identity (markSideEffectCall seen key scopeByResponseId) := by
  have add : ∀ {seen' : SeenKeys} {key' : ToolCallDedupeKey}, key'.identity = key.identity →
      SeenIn seen' (key.identity :: before) →
      SeenIn (seen'.set key' ()) (key.identity :: before) := by
    intro seen' key' same hseen'
    refine hseen'.set ?_
    rw [same]
    exact List.mem_cons_self
  have cross := crossResponseKey_identity key
  have own := add rfl (h.mono (List.subset_cons_self _ _))
  have both : SeenIn ((seen.set key ()).set { key with callId := none } ())
      (key.identity :: before) := add rfl own
  rw [markSideEffectCall]
  by_cases seenBefore : (seen.get key).isSome = true
  · rw [if_pos seenBefore]
    exact .repeated (h.not_seen seenBefore rfl) h
  · rw [if_neg seenBefore]
    simp only
    split_ifs with seenElsewhere
    · simp only [Bool.and_eq_true] at seenElsewhere
      exact .repeated (h.not_seen seenElsewhere.1.2 cross) h
    · exact .first (add cross both).evict
    · exact .first both.evict

/-- What the marking does with the rewritten payload. -/
inductive MarkEffect (fmt : FloatText F) (before : List CallIdentity) (payload : Option (Obj F)) :
    Marking F → Prop
  | passes {seen : SeenKeys} (seenIn : SeenIn seen before) :
      MarkEffect fmt before payload ⟨false, payload, seen⟩
  | call (c : CallItem F) {duplicate : Bool} {seen : SeenKeys}
      (found : callItem fmt payload = some c) (plain : c.name ≠ some parallelToolCallName)
      (marked : CallMarked before (directIdentity fmt c) (duplicate, seen)) :
      MarkEffect fmt before payload ⟨duplicate, payload, seen⟩
  | wrapper (c : CallItem F) (uses kept : List (JsonValue F)) {marking : Marking F}
      (found : callItem fmt payload = some c) (wrapper : c.name = some parallelToolCallName)
      (read : (toolUsesOf fmt c.argument).map Prod.snd = some uses)
      (trimmed : Trimmed (useIdentity fmt) SameValue before uses kept)
      (seenIn : SeenIn marking.seen (kept.filterMap (useIdentity fmt) ++ before))
      (form : marking.duplicate = false ∧ marking.payload = payload ∧ kept = uses ∨
        marking.duplicate = true ∧ kept = [] ∧ uses ≠ [] ∨
        marking.duplicate = false ∧ ∃ argument, marking.payload = withArguments payload argument ∧
          (toolUsesOf fmt argument).map Prod.snd = some (sortAll kept)) :
      MarkEffect fmt before payload marking

theorem markDuplicateParallelToolCall_effect {seen : SeenKeys} {before : List CallIdentity}
    (h : SeenIn seen before) {payload : Option (Obj F)} {c : CallItem F}
    (found : callItem fmt payload = some c) (wrapper : c.name = some parallelToolCallName)
    (responseId : Option Str) (scopeByResponseId : Bool) :
    MarkEffect fmt before payload (markDuplicateParallelToolCall fmt c.record c.item c.argument seen
      responseId scopeByResponseId) := by
  obtain ⟨done, -⟩ := callItem_eq_some found
  obtain ⟨rfl, -⟩ := doneItem_eq_some done
  rw [markDuplicateParallelToolCall]
  cases read : toolUsesOf fmt c.argument with
  | none => exact .passes h
  | some p =>
    obtain ⟨argument, uses⟩ := p
    obtain ⟨distinct, all⟩ := toolUsesOf_eq_some read
    have uses_eq : (toolUsesOf fmt c.argument).map Prod.snd = some uses := by rw [read]; rfl
    simp only
    generalize (if scopeByResponseId = true then responseId else none).getD [] = dedupeResponseId
    obtain ⟨trimmed, seenIn, whole⟩ := keepToolUses_trimmed fmt all h
    split_ifs with unchanged empty
    · exact .wrapper c uses _ found wrapper uses_eq trimmed seenIn.evict
        (.inl ⟨rfl, rfl, whole unchanged⟩)
    · refine .wrapper c uses _ found wrapper uses_eq trimmed seenIn.evict
        (.inr (.inl ⟨rfl, empty, ?_⟩))
      rintro rfl
      exact unchanged rfl
    · refine .wrapper c uses _ found wrapper uses_eq trimmed seenIn.evict
        (.inr (.inr ⟨rfl, _, (withArguments_of_item done _).symm, ?_⟩))
      exact toolUsesOf_dumps distinct (trimmed_distinct trimmed)

theorem markDuplicateToolCall_effect (fmt : FloatText F) {seen : SeenKeys} {before : List CallIdentity}
    (h : SeenIn seen before) (payload : Option (Obj F)) (responseId : Option Str)
    (scopeByResponseId : Bool) : MarkEffect fmt before payload
      (markDuplicateToolCallDownstreamEvent fmt payload seen responseId scopeByResponseId) := by
  rw [markDuplicateToolCallDownstreamEvent]
  split
  · exact .passes h
  · rename_i record item done
    split
    · exact .passes (h.filter _)
    · rename_i itemType argument found
      split
      · exact .passes h
      · rename_i argumentValue str
        have call : callItem fmt payload = some ⟨record, item, itemType, argumentValue⟩ := by
          rw [callItem, done, Option.bind_some, found, Option.bind_some, str, Option.map_some]
        simp only
        split_ifs with sideEffect wrapper
        · exact markDuplicateParallelToolCall_effect h call wrapper responseId scopeByResponseId
        · have type := argumentValueOf_type found
          have marked := markSideEffectCall_marked h ⟨responseId.getD [], itemType,
            asStr (item.get "namespace"), (asStr (item.get "name")).map normalizeToolCallName,
            asStr (item.get "call_id"), canonicalDownstreamSideEffectArgumentKey fmt
              ((asStr (item.get "name")).map normalizeToolCallName) argumentValue⟩
            scopeByResponseId
          refine .call _ call wrapper ?_
          simp only [ToolCallDedupeKey.identity, if_neg type] at marked
          exact marked
        · exact .passes (h.filter _)

/-! ## One event -/

theorem callsOf_wrapper {payload : Option (Obj F)} {c : CallItem F}
    (found : callItem fmt payload = some c) (wrapper : c.name = some parallelToolCallName)
    {uses : List (JsonValue F)} (read : (toolUsesOf fmt c.argument).map Prod.snd = some uses) :
    callsOf fmt payload = uses.filterMap (useIdentity fmt) := by
  obtain ⟨p, found', rfl⟩ := Option.map_eq_some_iff.mp read
  rw [callsOf, found, Option.map_some, Option.getD_some, CallItem.calls, if_pos wrapper, found']
  rfl

theorem callsOf_plain {payload : Option (Obj F)} {c : CallItem F}
    (found : callItem fmt payload = some c) (plain : c.name ≠ some parallelToolCallName) :
    callsOf fmt payload = [directIdentity fmt c] := by
  rw [callsOf, found, Option.map_some, Option.getD_some, CallItem.calls, if_neg plain]

/-- The tool uses that are kept are in the wrapper that is sent. -/
theorem kept_subset_sent {payload : Option (Obj F)} {c : CallItem F}
    (found : callItem fmt payload = some c) (wrapper : c.name = some parallelToolCallName)
    {before : List CallIdentity} {uses kept : List (JsonValue F)}
    (read : (toolUsesOf fmt c.argument).map Prod.snd = some uses)
    (trimmed : Trimmed (useIdentity fmt) SameValue before uses kept) {argument : Str}
    (written : (toolUsesOf fmt argument).map Prod.snd = some (sortAll kept)) :
    kept.filterMap (useIdentity fmt) ⊆ callsOf fmt (withArguments payload argument) := by
  obtain ⟨c', found', name, type, argument'⟩ := callItem_withArguments found argument
  by_cases function : c.itemType = text "function_call"
  · rw [if_pos function] at argument'
    rw [callsOf_wrapper found' (name.trans wrapper) (by rw [argument']; exact written),
      filterMap_sortAll (trimmed_distinct trimmed)]
    exact List.Subset.refl _
  · rw [if_neg function] at argument'
    rw [callsOf_wrapper found' (name.trans wrapper) (by rw [argument']; exact read)]
    intro i hi
    obtain ⟨v, hv, identity⟩ := List.mem_filterMap.mp hi
    obtain ⟨u, hu, same⟩ := trimmed.mem v hv
    exact List.mem_filterMap.mpr ⟨u, hu, same.useIdentity_eq.trans identity⟩

theorem RewriteEffect.sent {payload rewritten : Option (Obj F)}
    (h : RewriteEffect fmt payload rewritten) (before : List CallIdentity) :
    DropsOnlyRepeats fmt before ⟨payload, some rewritten⟩ := by
  cases h with
  | same => exact .whole payload
  | trimmed c uses deduped argument found wrapper function read written trimmed =>
    have whole : Trimmed (useIdentity fmt) SameValue before uses deduped :=
      trimmed_trans trimmed (.refl (fun v hv =>
        .refl (allDistinct_iff.mp (trimmed_distinct trimmed) v hv)) before) (List.nil_subset _)
    exact .part uses deduped argument ((wrapperUses_eq found wrapper).trans read) written whole

/-- A wrapper that the rewrite leaves has tool uses of the wrapper that came in. -/
theorem RewriteEffect.uses {payload rewritten : Option (Obj F)}
    (h : RewriteEffect fmt payload rewritten) {c : CallItem F}
    (found : callItem fmt rewritten = some c) (wrapper : c.name = some parallelToolCallName)
    {uses : List (JsonValue F)} (read : (toolUsesOf fmt c.argument).map Prod.snd = some uses) :
    ∃ received, wrapperUses fmt payload = some received ∧
      Trimmed (useIdentity fmt) SameValue [] received uses := by
  cases h with
  | same =>
    obtain ⟨p, found', rfl⟩ := Option.map_eq_some_iff.mp read
    obtain ⟨-, distinct⟩ := toolUsesOf_eq_some found'
    refine ⟨p.2, (wrapperUses_eq found wrapper).trans read, .refl (fun v hv => ?_) []⟩
    exact .refl (allDistinct_iff.mp distinct v hv)
  | trimmed c₀ received deduped argument found₀ wrapper₀ function read₀ written trimmed =>
    obtain ⟨c', found', name, type, argument'⟩ := callItem_withArguments found₀ argument
    rw [found'] at found
    cases found
    rw [if_pos function] at argument'
    rw [argument', written] at read
    cases read
    exact ⟨received, (wrapperUses_eq found₀ wrapper₀).trans read₀, trimmed⟩

theorem RewriteEffect.plain {payload rewritten : Option (Obj F)}
    (h : RewriteEffect fmt payload rewritten) {c : CallItem F}
    (found : callItem fmt rewritten = some c) (plain : c.name ≠ some parallelToolCallName) :
    rewritten = payload := by
  cases h with
  | same => rfl
  | trimmed c₀ received deduped argument found₀ wrapper =>
    obtain ⟨c', found', name, -⟩ := callItem_withArguments found₀ argument
    rw [found'] at found
    cases found
    exact absurd (name.trans wrapper) plain

theorem RewriteEffect.withArguments {payload rewritten : Option (Obj F)}
    (h : RewriteEffect fmt payload rewritten) (argument : Str) :
    withArguments rewritten argument = withArguments payload argument := by
  cases h with
  | same => rfl
  | trimmed c received deduped first found =>
    exact withArguments_withArguments (callItem_eq_some found).1 first argument

theorem MarkEffect.sound {before : List CallIdentity} {payload rewritten : Option (Obj F)}
    {marking : Marking F} (h : MarkEffect fmt before rewritten marking)
    (rewrite : RewriteEffect fmt payload rewritten) :
    DropsOnlyRepeats fmt before ⟨payload, marking.sent⟩ ∧
      SeenIn marking.seen ((marking.sent.map (callsOf fmt)).getD [] ++ before) := by
  cases h with
  | passes seenIn =>
    exact ⟨rewrite.sent before, seenIn.mono (List.subset_append_right _ _)⟩
  | call c found plain marked =>
    have same := rewrite.plain found plain
    subst same
    cases marked with
    | repeated sent seenIn => exact ⟨.call c found plain sent, seenIn⟩
    | first seenIn =>
      refine ⟨.whole _, ?_⟩
      have calls := callsOf_plain found plain
      simp only [Marking.sent, Bool.false_eq_true, if_false, Option.map_some, Option.getD_some,
        calls]
      exact seenIn
  | wrapper c uses kept found wrapper read trimmed seenIn form =>
    obtain ⟨received, found₀, once⟩ := rewrite.uses found wrapper read
    have both := trimmed_trans once trimmed (List.nil_subset _)
    obtain ⟨duplicate, payload', seen⟩ := marking
    rcases form with ⟨sent, same, rfl⟩ | ⟨dropped, rfl, nonempty⟩ | ⟨sent, argument, same, written⟩
    · simp only at sent same
      subst sent same
      refine ⟨rewrite.sent before, ?_⟩
      have calls := callsOf_wrapper found wrapper read
      simp only [Marking.sent, Bool.false_eq_true, if_false, Option.map_some, Option.getD_some,
        calls]
      exact seenIn
    · simp only at dropped
      subst dropped
      refine ⟨.wrapper received ?_ found₀ both.all_seen, seenIn⟩
      rintro rfl
      cases once
      exact nonempty rfl
    · simp only at sent same
      subst sent same
      have calls := kept_subset_sent found wrapper read trimmed written
      have sub := List.append_subset.mpr
        ⟨List.subset_append_of_subset_left before calls, List.subset_append_right _ before⟩
      refine ⟨?_, seenIn.mono sub⟩
      rw [Marking.sent, rewrite.withArguments]
      exact .part received (sortAll kept) argument found₀ written (trimmed_sortAll both)

/-! ## Every event -/

/-- The seen map holds sent calls, and every event so far dropped only repeats of them. -/
def Sound (fmt : FloatText F) (x : SeenKeys × List (Delivery F)) : Prop :=
  SeenIn x.1 (forwardedCalls fmt x.2) ∧
    ∀ d earlier, d :: earlier <:+ x.2 → DropsOnlyRepeats fmt (forwardedCalls fmt earlier) d

theorem Sound.step {x y : SeenKeys × List (Delivery F)} {e : DownstreamEvent F}
    (h : Sound fmt x) (step : recording (dedupeStep fmt) (deliver fmt) x e = some y) :
    Sound fmt y := by
  obtain ⟨seen, log⟩ := x
  obtain ⟨seen', log'⟩ := y
  obtain ⟨seenIn, dropped⟩ := h
  obtain ⟨moved, noted⟩ := recording_eq_some.mp step
  cases moved
  simp only [deliver] at noted
  subst noted
  have event := (markDuplicateToolCall_effect fmt seenIn
    (rewriteParallelToolCallPayload fmt e.payload).1 e.responseId e.scopeByResponseId).sound
      (rewriteParallelToolCallPayload_effect e.payload)
  refine ⟨event.2, fun d earlier suffix => ?_⟩
  rcases List.suffix_cons_iff.mp suffix with same | before
  · cases same
    exact event.1
  · exact dropped d earlier before

/-- In every run of events from an empty seen map, whatever is suppressed, and whatever is
taken out of a wrapper, repeats a call that was sent before. -/
theorem first_occurrence_sent {seen : SeenKeys} {log : List (Delivery F)}
    (h : Reachable (recording (dedupeStep fmt) (deliver fmt)) Any Fresh (seen, log)) :
    ∀ d earlier, d :: earlier <:+ log → DropsOnlyRepeats fmt (forwardedCalls fmt earlier) d := by
  have sound : Sound fmt (seen, log) := by
    refine h.invariant (I := Sound fmt) ?_ fun x e y kept _ step => kept.step step
    rintro x rfl
    refine ⟨fun key hkey => ?_, fun d earlier suffix => ?_⟩
    · cases hkey
    · cases List.eq_nil_of_suffix_nil suffix
  exact sound.2

/-! ## A replayed call -/

/-- A finished `exec_command` call. -/
def execEvent (callId yieldTime responseId : String) :
    DownstreamEvent {t : Str // isFloatLiteral t = true} where
  payload := some
    [(text "type", .str (text "response.output_item.done")),
      (text "item", .dict
        [(text "type", .str (text "function_call")), (text "name", .str (text "exec_command")),
          (text "call_id", .str (text callId)),
          (text "arguments", .str (dumps literalFloats (.dict
            [(text "cmd", .str (text "ls")), (text "yield_time_ms", .str (text yieldTime))])))])]
  responseId := some (text responseId)
  scopeByResponseId := false

/-- The call, and its replay in another response with another volatile argument. -/
def replayedCall : SeenKeys × List (Delivery {t : Str // isFloatLiteral t = true}) :=
  (replay (recording (dedupeStep literalFloats) (deliver literalFloats)) (Dict.empty, [])
    [execEvent "a" "5" "r1", execEvent "b" "7" "r2"]).getD (Dict.empty, [])

theorem replayed_call_dropped :
    replayedCall.2.map (fun d => d.sent.isNone) = [true, false] ∧
    DropsOnlyRepeats literalFloats (forwardedCalls literalFloats replayedCall.2.tail)
      (replayedCall.2.headD ⟨none, none⟩) := by
  have run : Reachable (recording (dedupeStep literalFloats) (deliver literalFloats)) Any Fresh
      replayedCall := by
    refine reachable_of_replay [execEvent "a" "5" "r1", execEvent "b" "7" "r2"] rfl
      (fun _ _ _ => trivial) ?_
    exact replay_eq_getD (by decide +kernel) (Dict.empty, [])
  have outcome : replayedCall.2.map (fun d => d.sent.isNone) = [true, false] := by decide +kernel
  rw [← Prod.mk.eta (p := replayedCall)] at run
  refine ⟨outcome, first_occurrence_sent run _ _ ?_⟩
  generalize replayedCall.2 = log at outcome
  cases log with
  | nil => cases outcome
  | cons d log => exact List.suffix_rfl

end ToolCallDedupe
