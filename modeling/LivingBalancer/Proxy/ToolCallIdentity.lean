import LivingBalancer.Lib.FirstSeen
import LivingBalancer.Lib.JsonRoundTrip
import LivingBalancer.Proxy.ToolCallDedupe

/-!
# The identity of a tool call

A call is known by its type, its namespace, its normalized name and its canonical
arguments key; a tool use of a parallel wrapper has the type `parallel_tool_use`. The
identity of a tool use does not depend on the order of its keys, and two tool uses with the
same arguments key have the same recipient.
-/

namespace ToolCallDedupe

open PyJson FirstSeen

variable {F : Type} {fmt : FloatText F}

structure CallIdentity where
  itemType : Str
  itemNamespace : Option Str
  name : Option Str
  argumentKey : Str
  deriving DecidableEq

/-- The type of the keys of tool uses. -/
def parallelToolUse : Str := text "parallel_tool_use"

/-- What a key says of its call; the key of a direct call has its name normalized. -/
def ToolCallDedupeKey.identity (key : ToolCallDedupeKey) : CallIdentity where
  itemType := key.itemType
  itemNamespace := key.itemNamespace
  name := if key.itemType = parallelToolUse then key.name.map normalizeToolCallName else key.name
  argumentKey := key.argumentKey

/-- The identity of a tool use that is deduplicated. -/
def useIdentity (fmt : FloatText F) (toolUse : JsonValue F) : Option CallIdentity :=
  (dedupeRecipient toolUse).map fun p =>
    ⟨parallelToolUse, none, some (normalizeToolCallName p.1), canonicalParallelToolUseKey fmt p.2⟩

/-- Equal as Python values, the order of keys apart. -/
structure SameValue (u v : JsonValue F) : Prop where
  left : u.Distinct
  right : v.Distinct
  equal : u.sortKeys = v.sortKeys

theorem SameValue.refl {u : JsonValue F} (h : u.Distinct) : SameValue u u := ⟨h, h, rfl⟩

theorem SameValue.trans {u v w : JsonValue F} (h : SameValue u v) (h' : SameValue v w) :
    SameValue u w :=
  ⟨h.left, h'.right, h.equal.trans h'.equal⟩

theorem SameValue.sorted {u : JsonValue F} (h : u.Distinct) : SameValue u u.sortKeys :=
  ⟨h, sortKeys_distinct u h, (sortKeys_sortKeys u).symm⟩

/-! ## Lookups -/

theorem lookup_distinct {d : Obj F} (h : (JsonValue.dict d).Distinct) {k : Str} {v : JsonValue F}
    (found : Dict.lookup k d = some v) : v.Distinct := by
  have mem : (k, v) ∈ d := Dict.mem_of_get (d := ⟨d, h.1⟩) found
  exact itemsDistinct_iff.mp h.2 _ mem

theorem get_distinct {d : Obj F} (h : (JsonValue.dict d).Distinct) (k : String) :
    (d.get k).Distinct := by
  rw [Obj.get]
  cases found : Dict.lookup (text k) d with
  | none => trivial
  | some v => exact lookup_distinct h found

/-- The object with its keys in order. -/
def sortObj (d : Obj F) : Obj F := (sortItems d).insertionSort KeyLe

theorem sortKeys_dict (d : Obj F) : (JsonValue.dict d).sortKeys = .dict (sortObj d) := by
  rw [JsonValue.sortKeys, sortObj]

theorem sortObj_get {d : Obj F} (h : (JsonValue.dict d).Distinct) (k : String) :
    (sortObj d).get k = (d.get k).sortKeys := by
  rw [Obj.get, sortObj, lookup_sorted h.1, Obj.get]
  cases Dict.lookup (text k) d with
  | none =>
    rw [Option.map_none, Option.getD_none, JsonValue.sortKeys]
  | some v => rfl

theorem asStr_sortKeys (v : JsonValue F) : asStr v.sortKeys = asStr v := by
  cases v <;> rw [JsonValue.sortKeys] <;> rfl

theorem asObj_sortKeys (v : JsonValue F) : asObj v.sortKeys = (asObj v).map sortObj := by
  cases v <;> rw [JsonValue.sortKeys] <;> rfl

theorem asList_sortKeys (v : JsonValue F) : asList v.sortKeys = (asList v).map sortAll := by
  cases v <;> rw [JsonValue.sortKeys] <;> rfl

theorem className_sortKeys (v : JsonValue F) : className v.sortKeys = className v := by
  cases v <;> rw [JsonValue.sortKeys] <;> rfl

theorem asStr_eq_some {v : JsonValue F} {t : Str} (h : asStr v = some t) : v = .str t := by
  cases v <;> cases h
  rfl

theorem asList_eq_some {v : JsonValue F} {xs : List (JsonValue F)} (h : asList v = some xs) :
    v = .list xs := by
  cases v <;> cases h
  rfl

/-! ## The order of keys does not matter -/

/-- Objects with the same items, the order of keys aside, have the same sorted form. -/
theorem sortObj_congr {d d' : Obj F} (nodup : (d.map Prod.fst).Nodup)
    (perm : (sortItems d).Perm (sortItems d')) : sortObj d = sortObj d' := by
  have left := (sortItems d).perm_insertionSort KeyLe
  have right := (sortItems d').perm_insertionSort KeyLe
  have same : (sortObj d).Perm (sortObj d') := left.trans (perm.trans right.symm)
  have keys : ((sortObj d).map Prod.fst).Nodup := by
    rw [sortObj, (left.map Prod.fst).nodup_iff, sortItems_keys]
    exact nodup
  refine same.eq_of_pairwise ?_ (List.pairwise_insertionSort KeyLe _)
    (List.pairwise_insertionSort KeyLe _)
  intro p q hp hq hpq hqp
  -- keys that are each at most the other are one key, and one key has one item
  have key : p.1 = q.1 := le_antisymm hpq hqp
  exact List.inj_on_of_nodup_map keys hp (same.mem_iff.mpr hq) key

theorem sortItems_filter (d : Obj F) (p : Str → Bool) :
    sortItems (d.filter fun item => p item.1) = (sortItems d).filter fun item => p item.1 := by
  rw [sortItems_eq_map, sortItems_eq_map, List.filter_map]
  rfl

theorem canonicalParametersKey_congr {d d' : Obj F} (name : Str)
    (nodup : (d.map Prod.fst).Nodup) (perm : (sortItems d).Perm (sortItems d')) :
    canonicalParametersKey fmt name d = canonicalParametersKey fmt name d' := by
  have kept : ∀ e : Obj F, (JsonValue.dict (e.filter fun p =>
      decide (p.1 ∉ sideEffectVolatileArgKeys))).sortKeys =
        .dict (sortObj (e.filter fun p => decide (p.1 ∉ sideEffectVolatileArgKeys))) :=
    fun e => sortKeys_dict _
  have same : sortObj (d.filter fun p => decide (p.1 ∉ sideEffectVolatileArgKeys)) =
      sortObj (d'.filter fun p => decide (p.1 ∉ sideEffectVolatileArgKeys)) := by
    refine sortObj_congr (nodup.sublist (List.filter_sublist.map _)) ?_
    rw [sortItems_filter d fun k => decide (k ∉ sideEffectVolatileArgKeys),
      sortItems_filter d' fun k => decide (k ∉ sideEffectVolatileArgKeys)]
    exact perm.filter _
  simp only [canonicalParametersKey, canonicalJsonKey, dumps, sortKeys_dict, sortObj, sortItems,
    kept] at same ⊢
  rw [same]

theorem canonicalWaitAgentTargets_sortKeys (targets : JsonValue F) :
    (canonicalWaitAgentTargets fmt targets.sortKeys).sortKeys =
      (canonicalWaitAgentTargets fmt targets).sortKeys := by
  cases targets with
  | list xs =>
    have order : ∀ a b : JsonValue F,
        targetLe fmt a b ↔ targetLe fmt a.sortKeys b.sortKeys := by
      intro a b
      rw [targetLe, targetLe, className_sortKeys, className_sortKeys, canonicalJsonKey,
        canonicalJsonKey, canonicalJsonKey, canonicalJsonKey, dumps_sortKeys, dumps_sortKeys]
    have sorted : ∀ ys : List (JsonValue F), sortAll (ys.insertionSort (targetLe fmt)) =
        (sortAll ys).insertionSort (targetLe fmt) := by
      intro ys
      rw [sortAll_eq_map, sortAll_eq_map]
      exact List.map_insertionSort _ _ _ _ fun a _ b _ => order a b
    simp only [JsonValue.sortKeys, canonicalWaitAgentTargets, sorted, sortAll_sortAll]
  | dict d =>
    have twice := sortKeys_sortKeys (.dict d)
    rw [sortKeys_dict] at twice ⊢
    simp only [canonicalWaitAgentTargets, sortKeys_dict d]
    exact twice
  | null | bool b | int n | float x | str t =>
    simp only [JsonValue.sortKeys, canonicalWaitAgentTargets]

theorem writeStdinParameters_nodup (d : Obj F) :
    ((writeStdinParameters d).map Prod.fst).Nodup := by
  have names : ([text "session_id", text "chars", text "yield_time_ms",
    text "max_output_tokens"] : List Str).Nodup := by decide
  exact names

theorem writeStdinParameters_sortObj {d : Obj F} (h : (JsonValue.dict d).Distinct) :
    sortItems (writeStdinParameters (sortObj d)) = sortItems (writeStdinParameters d) := by
  simp only [writeStdinParameters, sortItems, sortObj_get h, sortKeys_sortKeys]

theorem canonicalParallelToolUseKey_sortObj {d : Obj F} (h : (JsonValue.dict d).Distinct) :
    canonicalParallelToolUseKey fmt (sortObj d) = canonicalParallelToolUseKey fmt d := by
  have whole : dumps fmt (.dict (sortObj d)) = dumps fmt (.dict d) := by
    rw [← sortKeys_dict, dumps_sortKeys]
  simp only [canonicalParallelToolUseKey, sortObj_get h, asStr_sortKeys, asObj_sortKeys, whole]
  cases asStr (d.get "recipient_name") with
  | none => rfl
  | some name =>
    cases found : asObj (d.get "parameters") with
    | none => rfl
    | some parameters =>
      have distinct := get_distinct h "parameters"
      rw [asObj_eq_some found] at distinct
      have stdin : canonicalParametersKey fmt (normalizeToolCallName name)
          (writeStdinParameters (sortObj parameters)) =
          canonicalParametersKey fmt (normalizeToolCallName name)
            (writeStdinParameters parameters) := by
        refine canonicalParametersKey_congr _ (writeStdinParameters_nodup _) ?_
        rw [writeStdinParameters_sortObj distinct]
      have command : canonicalParametersKey fmt (normalizeToolCallName name) (sortObj parameters) =
          canonicalParametersKey fmt (normalizeToolCallName name) parameters := by
        have sorted := (sortItems parameters).perm_insertionSort KeyLe
        refine canonicalParametersKey_congr _ ?_ ?_
        · rw [sortObj, (sorted.map Prod.fst).nodup_iff, sortItems_keys]
          exact distinct.1
        · rw [sortObj, sortItems_insertionSort, sortItems_sortItems]
          exact sorted
      have wait : dumps fmt (.dict [(text "recipient_name", .str (normalizeToolCallName name)),
            (text "targets", canonicalWaitAgentTargets fmt ((sortObj parameters).get "targets"))]) =
          dumps fmt (.dict [(text "recipient_name", .str (normalizeToolCallName name)),
            (text "targets", canonicalWaitAgentTargets fmt (parameters.get "targets"))]) := by
        simp only [dumps, sortKeys_dict, sortObj, sortItems]
        rw [← sortObj, sortObj_get distinct, canonicalWaitAgentTargets_sortKeys]
      simp only [Option.map_some, stdin, command, wait]

theorem dedupeRecipient_sortKeys {u : JsonValue F} (h : u.Distinct) :
    dedupeRecipient u.sortKeys = (dedupeRecipient u).map fun p => (p.1, sortObj p.2) := by
  simp only [dedupeRecipient, asObj_sortKeys]
  cases found : asObj u with
  | none => rfl
  | some d =>
    rw [asObj_eq_some found] at h
    simp only [Option.map_some, sortObj_get h, asStr_sortKeys]
    cases asStr (d.get "recipient_name") with
    | none => rfl
    | some name =>
      simp only
      split_ifs <;> rfl

theorem dedupeRecipient_eq_some {u : JsonValue F} {name : Str} {d : Obj F}
    (h : dedupeRecipient u = some (name, d)) : u = .dict d ∧
    d.get "recipient_name" = .str name ∧ name ∈ parallelToolUseDedupeRecipientNames := by
  rw [dedupeRecipient] at h
  split at h
  · rename_i e object
    split at h
    · rename_i name' recipient
      split_ifs at h with listed
      cases h
      exact ⟨asObj_eq_some object, asStr_eq_some recipient, listed⟩
    · cases h
  · cases h

/-- Values that are equal have one identity. -/
theorem SameValue.useIdentity_eq {u v : JsonValue F} (h : SameValue u v) :
    useIdentity fmt u = useIdentity fmt v := by
  have sorted : ∀ w : JsonValue F, w.Distinct →
      useIdentity fmt w.sortKeys = useIdentity fmt w := by
    intro w hw
    rw [useIdentity, useIdentity, dedupeRecipient_sortKeys hw, Option.map_map]
    cases found : dedupeRecipient w with
    | none => rfl
    | some p =>
      obtain ⟨name, d⟩ := p
      obtain ⟨rfl, -⟩ := dedupeRecipient_eq_some found
      simp only [Option.map_some, Function.comp, canonicalParallelToolUseKey_sortObj hw]
  rw [← sorted u h.left, ← sorted v h.right, h.equal]

/-! ## The arguments key has the recipient -/

/-- The name that the arguments key of a tool use has. -/
def KeyName (fmt : FloatText F) (key : Str) (name : Str) : Prop :=
  ∃ d : Obj F, loads fmt key = some (.dict d) ∧ d.get "recipient_name" = .str name

theorem KeyName.unique {key name name' : Str} (h : KeyName fmt key name)
    (h' : KeyName fmt key name') : name = name' := by
  obtain ⟨d, read, found⟩ := h
  obtain ⟨d', read', found'⟩ := h'
  rw [read] at read'
  cases read'
  rw [found] at found'
  cases found'
  rfl

theorem KeyName.of_dumps {d : Obj F} {name : Str} (h : (JsonValue.dict d).Distinct)
    (found : d.get "recipient_name" = .str name) : KeyName fmt (dumps fmt (.dict d)) name := by
  refine ⟨sortObj d, ?_, ?_⟩
  · rw [loads_dumps h, sortKeys_dict]
  · rw [sortObj_get h, found, JsonValue.sortKeys]

theorem KeyName.of_parameters {d : Obj F} {name : Str} (h : (JsonValue.dict d).Distinct) :
    KeyName fmt (canonicalParametersKey fmt name d) name := by
  have names : [text "recipient_name", text "parameters"].Nodup := by decide
  have kept : (JsonValue.dict
      (d.filter fun p => decide (p.1 ∉ sideEffectVolatileArgKeys))).Distinct := by
    refine ⟨h.1.sublist (List.filter_sublist.map _), itemsDistinct_iff.mpr fun p hp => ?_⟩
    exact itemsDistinct_iff.mp h.2 p (List.mem_of_mem_filter hp)
  exact .of_dumps ⟨names, trivial, kept, trivial⟩ rfl

theorem writeStdinParameters_distinct {d : Obj F} (h : (JsonValue.dict d).Distinct) :
    (JsonValue.dict (writeStdinParameters d)).Distinct :=
  ⟨writeStdinParameters_nodup d, get_distinct h _, get_distinct h _, get_distinct h _,
    get_distinct h _, trivial⟩

theorem canonicalWaitAgentTargets_distinct (fmt : FloatText F) {targets : JsonValue F}
    (h : targets.Distinct) : (canonicalWaitAgentTargets fmt targets).Distinct := by
  cases targets with
  | list xs =>
    refine allDistinct_iff.mpr fun x hx => allDistinct_iff.mp h x ?_
    exact (List.mem_insertionSort (targetLe fmt)).mp hx
  | null | bool b | int n | float x | str t | dict d => exact h

/-- The names that are normalized in the key. -/
def normalizedInKey : List Str := ["write_stdin", "wait_agent", "exec_command"].map text

theorem canonicalParallelToolUseKey_name (fmt : FloatText F) {d : Obj F}
    (h : (JsonValue.dict d).Distinct) {name : Str} (recipient : d.get "recipient_name" = .str name) : ∃ keyed,
    KeyName fmt (canonicalParallelToolUseKey fmt d) keyed ∧
    (keyed = name ∨ keyed = normalizeToolCallName name ∧ keyed ∈ normalizedInKey) := by
  have whole : KeyName fmt (dumps fmt (.dict d)) name := .of_dumps h recipient
  have isName : asStr (d.get "recipient_name") = some name := by
    rw [recipient]
    rfl
  simp only [canonicalParallelToolUseKey, isName]
  cases found : asObj (d.get "parameters") with
  | none => exact ⟨name, whole, .inl rfl⟩
  | some parameters =>
    have distinct := get_distinct h "parameters"
    rw [asObj_eq_some found] at distinct
    simp only
    split_ifs with stdin wait command
    · exact ⟨_, .of_parameters (writeStdinParameters_distinct distinct),
        .inr ⟨rfl, by rw [stdin]; decide⟩⟩
    · have names : [text "recipient_name", text "targets"].Nodup := by decide
      have targets := canonicalWaitAgentTargets_distinct fmt
        (get_distinct distinct "targets")
      exact ⟨_, .of_dumps ⟨names, trivial, targets, trivial⟩ rfl,
        .inr ⟨rfl, by rw [wait]; decide⟩⟩
    · exact ⟨_, .of_parameters distinct, .inr ⟨rfl, by rw [command]; decide⟩⟩
    · exact ⟨name, whole, .inl rfl⟩

theorem recipient_not_normalized : ∀ name ∈ parallelToolUseDedupeRecipientNames,
    name ∉ normalizedInKey := by
  decide +kernel

/-- Tool uses with one arguments key are the same call. -/
theorem useIdentity_eq_of_key {u v : JsonValue F} (hu : u.Distinct) (hv : v.Distinct)
    {i j : CallIdentity} (hi : useIdentity fmt u = some i) (hj : useIdentity fmt v = some j)
    (same : i.argumentKey = j.argumentKey) : i = j := by
  obtain ⟨⟨name, d⟩, found, rfl⟩ := Option.map_eq_some_iff.mp hi
  obtain ⟨⟨name', d'⟩, found', rfl⟩ := Option.map_eq_some_iff.mp hj
  obtain ⟨rfl, recipient, listed⟩ := dedupeRecipient_eq_some found
  obtain ⟨rfl, recipient', listed'⟩ := dedupeRecipient_eq_some found'
  obtain ⟨keyed, has, form⟩ := canonicalParallelToolUseKey_name fmt hu recipient
  obtain ⟨keyed', has', form'⟩ := canonicalParallelToolUseKey_name fmt hv recipient'
  simp only at same
  rw [← same] at has'
  have one := has.unique has'
  have names : normalizeToolCallName name = normalizeToolCallName name' := by
    rcases form with whole | ⟨short, normal⟩ <;> rcases form' with whole' | ⟨short', normal'⟩
    · rw [← whole, ← whole', one]
    · rw [← one, whole] at normal'
      exact absurd normal' (recipient_not_normalized name listed)
    · rw [one, whole'] at normal
      exact absurd normal (recipient_not_normalized name' listed')
    · rw [← short, ← short', one]
  rw [names, same]

end ToolCallDedupe
