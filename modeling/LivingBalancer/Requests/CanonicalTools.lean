import LivingBalancer.Lib.JsonKeyOrder
import LivingBalancer.Lib.LeastKey
import LivingBalancer.Proxy.ToolCallIdentity

/-!
# The canonical form of a tool list

`canonicalized_tools` sorts the tools by name, stably, and the keys of every object. Tools that
share a name, or have none, keep the order they came in.
-/

namespace CanonicalTools

open PyJson LeastKey
open ToolCallDedupe (Obj Obj.get asStr asObj get_distinct)

variable {F : Type} {fmt : FloatText F}

/-- `_tool_sort_key`. -/
def toolSortKey (tool : JsonValue F) : Str :=
  match asObj tool with
  | none => []
  | some toolMap =>
    match asStr (toolMap.get "name") with
    | some name => name
    | none => (((asObj (toolMap.get "function")).bind fun func =>
        asStr (func.get "name"))).getD []

/-- `canonicalized_tools`; `_sort_keys_recursive` is the sorting of the keys. -/
def canonicalizedTools (tools : List (JsonValue F)) : List (JsonValue F) :=
  (sortOn toolSortKey tools).map JsonValue.sortKeys

/-- The canonical form as JSON text. -/
def serialized (fmt : FloatText F) (tools : List (JsonValue F)) : Str :=
  dumps fmt (.list (canonicalizedTools tools))

/-- The second list is the first with its tools, and the keys of objects in them, in another
order. -/
inductive Reordered : List (JsonValue F) → List (JsonValue F) → Prop
  | tools {tools tools' : List (JsonValue F)} (perm : tools.Perm tools') : Reordered tools tools'
  | keys {tools tools' : List (JsonValue F)} (each : List.Forall₂ KeysReordered tools tools') :
      Reordered tools tools'
  | trans {tools tools' tools'' : List (JsonValue F)} (first : Reordered tools tools')
      (second : Reordered tools' tools'') : Reordered tools tools''

/-- Tools with the same sort key are the same up to the order of their keys. -/
def TiesAlike (tools : List (JsonValue F)) : Prop :=
  ∀ t ∈ tools, ∀ u ∈ tools, toolSortKey t = toolSortKey u → KeysReordered t u

/-! ## Sort keys -/

theorem asStr_sortKeys (v : JsonValue F) : asStr v.sortKeys = asStr v := by
  cases v with
  | list _ | dict _ => rw [JsonValue.sortKeys]; rfl
  | _ => rw [JsonValue.sortKeys]

theorem get_sorted {items : Obj F} (distinct : (JsonValue.dict items).Distinct) (k : String) :
    Obj.get ((sortItems items).insertionSort KeyLe) k = (items.get k).sortKeys := by
  rw [Obj.get, Obj.get, lookup_sorted distinct.1]
  cases Dict.lookup (text k) items with
  | none => rw [Option.map_none, Option.getD_none, JsonValue.sortKeys]
  | some v => rfl

theorem toolSortKey_sortKeys {t : JsonValue F} (distinct : t.Distinct) :
    toolSortKey t.sortKeys = toolSortKey t := by
  cases t with
  | dict items =>
    have inner : (asObj (Obj.get ((sortItems items).insertionSort KeyLe) "function")).bind
        (fun func => asStr (func.get "name"))
        = (asObj (Obj.get items "function")).bind fun func => asStr (func.get "name") := by
      have value := get_distinct distinct "function"
      rw [get_sorted distinct]
      cases function : Obj.get items "function" with
      | dict func =>
        rw [function] at value
        rw [JsonValue.sortKeys]
        change asStr (Obj.get ((sortItems func).insertionSort KeyLe) "name") = asStr (Obj.get func "name")
        rw [get_sorted value, asStr_sortKeys]
      | list _ => rw [JsonValue.sortKeys]; rfl
      | _ => rw [JsonValue.sortKeys]
    rw [JsonValue.sortKeys, toolSortKey, toolSortKey]
    simp only [asObj, get_sorted distinct "name", asStr_sortKeys] at inner ⊢
    rw [inner]
  | list _ => rw [JsonValue.sortKeys]; rfl
  | _ => rw [JsonValue.sortKeys]

/-- The canonical form is a sort of the tools as they are with sorted keys. -/
theorem canonicalizedTools_eq {tools : List (JsonValue F)} (distinct : AllDistinct tools) :
    canonicalizedTools tools = sortOn toolSortKey (tools.map JsonValue.sortKeys) := by
  rw [allDistinct_iff] at distinct
  refine List.map_mergeSort fun t ht u hu => ?_
  rw [toolSortKey_sortKeys (distinct t ht), toolSortKey_sortKeys (distinct u hu)]

theorem canonicalizedTools_perm {tools : List (JsonValue F)} (distinct : AllDistinct tools) :
    (canonicalizedTools tools).Perm (tools.map JsonValue.sortKeys) := by
  rw [canonicalizedTools_eq distinct]
  exact sortOn_perm_self _

theorem serialized_eq_iff {tools tools' : List (JsonValue F)} (distinct : AllDistinct tools)
    (distinct' : AllDistinct tools') :
    serialized fmt tools = serialized fmt tools' ↔
      canonicalizedTools tools = canonicalizedTools tools' := by
  have canonical {tools : List (JsonValue F)} (distinct : AllDistinct tools) :
      (JsonValue.list (canonicalizedTools tools)).Distinct ∧
        sortAll (canonicalizedTools tools) = canonicalizedTools tools := by
    rw [JsonValue.Distinct, allDistinct_iff, sortAll_eq_map]
    refine ⟨fun t ht => ?_, ?_⟩
    · obtain ⟨u, hu, rfl⟩ := List.mem_map.mp ((canonicalizedTools_perm distinct).mem_iff.mp ht)
      exact sortKeys_distinct u (allDistinct_iff.mp distinct u hu)
    · rw [canonicalizedTools, List.map_map]
      exact List.map_congr_left fun t _ => sortKeys_sortKeys t
  rw [serialized, serialized, dumps_eq_iff (canonical distinct).1 (canonical distinct').1,
    JsonValue.sortKeys, JsonValue.sortKeys, (canonical distinct).2, (canonical distinct').2,
    JsonValue.list.injEq]

/-! ## Reorderings -/

theorem forall₂_sortKeys (tools : List (JsonValue F)) :
    List.Forall₂ KeysReordered tools (tools.map JsonValue.sortKeys) :=
  List.forall₂_map_right_iff.mpr (List.forall₂_same.mpr fun t _ => reordered_sortKeys t)

theorem Reordered.sorted {tools tools' : List (JsonValue F)} (h : Reordered tools tools')
    (distinct : AllDistinct tools) : AllDistinct tools' ∧
      (tools.map JsonValue.sortKeys).Perm (tools'.map JsonValue.sortKeys) := by
  induction h with
  | tools perm =>
    rw [allDistinct_iff] at distinct ⊢
    exact ⟨fun t ht => distinct t (perm.mem_iff.mpr ht), perm.map _⟩
  | keys each =>
    induction each with
    | nil => exact ⟨trivial, .nil⟩
    | cons head tail ih =>
      obtain ⟨first, same⟩ := head.sorted distinct.1
      obtain ⟨rest, perm⟩ := ih distinct.2
      rw [List.map_cons, List.map_cons, same]
      exact ⟨⟨first, rest⟩, perm.cons _⟩
  | trans _ _ ih ih' =>
    obtain ⟨middle, perm⟩ := ih distinct
    obtain ⟨last, perm'⟩ := ih' middle
    exact ⟨last, perm.trans perm'⟩

/-- Lists that are no reorderings of each other have different canonical forms. -/
theorem reordered_of_canonical {tools tools' : List (JsonValue F)} (distinct : AllDistinct tools)
    (distinct' : AllDistinct tools')
    (same : canonicalizedTools tools = canonicalizedTools tools') : Reordered tools tools' := by
  have perm : (tools.map JsonValue.sortKeys).Perm (tools'.map JsonValue.sortKeys) :=
    (canonicalizedTools_perm distinct).symm.trans (same ▸ canonicalizedTools_perm distinct')
  have back : List.Forall₂ KeysReordered (tools'.map JsonValue.sortKeys) tools' :=
    (forall₂_sortKeys tools').flip.imp fun _ _ h => h.symm
  exact .trans (.keys (forall₂_sortKeys tools)) (.trans (.tools perm) (.keys back))

theorem TiesAlike.separates {tools : List (JsonValue F)} (h : TiesAlike tools)
    (distinct : AllDistinct tools) :
    Separates toolSortKey (tools.map JsonValue.sortKeys) := by
  rw [allDistinct_iff] at distinct
  intro a ha b hb same
  obtain ⟨t, ht, rfl⟩ := List.mem_map.mp ha
  obtain ⟨u, hu, rfl⟩ := List.mem_map.mp hb
  rw [toolSortKey_sortKeys (distinct t ht), toolSortKey_sortKeys (distinct u hu)] at same
  exact ((h t ht u hu same).sorted (distinct t ht)).2.symm

/-- Put first, a tool comes first of those with its sort key. -/
theorem head_canonicalizedTools {t : JsonValue F} {rest : List (JsonValue F)}
    (distinct : AllDistinct (t :: rest)) :
    ((canonicalizedTools (t :: rest)).filter fun u =>
      decide (toolSortKey u = toolSortKey t)).head? = some t.sortKeys := by
  have own : toolSortKey t.sortKeys = toolSortKey t := toolSortKey_sortKeys distinct.1
  have tied : ∀ u v : JsonValue F, decide (toolSortKey u = toolSortKey t) →
      decide (toolSortKey v = toolSortKey t) → toolSortKey u ≤ toolSortKey v := by
    intro u v hu hv
    rw [of_decide_eq_true hu, of_decide_eq_true hv]
  rw [canonicalizedTools_eq distinct, sortOn_filter _ tied, List.map_cons,
    List.filter_cons_of_pos (by simpa using own)]
  rfl

/-- The serialized canonical form tells exactly the reorderings of a list from other lists, if
and only if the list has no two different tools with one sort key. -/
theorem canonicalized_tools_iff (fmt : FloatText F) {tools : List (JsonValue F)}
    (distinct : AllDistinct tools) :
    (∀ tools', AllDistinct tools' →
      (serialized fmt tools = serialized fmt tools' ↔ Reordered tools tools')) ↔
      TiesAlike tools := by
  constructor
  · intro exact_ t ht u hu same
    have first {t : JsonValue F} (ht : t ∈ tools) : ∃ rest, AllDistinct (t :: rest) ∧
        canonicalizedTools tools = canonicalizedTools (t :: rest) := by
      obtain ⟨front, back, rfl⟩ := List.append_of_mem ht
      have perm : (front ++ t :: back).Perm (t :: (front ++ back)) := List.perm_middle
      have distinct' := ((Reordered.tools perm).sorted distinct).1
      refine ⟨front ++ back, distinct', ?_⟩
      exact (serialized_eq_iff distinct distinct').mp ((exact_ _ distinct').mpr (.tools perm))
    obtain ⟨rest, distinctT, whole⟩ := first ht
    obtain ⟨rest', distinctU, whole'⟩ := first hu
    have headT := head_canonicalizedTools distinctT
    have headU := head_canonicalizedTools distinctU
    rw [← whole, same] at headT
    rw [← whole', headT] at headU
    exact (keysReordered_iff distinctT.1).mpr ⟨distinctU.1, (Option.some.inj headU).symm⟩
  · intro alike tools' distinct'
    rw [serialized_eq_iff distinct distinct']
    refine ⟨reordered_of_canonical distinct distinct', fun reordered => ?_⟩
    rw [canonicalizedTools_eq distinct, canonicalizedTools_eq distinct']
    exact sortOn_perm (alike.separates distinct) (reordered.sorted distinct).2

/-- A built-in tool, which has no name. -/
def builtin (type : String) : JsonValue F := .dict [(text "type", .str (text type))]

theorem builtin_distinct (type : String) : (builtin type : JsonValue F).Distinct :=
  ⟨List.nodup_singleton _, trivial, trivial⟩

/-- Two named tools, the second of them under `function`, and a built-in one. -/
def threeTools : List (JsonValue {t : Str // isFloatLiteral t = true}) :=
  [.dict [(text "type", .str (text "function")), (text "name", .str (text "write")),
      (text "strict", .bool true)],
    .dict [(text "type", .str (text "function")),
      (text "function", .dict [(text "name", .str (text "read")), (text "description", .null)])],
    builtin "web_search"]

/-- The same tools, the last one first, with the keys of two objects the other way round. -/
def threeToolsReordered : List (JsonValue {t : Str // isFloatLiteral t = true}) :=
  [builtin "web_search",
    .dict [(text "type", .str (text "function")),
      (text "function", .dict [(text "description", .null), (text "name", .str (text "read"))])],
    .dict [(text "strict", .bool true), (text "name", .str (text "write")),
      (text "type", .str (text "function"))]]

theorem threeTools_reordered : Reordered threeTools threeToolsReordered := by
  have write := fun a b c => KeysReordered.keys
    (List.reverse_perm [a, b, (c : Str × JsonValue {t : Str // isFloatLiteral t = true})]).symm
  have read := fun k v a b c => KeysReordered.member k
    [(a : Str × JsonValue {t : Str // isFloatLiteral t = true})] v
    (KeysReordered.keys (List.Perm.swap b c []))
  exact .trans (.keys (.cons (write _ _ _) (.cons (read _ _ _ _ _) (.cons (.refl _) .nil))))
    (.tools (List.reverse_perm _).symm)

theorem threeTools_distinct : AllDistinct threeTools := by
  have keys : (text "type" :: text "name" :: [text "strict"]).Nodup ∧
      [text "type", text "function"].Nodup ∧ [text "name", text "description"].Nodup := by
    decide
  exact ⟨⟨keys.1, trivial, trivial, trivial, trivial⟩,
    ⟨keys.2.1, trivial, ⟨keys.2.2, trivial, trivial, trivial⟩, trivial⟩, builtin_distinct _, trivial⟩

theorem threeTools_tiesAlike : TiesAlike threeTools := by
  have keys : (threeTools.map toolSortKey).Nodup := by decide
  intro t ht u hu same
  rw [List.inj_on_of_nodup_map keys ht hu same]
  exact .refl u

/-- The other order is written alike, and a repeated tool is not. -/
theorem canonicalized_tools_three :
    serialized literalFloats threeTools = serialized literalFloats threeToolsReordered ∧
    serialized literalFloats threeTools ≠
      serialized literalFloats (builtin "web_search" :: threeTools) := by
  have written := (canonicalized_tools_iff literalFloats threeTools_distinct).mpr
    threeTools_tiesAlike
  have distinct' := (threeTools_reordered.sorted threeTools_distinct).1
  refine ⟨(written _ distinct').mpr threeTools_reordered, fun same => ?_⟩
  have repeated := (written (builtin "web_search" :: threeTools)
    ⟨builtin_distinct _, threeTools_distinct⟩).mp same
  exact absurd (repeated.sorted threeTools_distinct).2.length_eq (by decide)

/-- Two built-in tools in the other order. -/
theorem builtin_order_kept :
    Reordered [builtin "web_search", builtin "local_shell"]
      [builtin "local_shell", (builtin "web_search" : JsonValue {t // isFloatLiteral t = true})] ∧
    serialized literalFloats [builtin "web_search", builtin "local_shell"]
      ≠ serialized literalFloats [builtin "local_shell", builtin "web_search"] := by
  refine ⟨.tools (List.Perm.swap _ _ []), fun same => ?_⟩
  have distinct {a b : String} : AllDistinct
      [builtin a, (builtin b : JsonValue {t // isFloatLiteral t = true})] :=
    ⟨builtin_distinct a, builtin_distinct b, trivial⟩
  have shell := head_canonicalizedTools (distinct (a := "local_shell") (b := "web_search"))
  have search := head_canonicalizedTools (distinct (a := "web_search") (b := "local_shell"))
  have tie : ∀ a : String, toolSortKey (builtin (F := {t // isFloatLiteral t = true}) a) = [] :=
    fun a => rfl
  rw [(serialized_eq_iff distinct distinct).mp same, tie, ← tie "local_shell", shell] at search
  revert search
  rw [Option.some.injEq]
  simp [builtin, JsonValue.sortKeys, sortItems, text]

end CanonicalTools
