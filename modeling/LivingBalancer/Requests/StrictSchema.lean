import LivingBalancer.Lib.JsonReading
import LivingBalancer.Lib.JsonRoundTrip
import LivingBalancer.Proxy.ToolCallIdentity

/-!
# Strict JSON schemas

`_find_violation` walks a schema in document order and reports the first node that breaks a rule
of strict mode, with the path to it. The rules are stated for every node that the schema keywords
lead to. The depth of a value is fuel enough for the walk; `isZero` is the truth value of a float.
-/

namespace StrictSchema

open PyJson
open ToolCallDedupe (Obj Obj.get asStr get_distinct)

variable {F : Type}

def hasKey (node : Obj F) (k : String) : Bool := (Dict.lookup (text k) node).isSome

/-- The value, if it is a `list`, and `[]` otherwise. -/
def listOf : JsonValue F → List (JsonValue F)
  | .list xs => xs
  | _ => []

/-- The value, if it is a mapping, and an empty one otherwise. -/
def mappingOf : JsonValue F → Obj F
  | .dict items => items
  | _ => []

def isJsonList : JsonValue F → Bool
  | .list _ => true
  | _ => false

def isFalse : JsonValue F → Bool
  | .bool b => !b
  | _ => false

def isNull : JsonValue F → Bool
  | .null => true
  | _ => false

/-- `bool(value)`. -/
def truthy (isZero : F → Bool) : JsonValue F → Bool
  | .null => false
  | .bool b => b
  | .int n => n != 0
  | .float (.finite x) => !isZero x
  | .float _ => true
  | .str t => !t.isEmpty
  | .list xs => !xs.isEmpty
  | .dict items => !items.isEmpty

/-- `node.get(k) == t`. -/
def getIs (node : Obj F) (k t : String) : Bool := decide (asStr (node.get k) = some (text t))

inductive Combinator
  | anyOf
  | oneOf
  | allOf
  deriving DecidableEq

def Combinator.name : Combinator → String
  | .anyOf => "anyOf"
  | .oneOf => "oneOf"
  | .allOf => "allOf"

def combinators : List Combinator := [.anyOf, .oneOf, .allOf]

/-- `_has_combinator`. -/
def hasCombinator (node : Obj F) : Bool := combinators.any fun c => isJsonList (node.get c.name)

/-- `_is_ref`. -/
def isRef (node : Obj F) : Bool := (asStr (node.get "$ref")).isSome

/-! ## The walk -/

def quoted (t : Str) : Str := text "'" ++ t ++ text "'"

def joined (parts : List Str) : Str := (text ", ").intercalate (parts.map quoted)

/-- The names of `required`. -/
def requiredNames (node : Obj F) : List Str := (listOf (node.get "required")).filterMap asStr

def missingRequired (node : Obj F) : List Str :=
  ((mappingOf (node.get "properties")).map Prod.fst).filter fun name =>
    decide (name ∉ requiredNames node)

/-- The branch that checks an object. -/
def takesObjectBranch (node : Obj F) : Bool :=
  getIs node "type" "object" || hasKey node "properties"

def untyped (node : Obj F) : Bool := !hasKey node "type" && !hasCombinator node && !isRef node

/-- What the node itself is reported for. -/
def ownReason (node : Obj F) : Option Str :=
  if untyped node then some (text "schema must have a 'type' key")
  else if takesObjectBranch node then
    if !isFalse (node.get "additionalProperties") then
      some (text "'additionalProperties' is required to be supplied and to be false")
    else if missingRequired node ≠ [] then
      some (text "'required' is required to be supplied and to be an array including every key in properties. Missing "
        ++ joined (missingRequired node))
    else none
  else none

/-- The values that the walk goes on to below `items`. -/
def walkedItems (node : Obj F) : List (JsonValue F) :=
  if getIs node "type" "array" || hasKey node "items" then
    if isNull (node.get "items") then [] else [node.get "items"]
  else []

def walkedProperties (node : Obj F) : Obj F :=
  if takesObjectBranch node then mappingOf (node.get "properties") else []

/-- `node.get("$defs") or node.get("definitions")`. -/
def walkedDefs (isZero : F → Bool) (node : Obj F) : JsonValue F :=
  if truthy isZero (node.get "$defs") then node.get "$defs" else node.get "definitions"

/-- `_find_violation`. -/
def findViolation (isZero : F → Bool) : ℕ → JsonValue F → List Str → Option (List Str × Str)
  | fuel + 1, .dict node, path =>
    match ownReason node with
    | some reason => some (path, reason)
    | none =>
      ((walkedProperties node).findSome? fun p =>
        findViolation isZero fuel p.2 (path ++ [text "properties", p.1])) <|>
      ((walkedItems node).findSome? fun items =>
        findViolation isZero fuel items (path ++ [text "items"])) <|>
      (combinators.findSome? fun c =>
        (listOf (Obj.get node c.name)).zipIdx.findSome? fun p =>
          findViolation isZero fuel p.1 (path ++ [text c.name, natText p.2])) <|>
      ((mappingOf (walkedDefs isZero node)).findSome? fun p =>
        findViolation isZero fuel p.2 (path ++ [text "$defs", p.1]))
  | _, _, _ => none

mutual
def depth : JsonValue F → ℕ
  | .list xs => depthAll xs + 1
  | .dict items => depthItems items + 1
  | _ => 0
def depthAll : List (JsonValue F) → ℕ
  | [] => 0
  | x :: xs => max (depth x) (depthAll xs)
def depthItems : List (Str × JsonValue F) → ℕ
  | [] => 0
  | (_, v) :: rest => max (depth v) (depthItems rest)
end

/-- `_find_violation(schema, ())`. -/
def violationOf (isZero : F → Bool) (schema : JsonValue F) : Option (List Str × Str) :=
  findViolation isZero (depth schema) schema []

/-! ## The errors -/

structure StrictSchemaError where
  code : Str
  message : Str
  param : Str
  deriving DecidableEq

/-- `_render_context`. -/
def renderContext (path : List Str) : Str :=
  if path = [] then text "()" else text "(" ++ joined path ++ text ")"

/-- `name or default`. -/
def labelOr (name : Option Str) (default : String) : Str :=
  match name with
  | none | some [] => text default
  | some name => name

/-- The body that both validators share. -/
def strictError (code subject default : String) (name : Option Str) (param : Str)
    (violation : List Str × Str) : StrictSchemaError where
  code := text code
  message := text "Invalid schema for " ++ text subject ++ text " '" ++ labelOr name default ++
    text "': In context=" ++ renderContext violation.1 ++ text ", " ++ violation.2 ++ text "."
  param := param

/-- `validate_strict_json_schema`. -/
def validateStrictJsonSchema (isZero : F → Bool) (schema : JsonValue F) (name : Option Str)
    (param : Str) : Option StrictSchemaError :=
  (violationOf isZero schema).map
    (strictError "invalid_json_schema" "response_format" "response_format" name param)

/-- `validate_strict_function_tool_schema`. -/
def validateStrictFunctionToolSchema (isZero : F → Bool) (schema : JsonValue F)
    (name : Option Str) (param : Str) : Option StrictSchemaError :=
  (violationOf isZero schema).map
    (strictError "invalid_function_parameters" "function" "function" name param)

/-! ## The rules -/

/-- A step from a schema node to one below it. -/
inductive Step
  | property (name : Str)
  | items
  | item (i : ℕ)
  | branch (c : Combinator) (i : ℕ)
  | defs (name : Str)
  | definitions (name : Str)
  deriving DecidableEq

/-- What a step leads to. -/
def child (node : Obj F) : Step → Option (JsonValue F)
  | .property name => Dict.lookup name (mappingOf (node.get "properties"))
  | .items => Dict.lookup (text "items") node
  | .item i => (listOf (node.get "items"))[i]?
  | .branch c i => (listOf (node.get c.name))[i]?
  | .defs name => Dict.lookup name (mappingOf (node.get "$defs"))
  | .definitions name => Dict.lookup name (mappingOf (node.get "definitions"))

/-- A schema node below a value, by steps that `ok` allows at the nodes they start from. -/
inductive Reaches (ok : Obj F → Step → Prop) : JsonValue F → List Step → Obj F → Prop
  | here {node : Obj F} : Reaches ok (.dict node) [] node
  | step {node : Obj F} {st : Step} {c : JsonValue F} {path : List Step} {target : Obj F}
      (allowed : ok node st) (leads : child node st = some c) (below : Reaches ok c path target) :
      Reaches ok (.dict node) (st :: path) target

/-- `type` is `object` or includes it. -/
def isObjectType (node : Obj F) : Prop :=
  getIs node "type" "object" = true ∨ some (text "object") ∈ (listOf (node.get "type")).map asStr

/-- The rules of strict mode for one node. -/
def Obeys (node : Obj F) : Prop :=
  (hasKey node "type" = true ∨ hasCombinator node = true ∨ isRef node = true) ∧
  (isObjectType node ∨ hasKey node "properties" = true →
    isFalse (node.get "additionalProperties") = true ∧
    ∀ name ∈ (mappingOf (node.get "properties")).map Prod.fst, name ∈ requiredNames node)

/-- Every schema node below the value obeys the rules. -/
def AllObey (schema : JsonValue F) : Prop :=
  ∀ path node, Reaches (fun _ _ => True) schema path node → Obeys node

/-- The value at a path of keys and indices. -/
def follow : JsonValue F → List Str → Option (JsonValue F)
  | v, [] => some v
  | .dict items, part :: rest => (Dict.lookup part items).bind fun v => follow v rest
  | .list xs, part :: rest =>
    if natText (natOfDigits part) = part then
      (xs[natOfDigits part]?).bind fun v => follow v rest
    else none
  | _, _ :: _ => none

/-- The validators accept just the schemas whose nodes all obey, and a reported path leads to a
node that does not. -/
def Exact (isZero : F → Bool) (schema : JsonValue F) : Prop :=
  (∀ name param, validateStrictJsonSchema isZero schema name param = none ↔ AllObey schema) ∧
  (∀ name param,
    validateStrictFunctionToolSchema isZero schema name param = none ↔ AllObey schema) ∧
  ∀ path reason, violationOf isZero schema = some (path, reason) →
    ∃ node, follow schema path = some (.dict node) ∧ ¬ Obeys node

/-! ## Where the walk goes -/

/-- The walk takes the step: it leaves out `definitions` beside `$defs` and lists of items. -/
def Walks (isZero : F → Bool) (node : Obj F) : Step → Prop
  | .item _ => False
  | .definitions _ => truthy isZero (node.get "$defs") = false
  | _ => True

/-- A step as the walk writes it into its path. -/
def Step.label : Step → List Str
  | .property name => [text "properties", name]
  | .items => [text "items"]
  | .item i => [text "items", natText i]
  | .branch c i => [text c.name, natText i]
  | .defs name | .definitions name => [text "$defs", name]

/-- The values that the walk goes on to, in its order. -/
def walked (isZero : F → Bool) (node : Obj F) : List (Step × JsonValue F) :=
  ((walkedProperties node).map fun p => (Step.property p.1, p.2)) ++
  ((walkedItems node).map fun v => (Step.items, v)) ++
  (combinators.flatMap fun c =>
    (listOf (node.get c.name)).zipIdx.map fun p => (Step.branch c p.2, p.1)) ++
  (mappingOf (walkedDefs isZero node)).map fun p =>
    (if truthy isZero (node.get "$defs") then Step.defs p.1 else Step.definitions p.1, p.2)

/-- The nodes that the walk visits, in its order. -/
def visits (isZero : F → Bool) : ℕ → JsonValue F → List (List Step × Obj F)
  | fuel + 1, .dict node =>
    ([], node) :: (walked isZero node).flatMap fun p =>
      (visits isZero fuel p.2).map fun q => (p.1 :: q.1, q.2)
  | _, _ => []

/-- The first visited node that fails the walk's own checks. -/
def firstReported (isZero : F → Bool) (schema : JsonValue F) : Option (List Step × Obj F) :=
  (visits isZero (depth schema) schema).find? fun q => (ownReason q.2).isSome

/-- The first node reported is not below `definitions`; and if none is, then all that the walk
leaves out obey: the nodes it does not visit, and the objects by a list of types. -/
def WalkSuffices (isZero : F → Bool) (schema : JsonValue F) : Prop :=
  (∀ q, firstReported isZero schema = some q → ∀ name, Step.definitions name ∉ q.1) ∧
  (firstReported isZero schema = none →
    (∀ path node, Reaches (fun _ _ => True) schema path node →
      ¬ Reaches (Walks isZero) schema path node → Obeys node) ∧
    ∀ path node, Reaches (Walks isZero) schema path node → isObjectType node →
      isFalse (node.get "additionalProperties") = true)

/-! ## The walk as a search -/

variable {isZero : F → Bool}

theorem findSome?_flatMap {α β γ : Type} (f : β → Option γ) (g : α → List β) (xs : List α) :
    (xs.flatMap g).findSome? f = xs.findSome? fun x => (g x).findSome? f := by
  induction xs with
  | nil => rfl
  | cons x xs ih =>
    rw [List.flatMap_cons, List.findSome?_append, List.findSome?_cons, ih]
    cases (g x).findSome? f <;> rfl

theorem findViolation_dict (fuel : ℕ) (node : Obj F) (path : List Str) :
    findViolation isZero (fuel + 1) (.dict node) path =
      match ownReason node with
      | some reason => some (path, reason)
      | none => (walked isZero node).findSome? fun p =>
          findViolation isZero fuel p.2 (path ++ p.1.label) := by
  have label (name : Str) : (if truthy isZero (node.get "$defs") then Step.defs name
      else Step.definitions name).label = [text "$defs", name] := by
    split <;> rfl
  rw [findViolation]
  cases ownReason node with
  | some reason => rfl
  | none =>
    simp only [walked, List.findSome?_append, List.findSome?_map, findSome?_flatMap,
      Function.comp_def, label, Option.orElse_eq_orElse, Option.orElse_eq_or, Option.or_assoc]
    rfl

theorem findViolation_visits (fuel : ℕ) (v : JsonValue F) (path : List Str) :
    findViolation isZero fuel v path = (visits isZero fuel v).findSome? fun q =>
      (ownReason q.2).map fun reason => (path ++ q.1.flatMap Step.label, reason) := by
  induction fuel generalizing v path with
  | zero => rfl
  | succ fuel ih =>
    cases v with
    | dict node =>
      rw [findViolation_dict, visits, List.findSome?_cons]
      cases own : ownReason node with
      | some reason => simp
      | none =>
        simp only [Option.map_none, findSome?_flatMap, List.findSome?_map, Function.comp_def, ih,
          List.flatMap_cons, List.append_assoc]
    | _ => rfl

/-! ## Children -/

theorem mem_mappingOf {v : JsonValue F} {p : Str × JsonValue F} (h : p ∈ mappingOf v) :
    ∃ items, v = .dict items ∧ p ∈ items := by
  cases v with
  | dict items => exact ⟨items, rfl, h⟩
  | _ => cases h

theorem mem_listOf {v c : JsonValue F} (h : c ∈ listOf v) : ∃ xs, v = .list xs ∧ c ∈ xs := by
  cases v with
  | list xs => exact ⟨xs, rfl, h⟩
  | _ => cases h

theorem get_eq {node : Obj F} {k : String} {v : JsonValue F}
    (found : Dict.lookup (text k) node = some v) : node.get k = v := by
  rw [Obj.get, found, Option.getD_some]

/-- A value with parts is really in the object. -/
theorem lookup_of_get {node : Obj F} {k : String} {v : JsonValue F} (h : node.get k = v)
    (some_ : isNull v = false) : Dict.lookup (text k) node = some v := by
  rw [Obj.get] at h
  cases found : Dict.lookup (text k) node with
  | none =>
    rw [found, Option.getD_none] at h
    subst h
    cases some_
  | some w =>
    rw [found, Option.getD_some] at h
    rw [h]

theorem mem_of_lookup {items : List (Str × JsonValue F)} (nodup : (items.map Prod.fst).Nodup)
    {k : Str} {v : JsonValue F} : Dict.lookup k items = some v ↔ (k, v) ∈ items :=
  Dict.get_eq_some_iff (d := ⟨items, nodup⟩)

theorem mappingOf_distinct {v : JsonValue F} (distinct : v.Distinct) :
    ((mappingOf v).map Prod.fst).Nodup ∧ ∀ p ∈ mappingOf v, p.2.Distinct := by
  cases v with
  | dict items => exact ⟨distinct.1, itemsDistinct_iff.mp distinct.2⟩
  | _ => exact ⟨List.nodup_nil, nofun⟩

theorem listOf_distinct {v : JsonValue F} (distinct : v.Distinct) :
    ∀ c ∈ listOf v, c.Distinct := by
  cases v with
  | list xs => exact allDistinct_iff.mp distinct
  | _ => exact nofun

theorem lookup_mappingOf {v : JsonValue F} (distinct : v.Distinct) {name : Str}
    {c : JsonValue F} : Dict.lookup name (mappingOf v) = some c ↔ (name, c) ∈ mappingOf v :=
  mem_of_lookup (mappingOf_distinct distinct).1

theorem child_distinct {node : Obj F} (distinct : (JsonValue.dict node).Distinct) {st : Step}
    {c : JsonValue F} (h : child node st = some c) : c.Distinct := by
  have ofMapping {k : String} {name : Str}
      (h : Dict.lookup name (mappingOf (node.get k)) = some c) : c.Distinct :=
    (mappingOf_distinct (get_distinct distinct k)).2 _
      ((lookup_mappingOf (get_distinct distinct k)).mp h)
  have ofList {k : String} {i : ℕ} (h : (listOf (node.get k))[i]? = some c) : c.Distinct :=
    listOf_distinct (get_distinct distinct k) c (List.mem_of_getElem? h)
  cases st with
  | property name => exact ofMapping h
  | items => exact get_eq h ▸ get_distinct distinct "items"
  | item i => exact ofList h
  | branch k i => exact ofList h
  | defs name => exact ofMapping h
  | definitions name => exact ofMapping h

theorem mem_walked {node : Obj F} {st : Step} {c : JsonValue F} :
    (st, c) ∈ walked isZero node ↔ match st with
      | .property name => (name, c) ∈ walkedProperties node
      | .items => c ∈ walkedItems node
      | .item _ => False
      | .branch k i => (listOf (node.get k.name))[i]? = some c
      | .defs name => truthy isZero (node.get "$defs") = true ∧
          (name, c) ∈ mappingOf (node.get "$defs")
      | .definitions name => truthy isZero (node.get "$defs") = false ∧
          (name, c) ∈ mappingOf (node.get "definitions") := by
  have every (k : Combinator) : k ∈ combinators := by cases k <;> decide
  cases first : truthy isZero (node.get "$defs") with
  | true => cases st <;> simp [walked, walkedDefs, first, every, List.mk_mem_zipIdx_iff_getElem?]
  | false => cases st <;> simp [walked, walkedDefs, first, every, List.mk_mem_zipIdx_iff_getElem?]

theorem truthy_of_mem {v : JsonValue F} {p : Str × JsonValue F} (h : p ∈ mappingOf v) :
    truthy isZero v = true := by
  obtain ⟨items, rfl, mem⟩ := mem_mappingOf h
  cases items with
  | nil => cases mem
  | cons _ _ => rfl

theorem child_of_walked {node : Obj F} (distinct : (JsonValue.dict node).Distinct) {st : Step}
    {c : JsonValue F} (h : (st, c) ∈ walked isZero node) :
    child node st = some c ∧ Walks isZero node st := by
  rw [mem_walked] at h
  have value (k : String) := get_distinct distinct k
  cases st with
  | property name =>
    simp only [walkedProperties] at h
    split at h
    · exact ⟨(lookup_mappingOf (value _)).mpr h, trivial⟩
    · cases h
  | items =>
    simp only [walkedItems] at h
    split at h
    · split at h
      · cases h
      · next some_ =>
        rw [List.mem_singleton] at h
        exact ⟨lookup_of_get h.symm (by rw [h]; simpa using some_), trivial⟩
    · cases h
  | item i => cases h
  | branch k i => exact ⟨h, trivial⟩
  | defs name => exact ⟨(lookup_mappingOf (value _)).mpr h.2, trivial⟩
  | definitions name => exact ⟨(lookup_mappingOf (value _)).mpr h.2, h.1⟩

theorem hasKey_of_lookup {node : Obj F} {k : String} {v : JsonValue F}
    (found : Dict.lookup (text k) node = some v) : hasKey node k = true := by
  rw [hasKey, found, Option.isSome_some]

/-- The walk goes on to every node that a step it takes leads to. -/
theorem walked_of_child {node : Obj F} (distinct : (JsonValue.dict node).Distinct) {st : Step}
    {below : Obj F} (h : child node st = some (.dict below)) (walks : Walks isZero node st) :
    (st, JsonValue.dict below) ∈ walked isZero node := by
  rw [mem_walked]
  have value (k : String) := get_distinct distinct k
  cases st with
  | property name =>
    have mem := (lookup_mappingOf (value _)).mp h
    obtain ⟨properties, whole, -⟩ := mem_mappingOf mem
    have object : takesObjectBranch node = true := by
      rw [takesObjectBranch, hasKey_of_lookup (lookup_of_get whole rfl), Bool.or_true]
    simp only [walkedProperties, object, if_true]
    exact mem
  | items =>
    simp only [walkedItems, hasKey_of_lookup h, get_eq h, isNull, Bool.or_true]
    exact List.mem_singleton_self _
  | item i => cases walks
  | branch k i => exact h
  | defs name =>
    have mem := (lookup_mappingOf (value _)).mp h
    exact ⟨truthy_of_mem mem, mem⟩
  | definitions name => exact ⟨walks, (lookup_mappingOf (value _)).mp h⟩

/-! ## Depth -/

theorem depth_le_depthAll {xs : List (JsonValue F)} {c : JsonValue F} (h : c ∈ xs) :
    depth c ≤ depthAll xs := by
  induction xs with
  | nil => cases h
  | cons x xs ih =>
    rw [depthAll]
    rcases List.mem_cons.mp h with rfl | later
    · exact le_max_left _ _
    · exact (ih later).trans (le_max_right _ _)

theorem depth_le_depthItems {items : List (Str × JsonValue F)} {k : Str} {v : JsonValue F}
    (h : (k, v) ∈ items) : depth v ≤ depthItems items := by
  induction items with
  | nil => cases h
  | cons q items ih =>
    obtain ⟨_, w⟩ := q
    rw [depthItems]
    rcases List.mem_cons.mp h with own | later
    · cases own
      exact le_max_left _ _
    · exact (ih later).trans (le_max_right _ _)

theorem depth_get_lt {node : Obj F} (distinct : (JsonValue.dict node).Distinct) (k : String) :
    depth (node.get k) < depth (.dict node) := by
  have bound : depth (.dict node) = depthItems node + 1 := by rw [depth]
  rw [Obj.get]
  cases found : Dict.lookup (text k) node with
  | none =>
    have flat : depth (JsonValue.null : JsonValue F) = 0 := by
      rw [depth]
      · intro _ same
        cases same
      · intro _ same
        cases same
    rw [Option.getD_none, flat]
    omega
  | some v =>
    have below := depth_le_depthItems ((mem_of_lookup distinct.1).mp found)
    rw [Option.getD_some]
    omega

/-- A child is less deep than its node. -/
theorem depth_child_lt {node : Obj F} (distinct : (JsonValue.dict node).Distinct) {st : Step}
    {c : JsonValue F} (h : child node st = some c) : depth c < depth (.dict node) := by
  have ofMapping {k : String} {name : Str}
      (h : Dict.lookup name (mappingOf (node.get k)) = some c) : depth c < depth (.dict node) := by
    have mem := (lookup_mappingOf (get_distinct distinct k)).mp h
    obtain ⟨items, whole, inside⟩ := mem_mappingOf mem
    have outer := depth_get_lt distinct k
    have inner := depth_le_depthItems inside
    rw [whole, depth] at outer
    omega
  have ofList {k : String} {i : ℕ} (h : (listOf (node.get k))[i]? = some c) :
      depth c < depth (.dict node) := by
    obtain ⟨xs, whole, inside⟩ := mem_listOf (List.mem_of_getElem? h)
    have outer := depth_get_lt distinct k
    have inner := depth_le_depthAll inside
    rw [whole, depth] at outer
    omega
  cases st with
  | property name => exact ofMapping h
  | items => exact get_eq h ▸ depth_get_lt distinct "items"
  | item i => exact ofList h
  | branch k i => exact ofList h
  | defs name => exact ofMapping h
  | definitions name => exact ofMapping h

/-! ## The nodes visited -/

theorem reaches_of_visits {fuel : ℕ} {v : JsonValue F} (distinct : v.Distinct)
    {path : List Step} {target : Obj F} (h : (path, target) ∈ visits isZero fuel v) :
    Reaches (Walks isZero) v path target := by
  induction fuel generalizing v path with
  | zero => cases h
  | succ fuel ih =>
    cases v with
    | dict node =>
      rw [visits] at h
      rcases List.mem_cons.mp h with own | later
      · cases own
        exact .here
      · obtain ⟨⟨st, c⟩, next, inside⟩ := List.mem_flatMap.mp later
        obtain ⟨⟨rest, found⟩, below, same⟩ := List.mem_map.mp inside
        cases same
        obtain ⟨leads, walks⟩ := child_of_walked distinct next
        exact .step walks leads (ih (child_distinct distinct leads) below)
    | _ => cases h

theorem visits_of_reaches {fuel : ℕ} {v : JsonValue F} (distinct : v.Distinct)
    {path : List Step} {target : Obj F} (h : Reaches (Walks isZero) v path target)
    (enough : depth v ≤ fuel) : (path, target) ∈ visits isZero fuel v := by
  induction h generalizing fuel with
  | @here node =>
    cases fuel with
    | zero =>
      rw [depth] at enough
      omega
    | succ fuel => exact List.mem_cons_self
  | @step node st c path target walks leads below ih =>
    have shallow := depth_child_lt distinct leads
    cases fuel with
    | zero => omega
    | succ fuel =>
      have enough' : depth c ≤ fuel := by omega
      have inside := ih (child_distinct distinct leads) enough'
      cases c with
      | dict child =>
        have next := walked_of_child distinct leads walks
        refine List.mem_cons_of_mem _ (List.mem_flatMap.mpr ⟨_, next, ?_⟩)
        exact List.mem_map.mpr ⟨(path, target), inside, rfl⟩
      | _ => cases below

theorem mem_visits {schema : JsonValue F} (distinct : schema.Distinct) {path : List Step}
    {target : Obj F} : (path, target) ∈ visits isZero (depth schema) schema ↔
      Reaches (Walks isZero) schema path target :=
  ⟨reaches_of_visits distinct, fun h => visits_of_reaches distinct h (le_refl _)⟩

theorem Reaches.weaken {ok : Obj F → Step → Prop} {v : JsonValue F} {path : List Step}
    {target : Obj F} (h : Reaches ok v path target) :
    Reaches (fun _ _ => True) v path target := by
  induction h with
  | here => exact .here
  | step _ leads _ ih => exact .step trivial leads ih

/-! ## Paths -/

theorem follow_key {node : Obj F} {k : String} {v : JsonValue F}
    (found : Dict.lookup (text k) node = some v) (rest : List Str) :
    follow (.dict node) (text k :: rest) = follow v rest := by
  rw [follow, found, Option.bind_some]

theorem follow_index {xs : List (JsonValue F)} {i : ℕ} {c : JsonValue F} (found : xs[i]? = some c)
    (rest : List Str) : follow (.list xs) (natText i :: rest) = follow c rest := by
  rw [follow, natOfDigits_natText, if_pos rfl, found, Option.bind_some]

theorem follow_member {node : Obj F} {k : String} {name : Str} {c : JsonValue F}
    (found : Dict.lookup name (mappingOf (node.get k)) = some c) (rest : List Str) :
    follow (.dict node) (text k :: name :: rest) = follow c rest := by
  cases whole : node.get k with
  | dict items =>
    rw [whole] at found
    rw [follow_key (lookup_of_get whole rfl), follow]
    exact congrArg (Option.bind · _) found
  | _ =>
    rw [whole] at found
    cases found

theorem follow_element {node : Obj F} {k : String} {i : ℕ} {c : JsonValue F}
    (found : (listOf (node.get k))[i]? = some c) (rest : List Str) :
    follow (.dict node) (text k :: natText i :: rest) = follow c rest := by
  cases whole : node.get k with
  | list xs =>
    rw [whole] at found
    have inside : xs[i]? = some c := found
    rw [follow_key (lookup_of_get whole rfl), follow_index inside]
  | _ =>
    rw [whole] at found
    cases found

/-- Away from `definitions` the path as the walk writes it leads to the node. -/
theorem follow_reported {ok : Obj F → Step → Prop} {v : JsonValue F} {path : List Step}
    {target : Obj F} (h : Reaches ok v path target)
    (spelt : ∀ name, Step.definitions name ∉ path) :
    follow v (path.flatMap Step.label) = some (.dict target) := by
  induction h with
  | here => rfl
  | @step node st c path target _ leads _ ih =>
    have below := ih fun name mem => spelt name (List.mem_cons_of_mem _ mem)
    rw [List.flatMap_cons]
    cases st with
    | property name => exact (follow_member leads _).trans below
    | items => exact (follow_key leads _).trans below
    | item i => exact (follow_element leads _).trans below
    | branch k i => exact (follow_element leads _).trans below
    | defs name => exact (follow_member leads _).trans below
    | definitions name => exact absurd List.mem_cons_self (spelt name)

/-- Nothing stands at a name below `$defs` where the walk goes on to `definitions`. -/
theorem follow_falsy {node : Obj F} (falsy : truthy isZero (node.get "$defs") = false)
    (name : Str) (rest : List Str) :
    follow (.dict node) (text "$defs" :: name :: rest) = none := by
  rw [follow]
  cases found : Dict.lookup (text "$defs") node with
  | none => rfl
  | some v =>
    rw [get_eq found] at falsy
    rw [Option.bind_some]
    cases v with
    | dict items =>
      cases items with
      | nil => rfl
      | cons _ _ => cases falsy
    | list xs =>
      cases xs with
      | nil =>
        rw [follow]
        split <;> rfl
      | cons _ _ => cases falsy
    | _ => rfl

/-- A path through `definitions` is written as one through `$defs`, which leads nowhere. -/
theorem follow_misspelt {v : JsonValue F} {path : List Step} {target : Obj F}
    (h : Reaches (Walks isZero) v path target) {name : Str}
    (mem : Step.definitions name ∈ path) : follow v (path.flatMap Step.label) = none := by
  induction h with
  | here => cases mem
  | @step node st c path target walks leads _ ih =>
    have later (other : st ≠ .definitions name) : follow c (path.flatMap Step.label) = none :=
      ih ((List.mem_cons.mp mem).resolve_left fun same => other same.symm)
    rw [List.flatMap_cons]
    cases st with
    | property name => exact (follow_member leads _).trans (later nofun)
    | items => exact (follow_key leads _).trans (later nofun)
    | item i => cases walks
    | branch k i => exact (follow_element leads _).trans (later nofun)
    | defs name => exact (follow_member leads _).trans (later nofun)
    | definitions other => exact follow_falsy walks other _

/-! ## The rules and the checks -/

theorem untyped_eq_false {node : Obj F} : untyped node = false ↔
    hasKey node "type" = true ∨ hasCombinator node = true ∨ isRef node = true := by
  simp only [untyped, Bool.and_eq_false_iff, Bool.not_eq_false', or_assoc]

theorem missingRequired_eq_nil {node : Obj F} : missingRequired node = [] ↔
    ∀ name ∈ (mappingOf (node.get "properties")).map Prod.fst, name ∈ requiredNames node := by
  simp only [missingRequired, List.filter_eq_nil_iff, decide_eq_true_eq, not_not]

theorem ownReason_eq_none {node : Obj F} : ownReason node = none ↔
    untyped node = false ∧ (takesObjectBranch node = true →
      isFalse (node.get "additionalProperties") = true ∧ missingRequired node = []) := by
  rw [ownReason]
  cases untyped node <;> cases takesObjectBranch node <;>
    cases isFalse (node.get "additionalProperties") <;>
    by_cases none : missingRequired node = [] <;> simp [none]

/-- Besides its own checks the walk misses only objects by a list of types. -/
theorem obeys_iff {node : Obj F} : Obeys node ↔ ownReason node = none ∧
    (isObjectType node → isFalse (node.get "additionalProperties") = true) := by
  rw [ownReason_eq_none, untyped_eq_false, missingRequired_eq_nil, Obeys]
  have branch : takesObjectBranch node = true ↔
      getIs node "type" "object" = true ∨ hasKey node "properties" = true := by
    rw [takesObjectBranch, Bool.or_eq_true]
  have unnamed (absent : ¬ hasKey node "properties" = true) :
      mappingOf (node.get "properties") = [] := by
    rw [hasKey, Bool.not_eq_true, Option.isSome_eq_false_iff, Option.isNone_iff_eq_none] at absent
    rw [Obj.get, absent]
    rfl
  constructor
  · rintro ⟨typed, object⟩
    refine ⟨⟨typed, fun taken => object ?_⟩, fun listed => (object (.inl listed)).1⟩
    exact (branch.mp taken).imp_left .inl
  · rintro ⟨⟨typed, object⟩, listed⟩
    refine ⟨typed, fun either => ?_⟩
    by_cases named : hasKey node "properties" = true
    · exact object (branch.mpr (.inr named))
    · refine ⟨listed (either.resolve_right named), ?_⟩
      rw [unnamed named]
      exact List.forall_mem_nil _

/-! ## The validators -/

theorem violationOf_eq (schema : JsonValue F) : violationOf isZero schema =
    (firstReported isZero schema).bind fun q =>
      (ownReason q.2).map fun reason => (q.1.flatMap Step.label, reason) := by
  rw [violationOf, findViolation_visits, firstReported]
  induction visits isZero (depth schema) schema with
  | nil => rfl
  | cons q rest ih =>
    rw [List.findSome?_cons, List.find?_cons, ih]
    cases own : ownReason q.2 with
    | none => rfl
    | some reason =>
      simp only [Option.map_some, Option.isSome_some, Option.bind_some, own, List.nil_append]

/-- The validators are exact for a schema exactly when the walk leaves out nothing that matters. -/
theorem strict_schema_exact_iff (isZero : F → Bool) {schema : JsonValue F}
    (distinct : schema.Distinct) : Exact isZero schema ↔ WalkSuffices isZero schema := by
  have accepts : Exact isZero schema ↔ (violationOf isZero schema = none ↔ AllObey schema) ∧
      ∀ path reason, violationOf isZero schema = some (path, reason) →
        ∃ node, follow schema path = some (.dict node) ∧ ¬ Obeys node := by
    rw [Exact, ← and_assoc]
    refine and_congr_left fun _ => ?_
    simp only [validateStrictJsonSchema, validateStrictFunctionToolSchema, Option.map_eq_none_iff,
      forall_const, and_self]
  rw [accepts, WalkSuffices, violationOf_eq]
  cases first : firstReported isZero schema with
  | none =>
    have clean {path : List Step} {node : Obj F} (h : Reaches (Walks isZero) schema path node) :
        ownReason node = none := by
      have all := List.find?_eq_none.mp first _ ((mem_visits distinct).mpr h)
      simpa using all
    constructor
    · rintro ⟨obey, -⟩
      have all := obey.mp rfl
      refine ⟨nofun, fun _ => ⟨fun path node h _ => all path node h, fun path node h => ?_⟩⟩
      exact (obeys_iff.mp (all path node h.weaken)).2
    · rintro ⟨-, left⟩
      obtain ⟨hidden, listed⟩ := left rfl
      refine ⟨iff_of_true rfl fun path node h => ?_, nofun⟩
      by_cases walked : Reaches (Walks isZero) schema path node
      · exact obeys_iff.mpr ⟨clean walked, listed path node walked⟩
      · exact hidden path node h walked
  | some q =>
    obtain ⟨path, node⟩ := q
    have visited := (mem_visits distinct).mp (List.mem_of_find?_eq_some first)
    have reported : (ownReason node).isSome = true :=
      List.find?_some (p := fun q : List Step × Obj F => (ownReason q.2).isSome) first
    obtain ⟨reason, own⟩ := Option.isSome_iff_exists.mp reported
    have breaks : ¬ Obeys node := by
      intro obeys
      rw [(obeys_iff.mp obeys).1] at own
      cases own
    rw [Option.bind_some, own, Option.map_some]
    constructor
    · rintro ⟨-, leads⟩
      refine ⟨fun q same name mem => ?_, nofun⟩
      cases same
      obtain ⟨target, found, -⟩ := leads _ _ rfl
      rw [follow_misspelt visited mem] at found
      cases found
    · rintro ⟨spelt, -⟩
      refine ⟨iff_of_false nofun fun all => breaks (all path node visited.weaken), ?_⟩
      intro path' reason' same
      cases same
      exact ⟨node, follow_reported visited (spelt _ rfl), breaks⟩

/-- An object with a property that has no type. -/
def untypedProperty : JsonValue Empty :=
  .dict [(text "type", .str (text "object")), (text "properties", .dict [(text "a", .dict [])]),
    (text "required", .list [.str (text "a")]), (text "additionalProperties", .bool false)]

theorem strict_schema_exact_untyped : Exact Empty.elim untypedProperty := by
  have distinct : untypedProperty.Distinct := by
    simp only [untypedProperty, JsonValue.Distinct, ItemsDistinct, AllDistinct, and_true]
    decide
  have first : firstReported Empty.elim untypedProperty = some ([.property (text "a")], []) := rfl
  refine (strict_schema_exact_iff Empty.elim distinct).mpr ⟨fun q same name => ?_, fun none => ?_⟩
  · rw [first] at same
    cases same
    intro mem
    cases List.mem_singleton.mp mem
  · rw [first] at none
    cases none

/-- An object by a list of types. -/
def listedObject : JsonValue Empty :=
  .dict [(text "type", .list [.str (text "object"), .str (text "null")])]

/-- It is accepted though it does not forbid additional properties. -/
theorem listed_object_accepted : listedObject.Distinct ∧ ¬ Exact Empty.elim listedObject := by
  constructor
  · exact ⟨List.nodup_singleton _, ⟨trivial, trivial, trivial⟩, trivial⟩
  · rintro ⟨json, -, -⟩
    have obeys := (json none []).mp rfl [] _ .here
    have closed := (obeys.2 (.inl (.inr (by decide)))).1
    revert closed
    decide

end StrictSchema
