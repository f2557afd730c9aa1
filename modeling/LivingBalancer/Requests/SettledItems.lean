import LivingBalancer.Requests.ResponsesRequest

/-!
# What the validator of `input` leaves

An item that the validator has left is left by it as it is. It has the role and the type it
had, except that a tool message has become a function call output without a role.
-/

namespace Requests

open PyJson
open ToolCallDedupe (Obj Obj.get Obj.set asStr asObj asObj_eq_some)

variable {F : Type}

/-! ## Keys of an object -/

theorem get_set_ne (d : Obj F) {k k' : String} (other : text k ≠ text k') (v : JsonValue F) :
    Obj.get (Obj.set d k' v) k = Obj.get d k := by
  rw [Obj.get, Obj.get, Obj.set, Dict.lookup_assign, if_neg other]

theorem get_set_self (d : Obj F) (k : String) (v : JsonValue F) :
    Obj.get (Obj.set d k v) k = v := by
  rw [Obj.get, Obj.set, Dict.lookup_assign, if_pos rfl]
  rfl

theorem set_set (d : Obj F) (k : String) (v v' : JsonValue F) :
    Obj.set (Obj.set d k v') k v = Obj.set d k v := Dict.assign_assign ..

/-- A key that a pass over the members keeps. -/
theorem lookup_filterMap {k : Str} {f : Str × JsonValue F → Option (Str × JsonValue F)}
    (keeps : ∀ p, p.1 = k → f p = some p) (named : ∀ p q, f p = some q → q.1 = p.1) (d : Obj F) :
    Dict.lookup k (d.filterMap f) = Dict.lookup k d := by
  induction d with
  | nil => rfl
  | cons p rest ih =>
    by_cases here : p.1 = k
    · rw [List.filterMap_cons_some (keeps p here), Dict.lookup, Dict.lookup, if_pos here, if_pos here]
    · rw [Dict.lookup, if_neg here, ← ih]
      cases kept : f p with
      | none => rw [List.filterMap_cons_none kept]
      | some q =>
        rw [List.filterMap_cons_some kept, Dict.lookup, if_neg (by rwa [named p q kept])]

theorem sanitizeMember_key {p q : Str × JsonValue F} (h : sanitizeMember p = some q) : q.1 = p.1 := by
  rw [sanitizeMember] at h
  split_ifs at h
  · obtain ⟨v, -, rfl⟩ := Option.map_eq_some_iff.mp h
    rfl
  · cases h
    rfl

theorem get_sanitized (item : Obj F) {k : String}
    (kept : among interleavedReasoningKeys (text k) = false)
    (other : text k ≠ text "content") :
    Obj.get (item.filterMap sanitizeMember) k = Obj.get item k := by
  rw [Obj.get, Obj.get, lookup_filterMap ?_ fun p q => sanitizeMember_key]
  rintro p same
  rw [sanitizeMember, same, kept, if_neg (by simp), if_neg other]

/-! ## Content without reasoning -/

theorem sanitizePart_idem {part part' : JsonValue F}
    (h : sanitizeInterleavedReasoningContentPart part = some part') :
    sanitizeInterleavedReasoningContentPart part' = some part' := by
  rw [sanitizeInterleavedReasoningContentPart.eq_def] at h
  split at h
  · cases h
  · rename_i d
    split_ifs at h with reasoning
    cases h
    have type : Obj.get (d.filter fun p => !among interleavedReasoningKeys p.1) "type"
        = Obj.get d "type" := by
      rw [Obj.get, Obj.get, ← List.filterMap_eq_filter, lookup_filterMap]
      · rintro p same
        rw [Option.guard_eq_some_iff.mpr]
        simp [same]
        decide
      · intro p q kept
        rw [(Option.guard_eq_some_iff.mp kept).1]
    rw [sanitizeInterleavedReasoningContentPart, type, if_neg reasoning, List.filter_filter]
    simp
  · cases h
    rename_i none_ object
    rw [sanitizeInterleavedReasoningContentPart]
    · exact none_
    · exact object

theorem sanitizePart_dict {d : Obj F} (clean : ∀ p ∈ d, among interleavedReasoningKeys p.1 = false)
    (type : oneOf interleavedReasoningPartTypes (Obj.get d "type") = false) :
    sanitizeInterleavedReasoningContentPart (.dict d) = some (.dict d) := by
  rw [sanitizeInterleavedReasoningContentPart, type, if_neg (by simp), List.filter_eq_self.mpr]
  exact fun p mem => by rw [clean p mem, Bool.not_false]

/-- Parts that are settled are settled together. -/
theorem sanitizeContent_parts {parts : List (JsonValue F)}
    (settled : ∀ part ∈ parts, sanitizeInterleavedReasoningContentPart part = some part) :
    sanitizeInterleavedReasoningContent (.list parts) = some (.list parts) := by
  rw [sanitizeInterleavedReasoningContent]
  have same : parts.filterMap sanitizeInterleavedReasoningContentPart = parts.filterMap some :=
    List.filterMap_congr settled
  rw [same, List.filterMap_some]

theorem sanitizeContent_idem {content content' : JsonValue F}
    (h : sanitizeInterleavedReasoningContent content = some content') :
    sanitizeInterleavedReasoningContent content' = some content' := by
  rw [sanitizeInterleavedReasoningContent.eq_def] at h
  split at h
  · cases h
    refine sanitizeContent_parts fun part mem => ?_
    obtain ⟨source, -, left⟩ := List.mem_filterMap.mp mem
    exact sanitizePart_idem left
  · rename_i d
    have again := sanitizePart_idem h
    rw [sanitizeInterleavedReasoningContentPart] at h
    split_ifs at h
    cases h
    exact again
  · cases h
  · rename_i list object none_
    cases h
    rw [sanitizeInterleavedReasoningContent]
    · exact list
    · exact object
    · exact none_

theorem sanitizeMember_idem {p q : Str × JsonValue F} (h : sanitizeMember p = some q) :
    sanitizeMember q = some q := by
  rw [sanitizeMember] at h
  split_ifs at h with dropped content
  · obtain ⟨v, left, rfl⟩ := Option.map_eq_some_iff.mp h
    rw [sanitizeMember, if_neg dropped, if_pos content, sanitizeContent_idem left]
    rfl
  · cases h
    rw [sanitizeMember, if_neg dropped, if_neg content]

/-- The members of an object that have nothing of reasoning in them. -/
def Clean (d : Obj F) : Prop := ∀ p ∈ d, sanitizeMember p = some p

theorem Clean.sanitized {d : Obj F} (clean : Clean d) : d.filterMap sanitizeMember = d := by
  have same : d.filterMap sanitizeMember = d.filterMap some := List.filterMap_congr clean
  rw [same, List.filterMap_some]

theorem clean_sanitized (d : Obj F) : Clean (d.filterMap sanitizeMember) := by
  intro q mem
  obtain ⟨p, -, left⟩ := List.mem_filterMap.mp mem
  exact sanitizeMember_idem left

theorem Clean.content {d : Obj F} (clean : Clean d) {v : JsonValue F}
    (found : Dict.lookup (text "content") d = some v) :
    sanitizeInterleavedReasoningContent v = some v := by
  induction d with
  | nil => cases found
  | cons p rest ih =>
    rw [Dict.lookup] at found
    split_ifs at found with here
    · cases found
      have kept := clean p List.mem_cons_self
      rw [sanitizeMember, here, if_neg (by decide), if_pos rfl] at kept
      obtain ⟨v, left, same⟩ := Option.map_eq_some_iff.mp kept
      rw [← same]
      rw [← same] at left
      exact left
    · exact ih (fun q mem => clean q (List.mem_cons_of_mem _ mem)) found

theorem Clean.assign {d : Obj F} (clean : Clean d) {v : JsonValue F}
    (settled : sanitizeInterleavedReasoningContent v = some v) : Clean (d.set "content" v) := by
  have content : sanitizeMember (text "content", v) = some (text "content", v) := by
    have kept : among interleavedReasoningKeys (text "content") = false := by decide
    rw [sanitizeMember, kept, if_neg (by simp), if_pos rfl, settled]
    rfl
  intro q mem
  rw [Obj.set] at mem
  induction d with
  | nil =>
    rw [List.mem_singleton.mp mem]
    exact content
  | cons p rest ih =>
    have later := fun p mem => clean p (List.mem_cons_of_mem _ mem)
    rw [Dict.assign] at mem
    split_ifs at mem
    · rcases List.mem_cons.mp mem with rfl | mem
      · exact content
      · exact later q mem
    · rcases List.mem_cons.mp mem with rfl | mem
      · exact clean _ List.mem_cons_self
      · exact ih later mem

/-! ## Content of assistant messages -/

theorem outputText_extract (t : Str) :
    extractTextContentPart assistantTextPartTypes
      [(text "type", .str (text "output_text")), (text "text", (.str t : JsonValue F))] = some t := by
  rfl

theorem normalizePart_idem (part : JsonValue F) :
    normalizeAssistantContentPart (normalizeAssistantContentPart part)
      = normalizeAssistantContentPart part := by
  have settled (t : Str) : normalizeAssistantContentPart (outputText t : JsonValue F) = outputText t := by
    rw [outputText, normalizeAssistantContentPart, outputText_extract]
    rfl
  rw [normalizeAssistantContentPart.eq_def part]
  split
  · exact settled _
  · rename_i d
    cases extracted : extractTextContentPart assistantTextPartTypes d with
    | none =>
      dsimp only
      rw [normalizeAssistantContentPart, extracted]
    | some t => exact settled t
  · rename_i str dict
    rw [normalizeAssistantContentPart]
    · exact str
    · exact dict

theorem normalizeContent_idem (content : JsonValue F) :
    normalizeAssistantContent (normalizeAssistantContent content)
      = normalizeAssistantContent content := by
  have alone (part : JsonValue F) : normalizeAssistantContent (.list [normalizeAssistantContentPart part])
      = .list [normalizeAssistantContentPart part] := by
    rw [normalizeAssistantContent, List.map_singleton, normalizePart_idem]
  rw [normalizeAssistantContent.eq_def content]
  split
  · exact alone (.str _)
  · rw [normalizeAssistantContent, List.map_map]
    congr 1
    exact List.map_congr_left fun part _ => normalizePart_idem part
  · exact alone _
  · rename_i str list dict
    rw [normalizeAssistantContent]
    · exact str
    · exact list
    · exact dict

theorem normalizePart_settled {part : JsonValue F}
    (settled : sanitizeInterleavedReasoningContentPart part = some part) :
    sanitizeInterleavedReasoningContentPart (normalizeAssistantContentPart part)
      = some (normalizeAssistantContentPart part) := by
  have output (t : Str) : sanitizeInterleavedReasoningContentPart (outputText t : JsonValue F)
      = some (outputText t) :=
    sanitizePart_dict (by simp [interleavedReasoningKeys]; decide) rfl
  rw [normalizeAssistantContentPart.eq_def]
  split
  · exact output _
  · split
    · exact output _
    · exact settled
  · exact settled

theorem normalizeContent_settled {content : JsonValue F}
    (settled : sanitizeInterleavedReasoningContent content = some content) :
    sanitizeInterleavedReasoningContent (normalizeAssistantContent content)
      = some (normalizeAssistantContent content) := by
  have alone {part : JsonValue F}
      (settled : sanitizeInterleavedReasoningContentPart part = some part) :
      sanitizeInterleavedReasoningContent (.list [normalizeAssistantContentPart part])
        = some (.list [normalizeAssistantContentPart part]) := by
    refine sanitizeContent_parts fun p mem => ?_
    rw [List.mem_singleton.mp mem]
    exact normalizePart_settled settled
  rw [normalizeAssistantContent.eq_def]
  split
  · rename_i t
    have settledText : sanitizeInterleavedReasoningContentPart (.str t : JsonValue F) = some (.str t) := rfl
    exact alone settledText
  · rename_i parts
    refine sanitizeContent_parts fun p mem => ?_
    obtain ⟨part, inside, rfl⟩ := List.mem_map.mp mem
    refine normalizePart_settled ?_
    rw [sanitizeInterleavedReasoningContent, Option.some.injEq, JsonValue.list.injEq] at settled
    rw [← settled] at inside
    obtain ⟨source, -, left⟩ := List.mem_filterMap.mp inside
    exact sanitizePart_idem left
  · exact alone settled
  · exact settled

/-! ## One item -/

/-- A system or developer message item. -/
def isInstructionItem (item : JsonValue F) : Bool := (asObj item).any isInstructionMessage

/-- An item of a Lite tool bundle. -/
def isLiteItem (item : JsonValue F) : Bool :=
  (asObj item).any fun item => oneOf ["additional_tools"] (item.get "type")

def hasToolRole (item : JsonValue F) : Bool :=
  (asObj item).any fun item => oneOf ["tool"] (item.get "role")

/-- The role and type of an item decide what happens to it. -/
structure SameKind (d d' : Obj F) : Prop where
  role : d'.get "role" = d.get "role"
  type : d'.get "type" = d.get "type"

theorem sameKind_sanitized (d : Obj F) : SameKind d (d.filterMap sanitizeMember) :=
  ⟨get_sanitized d (by decide) (by decide), get_sanitized d (by decide) (by decide)⟩

theorem sameKind_content (d : Obj F) (v : JsonValue F) : SameKind d (d.set "content" v) :=
  ⟨get_set_ne d (by decide) v, get_set_ne d (by decide) v⟩

theorem SameKind.trans {a b c : Obj F} (ab : SameKind a b) (bc : SameKind b c) : SameKind a c :=
  ⟨bc.role.trans ab.role, bc.type.trans ab.type⟩

theorem SameKind.directive {d d' : Obj F} (same : SameKind d d') :
    isPreservedNonMessageDirective d' = isPreservedNonMessageDirective d := by
  rw [isPreservedNonMessageDirective, isPreservedNonMessageDirective, same.role, same.type]

theorem SameKind.instruction {d d' : Obj F} (same : SameKind d d') :
    isInstructionMessage d' = isInstructionMessage d := by
  rw [isInstructionMessage, isInstructionMessage, same.directive, same.role]

theorem normalizeAssistant_settled (py : Python F) {d d' : Obj F} (clean : Clean d)
    (left : normalizeAssistantInputItem py d = .dict d') :
    SameKind d d' ∧ Clean d' ∧ normalizeAssistantInputItem py d' = .dict d' := by
  have again := left
  rw [normalizeAssistantInputItem] at left
  split_ifs at left with equal
  · cases left
    exact ⟨⟨rfl, rfl⟩, clean, again⟩
  · cases left
    refine ⟨sameKind_content d _, ?_, ?_⟩
    · cases found : Dict.lookup (text "content") d with
      | none =>
        -- Without content there is nothing to change.
        have null : d.get "content" = .null := by
          rw [Obj.get, found]
          rfl
        rw [null] at equal
        exact absurd py.eq_none equal
      | some v =>
        have content : d.get "content" = v := by
          rw [Obj.get, found]
          rfl
        rw [content]
        exact clean.assign (normalizeContent_settled (clean.content found))
    · rw [normalizeAssistantInputItem, get_set_self, normalizeContent_idem, set_set, ite_self]

/-- What the validator makes of an item: nothing of null, the item itself, or an object that it
leaves as it is and that has the role and type of the item or is a function call output. -/
structure Settles (py : Python F) (item out : JsonValue F) : Prop where
  settled : sanitizeInputItem py out = .ok (some out)
  instruction : isInstructionItem out = isInstructionItem item
  lite : isLiteItem out = (isLiteItem item && !hasToolRole item)

theorem oneOf_eq {word : String} {value : JsonValue F} (named : oneOf [word] value = true) :
    value = .str (text word) := by
  cases value with
  | str t => simpa [oneOf, asStr, among] using named
  | _ => cases named

/-- A role is a role of instructions, of a tool or of an assistant, and never two of them. -/
theorem role_distinct {d : Obj F} {word : String} (named : oneOf [word] (d.get "role") = true)
    (other : ∀ role ∈ instructionRoles, text word ≠ text role) :
    isInstructionMessage d = false ∧ isPreservedNonMessageDirective d = false := by
  have none_ : oneOf instructionRoles (d.get "role") = false := by
    rw [oneOf_eq named, oneOf, asStr, Option.any_some, among, List.any_eq_false]
    intro role mem
    simpa using other role mem
  rw [isInstructionMessage, isPreservedNonMessageDirective, none_]
  exact ⟨rfl, rfl⟩

theorem directive_not_tool {d : Obj F} (directive : isPreservedNonMessageDirective d = true) :
    oneOf ["tool"] (d.get "role") = false := by
  by_contra tool
  rw [Bool.not_eq_false] at tool
  rw [(role_distinct tool (by decide)).2] at directive
  cases directive

/-- An object that is settled and of the kind of its source. -/
theorem settles_dict {py : Python F} {d d' : Obj F} (same : SameKind d d') (clean : Clean d')
    (directive : isPreservedNonMessageDirective d = false)
    (tool : oneOf ["tool"] (d.get "role") = false)
    (role : normalizeRoleInputItem py (.dict d') = .ok (.dict d')) :
    Settles py (.dict d) (.dict d') := by
  refine ⟨?_, same.instruction, ?_⟩
  · rw [sanitizeInputItem, asObj, Option.any_some, same.directive, directive, if_neg (by simp),
      sanitizeInterleavedReasoningInputItem, clean.sanitized]
    dsimp only
    rw [role]
    rfl
  · rw [isLiteItem, isLiteItem, hasToolRole, asObj, asObj, Option.any_some, Option.any_some,
      Option.any_some, same.type, tool, Bool.not_false, Bool.and_true]

theorem toolOutput_settles {py : Python F} {d : Obj F} (tool : oneOf ["tool"] (d.get "role") = true)
    (callId output : Str) :
    Settles py (.dict d) (.dict [(text "type", .str (text "function_call_output")),
      (text "call_id", .str callId), (text "output", .str output)]) := by
  have clean : Clean [(text "type", (.str (text "function_call_output") : JsonValue F)),
      (text "call_id", .str callId), (text "output", .str output)] := by
    intro p mem
    simp only [List.mem_cons, List.not_mem_nil, or_false] at mem
    rcases mem with rfl | rfl | rfl <;> rfl
  have silent := role_distinct tool (by decide)
  refine ⟨?_, ?_, ?_⟩
  · rw [sanitizeInputItem, sanitizeInterleavedReasoningInputItem, clean.sanitized]
    rfl
  · rw [isInstructionItem, isInstructionItem, asObj, asObj, Option.any_some, Option.any_some, silent.1]
    rfl
  · rw [hasToolRole, asObj, Option.any_some, tool, Bool.not_true, Bool.and_false]
    rfl

theorem normalizeAssistant_dict (py : Python F) (d : Obj F) :
    ∃ d', normalizeAssistantInputItem py d = .dict d' := by
  rw [normalizeAssistantInputItem]
  split_ifs
  · exact ⟨_, rfl⟩
  · exact ⟨_, rfl⟩

theorem sanitizeInputItem_settles {py : Python F} {item out : JsonValue F}
    (left : sanitizeInputItem py item = .ok (some out)) : Settles py item out := by
  have again := left
  rw [sanitizeInputItem] at left
  split_ifs at left with directive
  · cases left
    obtain ⟨d, object, directive⟩ := (Option.any_eq_true _ _).mp directive
    refine ⟨again, rfl, ?_⟩
    rw [hasToolRole, object, Option.any_some, directive_not_tool directive, Bool.not_false,
      Bool.and_true]
  · cases item with
    | dict d =>
      rw [asObj, Option.any_some, Bool.not_eq_true] at directive
      rw [sanitizeInterleavedReasoningInputItem] at left
      have kind := sameKind_sanitized d
      have clean := clean_sanitized d
      generalize d.filterMap sanitizeMember = s at left kind clean
      dsimp only at left
      rw [normalizeRoleInputItem] at left
      split_ifs at left with assistant tool
      · obtain ⟨d', made⟩ := normalizeAssistant_dict py s
        rw [made] at left
        cases left
        obtain ⟨same, clean', again⟩ := normalizeAssistant_settled py clean made
        refine settles_dict (kind.trans same) clean' directive ?_ ?_
        · rw [kind.role] at assistant
          rw [oneOf_eq assistant]
          rfl
        · rw [normalizeRoleInputItem, same.role, if_pos assistant, again]
      · rw [kind.role] at tool
        rw [normalizeToolInputItem] at left
        split at left
        · cases left
        · cases left
          exact toolOutput_settles tool _ _
      · cases left
        refine settles_dict kind clean directive ?_ ?_
        · rw [← kind.role, ← Bool.not_eq_true]
          exact tool
        · rw [normalizeRoleInputItem, if_neg assistant, if_neg tool]
    | null => cases left
    | _ =>
      cases left
      exact ⟨rfl, rfl, rfl⟩

theorem sanitizeInputItem_dropped {py : Python F} {item : JsonValue F}
    (left : sanitizeInputItem py item = .ok none) : item = .null := by
  rw [sanitizeInputItem] at left
  split_ifs at left
  · cases left
  · cases item with
    | null => rfl
    | dict d =>
      dsimp only [sanitizeInterleavedReasoningInputItem] at left
      generalize normalizeRoleInputItem py (.dict (d.filterMap sanitizeMember)) = made at left
      cases made with
      | error e => cases left
      | ok out => cases left
    | _ => cases left

/-! ## All items -/

theorem bind_ok {ε α β : Type} {x : Except ε α} {f : α → Except ε β} {b : β}
    (h : (x >>= f) = .ok b) : ∃ a, x = .ok a ∧ f a = .ok b := by
  cases x with
  | error e => cases h
  | ok a => exact ⟨a, rfl, h⟩

/-- What the validator leaves of the items: it leaves it as it is, with the instruction messages of
the items and with their Lite bundles but for those of a tool. -/
theorem sanitizeInputItems_settles {py : Python F} {items out : List (JsonValue F)}
    (left : sanitizeInputItems py items = .ok out) :
    sanitizeInputItems py out = .ok out ∧
      out.any isInstructionItem = items.any isInstructionItem ∧
      out.any isLiteItem = items.any fun item => isLiteItem item && !hasToolRole item := by
  induction items generalizing out with
  | nil =>
    cases left
    exact ⟨rfl, rfl, rfl⟩
  | cons item rest ih =>
    obtain ⟨first, here, left⟩ := bind_ok left
    obtain ⟨others, later, left⟩ := bind_ok left
    cases left
    obtain ⟨settled, instructions, lite⟩ := ih later
    cases first with
    | none =>
      obtain rfl := sanitizeInputItem_dropped here
      exact ⟨settled, instructions, lite⟩
    | some first =>
      obtain ⟨settledFirst, instruction, liteFirst⟩ := sanitizeInputItem_settles here
      rw [Option.toList_some, List.singleton_append]
      refine ⟨?_, ?_, ?_⟩
      · rw [sanitizeInputItems, settledFirst, settled]
        rfl
      · rw [List.any_cons, List.any_cons, instruction, instructions]
      · rw [List.any_cons, List.any_cons, liteFirst, lite]

/-! ## Hoisting -/

theorem user_not_instruction {d : Obj F} (user : d.get "role" = .str (text "user")) :
    isInstructionMessage d = false := by
  rw [isInstructionMessage, user]
  rfl

theorem directive_not_instruction {d : Obj F} (directive : isPreservedNonMessageDirective d = true) :
    isInstructionMessage d = false := by
  rw [isInstructionMessage, directive]
  simp

/-- No instruction message is left among the items. -/
theorem hoistItems_none (items : List (JsonValue F)) :
    (hoistItems items).2.1.any isInstructionItem = false := by
  induction items with
  | nil => rfl
  | cons item rest ih =>
    rw [hoistItems]
    generalize hoistItems rest = r at ih
    obtain ⟨parts, others, changed⟩ := r
    dsimp only at ih ⊢
    split
    · rename_i none_
      rw [List.any_cons, ih, isInstructionItem, none_]
      rfl
    · rename_i d object
      split_ifs with directive message
      · rw [List.any_cons, ih, isInstructionItem, object, Option.any_some,
          directive_not_instruction directive]
        rfl
      · rw [hoistItem]
        generalize splitResponsesInstructionItemContent d = split
        obtain ⟨instructionText, preserved⟩ := split
        cases preserved with
        | none => exact ih
        | some content =>
          have user : Obj.get ((d.set "role" (.str (text "user"))).set "content" content) "role"
              = .str (text "user") := by
            rw [get_set_ne _ (by decide), get_set_self]
          dsimp only [Option.map_some, Option.toList_some]
          rw [List.singleton_append, List.any_cons, ih, isInstructionItem, asObj, Option.any_some,
            user_not_instruction user]
          rfl
      · rw [List.any_cons, ih, isInstructionItem, object, Option.any_some, Bool.eq_false_iff.mpr message]
        rfl

/-- Without an instruction message the items stay as they are. -/
theorem hoistItems_same {items : List (JsonValue F)} (none_ : items.any isInstructionItem = false) :
    (hoistItems items).1 = [] ∧ (hoistItems items).2.1 = items := by
  induction items with
  | nil => exact ⟨rfl, rfl⟩
  | cons item rest ih =>
    rw [List.any_cons, Bool.or_eq_false_iff] at none_
    obtain ⟨parts, others⟩ := ih none_.2
    rw [hoistItems]
    generalize hoistItems rest = r at parts others
    obtain ⟨parts', others', changed⟩ := r
    dsimp only at parts others ⊢
    subst parts others
    split
    · exact ⟨rfl, rfl⟩
    · rename_i d object
      have silent : isInstructionMessage d = false := by
        rw [isInstructionItem, object, Option.any_some] at none_
        exact none_.1
      split_ifs with directive message
      · exact ⟨rfl, rfl⟩
      · rw [silent] at message
        cases message
      · exact ⟨rfl, rfl⟩

/-- Items in which nothing is hoisted without a change being counted have no instruction message. -/
theorem hoistItems_unchanged {items : List (JsonValue F)} (unchanged : (hoistItems items).2.2 = false) :
    items.any isInstructionItem = false := by
  induction items with
  | nil => rfl
  | cons item rest ih =>
    rw [hoistItems] at unchanged
    generalize hoistItems rest = r at ih unchanged
    obtain ⟨parts, others, changed⟩ := r
    dsimp only at ih unchanged
    split at unchanged
    · rename_i none_
      rw [List.any_cons, isInstructionItem, none_, ih unchanged]
      rfl
    · rename_i d object
      split_ifs at unchanged with directive message
      rw [List.any_cons, isInstructionItem, object, Option.any_some, ih unchanged,
        Bool.eq_false_iff.mpr message]
      rfl

end Requests
