import LivingBalancer.Chat.ChatRequest
import LivingBalancer.Requests.ForwardHop

/-!
# The texts of a message through the mapping

The coercion of a content, the removal of interleaved reasoning and the normalization of assistant
content each leave the texts of the content as they are.
-/

namespace ChatMapping

open PyJson Requests
open ToolCallDedupe (Obj Obj.get Obj.set asStr asObj asList asObj_eq_some)

variable {F : Type}

/-- The text that a content part shows: of a text part, or of a refusal. -/
def partText : JsonValue F → Option Str
  | .str t => some t
  | .dict part =>
    match partType part with
    | some type =>
      if among textContentPartTypes type then asStr (Obj.get part "text")
      else if type = text "refusal" then asStr (Obj.get part "refusal")
      else none
    | none => none
  | _ => none

def contentTexts (content : JsonValue F) : List Str := (contentParts content).filterMap partText

/-- The texts of an input item. -/
def itemTexts (item : JsonValue F) : List Str :=
  ((asObj item).map fun item => contentTexts (item.get "content")).getD []

/-! ## The type of a part -/

theorem shownStr_str {t : Str} (shown : t ≠ []) : shownStr (.str t : JsonValue F) = some t := by
  simp [shownStr, asStr, shown]

/-- The texts of an object depend on three of its members. -/
theorem partText_congr {d d' : Obj F} (type : d'.get "type" = d.get "type")
    (body : d'.get "text" = d.get "text") (refusal : d'.get "refusal" = d.get "refusal") :
    partText (.dict d') = partText (.dict d) := by
  rw [partText, partText, partType, partType, type, body, refusal]

theorem partType_str {d : Obj F} {t : Str} (shown : t ≠ []) (type : d.get "type" = .str t) :
    partType d = some t := by
  rw [partType, type, shownStr_str shown]
  rfl

theorem partText_text {d : Obj F} {t : Str} (type : partType d = some t)
    (known : among textContentPartTypes t = true) : partText (.dict d) = asStr (d.get "text") := by
  rw [partText, type]
  dsimp only
  rw [if_pos known]

theorem partText_other {d : Obj F} {t : Str} (type : partType d = some t)
    (unknown : among textContentPartTypes t = false) (refusal : t ≠ text "refusal") :
    partText (.dict d) = none := by
  rw [partText, type]
  dsimp only
  rw [unknown, if_neg (by simp), if_neg refusal]

theorem partText_textContentPart {type : String} (t : Str)
    (known : among textContentPartTypes (text type) = true) :
    partText (textContentPart type t : JsonValue F) = some t := by
  have shown : text type ≠ [] := by
    intro empty
    rw [empty] at known
    exact absurd known (by decide)
  rw [textContentPart, partText_text (partType_str shown rfl) known]
  rfl

theorem textTypeForRole_known (role : Str) :
    among textContentPartTypes (text (textTypeForRole role)) = true := by
  rw [textTypeForRole]
  split_ifs <;> decide

/-! ## Coercion -/

section Coercion

variable {isZero : F → Bool} {role : Str}

/-- The type that the coercion sees is the type of the part, unless that is no text. -/
theorem contentPartType_str {part : Obj F} {t : Str} (seen : contentPartType isZero part = .str t) :
    partType part = some t ∨
      (t = text "text" ∧ shownStr (part.get "type") = none ∧ asStr (part.get "text") = none) := by
  rw [contentPartType] at seen
  split_ifs at seen with given present
  · refine .inl (partType_str ?_ seen)
    rintro rfl
    rw [seen] at given
    cases given
  · cases seen
    have silent : shownStr (part.get "type") = none := by
      cases type : part.get "type" with
      | str t =>
        rw [type, truthy] at given
        rw [shownStr, asStr]
        simpa using given
      | _ => rfl
    cases body : asStr (part.get "text") with
    | none => exact .inr ⟨rfl, silent, rfl⟩
    | some u =>
      refine .inl ?_
      rw [partType, silent, body]
      rfl

theorem oneOf_str {words : List String} {value : JsonValue F} (named : oneOf words value = true) :
    ∃ t, value = .str t ∧ among words t = true := by
  cases value with
  | str t => exact ⟨t, rfl, named⟩
  | _ => cases named

/-- A part of a type that is neither a text nor a refusal shows no text. -/
theorem partText_typed {part : Obj F} {word : String}
    (named : oneOf [word] (contentPartType isZero part) = true)
    (unknown : among textContentPartTypes (text word) = false) (refusal : text word ≠ text "refusal") :
    partText (.dict part) = none := by
  rcases contentPartType_str (oneOf_eq named) with type | ⟨same, -, -⟩
  · exact partText_other type unknown refusal
  · rw [same] at unknown
    exact absurd unknown (by decide)

theorem partText_inputFile (members : List (String × Str)) :
    partText (inputFile members : JsonValue F) = none :=
  partText_other (partType_str (by decide) rfl) (by decide) (by decide)

theorem partText_inputImage {image out : JsonValue F} (made : imageUrlToInputImage image = some out) :
    partText out = none := by
  rw [imageUrlToInputImage.eq_def] at made
  split at made
  · obtain ⟨url, -, rfl⟩ := Option.map_eq_some_iff.mp made
    exact partText_other (partType_str (by decide) rfl) (by decide) (by decide)
  · cases made
    exact partText_other (partType_str (by decide) rfl) (by decide) (by decide)
  · cases made

theorem imageUrlToInputImage_dict {image out : JsonValue F}
    (made : imageUrlToInputImage image = some out) : ∃ d, out = .dict d := by
  rw [imageUrlToInputImage.eq_def] at made
  split at made
  · obtain ⟨url, -, rfl⟩ := Option.map_eq_some_iff.mp made
    exact ⟨_, rfl⟩
  · cases made
    exact ⟨_, rfl⟩
  · cases made

theorem filePartToInputFile_members (file : JsonValue F) :
    ∃ members, filePartToInputFile file = inputFile members := by
  rw [filePartToInputFile]
  repeat' split
  all_goals exact ⟨_, rfl⟩

theorem inTypes_ok {value : JsonValue F} {b : Bool} (made : inTextContentPartTypes value = .ok b) :
    oneOf textContentPartTypes value = b := by
  cases value <;> cases made <;> rfl

/-- A text part: the type that the coercion sees is a text type. -/
theorem textPart_text {part : Obj F}
    (known : oneOf textContentPartTypes (contentPartType isZero part) = true) :
    partText (.dict part) = asStr (part.get "text") := by
  obtain ⟨t, seen, known⟩ := oneOf_str known
  rcases contentPartType_str seen with type | ⟨rfl, silent, body⟩
  · exact partText_text type known
  · rw [partText, partType, silent, body]
    rfl

theorem normalizeContentPart_text {part : Obj F} {out : JsonValue F}
    (made : normalizeContentPart isZero role part = .ok out) :
    partText out = partText (.dict part) ∧ ∃ d, out = .dict d := by
  obtain ⟨known, seen, made⟩ := bind_ok made
  have seen := inTypes_ok seen
  split_ifs at made with isText assistant image inputImage audio file
  · rw [isText] at seen
    cases made
    rw [textPart_text seen]
    cases body : asStr (part.get "text") with
    | none =>
      rw [Option.map_none, Option.getD_none, textPart_text seen, body]
      exact ⟨rfl, part, rfl⟩
    | some t =>
      rw [Option.map_some, Option.getD_some, partText_textContentPart t (textTypeForRole_known role)]
      exact ⟨rfl, _, rfl⟩
  · cases made
    exact ⟨rfl, part, rfl⟩
  · cases made
    have silent : partText (.dict part) = none := partText_typed image (by decide) (by decide)
    cases url : imageUrlToInputImage (part.get "image_url") with
    | none => exact ⟨rfl, part, rfl⟩
    | some out => exact ⟨(partText_inputImage url).trans silent.symm, imageUrlToInputImage_dict url⟩
  · cases made
    exact ⟨rfl, part, rfl⟩
  · cases made
    have silent : partText (.dict part) = none := partText_typed audio (by decide) (by decide)
    cases audioInputToDataUrl (part.get "input_audio") with
    | none => exact ⟨rfl, part, rfl⟩
    | some url => exact ⟨(partText_inputFile _).trans silent.symm, _, rfl⟩
  · cases made
    have silent : partText (.dict part) = none := partText_typed file (by decide) (by decide)
    obtain ⟨members, made⟩ := filePartToInputFile_members (part.get "file")
    rw [made]
    exact ⟨(partText_inputFile members).trans silent.symm, _, rfl⟩
  · cases made
    exact ⟨rfl, part, rfl⟩

/-- A part of a content keeps its text, and what is no list becomes none. -/
theorem normalizePart_text {part out : JsonValue F} (made : normalizePart isZero role part = .ok out) :
    partText out = partText part ∧ (contentParts part = [part] → contentParts out = [out]) := by
  cases part with
  | str t =>
    cases made
    exact ⟨partText_textContentPart t (textTypeForRole_known role), fun _ => rfl⟩
  | dict part =>
    obtain ⟨same, d, rfl⟩ := normalizeContentPart_text made
    exact ⟨same, fun _ => rfl⟩
  | _ =>
    cases made
    exact ⟨rfl, id⟩

theorem normalizeAllParts_texts {parts outs : List (JsonValue F)}
    (made : normalizeAllParts isZero role parts = .ok outs) :
    outs.filterMap partText = parts.filterMap partText := by
  induction parts generalizing outs with
  | nil =>
    cases made
    rfl
  | cons part rest ih =>
    obtain ⟨out, here, made⟩ := bind_ok made
    obtain ⟨others, later, made⟩ := bind_ok made
    cases made
    rw [List.filterMap_cons, List.filterMap_cons, (normalizePart_text here).1, ih later]

/-- The coercion keeps the texts of a content, also behind `_to_content_list`. -/
theorem normalizeContentParts_texts {content out : JsonValue F}
    (made : normalizeContentParts isZero role content = .ok out) :
    contentTexts out = contentTexts content ∧
      (toContentList out).filterMap partText = contentTexts content := by
  have known := textTypeForRole_known role
  have single {part out : JsonValue F} (alone : contentParts part = [part])
      (made : normalizePart isZero role part = .ok out) : contentTexts out = contentTexts part := by
    obtain ⟨same, kept⟩ := normalizePart_text made
    rw [contentTexts, contentTexts, alone, kept alone, List.filterMap_cons, List.filterMap_cons, same]
  cases content with
  | null =>
    cases made
    exact ⟨rfl, rfl⟩
  | str t =>
    cases made
    have said : contentTexts (.list [textContentPart (textTypeForRole role) t] : JsonValue F) = [t] := by
      rw [contentTexts, contentParts, List.filterMap_cons_some (partText_textContentPart t known)]
      rfl
    exact ⟨said, said⟩
  | list parts =>
    obtain ⟨outs, all, rfl⟩ := map_ok made
    exact ⟨normalizeAllParts_texts all, normalizeAllParts_texts all⟩
  | dict part =>
    have normalized : normalizePart isZero role (.dict part) = .ok out := made
    have same := single rfl normalized
    obtain ⟨-, d, rfl⟩ := normalizeContentPart_text normalized
    exact ⟨same, same⟩
  | _ =>
    cases made
    exact ⟨rfl, rfl⟩

end Coercion

/-! ## The validator of the input -/

theorem get_filter_keys {keys : List String} {k : String} (kept : among keys (text k) = false)
    (d : Obj F) : Obj.get (d.filter fun p => !among keys p.1) k = Obj.get d k := by
  rw [Obj.get, Obj.get, ← List.filterMap_eq_filter, lookup_filterMap]
  · rintro p same
    rw [Option.guard_eq_some_iff.mpr]
    simp [same, kept]
  · intro p q kept
    rw [(Option.guard_eq_some_iff.mp kept).1]

/-- A part of interleaved reasoning shows no text, and any other part keeps its text. -/
theorem sanitizePart_text (part : JsonValue F) :
    (sanitizeInterleavedReasoningContentPart part).bind partText = partText part := by
  rw [sanitizeInterleavedReasoningContentPart.eq_def]
  split
  · rfl
  · rename_i d
    split_ifs with reasoning
    · obtain ⟨t, type, known⟩ := oneOf_str reasoning
      have shown : t ≠ [] := by
        rintro rfl
        exact absurd known (by decide)
      refine (partText_other (partType_str shown type) ?_ ?_).symm
      · cases isText : among textContentPartTypes t with
        | false => rfl
        | true =>
          simp only [textContentPartTypes, interleavedReasoningPartTypes, among, List.any_cons,
            List.any_nil, Bool.or_false, Bool.or_eq_true, decide_eq_true_eq] at isText known
          rcases known with rfl | rfl | rfl
          · exact absurd isText (by decide)
          · exact absurd isText (by decide)
          · exact absurd isText (by decide)
      · rintro rfl
        exact absurd known (by decide)
    · exact partText_congr (get_filter_keys (by decide) d) (get_filter_keys (by decide) d)
        (get_filter_keys (by decide) d)
  · rfl

theorem sanitizeContent_texts (content : JsonValue F) :
    ((sanitizeInterleavedReasoningContent content).map contentTexts).getD [] = contentTexts content := by
  cases content with
  | null => rfl
  | list parts =>
    rw [sanitizeInterleavedReasoningContent, Option.map_some, Option.getD_some, contentTexts,
      contentTexts, contentParts, contentParts, List.filterMap_filterMap]
    exact List.filterMap_congr fun part _ => sanitizePart_text part
  | dict d =>
    have same := sanitizePart_text (.dict d)
    have dict : ∀ out, sanitizeInterleavedReasoningContentPart (.dict d) = some out →
        contentParts out = [out] := by
      intro out left
      rw [sanitizeInterleavedReasoningContentPart] at left
      split_ifs at left
      cases left
      rfl
    have alone : contentTexts (.dict d) = (partText (.dict d)).toList := by
      rw [contentTexts, contentParts, List.filterMap_cons]
      · cases partText (.dict d) <;> rfl
      · intro parts isList
        cases isList
    rw [sanitizeInterleavedReasoningContent, alone, ← same]
    cases left : sanitizeInterleavedReasoningContentPart (.dict d) with
    | none => rfl
    | some out =>
      rw [Option.map_some, Option.getD_some, contentTexts, dict out left, List.filterMap_cons,
        Option.bind_some]
      cases partText out <;> rfl
  | _ => rfl

theorem extract_text {part : Obj F} {t : Str}
    (extracted : extractTextContentPart assistantTextPartTypes part = some t) :
    partText (.dict part) = some t := by
  have refusal (extracted : (if oneOf ["refusal"] (part.get "type") then asStr (part.get "refusal")
      else none) = some t) : partText (.dict part) = some t := by
    split_ifs at extracted with refused
    have type : partType part = some (text "refusal") := partType_str (by decide) (oneOf_eq refused)
    rw [partText, type]
    exact extracted
  rw [extractTextContentPart] at extracted
  split at extracted
  · rename_i u body
    split_ifs at extracted with plain
    · cases extracted
      rcases Bool.or_eq_true_iff.mp plain with named | untyped
      · obtain ⟨type, seen, known⟩ := oneOf_str named
        have shown : type ≠ [] := by
          rintro rfl
          exact absurd known (by decide)
        rw [partText_text (partType_str shown seen) known, body]
      · have null : part.get "type" = .null := by
          cases type : part.get "type" with
          | null => rfl
          | _ =>
            rw [type] at untyped
            cases untyped
        have type : partType part = some (text "text") := by
          rw [partType, null, body]
          rfl
        rw [partText_text type (by decide), body]
    · exact refusal (by rwa [if_pos ‹_›])
  · exact refusal extracted

theorem partText_outputText (t : Str) : partText (outputText t : JsonValue F) = some t :=
  @partText_textContentPart F "output_text" t (by decide)

/-- The output part of an assistant's part has its text. -/
theorem assistantPart_text (part : JsonValue F) :
    partText (normalizeAssistantContentPart part) = partText part := by
  rw [normalizeAssistantContentPart.eq_def]
  split
  · exact partText_outputText _
  · rename_i part
    cases extracted : extractTextContentPart assistantTextPartTypes part with
    | none => rfl
    | some t => exact (partText_outputText t).trans (extract_text extracted).symm
  · rfl

theorem assistantContent_texts (content : JsonValue F) :
    contentTexts (normalizeAssistantContent content) = contentTexts content := by
  cases content with
  | str t =>
    rw [contentTexts, normalizeAssistantContent, contentParts,
      List.filterMap_cons_some (partText_outputText t)]
    rfl
  | list parts =>
    rw [contentTexts, normalizeAssistantContent, contentParts, List.filterMap_map]
    exact List.filterMap_congr fun part _ => assistantPart_text part
  | dict d =>
    rw [contentTexts, normalizeAssistantContent, contentParts, List.filterMap_cons, assistantPart_text]
    rfl
  | _ => rfl

end ChatMapping
