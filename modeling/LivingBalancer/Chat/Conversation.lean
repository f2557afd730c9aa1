import LivingBalancer.Chat.MessageTexts
import LivingBalancer.Lib.Pointwise

/-!
# The conversation of a chat request

What the input and the instructions of the mapped request keep of the messages, and when the
mapping keeps it: the validator of the responses request hoists every system or developer message
out of the input, so none stays there for `json_object`.
-/

namespace ChatMapping

open PyJson Requests
open ToolCallDedupe (Obj Obj.get Obj.set asStr asObj asList asObj_eq_some)

variable {F : Type}

/-! ## What is kept -/

/-- The URL of an `image_url` part. -/
def imageUrl : JsonValue F → Option Str
  | .dict part =>
    if partType part = some (text "image_url") then
      (asObj (Obj.get part "image_url")).bind fun image => asStr (image.get "url")
    else none
  | _ => none

def isFilePart (part : JsonValue F) : Bool :=
  (asObj part).any fun part => decide (partType part = some (text "file"))

/-- An output part has the text, the image or a file of its part. -/
structure KeptPart (part out : JsonValue F) : Prop where
  text : partText out = partText part
  image : ∀ url, imageUrl part = some url → ∃ d : Obj F, out = .dict d ∧
    d.get "type" = .str (PyJson.text "input_image") ∧ d.get "image_url" = .str url
  file : isFilePart part = true → ∃ d : Obj F, out = .dict d ∧ d.get "type" = .str (PyJson.text "input_file")

/-- The content of a user message and of its item: the parts in order but for oversized images. An
image that is all of the content leaves the empty text. -/
inductive KeepsUserContent : JsonValue F → JsonValue F → Prop
  | missing : KeepsUserContent .null .null
  | text (t : Str) : KeepsUserContent (.str t) (.list [textContentPart "input_text" t])
  | parts {parts outs : List (JsonValue F)}
      (kept : List.Forall₂ KeptPart (parts.filter fun part => !oversizedImage part) outs) :
      KeepsUserContent (.list parts) (.list outs)
  | part {d : Obj F} {out : JsonValue F} (small : oversizedImage (.dict d) = false)
      (kept : KeptPart (.dict d) out) : KeepsUserContent (.dict d) out
  | removed {d : Obj F} (oversized : oversizedImage (.dict d) = true) :
      KeepsUserContent (.dict d) (.list [textContentPart "input_text" []])

/-- A message item of the input with a role. -/
def HasRole (role : JsonValue F) (item : JsonValue F) : Prop :=
  ∃ d : Obj F, item = .dict d ∧ d.get "role" = role ∧ d.get "type" = .null

/-- The function call of a tool call: the same id, name and arguments. -/
def IsCallOf (toolCall item : JsonValue F) : Prop :=
  ∃ call function callId name arguments, toolCall = .dict call ∧
    Obj.get call "id" = .str callId ∧ Obj.get call "function" = .dict function ∧
    Obj.get function "name" = .str name ∧ Obj.get function "arguments" = .str arguments ∧
    item = functionCallInputItem callId name arguments

/-- The items of an assistant message: one with its texts and its refusal, which may be missing where
there are tool calls, and then the tool calls. -/
def KeepsAssistant (message : Obj F) (items : List (JsonValue F)) : Prop :=
  ∃ said calls, items = said ++ calls ∧ said.length ≤ 1 ∧
    (∀ item ∈ said, HasRole (.str (text "assistant")) item) ∧
    said.flatMap itemTexts =
      contentTexts (message.get "content") ++ (getAssistantRefusal message).toList ∧
    List.Forall₂ IsCallOf ((asList (message.get "tool_calls")).getD []) calls

/-- The text of a tool message. -/
def toolText : JsonValue F → Option Str
  | .str t => some t
  | .list content => some (concatTextParts content)
  | _ => none

/-- The items of one message; `preserved` is that `response_format` is `json_object`. -/
def KeepsMessage (preserved : Bool) (message : Obj F) (items : List (JsonValue F)) : Prop :=
  if oneOf instructionRoles (message.get "role") then
    if preserved then ∃ item, items = [item] ∧ HasRole (message.get "role") item ∧
      itemTexts item = contentTexts (message.get "content")
    else items = []
  else if oneOf ["user"] (message.get "role") then
    ∃ d : Obj F, items = [.dict d] ∧ d.get "role" = .str (text "user") ∧ d.get "type" = .null ∧
      KeepsUserContent (message.get "content") (d.get "content")
  else if oneOf ["assistant"] (message.get "role") then KeepsAssistant message items
  else ∃ callId output, resolvedCallId message = some callId ∧
    toolText (message.get "content") = some output ∧
    items = [functionCallOutputInputItem callId output]

/-- The texts of the system and developer messages, in order. -/
def instructionTexts (messages : List (Obj F)) : List Str :=
  (messages.filter fun message => oneOf instructionRoles (message.get "role")).filterMap
    fun message => contentToText (message.get "content")

/-- The mapped request keeps the conversation: its input has the items of each message in order, and
its instructions are those of the request and then the texts of the system and developer messages,
unless these stay in the input. -/
structure KeepsConversation (chat : ChatCompletionsRequest F) (messages : List (Obj F))
    (r : ResponsesRequest F) : Prop where
  input : ∃ groups, List.Forall₂ (KeepsMessage (preservesInstructionRoles chat)) messages groups ∧
    r.input = groups.flatten
  hidden : preservesInstructionRoles chat = false → ∀ d, .dict d ∈ r.input →
    oneOf instructionRoles (Obj.get d "role") = false
  instructions : r.instructions =
    if preservesInstructionRoles chat then chat.instructions.getD []
    else newline.intercalate
      ((chat.instructions.getD [] :: instructionTexts messages).filter (· ≠ []))

/-! ## Messages on their way to the coercion -/

theorem isNone_eq {value : JsonValue F} (null : isNone value = true) : value = .null := by
  cases value with
  | null => rfl
  | _ => cases null

theorem get_excludeNone (d : Obj F) (k : String) : Obj.get (excludeNone d) k = Obj.get d k := by
  by_cases null : isNone (Obj.get d k) = true
  · have gone : Dict.lookup (text k) (excludeNone d) = none := by
      rw [Dict.lookup_eq_none]
      intro mem
      obtain ⟨p, kept, same⟩ := List.mem_map.mp mem
      have shown := (List.mem_filter.mp kept).2
      rw [same] at shown
      rw [Obj.get] at null
      rw [null] at shown
      cases shown
    rw [Obj.get, gone, isNone_eq null]
    rfl
  · rw [Obj.get, Obj.get, excludeNone, ← List.filterMap_eq_filter, lookup_filterMap]
    · rintro p same
      rw [Option.guard_eq_some_iff.mpr]
      rw [Obj.get] at null
      simp [same, null]
    · intro p q kept
      rw [(Option.guard_eq_some_iff.mp kept).1]

theorem dropOversized_null {content : JsonValue F} (null : isNone (dropOversizedImages content) = true) :
    content = .null := by
  rw [dropOversizedImages.eq_def] at null
  split at null
  · rfl
  · cases null
  · cases null
  · split_ifs at null
    · cases null
    · exact isNone_eq null

/-- The message as the coercion gets it. -/
def sentMessage (message : Obj F) : Obj F := sanitizeUserMessage (excludeNone message)

theorem get_sent (message : Obj F) {k : String} (other : text k ≠ text "content") :
    Obj.get (sentMessage message) k = Obj.get message k := by
  rw [sentMessage, sanitizeUserMessage]
  split_ifs
  · exact get_excludeNone message k
  · rw [get_set_ne _ other, get_excludeNone]
  · exact get_excludeNone message k

theorem content_sent (message : Obj F) : Obj.get (sentMessage message) "content" =
    if oneOf ["user"] (message.get "role") then dropOversizedImages (message.get "content")
    else message.get "content" := by
  rw [sentMessage, sanitizeUserMessage, get_excludeNone, get_excludeNone]
  split_ifs with user null
  · rw [get_excludeNone, dropOversized_null null]
    rfl
  · rw [get_set_self]
  · exact get_excludeNone message "content"

theorem callId_sent (message : Obj F) : resolvedCallId (sentMessage message) = resolvedCallId message := by
  rw [resolvedCallId, resolvedCallId, get_sent message (by decide), get_sent message (by decide),
    get_sent message (by decide)]

theorem refusal_sent (message : Obj F) :
    getAssistantRefusal (sentMessage message) = getAssistantRefusal message := by
  rw [getAssistantRefusal, getAssistantRefusal, get_sent message (by decide)]

/-! ## Message items -/

/-- The item of a message with a role and perhaps a content. -/
def chatItem (role : JsonValue F) (content : Option (JsonValue F)) : Obj F :=
  (text "role", role) :: content.toList.map fun content => (text "content", content)

section Items

variable {isZero : F → Bool}

theorem get_chatItem_content (role : JsonValue F) (content : Option (JsonValue F)) :
    Obj.get (chatItem role content) "content" = content.getD .null := by
  cases content <;> rfl

theorem get_chatItem_type (role : JsonValue F) (content : Option (JsonValue F)) :
    Obj.get (chatItem role content) "type" = .null := by
  cases content <;> rfl

/-- The role of a message whose refusal is read. -/
def isAssistant (role : JsonValue F) : Bool := decide ((asStr role).getD (text "user") = text "assistant")

/-- The item of a message has its role, its texts and its refusal. -/
theorem normalizeMessageContent_ok {message item : Obj F}
    (made : normalizeMessageContent isZero message = .ok item) :
    ∃ content, item = chatItem (message.get "role") content ∧
      contentTexts (content.getD .null) = contentTexts (message.get "content") ++
        (if isAssistant (message.get "role") then (getAssistantRefusal message).toList else []) ∧
      (isAssistant (message.get "role") = false →
        normalizeContentParts isZero ((asStr (message.get "role")).getD (text "user"))
          (message.get "content") = .ok (content.getD .null)) := by
  rw [normalizeMessageContent] at made
  dsimp only at made
  -- What is read as the refusal of the message.
  have refusal : (if (asStr (message.get "role")).getD (text "user") = text "assistant" then
      getAssistantRefusal message else none).toList
      = if isAssistant (message.get "role") then (getAssistantRefusal message).toList else [] := by
    rw [isAssistant]
    split_ifs with assistant
    · rfl
    · exact absurd (decide_eq_true assistant) ‹_›
    · exact absurd (of_decide_eq_true ‹_›) assistant
    · rfl
  have silent (other : isAssistant (message.get "role") = false) :
      (if (asStr (message.get "role")).getD (text "user") = text "assistant" then
        getAssistantRefusal message else none) = none := if_neg (of_decide_eq_false other)
  generalize (if (asStr (message.get "role")).getD (text "user") = text "assistant" then
    getAssistantRefusal message else none) = spoken at made refusal silent
  rw [← refusal]
  split_ifs at made with bare present empty
  · cases made
    obtain ⟨null, none_⟩ := Bool.and_eq_true_iff.mp bare
    rw [Option.isNone_iff_eq_none.mp none_, isNone_eq null]
    exact ⟨some .null, rfl, rfl, fun _ => rfl⟩
  · cases made
    obtain ⟨null, none_⟩ := Bool.and_eq_true_iff.mp bare
    rw [Option.isNone_iff_eq_none.mp none_, isNone_eq null]
    exact ⟨none, rfl, rfl, fun _ => rfl⟩
  · rw [empty, Bool.true_and] at bare
    cases spoken with
    | none => exact absurd rfl bare
    | some t =>
      cases made
      rw [isNone_eq empty]
      refine ⟨some (.list [refusalContentPart t]), rfl, rfl, fun other => ?_⟩
      cases silent other
  · obtain ⟨normalized, coerced, made⟩ := bind_ok made
    cases made
    obtain ⟨kept, listed⟩ := normalizeContentParts_texts coerced
    cases spoken with
    | none =>
      refine ⟨some normalized, rfl, ?_, fun _ => coerced⟩
      rw [Option.getD_some, kept, Option.toList_none, List.append_nil]
    | some t =>
      refine ⟨some (.list (toContentList normalized ++ [refusalContentPart t])), rfl, ?_, fun other => ?_⟩
      · rw [Option.getD_some, contentTexts, contentParts, List.filterMap_append, listed]
        rfl
      · cases silent other

variable {py : Python F}

theorem sanitize_members (role : JsonValue F) (content : Option (JsonValue F)) :
    (chatItem role content).filterMap sanitizeMember =
      chatItem role (content.bind sanitizeInterleavedReasoningContent) := by
  have kept : sanitizeMember (text "role", role) = some (text "role", role) := rfl
  cases content with
  | none => rfl
  | some content =>
    have member : sanitizeMember (text "content", content) =
        (sanitizeInterleavedReasoningContent content).map fun v => (text "content", v) := rfl
    rw [chatItem, List.filterMap_cons_some kept, Option.toList_some, List.map_singleton,
      List.filterMap_cons, member, Option.bind_some]
    cases sanitizeInterleavedReasoningContent content <;> rfl

theorem sanitized_texts (content : Option (JsonValue F)) :
    contentTexts ((content.bind sanitizeInterleavedReasoningContent).getD .null) =
      contentTexts (content.getD .null) := by
  cases content with
  | none => rfl
  | some content =>
    rw [Option.bind_some, Option.getD_some, ← sanitizeContent_texts content]
    cases sanitizeInterleavedReasoningContent content <;> rfl

/-- What the validator makes of the item of a message that is no tool message. -/
structure MessageLeft (own : Str) (given : Option (JsonValue F)) (out : Obj F) : Prop where
  role : out.get "role" = .str own
  type : out.get "type" = .null
  texts : contentTexts (out.get "content") = contentTexts (given.getD .null)
  content : own ≠ text "assistant" → out.get "content" =
    (given.bind sanitizeInterleavedReasoningContent).getD .null

theorem oneOf_word (word : String) (t : Str) :
    oneOf [word] (.str t : JsonValue F) = decide (t = text word) := by
  simp [oneOf, asStr, among]

theorem sanitize_chatItem {role : Str} {content : Option (JsonValue F)}
    (message : role ≠ text "tool") : ∃ out,
    sanitizeInputItem py (.dict (chatItem (.str role) content)) = .ok (some (.dict out)) ∧
      MessageLeft role content out := by
  have plain : isPreservedNonMessageDirective (chatItem (.str role) content) = false := by
    rw [isPreservedNonMessageDirective, get_chatItem_type, isNone, Bool.not_true, Bool.and_false,
      Bool.false_and]
  have named : Obj.get (chatItem (.str role)
      (content.bind sanitizeInterleavedReasoningContent)) "role" = .str role := rfl
  rw [sanitizeInputItem, asObj, Option.any_some, plain, if_neg (by simp),
    sanitizeInterleavedReasoningInputItem, sanitize_members]
  dsimp only
  rw [normalizeRoleInputItem, named, oneOf_word, oneOf_word, decide_eq_false message]
  by_cases assistant : role = text "assistant"
  · rw [decide_eq_true assistant, if_pos rfl]
    rw [normalizeAssistantInputItem, get_chatItem_content]
    split_ifs
    · refine ⟨_, rfl, named, get_chatItem_type _ _, ?_, fun other => absurd assistant other⟩
      rw [get_chatItem_content, sanitized_texts]
    · refine ⟨_, rfl, ?_, ?_, ?_, fun other => absurd assistant other⟩
      · rw [get_set_ne _ (by decide), named]
      · rw [get_set_ne _ (by decide), get_chatItem_type]
      · rw [get_set_self, assistantContent_texts, sanitized_texts]
  · rw [decide_eq_false assistant, if_neg (by simp), if_neg (by simp)]
    refine ⟨_, rfl, named, get_chatItem_type _ _, ?_, fun _ => get_chatItem_content _ _⟩
    rw [get_chatItem_content, sanitized_texts]

theorem sanitize_call (callId name arguments : Str) :
    sanitizeInputItem py (functionCallInputItem callId name arguments) =
      .ok (some (functionCallInputItem callId name arguments)) := rfl

theorem sanitize_output (callId output : Str) :
    sanitizeInputItem py (functionCallOutputInputItem callId output) =
      .ok (some (functionCallOutputInputItem callId output)) := rfl

end Items

/-! ## User content -/

section User

variable {isZero : F → Bool}

theorem unit_ok {ε : Type} {x : Except ε Unit} {f : Except ε Unit} (h : (x >>= fun _ => f) = .ok ()) :
    x = .ok () ∧ f = .ok () := by
  obtain ⟨_, left, right⟩ := bind_ok h
  exact ⟨left, right⟩

theorem shownStr_eq {value : JsonValue F} {t : Str} (shown : shownStr value = some t) :
    value = .str t ∧ t ≠ [] := by
  obtain ⟨str, given⟩ := Option.filter_eq_some_iff.mp shown
  cases value with
  | str u =>
    cases str
    exact ⟨rfl, of_decide_eq_true given⟩
  | _ => cases str

/-- A type other than the one that is guessed is the type of the part. -/
theorem contentPartType_of {part : Obj F} {t : Str} (type : partType part = some t)
    (other : t ≠ text "text") : contentPartType isZero part = .str t := by
  rw [partType] at type
  cases shown : shownStr (part.get "type") with
  | some u =>
    obtain ⟨given, notEmpty⟩ := shownStr_eq shown
    rw [shown, Option.some_or, Option.some.injEq] at type
    rw [contentPartType, given, truthy, if_pos, type]
    simpa using notEmpty
  | none =>
    rw [shown, Option.none_or] at type
    split_ifs at type
    exact absurd (Option.some.inj type).symm other

theorem sanitize_inputFile (members : List (String × Str)) : ∃ d : Obj F,
    sanitizeInterleavedReasoningContentPart (inputFile members) = some (.dict d) ∧
      d.get "type" = .str (text "input_file") :=
  ⟨_, rfl, get_filter_keys (by decide) _⟩

/-- An image part with a URL is an input image with that URL, which stays. -/
theorem sanitize_inputImage {image : Obj F} {url : Str} (given : image.get "url" = .str url) :
    ∃ d : Obj F, imageUrlToInputImage (.dict image) = some (.dict d) ∧
      sanitizeInterleavedReasoningContentPart (.dict d) = some (.dict d) ∧
      d.get "type" = .str (text "input_image") ∧ d.get "image_url" = .str url := by
  rw [imageUrlToInputImage, given]
  cases asStr (image.get "detail") with
  | none => exact ⟨_, rfl, rfl, rfl, rfl⟩
  | some detail => exact ⟨_, rfl, rfl, rfl, rfl⟩

theorem imageUrl_type {part : Obj F} {url : Str} (h : imageUrl (.dict part) = some url) :
    partType part = some (text "image_url") := by
  rw [imageUrl] at h
  split_ifs at h with type
  exact type

theorem isFilePart_type {part : Obj F} (h : isFilePart (.dict part) = true) :
    partType part = some (text "file") := of_decide_eq_true h

/-- A part of an accepted user message is kept. -/
theorem userPart_kept {part out : JsonValue F} (valid : validateUserPart part = .ok ())
    (made : normalizePart isZero (text "user") part = .ok out) :
    ∃ left, sanitizeInterleavedReasoningContentPart out = some left ∧ KeptPart part left := by
  obtain ⟨same, -⟩ := normalizePart_text made
  have stripped := sanitizePart_text out
  rw [same] at stripped
  -- A part that shows a text is left, and with the text.
  have shows {t : Str} (shown : partText part = some t)
      (noImage : ∀ url, imageUrl part ≠ some url) (noFile : isFilePart part = false) :
      ∃ left, sanitizeInterleavedReasoningContentPart out = some left ∧ KeptPart part left := by
    rw [shown] at stripped
    obtain ⟨left, kept, said⟩ := Option.bind_eq_some_iff.mp stripped
    refine ⟨left, kept, said.trans shown.symm, fun url named => absurd named (noImage url), ?_⟩
    intro file
    rw [noFile] at file
    cases file
  cases part with
  | str t => exact shows rfl (fun _ named => by cases named) rfl
  | dict part =>
    rw [validateUserPart] at valid
    split at valid
    · cases valid
    · rename_i t type
      split_ifs at valid with isText body image url audio file given
      · obtain ⟨u, body⟩ := Option.isSome_iff_exists.mp body
        refine shows ((partText_text type isText).trans body) (fun url named => ?_) ?_
        · rw [imageUrl_type named, Option.some.injEq] at type
          rw [← type] at isText
          exact absurd isText (by decide)
        · rw [Bool.eq_false_iff]
          intro named
          rw [isFilePart_type named, Option.some.injEq] at type
          rw [← type] at isText
          exact absurd isText (by decide)
      · cases valid
      · subst image
        obtain ⟨image, object, url⟩ := (Option.any_eq_true _ _).mp url
        obtain ⟨url, named⟩ := Option.isSome_iff_exists.mp url
        have source := asObj_eq_some object
        have urlStr : image.get "url" = .str url := by
          cases value : image.get "url" with
          | str t =>
            rw [value] at named
            cases named
            rfl
          | _ =>
            rw [value] at named
            cases named
        obtain ⟨d, converted, stays, isImage, hasUrl⟩ := sanitize_inputImage urlStr
        have normalized : normalizePart isZero (text "user") (.dict part) = .ok (.dict d) := by
          rw [normalizePart, normalizeContentPart, contentPartType_of type (by decide), source,
            converted]
          rfl
        rw [normalized] at made
        cases made
        refine ⟨.dict d, stays, same, fun url' found => ⟨d, rfl, isImage, ?_⟩, fun named => ?_⟩
        · rw [imageUrl, if_pos type, object] at found
          rw [hasUrl]
          simp only [Option.bind_some, urlStr, asStr, Option.some.injEq] at found
          rw [found]
        · rw [isFilePart_type named] at type
          exact absurd (Option.some.inj type) (by decide)
      · cases valid
      · cases valid
      · subst file
        obtain ⟨members, converted⟩ := filePartToInputFile_members (Obj.get part "file")
        obtain ⟨d, stays, isFile⟩ := @sanitize_inputFile F members
        have normalized : normalizePart isZero (text "user") (.dict part) = .ok (inputFile members) := by
          rw [normalizePart, normalizeContentPart, contentPartType_of type (by decide), converted]
          rfl
        rw [normalized] at made
        cases made
        refine ⟨.dict d, stays, ?_, fun url named => ?_, fun _ => ⟨d, rfl, isFile⟩⟩
        · rw [stays] at stripped
          exact stripped
        · rw [imageUrl_type named] at type
          exact absurd (Option.some.inj type) (by decide)
      · cases valid
  | _ => cases valid

theorem userParts_kept {parts outs : List (JsonValue F)}
    (valid : ∀ part ∈ parts, validateUserPart part = .ok ())
    (made : normalizeAllParts isZero (text "user") parts = .ok outs) :
    List.Forall₂ KeptPart parts (outs.filterMap sanitizeInterleavedReasoningContentPart) := by
  induction parts generalizing outs with
  | nil =>
    cases made
    exact .nil
  | cons part rest ih =>
    obtain ⟨out, here, made⟩ := bind_ok made
    obtain ⟨others, later, made⟩ := bind_ok made
    cases made
    obtain ⟨left, stays, kept⟩ := userPart_kept (valid part List.mem_cons_self) here
    rw [List.filterMap_cons_some stays]
    exact .cons kept (ih (fun part mem => valid part (List.mem_cons_of_mem _ mem)) later)

theorem validateUserParts_ok {parts : List (JsonValue F)} (valid : validateUserParts parts = .ok ()) :
    ∀ part ∈ parts, validateUserPart part = .ok () := by
  induction parts with
  | nil => exact fun part mem => absurd mem List.not_mem_nil
  | cons part rest ih =>
    obtain ⟨here, later⟩ := unit_ok valid
    intro part' mem
    rcases List.mem_cons.mp mem with rfl | mem
    · exact here
    · exact ih later part' mem

/-- The content of an accepted user message through coercion and validator. -/
theorem userContent_kept {content out : JsonValue F} (valid : validateUserContent content = .ok ())
    (made : normalizeContentParts isZero (text "user") (dropOversizedImages content) = .ok out) :
    KeepsUserContent content ((sanitizeInterleavedReasoningContent out).getD .null) := by
  cases content with
  | null =>
    cases made
    exact .missing
  | str t =>
    cases made
    exact .text t
  | list parts =>
    obtain ⟨outs, all, rfl⟩ := map_ok made
    have valid := validateUserParts_ok valid
    exact .parts (userParts_kept (fun part mem => valid part (List.mem_of_mem_filter mem)) all)
  | dict d =>
    have valid := validateUserParts_ok valid (.dict d) List.mem_cons_self
    rw [dropOversizedImages] at made
    · split_ifs at made with oversized
      · cases made
        exact .removed oversized
      · have small : oversizedImage (.dict d) = false := Bool.eq_false_iff.mpr oversized
        obtain ⟨left, stays, kept⟩ := userPart_kept valid made
        obtain ⟨-, d', rfl⟩ := normalizeContentPart_text made
        rw [sanitizeInterleavedReasoningContent, stays]
        exact .part small kept
    · exact fun null => by cases null
    · exact fun t str => by cases str
    · exact fun parts list => by cases list
  | _ => cases valid

end User
/-! ## One message -/

section Message

variable {isZero : F → Bool} {py : Python F}

theorem sanitize_append {xs ys outs outs' : List (JsonValue F)}
    (left : sanitizeInputItems py xs = .ok outs) (right : sanitizeInputItems py ys = .ok outs') :
    sanitizeInputItems py (xs ++ ys) = .ok (outs ++ outs') := by
  induction xs generalizing outs with
  | nil =>
    cases left
    exact right
  | cons x xs ih =>
    obtain ⟨out, here, left⟩ := bind_ok left
    obtain ⟨rest, later, left⟩ := bind_ok left
    cases left
    rw [List.cons_append, sanitizeInputItems, here, ih later, List.append_assoc]
    rfl

theorem sanitize_singleton {item out : JsonValue F}
    (left : sanitizeInputItem py item = .ok (some out)) : sanitizeInputItems py [item] = .ok [out] := by
  rw [sanitizeInputItems, left]
  rfl

/-- What is known of the items of a message: the validator leaves what the message asks for, none is a
Lite bundle, and only a preserved system or developer message is one that is hoisted. -/
structure Coerced (py : Python F) (preserved : Bool) (message : Obj F) (part : Option Str)
    (items : List (JsonValue F)) : Prop where
  kept : ∃ outs, sanitizeInputItems py items = .ok outs ∧ KeepsMessage preserved message outs
  part : part.toList = if oneOf instructionRoles (message.get "role") && !preserved then
    (contentToText (message.get "content")).toList.filter (· ≠ []) else []
  plain : ∀ item ∈ items, isLiteItem item = false ∧
    isInstructionItem item = (preserved && oneOf instructionRoles (message.get "role"))
  present : preserved = true → oneOf instructionRoles (message.get "role") = true → items ≠ []

theorem decomposeToolCall_ok {toolCall item : JsonValue F} (made : decomposeToolCall toolCall = .ok item) :
    IsCallOf toolCall item := by
  rw [decomposeToolCall] at made
  split at made
  · cases made
  · rename_i call object
    split at made
    · cases made
    · cases made
    · rename_i callId function id_ function_
      split at made
      · cases made
      · cases made
      · rename_i name arguments name_ arguments_
        cases made
        have str : Obj.get function "arguments" = .str arguments := by
          cases value : Obj.get function "arguments" with
          | str t =>
            rw [value] at arguments_
            cases arguments_
            rfl
          | _ =>
            rw [value] at arguments_
            cases arguments_
        exact ⟨call, function, callId, name, arguments, asObj_eq_some object, (shownStr_eq id_).1,
          asObj_eq_some function_, (shownStr_eq name_).1, str, rfl⟩

theorem decomposeToolCalls_ok {toolCalls items : List (JsonValue F)}
    (made : decomposeToolCalls toolCalls = .ok items) :
    List.Forall₂ IsCallOf toolCalls items ∧ sanitizeInputItems py items = .ok items ∧
      ∀ item ∈ items, isLiteItem item = false ∧ isInstructionItem item = false := by
  induction toolCalls generalizing items with
  | nil =>
    cases made
    exact ⟨.nil, rfl, fun item mem => absurd mem List.not_mem_nil⟩
  | cons toolCall rest ih =>
    obtain ⟨item, here, made⟩ := bind_ok made
    obtain ⟨others, later, made⟩ := bind_ok made
    cases made
    obtain ⟨calls, stay, plain⟩ := ih later
    have call := decomposeToolCall_ok here
    obtain ⟨-, -, callId, name, arguments, -, -, -, -, -, rfl⟩ := call
    refine ⟨.cons (decomposeToolCall_ok here) calls, ?_, ?_⟩
    · exact sanitize_append (sanitize_singleton (sanitize_call callId name arguments)) stay
    · intro item mem
      rcases List.mem_cons.mp mem with rfl | mem
      · exact ⟨rfl, rfl⟩
      · exact plain item mem

theorem chatItem_plain (role : JsonValue F) (content : Option (JsonValue F)) :
    isLiteItem (.dict (chatItem role content)) = false ∧
      isInstructionItem (.dict (chatItem role content)) = oneOf instructionRoles role := by
  have named : Obj.get (chatItem role content) "role" = role := rfl
  rw [isLiteItem, isInstructionItem, asObj, Option.any_some, Option.any_some, isInstructionMessage,
    isPreservedNonMessageDirective, get_chatItem_type, named]
  refine ⟨rfl, ?_⟩
  simp [isNone]

theorem oneOf_among (words : List String) (t : Str) :
    oneOf words (.str t : JsonValue F) = among words t := rfl

theorem role_eq {message : Obj F} {role : Str} (read : asStr (message.get "role") = some role) :
    message.get "role" = .str role := by
  cases value : message.get "role" with
  | str t =>
    rw [value] at read
    cases read
    rfl
  | _ =>
    rw [value] at read
    cases read

variable {message : Obj F} {role : Str}

/-- A system or developer message whose role is preserved. -/
theorem coerced_instruction {item : Obj F} (named : message.get "role" = .str role)
    (instruction : among instructionRoles role = true)
    (made : normalizeMessageContent isZero (sentMessage message) = .ok item) :
    Coerced py true message none [.dict item] := by
  have apart : role ≠ text "user" ∧ role ≠ text "assistant" ∧ role ≠ text "tool" := by
    refine ⟨?_, ?_, ?_⟩ <;>
    · rintro rfl
      exact absurd instruction (by decide)
  have sent : Obj.get (sentMessage message) "role" = .str role := by
    rw [get_sent message (by decide), named]
  have content : Obj.get (sentMessage message) "content" = message.get "content" := by
    rw [content_sent, named, oneOf_word, decide_eq_false apart.1, if_neg (by simp)]
  obtain ⟨given, rfl, texts, -⟩ := normalizeMessageContent_ok made
  have silent : isAssistant (.str role : JsonValue F) = false := decide_eq_false apart.2.1
  rw [sent, content, silent, if_neg (by simp), List.append_nil] at texts
  rw [sent]
  obtain ⟨out, stays, left⟩ := @sanitize_chatItem F py role given apart.2.2
  constructor
  case kept =>
    refine ⟨[.dict out], sanitize_singleton stays, ?_⟩
    rw [KeepsMessage, named, oneOf_among, instruction, if_pos rfl, if_pos rfl]
    exact ⟨.dict out, rfl, ⟨out, rfl, left.role, left.type⟩, left.texts.trans texts⟩
  case part =>
    rw [Bool.not_true, Bool.and_false]
    rfl
  case plain =>
    intro item mem
    rw [List.mem_singleton.mp mem, named, Bool.true_and]
    exact chatItem_plain _ _
  case present => exact fun _ _ => List.cons_ne_nil _ _

theorem coerced_user {item : Obj F} {preserved : Bool} (named : message.get "role" = .str (text "user"))
    (valid : validateUserContent (message.get "content") = .ok ())
    (made : normalizeMessageContent isZero (sentMessage message) = .ok item) :
    Coerced py preserved message none [.dict item] := by
  have sent : Obj.get (sentMessage message) "role" = .str (text "user") := by
    rw [get_sent message (by decide), named]
  have content : Obj.get (sentMessage message) "content"
      = dropOversizedImages (message.get "content") := by
    rw [content_sent, named]
    rfl
  obtain ⟨given, rfl, -, exactly⟩ := normalizeMessageContent_ok made
  rw [sent, content] at exactly
  have coerced := exactly (decide_eq_false (show text "user" ≠ text "assistant" by decide))
  rw [sent]
  obtain ⟨out, stays, left⟩ := @sanitize_chatItem F py (text "user") given (by decide)
  have kept := userContent_kept valid coerced
  have instruction : oneOf instructionRoles (.str (text "user") : JsonValue F) = false := by
    rw [oneOf_among]
    decide
  constructor
  case kept =>
    refine ⟨[.dict out], sanitize_singleton stays, ?_⟩
    rw [KeepsMessage, named, instruction, if_neg (by simp), oneOf_word, decide_eq_true rfl, if_pos rfl]
    refine ⟨out, rfl, left.role, left.type, ?_⟩
    rw [left.content (by decide)]
    cases given with
    | none => exact kept
    | some w => exact kept
  case part =>
    rw [named, instruction]
    rfl
  case plain =>
    intro item mem
    rw [List.mem_singleton.mp mem, named, instruction, Bool.and_false]
    obtain ⟨lite, hoisted⟩ := chatItem_plain (.str (text "user")) given
    exact ⟨lite, hoisted.trans instruction⟩
  case present =>
    intro _ named'
    rw [named, instruction] at named'
    cases named'

/-- Items of a message that is no system or developer message. -/
theorem coerced_other {items outs : List (JsonValue F)} {preserved : Bool}
    (named : message.get "role" = .str role) (other : among instructionRoles role = false)
    (stays : sanitizeInputItems py items = .ok outs) (kept : KeepsMessage preserved message outs)
    (plain : ∀ item ∈ items, isLiteItem item = false ∧ isInstructionItem item = false) :
    Coerced py preserved message none items := by
  have instruction : oneOf instructionRoles (message.get "role") = false := by
    rw [named, oneOf_among, other]
  constructor
  case kept => exact ⟨outs, stays, kept⟩
  case part =>
    rw [instruction]
    rfl
  case plain =>
    rw [instruction, Bool.and_false]
    exact plain
  case present =>
    intro _ named'
    rw [instruction] at named'
    cases named'

theorem keepsMessage_assistant {preserved : Bool} {outs : List (JsonValue F)}
    (named : message.get "role" = .str (text "assistant")) (kept : KeepsAssistant message outs) :
    KeepsMessage preserved message outs := by
  rw [KeepsMessage, named, if_neg, oneOf_word, if_neg, oneOf_word, if_pos]
  · exact kept
  · exact decide_eq_true rfl
  · rw [decide_eq_true_eq]
    decide
  · rw [oneOf_among]
    decide

theorem content_other (named : message.get "role" = .str role) (other : role ≠ text "user") :
    Obj.get (sentMessage message) "content" = message.get "content" := by
  rw [content_sent, named, oneOf_word, decide_eq_false other, if_neg (by simp)]

/-- An assistant message without tool calls. -/
theorem coerced_assistant {item : Obj F} {preserved : Bool}
    (named : message.get "role" = .str (text "assistant"))
    (none_ : (asList (message.get "tool_calls")).getD [] = [])
    (made : normalizeMessageContent isZero (sentMessage message) = .ok item) :
    Coerced py preserved message none [.dict item] := by
  have sent : Obj.get (sentMessage message) "role" = .str (text "assistant") := by
    rw [get_sent message (by decide), named]
  have content := content_other named (by decide)
  obtain ⟨given, rfl, texts, -⟩ := normalizeMessageContent_ok made
  have spoken : isAssistant (.str (text "assistant") : JsonValue F) = true := decide_eq_true rfl
  rw [sent, content, spoken, if_pos rfl, refusal_sent] at texts
  rw [sent]
  obtain ⟨out, stays, left⟩ := @sanitize_chatItem F py (text "assistant") given (by decide)
  obtain ⟨lite, hoisted⟩ := chatItem_plain (.str (text "assistant")) given
  refine coerced_other named (by decide) (sanitize_singleton stays) (keepsMessage_assistant named ?_) ?_
  · refine ⟨[.dict out], [], rfl, le_rfl, ?_, ?_, ?_⟩
    · intro item mem
      rw [List.mem_singleton.mp mem]
      exact ⟨out, rfl, left.role, left.type⟩
    · rw [List.flatMap_singleton]
      exact left.texts.trans texts
    · rw [none_]
      exact .nil
  · intro item mem
    rw [List.mem_singleton.mp mem, hoisted, oneOf_among]
    exact ⟨lite, by decide⟩

/-- An assistant message with tool calls. -/
theorem coerced_calls {items : List (JsonValue F)} {preserved : Bool}
    (named : message.get "role" = .str (text "assistant"))
    (made : decomposeAssistantToolCalls isZero (sentMessage message) = .ok items) :
    Coerced py preserved message none items := by
  have content := content_other named (by decide)
  obtain ⟨said, spoke, made⟩ := bind_ok made
  obtain ⟨calls, called, made⟩ := bind_ok made
  cases made
  rw [get_sent message (by decide)] at called
  obtain ⟨callsOf, callsStay, callsPlain⟩ := decomposeToolCalls_ok called
  -- What is said: the outputs of the item that stands before the calls.
  obtain ⟨outs, stays, short, roles, texts, plain⟩ : ∃ outs,
      sanitizeInputItems py said = .ok outs ∧ outs.length ≤ 1 ∧
      (∀ item ∈ outs, HasRole (.str (text "assistant")) item) ∧
      outs.flatMap itemTexts =
        contentTexts (message.get "content") ++ (getAssistantRefusal message).toList ∧
      ∀ item ∈ said, isLiteItem item = false ∧ isInstructionItem item = false := by
    rw [decomposeSaid, content, refusal_sent] at spoke
    split_ifs at spoke with silent
    · cases spoke
      obtain ⟨null, none_⟩ := Bool.and_eq_true_iff.mp silent
      rw [isNone_eq null, Option.isNone_iff_eq_none.mp none_]
      exact ⟨[], rfl, Nat.zero_le 1, fun item mem => absurd mem List.not_mem_nil, rfl,
        fun item mem => absurd mem List.not_mem_nil⟩
    · obtain ⟨normalized, coerced, rfl⟩ := map_ok spoke
      obtain ⟨-, listed⟩ := normalizeContentParts_texts coerced
      obtain ⟨out, stays, left⟩ := @sanitize_chatItem F py (text "assistant")
        (some (.list (toContentList normalized ++
          (getAssistantRefusal message).toList.map refusalContentPart))) (by decide)
      refine ⟨[.dict out], sanitize_singleton stays, le_rfl, ?_, ?_, ?_⟩
      · intro item mem
        rw [List.mem_singleton.mp mem]
        exact ⟨out, rfl, left.role, left.type⟩
      · rw [List.flatMap_singleton]
        refine left.texts.trans ?_
        rw [Option.getD_some, contentTexts, contentParts, List.filterMap_append, listed]
        cases getAssistantRefusal message <;> rfl
      · intro item mem
        rw [List.mem_singleton.mp mem]
        obtain ⟨lite, hoisted⟩ := chatItem_plain (.str (text "assistant")) (some (.list
          (toContentList normalized ++ (getAssistantRefusal message).toList.map refusalContentPart)))
        exact ⟨lite, hoisted.trans ((oneOf_among _ _).trans (by decide))⟩
  refine coerced_other named (by decide) (sanitize_append stays callsStay)
    (keepsMessage_assistant named ⟨outs, calls, rfl, short, roles, texts, callsOf⟩) ?_
  intro item mem
  exact (List.mem_append.mp mem).elim (plain item) (callsPlain item)

/-- A tool message. -/
theorem coerced_tool {item : JsonValue F} {preserved : Bool}
    (named : message.get "role" = .str (text "tool"))
    (made : convertToolMessage (sentMessage message) = .ok item) :
    Coerced py preserved message none [item] := by
  rw [convertToolMessage, callId_sent, content_other named (by decide)] at made
  have output {callId output : Str} (id_ : resolvedCallId message = some callId)
      (said : toolText (message.get "content") = some output) :
      Coerced py preserved message none [functionCallOutputInputItem callId output] := by
    refine coerced_other named (by decide) (sanitize_singleton (sanitize_output callId output)) ?_ ?_
    · rw [KeepsMessage, named, if_neg, oneOf_word, if_neg, oneOf_word, if_neg]
      · exact ⟨callId, output, id_, said, rfl⟩
      · rw [decide_eq_true_eq]
        decide
      · rw [decide_eq_true_eq]
        decide
      · rw [oneOf_among]
        decide
    · intro item mem
      rw [List.mem_singleton.mp mem]
      exact ⟨rfl, rfl⟩
  split at made
  · cases made
  · rename_i callId id_
    split at made
    · rename_i t content
      cases made
      exact output id_ (by rw [content]; rfl)
    · rename_i parts content
      split_ifs at made
      cases made
      exact output id_ (by rw [content]; rfl)
    · cases made
    · cases made

theorem validateMessage_user (named : message.get "role" = .str (text "user"))
    (valid : validateMessage message = .ok ()) : validateUserContent (message.get "content") = .ok () := by
  rw [validateMessage, named] at valid
  exact valid

/-- A system or developer message whose text is merged into the instructions. -/
theorem coerced_merged (named : message.get "role" = .str role)
    (instruction : among instructionRoles role = true) :
    Coerced py false message ((contentToText (message.get "content")).filter (· ≠ [])) [] := by
  have hoisted : oneOf instructionRoles (message.get "role") = true := by
    rw [named, oneOf_among, instruction]
  constructor
  case kept =>
    refine ⟨[], rfl, ?_⟩
    rw [KeepsMessage, if_pos hoisted]
    rfl
  case part =>
    rw [hoisted]
    cases contentToText (message.get "content") with
    | none => rfl
    | some t => by_cases blank : t = [] <;> simp [blank]
  case plain => exact fun item mem => absurd mem List.not_mem_nil
  case present =>
    intro preserved
    cases preserved

/-- The step of `coerce_messages` for an accepted message. -/
theorem coerceMessage_coerced {preserved : Bool} {part : Option Str} {items : List (JsonValue F)}
    (valid : validateMessage message = .ok ())
    (made : coerceMessage isZero preserved (sentMessage message) = .ok (part, items)) :
    Coerced py preserved message part items := by
  rw [coerceMessage, @get_sent _ message "role" (by decide),
    @get_sent _ message "tool_calls" (by decide)] at made
  split at made
  · cases made
  · rename_i role read
    have named := role_eq read
    split_ifs at made with unsupported instruction preserving tool calls
    · obtain ⟨-, -, made⟩ := bind_ok made
      obtain ⟨item, item_, made⟩ := bind_ok made
      cases made
      rw [preserving]
      exact coerced_instruction named instruction item_
    · obtain ⟨-, -, made⟩ := bind_ok made
      cases made
      rw [Bool.eq_false_iff.mpr preserving, content_other named]
      · exact coerced_merged named instruction
      · rintro rfl
        exact absurd instruction (by decide)
    · obtain ⟨item, item_, made⟩ := map_ok made
      cases made
      rw [tool] at named
      exact coerced_tool named item_
    · obtain ⟨made_, items_, made⟩ := map_ok made
      cases made
      rw [calls.1] at named
      exact coerced_calls named items_
    · obtain ⟨item, item_, made⟩ := map_ok made
      cases made
      by_cases assistant : role = text "assistant"
      · rw [assistant] at named
        exact coerced_assistant named (by_contra fun some_ => calls ⟨assistant, some_⟩) item_
      · -- The only role that is left is that of a user.
        have user : role = text "user" := by
          rw [Bool.not_eq_true', Bool.not_eq_false, among] at unsupported
          obtain ⟨word, mem, same⟩ := List.any_eq_true.mp unsupported
          have same := of_decide_eq_true same
          simp only [supportedMessageRoles, List.mem_cons, List.not_mem_nil, or_false] at mem
          rcases mem with rfl | rfl | rfl | rfl | rfl
          · exact absurd (by rw [same]; decide) instruction
          · exact absurd (by rw [same]; decide) instruction
          · exact same
          · exact absurd same assistant
          · exact absurd same tool
        rw [user] at named
        exact coerced_user named (validateMessage_user named valid) item_

end Message

/-! ## All messages -/

section Messages

variable {isZero : F → Bool} {py : Python F} {preserved : Bool}

def isInstruction (message : Obj F) : Bool := oneOf instructionRoles (message.get "role")

theorem instructionTexts_cons (message : Obj F) (rest : List (Obj F)) :
    instructionTexts (message :: rest) =
      (if isInstruction message then (contentToText (message.get "content")).toList else []) ++
        instructionTexts rest := by
  rw [instructionTexts, instructionTexts, List.filter_cons, isInstruction]
  split_ifs
  · rw [List.filterMap_cons]
    cases contentToText (message.get "content") <;> rfl
  · rfl

theorem coerceAll_kept {messages : List (Obj F)} {parts : List Str} {items : List (JsonValue F)}
    (valid : ∀ message ∈ messages, validateMessage message = .ok ())
    (made : coerceAll isZero preserved (messages.map fun message => .dict (sentMessage message))
      = .ok (parts, items)) :
    (∃ groups, List.Forall₂ (KeepsMessage preserved) messages groups ∧
      sanitizeInputItems py items = .ok groups.flatten) ∧
    parts = (if preserved then [] else (instructionTexts messages).filter (· ≠ [])) ∧
    items.any isLiteItem = false ∧
    items.any isInstructionItem = (preserved && messages.any isInstruction) := by
  induction messages generalizing parts items with
  | nil =>
    cases made
    refine ⟨⟨[], .nil, rfl⟩, ?_, rfl, ?_⟩
    · cases preserved <;> rfl
    · cases preserved <;> rfl
  | cons message rest ih =>
    obtain ⟨⟨part, own⟩, here, made⟩ := bind_ok made
    obtain ⟨⟨others, later⟩, there, made⟩ := bind_ok made
    cases made
    have step := @coerceMessage_coerced F isZero py message preserved part own
      (valid message List.mem_cons_self) here
    obtain ⟨⟨groups, kept, left⟩, texts, lite, hoisted⟩ :=
      ih (fun message mem => valid message (List.mem_cons_of_mem _ mem)) there
    obtain ⟨outs, ownLeft, ownKept⟩ := step.kept
    refine ⟨⟨outs :: groups, .cons ownKept kept, sanitize_append ownLeft left⟩, ?_, ?_, ?_⟩
    · rw [step.part, texts, instructionTexts_cons, ← isInstruction]
      cases preserved <;> cases isInstruction message <;> simp
    · rw [List.any_append, lite, Bool.or_false, List.any_eq_false]
      intro item mem
      rw [(step.plain item mem).1]
      simp
    · rw [List.any_append, hoisted, List.any_cons, Bool.and_or_distrib_left]
      congr 1
      cases own with
      | nil =>
        -- Only a preserved instruction must leave an item.
        cases preserved with
        | false => rfl
        | true =>
          cases named : isInstruction message with
          | false => rfl
          | true => exact absurd rfl (step.present rfl named)
      | cons item items =>
        have same : ∀ item' ∈ item :: items, isInstructionItem item' = (preserved && isInstruction message) :=
          fun item' mem => (step.plain item' mem).2
        rw [Bool.eq_iff_iff, List.any_eq_true]
        constructor
        · rintro ⟨item', mem, instruction⟩
          rwa [same item' mem] at instruction
        · intro instruction
          exact ⟨item, List.mem_cons_self, by rw [same item List.mem_cons_self, instruction]⟩

/-- Where they are not preserved, no item has the role of a system or developer message. -/
theorem keepsMessage_hidden {message : Obj F} {items : List (JsonValue F)}
    (kept : KeepsMessage false message items) {d : Obj F} (mem : .dict d ∈ items) :
    oneOf instructionRoles (d.get "role") = false := by
  have other {word : String} (role : d.get "role" = .str (text word))
      (unknown : among instructionRoles (text word) = false) :
      oneOf instructionRoles (d.get "role") = false := by
    rw [role, oneOf_among, unknown]
  rw [KeepsMessage] at kept
  split_ifs at kept with instruction user assistant
  · exact user.elim
  · subst kept
    exact absurd mem List.not_mem_nil
  · obtain ⟨d', rfl, role, -, -⟩ := kept
    cases List.mem_singleton.mp mem
    exact other role (by decide)
  · obtain ⟨said, calls, rfl, -, roles, -, callsOf⟩ := kept
    rcases List.mem_append.mp mem with mem | mem
    · obtain ⟨d', same, role, -⟩ := roles _ mem
      cases same
      exact other role (by decide)
    · obtain ⟨toolCall, -, call⟩ := Pointwise.exists_left callsOf mem
      obtain ⟨-, -, callId, name, arguments, -, -, -, -, -, same⟩ := call
      cases same
      rfl
  · obtain ⟨callId, output, -, -, rfl⟩ := kept
    cases List.mem_singleton.mp mem
    rfl

theorem keepsMessage_preserved {message : Obj F} {items : List (JsonValue F)}
    (instruction : isInstruction message = true) (kept : KeepsMessage true message items) :
    items.any isInstructionItem = true := by
  rw [isInstruction] at instruction
  rw [KeepsMessage, if_pos instruction, if_pos rfl] at kept
  obtain ⟨item, rfl, ⟨d, rfl, role, type⟩, -⟩ := kept
  rw [List.any_cons, List.any_nil, Bool.or_false, isInstructionItem, asObj, Option.any_some,
    isInstructionMessage, isPreservedNonMessageDirective, role, type, instruction]
  rfl

/-- The merged instructions are the texts that are not empty, line by line. -/
theorem mergeInstructions_lines (existing : Str) (texts : List Str) :
    mergeInstructions existing (texts.filter (· ≠ [])) =
      newline.intercalate ((existing :: texts).filter (· ≠ [])) := by
  rw [mergeInstructions, mergeResponsesInstructions, List.filter_filter, List.filter_cons]
  simp only [Bool.and_self]
  have shown : ∀ t ∈ texts.filter (· ≠ []), t ≠ [] :=
    fun t mem => of_decide_eq_true (List.mem_filter.mp mem).2
  cases lines : texts.filter (· ≠ []) with
  | nil =>
    rw [if_pos (by rfl)]
    by_cases blank : existing = [] <;> simp [blank, List.intercalate]
  | cons first rest =>
    have extra : newline.intercalate (first :: rest) ≠ [] := by
      have given : first ≠ [] := shown first (by rw [lines]; exact List.mem_cons_self)
      cases rest with
      | nil => simpa [List.intercalate] using given
      | cons second rest =>
        rw [List.intercalate_cons_cons]
        simp [given]
    rw [if_neg extra]
    by_cases blank : existing = []
    · rw [if_pos blank, blank]
      rfl
    · rw [if_neg blank, if_pos (decide_eq_true blank), List.intercalate_cons_cons]

end Messages
/-! ## The request -/

section Request

variable {py : ChatPydantic F}

theorem get_popKeys {keys : List String} {k : String} (kept : among keys (text k) = false)
    (d : Obj F) : Obj.get (popKeys d keys) k = Obj.get d k := get_filter_keys kept d

theorem get_setMissing (d : Obj F) {k k' : String} (other : text k ≠ text k')
    (v : Option (JsonValue F)) : Obj.get (setMissing d k' v) k = Obj.get d k := by
  rw [setMissing]
  split_ifs
  · rfl
  · cases v with
    | none => rfl
    | some v => exact get_set_ne d other v

theorem get_withReasoning (lower : Str → Str) (d : Obj F) :
    Obj.get (withReasoning lower d) "instructions" = Obj.get d "instructions" := by
  have own : Obj.get (setMissing (popKeys d ["reasoning_effort"]) "reasoning"
      ((Dict.lookup (text "reasoning_effort") d).map fun level =>
        .dict [(text "effort", level)])) "instructions" = Obj.get d "instructions" := by
    rw [get_setMissing _ (by decide), get_popKeys (by decide)]
  rw [withReasoning, normalizeReasoningAliases]
  dsimp only
  split_ifs
  · rw [get_popKeys (by decide), own]
  · rw [get_set_ne _ (by decide), get_popKeys (by decide), own]

theorem readSettings_names {data settings : Obj F}
    {readers : List (String × (JsonValue F → Option (JsonValue F)))}
    (read : readSettings data readers = .ok settings) :
    ∀ p ∈ settings, among (readers.map Prod.fst) p.1 = true := by
  induction readers generalizing settings with
  | nil =>
    cases read
    exact fun p mem => absurd mem List.not_mem_nil
  | cons reader rest ih =>
    obtain ⟨name, reading⟩ := reader
    obtain ⟨value, -, read⟩ := bind_ok read
    obtain ⟨others, later, read⟩ := bind_ok read
    cases read
    intro p mem
    rw [List.map_cons, among, List.any_cons, Bool.or_eq_true]
    rcases List.mem_append.mp mem with mem | mem
    · obtain ⟨v, -, rfl⟩ := List.mem_map.mp mem
      exact .inl (decide_eq_true rfl)
    · exact .inr (ih later p mem)

/-- What the mapping uses of an accepted chat request. -/
structure Accepted (py : ChatPydantic F) (chat : ChatCompletionsRequest F) : Prop where
  messages : ∀ messages, chat.messages = some messages → ∀ message ∈ messages,
    validateMessage message = .ok ()
  settings : ∀ p ∈ chat.settings, p.1 ≠ text "instructions"
  extra : ∀ p ∈ chat.extra, p.1 ≠ text "instructions"

theorem validateMessageList_ok {messages : List (Obj F)} (valid : validateMessageList messages = .ok ()) :
    ∀ message ∈ messages, validateMessage message = .ok () := by
  induction messages with
  | nil => exact fun message mem => absurd mem List.not_mem_nil
  | cons message rest ih =>
    obtain ⟨here, later⟩ := unit_ok valid
    intro message' mem
    rcases List.mem_cons.mp mem with rfl | mem
    · exact here
    · exact ih later message' mem

theorem validateChat_accepted {body : JsonValue F} {chat : ChatCompletionsRequest F}
    (accepted : validateChat py body = .ok chat) : Accepted py chat := by
  cases body with
  | dict data =>
    obtain ⟨model, -, h⟩ := bind_ok accepted
    obtain ⟨messages, -, h⟩ := bind_ok h
    obtain ⟨instructions, -, h⟩ := bind_ok h
    obtain ⟨tools, -, h⟩ := bind_ok h
    obtain ⟨toolChoice, -, h⟩ := bind_ok h
    obtain ⟨settings, settingsRead, h⟩ := bind_ok h
    obtain ⟨streamOptions, -, h⟩ := bind_ok h
    obtain ⟨_, valid, h⟩ := bind_ok h
    obtain ⟨tools', -, h⟩ := bind_ok h
    cases h
    constructor
    case messages =>
      intro given same
      cases same
      rw [validateMessages, Option.getD_some] at valid
      split_ifs at valid with none_ sent
      · rw [none_]
        exact fun message mem => absurd mem List.not_mem_nil
      · cases valid
      · exact validateMessageList_ok valid
    case settings =>
      intro p mem same
      have named := readSettings_names settingsRead p mem
      have names : (settingReaders py).map Prod.fst =
          ["parallel_tool_calls", "stream", "temperature", "top_p", "stop", "n", "presence_penalty",
            "frequency_penalty", "logprobs", "top_logprobs", "seed", "service_tier", "max_tokens",
            "max_completion_tokens", "store"] := rfl
      have unnamed : among ((settingReaders py).map Prod.fst) (text "instructions") = false := by
        rw [names]
        decide
      rw [same, unnamed] at named
      cases named
    case extra =>
      intro p mem same
      have unnamed := (List.mem_filter.mp mem).2
      have field : among (chatFieldNames py) (text "instructions") = true := rfl
      rw [same, field] at unnamed
      cases unnamed
  | _ => cases accepted

/-- The instructions of the request are in the data that the messages are added to. -/
theorem instructions_dumped {chat : ChatCompletionsRequest F} (accepted : Accepted py chat) :
    (asStr ((dumpedData chat).get "instructions")).getD [] = chat.instructions.getD [] := by
  have none_ {d : Obj F} (absent : ∀ p ∈ d, p.1 ≠ text "instructions") :
      Dict.lookup (text "instructions") d = none := by
    rw [Dict.lookup_eq_none]
    intro mem
    obtain ⟨p, there, same⟩ := List.mem_map.mp mem
    exact absent p there same
  have rest : Dict.lookup (text "instructions")
      (popKeys chat.settings droppedSettings ++ excludeNone chat.extra) = none := by
    refine none_ fun p mem => ?_
    rcases List.mem_append.mp mem with mem | mem
    · exact accepted.settings p (List.mem_of_mem_filter mem)
    · exact accepted.extra p (List.mem_of_mem_filter mem)
  have fields : Dict.lookup (text "instructions") (dumpFields [("model", some (.str chat.model)),
      ("input", chat.input), ("instructions", chat.instructions.map .str)]) =
      chat.instructions.map .str := by
    have model : text "model" ≠ text "instructions" := by decide
    have input : text "input" ≠ text "instructions" := by decide
    cases chat.input <;> cases chat.instructions <;> simp [dumpFields, Dict.lookup, model, input]
  rw [Obj.get, dumpedData, List.append_assoc, lookup_append, fields, rest, Option.or_none]
  cases chat.instructions <;> rfl

theorem get_formatted {data formatted : Obj F} {responseFormat : Option (JsonValue F)}
    (made : withResponseFormat py data responseFormat = .ok formatted) :
    Obj.get formatted "instructions" = Obj.get data "instructions" := by
  cases responseFormat with
  | none =>
    cases made
    rfl
  | some responseFormat =>
    rw [withResponseFormat, applyResponseFormat] at made
    obtain ⟨controls, -, made⟩ := bind_ok made
    split_ifs at made
    · cases made
    · obtain ⟨format, -, made⟩ := bind_ok made
      cases made
      exact get_set_ne data (by decide) _

theorem instructions_data {chat : ChatCompletionsRequest F} {data : Obj F} (accepted : Accepted py chat)
    (made : responsesData py chat = .ok data) :
    (asStr (data.get "instructions")).getD [] = chat.instructions.getD [] := by
  obtain ⟨formatted, format, made⟩ := bind_ok made
  cases made
  have kept := get_formatted format
  rw [get_withReasoning] at kept
  rw [← instructions_dumped accepted, ← kept]
  cases chat.streamOptions.bind ChatStreamOptions.includeObfuscation with
  | none => rfl
  | some obfuscation =>
    rw [Option.map_some, Option.getD_some, get_set_ne _ (by decide)]

theorem lookup_setToolChoice {k : String} (other : text k ≠ text "tool_choice") (d : Obj F)
    (toolChoice : Option (JsonValue F)) :
    Dict.lookup (text k) (setToolChoice d toolChoice) = Dict.lookup (text k) d := by
  cases toolChoice with
  | none => rfl
  | some choice => rw [setToolChoice, Option.map_some, Option.getD_some, Obj.set, Dict.lookup_assign,
      if_neg other]

/-- The data of the responses request with the coerced messages. -/
theorem conversationData_ok {chat : ChatCompletionsRequest F} {messages : List (Obj F)}
    {data full : Obj F} (made : conversationData py chat messages data = .ok full) :
    ∃ parts items, coerceAll py.isZero (preservesInstructionRoles chat)
      (messages.map fun message => .dict (sentMessage message)) = .ok (parts, items) ∧
      Dict.lookup (text "input") full = some (.list items) ∧
      Dict.lookup (text "instructions") full = some (.str
        (mergeInstructions ((asStr (data.get "instructions")).getD []) parts)) := by
  obtain ⟨⟨instructions, inputItems⟩, coerced, made⟩ := bind_ok made
  obtain ⟨⟨parts, items⟩, all, merged⟩ := bind_ok coerced
  cases merged
  cases made
  refine ⟨parts, inputItems, all, ?_, ?_⟩
  · rw [lookup_setToolChoice (by decide), Obj.set, Dict.lookup_assign, if_neg (by decide), Obj.set,
      Dict.lookup_assign, if_pos rfl]
  · rw [lookup_setToolChoice (by decide), Obj.set, Dict.lookup_assign, if_neg (by decide), Obj.set,
      Dict.lookup_assign, if_neg (by decide), Obj.set, Dict.lookup_assign, if_pos rfl]

theorem validateFields_instructions {data : Obj F} {r : ResponsesRequest F}
    (accepted : validateFields py.toPydantic data = .ok r) {t : Str}
    (given : Dict.lookup (text "instructions") data = some (.str t)) : r.instructions = t := by
  obtain ⟨model, -, h⟩ := bind_ok accepted
  obtain ⟨instructions, read, h⟩ := bind_ok h
  obtain ⟨v, found, read⟩ := requiredField_ok read
  rw [given] at found
  cases found
  cases read
  obtain ⟨input, -, h⟩ := bind_ok h
  obtain ⟨tools, -, h⟩ := bind_ok h
  obtain ⟨toolChoice, -, h⟩ := bind_ok h
  obtain ⟨parallelToolCalls, -, h⟩ := bind_ok h
  obtain ⟨reasoning, -, h⟩ := bind_ok h
  obtain ⟨store, -, h⟩ := bind_ok h
  obtain ⟨stream, -, h⟩ := bind_ok h
  obtain ⟨include_, -, h⟩ := bind_ok h
  obtain ⟨serviceTier, -, h⟩ := bind_ok h
  obtain ⟨conversation, -, h⟩ := bind_ok h
  obtain ⟨previousResponseId, -, h⟩ := bind_ok h
  obtain ⟨truncation, -, h⟩ := bind_ok h
  obtain ⟨promptCacheKey, -, h⟩ := bind_ok h
  obtain ⟨controls, -, h⟩ := bind_ok h
  dsimp only at h
  split_ifs at h
  · cases h
  · cases h
    rfl

/-- A responses request whose input has no instruction message and no Lite bundle: input and
instructions are taken as they are. -/
theorem validate_plain {data : Obj F} {items : List (JsonValue F)} {t : Str} {r : ResponsesRequest F}
    (input : Dict.lookup (text "input") data = some (.list items))
    (instructions : Dict.lookup (text "instructions") data = some (.str t))
    (plain : items.any isInstructionItem = false)
    (accepted : validate py.toPydantic (.dict data) = .ok r) :
    sanitizeInputItems py.toPython items = .ok r.input ∧ r.instructions = t := by
  rw [validate, normalize_same input instructions (.inr plain)] at accepted
  obtain ⟨-, v, found, read⟩ := validateFields_ok accepted
  rw [input] at found
  cases found
  exact ⟨read, validateFields_instructions accepted instructions⟩

/-- No instruction message is left in the input of the request. -/
theorem validate_hoisted {data : Obj F} {items : List (JsonValue F)} {r : ResponsesRequest F}
    (input : Dict.lookup (text "input") data = some (.list items))
    (lite : items.any isLiteItem = false)
    (accepted : validate py.toPydantic (.dict data) = .ok r) :
    r.input.any isInstructionItem = false := by
  obtain ⟨-, v, found, read⟩ := validateFields_ok accepted
  rcases normalize_input data v found with ⟨items', given, rfl, bundle⟩ | ⟨-, hoisted⟩
  · rw [input] at given
    cases given
    rw [isResponsesLiteInput] at bundle
    exact absurd (bundle.symm.trans lite) (by simp)
  · rw [readInput.eq_def] at read
    split at read
    · exact (sanitizeInputItems_settles read).2.1
    · rename_i items'
      rw [(sanitizeInputItems_settles read).2.1]
      exact hoisted items' rfl
    · cases read

theorem mapError_ok {ε ε' α : Type} {x : Except ε α} {f : ε → ε'} {a : α}
    (h : x.mapError f = .ok a) : x = .ok a := by
  cases x with
  | error e => cases h
  | ok b =>
    cases h
    rfl

/-- The mapping keeps the conversation exactly if `response_format` is not `json_object` or no message
is from the system or a developer. -/
theorem keeps_conversation_iff (py : ChatPydantic F) {body : JsonValue F}
    {chat : ChatCompletionsRequest F} {messages : List (Obj F)} {r : ResponsesRequest F}
    (accepted : validateChat py body = .ok chat) (given : chat.messages = some messages)
    (notEmpty : messages ≠ []) (mapped : toResponsesRequest py chat = .ok r) :
    KeepsConversation chat messages r ↔
      (preservesInstructionRoles chat = true →
        ∀ message ∈ messages, oneOf instructionRoles (message.get "role") = false) := by
  have known := validateChat_accepted accepted
  have valid := known.messages messages given
  obtain ⟨data, data_, mapped⟩ := bind_ok mapped
  obtain ⟨full, full_, mapped⟩ := bind_ok mapped
  have validated := mapError_ok mapped
  rw [mappedData, given] at full_
  dsimp only at full_
  rw [if_neg fun empty => notEmpty empty.1] at full_
  obtain ⟨parts, items, all, input, instructions⟩ := conversationData_ok full_
  rw [instructions_data known (mapError_ok data_)] at instructions
  obtain ⟨⟨groups, kept, left⟩, texts, lite, hoisted⟩ :=
    @coerceAll_kept F py.isZero py.toPython _ messages parts items valid all
  constructor
  · rintro keeps preserved
    by_contra some_
    push Not at some_
    obtain ⟨message, mem, instruction⟩ := some_
    obtain ⟨groups', kept', same⟩ := keeps.input
    rw [preserved] at kept'
    obtain ⟨group, there, keptItems⟩ := Pointwise.exists_right kept' mem
    have instruction : isInstruction message = true := by simpa [isInstruction] using instruction
    have stays := keepsMessage_preserved instruction keptItems
    have gone := validate_hoisted input lite validated
    rw [same, List.any_flatten, List.any_eq_false] at gone
    exact gone group there stays
  · intro silent
    have plain : items.any isInstructionItem = false := by
      rw [hoisted]
      cases preserved : preservesInstructionRoles chat with
      | false => rfl
      | true =>
        rw [Bool.true_and, List.any_eq_false]
        intro message mem
        rw [isInstruction, silent preserved message mem]
        simp
    obtain ⟨read, shown⟩ := validate_plain input instructions plain validated
    have same : groups.flatten = r.input := Except.ok.inj (left.symm.trans read)
    constructor
    case input => exact ⟨groups, kept, same.symm⟩
    case hidden =>
      intro preserved d mem
      rw [← same] at mem
      obtain ⟨group, there, mem⟩ := List.mem_flatten.mp mem
      obtain ⟨message, -, keptItems⟩ := Pointwise.exists_left kept there
      rw [preserved] at keptItems
      exact keepsMessage_hidden keptItems mem
    case instructions =>
      rw [shown, texts]
      split_ifs
      · rfl
      · exact mergeInstructions_lines _ _

end Request

def plainChatPydantic : ChatPydantic {t : Str // isFloatLiteral t = true} where
  toPydantic := plainPydantic
  isZero _ := false
  lower := List.map asciiLower
  int
    | .int n => some n
    | _ => none
  number
    | .int n => some (.int n)
    | _ => none

/-- A chat request with a system and a user message. -/
def greetingBody (responseFormat : String) : JsonValue {t : Str // isFloatLiteral t = true} :=
  .dict [(text "model", .str (text "gpt")),
    (text "messages", .list [
      .dict [(text "role", .str (text "system")), (text "content", .str (text "Be brief."))],
      .dict [(text "role", .str (text "user")), (text "content", .str (text "Hello"))]]),
    (text "response_format", .str (text responseFormat))]

theorem keeps_conversation_text :
    ∃ chat messages r, validateChat plainChatPydantic (greetingBody "text") = .ok chat ∧
      chat.messages = some messages ∧ messages ≠ [] ∧
      toResponsesRequest plainChatPydantic chat = .ok r ∧ KeepsConversation chat messages r := by
  obtain ⟨chat, accepted⟩ : ∃ chat, validateChat plainChatPydantic (greetingBody "text") = .ok chat :=
    ⟨_, rfl⟩
  have same := accepted
  cases same
  refine ⟨_, _, _, rfl, rfl, List.cons_ne_nil _ _, rfl, ?_⟩
  refine (keeps_conversation_iff plainChatPydantic accepted rfl (List.cons_ne_nil _ _) rfl).mpr ?_
  intro preserved
  cases preserved

/-- For `json_object` the system message is hoisted out of the input like any other. -/
theorem json_object_hoists :
    ∃ chat messages r, validateChat plainChatPydantic (greetingBody "json_object") = .ok chat ∧
      chat.messages = some messages ∧ messages ≠ [] ∧
      toResponsesRequest plainChatPydantic chat = .ok r ∧
      r.instructions = text "Be brief." ∧ r.input.length = 1 ∧
      ¬ KeepsConversation chat messages r := by
  refine ⟨_, _, _, rfl, rfl, List.cons_ne_nil _ _, rfl, rfl, rfl, fun keeps => ?_⟩
  have instructions := keeps.instructions
  exact absurd instructions (by decide)

end ChatMapping
