import Mathlib.Data.List.DropRight
import LivingBalancer.Lib.JsonAscii
import LivingBalancer.Lib.JsonScan

/-!
# Server-sent event blocks

`format_sse_event` writes the type of a payload as it is and its text in ASCII. The reader
splits a block at the three line boundaries and joins the values of the data fields.
-/

namespace Sse

open PyJson

variable {F : Type}

/-! ## Lines -/

/-- `_SSE_LINE_BOUNDARY.split`: lines end at CR LF, at CR or at LF. -/
def sseLines : Str → List Str
  | [] => [[]]
  | c :: rest =>
    if c = code '\n' then [] :: sseLines rest
    else if c = code '\r' then
      match rest with
      | [] => [[], []]
      | d :: rest' => if d = code '\n' then [] :: sseLines rest' else [] :: sseLines (d :: rest')
    else (sseLines rest).modifyHead (c :: ·)

attribute [local simp] sseLines

theorem sseLines_ne_nil (s : Str) : sseLines s ≠ [] := by
  cases s with
  | nil => exact List.cons_ne_nil _ _
  | cons c rest =>
    rw [sseLines.eq_def]
    dsimp only
    split_ifs
    · exact List.cons_ne_nil _ _
    · split
      · exact List.cons_ne_nil _ _
      · split_ifs <;> exact List.cons_ne_nil _ _
    · rw [ne_eq, List.modifyHead_eq_nil_iff]
      exact sseLines_ne_nil rest

theorem sseLines_lf (s : Str) : sseLines (code '\n' :: s) = [] :: sseLines s := by
  rw [sseLines.eq_def]
  exact if_pos rfl

/-- A boundary is none of the characters of the text. -/
def Unbroken (t : Str) : Prop := ∀ c ∈ t, c ≠ code '\n' ∧ c ≠ code '\r'

theorem sseLines_unbroken {t : Str} (h : Unbroken t) (s : Str) :
    sseLines (t ++ s) = (sseLines s).modifyHead (t ++ ·) := by
  induction t with
  | nil => exact (congrFun List.modifyHead_id _).symm
  | cons c t ih =>
    obtain ⟨feed, carriage⟩ := h c List.mem_cons_self
    rw [List.cons_append, sseLines.eq_def]
    simp only [feed, carriage, if_false]
    rw [ih fun d hd => h d (List.mem_cons_of_mem c hd), List.modifyHead_modifyHead]
    rfl

theorem sseLines_cr_lf (s : Str) : sseLines (code '\r' :: code '\n' :: s) = [] :: sseLines s := by
  rw [sseLines.eq_def]
  simp only [show code '\r' ≠ code '\n' by decide, if_false, if_true]

theorem sseLines_cr {d : ℕ} (h : d ≠ code '\n') (s : Str) :
    sseLines (code '\r' :: d :: s) = [] :: sseLines (d :: s) := by
  rw [sseLines.eq_def]
  simp only [show code '\r' ≠ code '\n' by decide, if_false, if_true, h]

theorem sseLines_other {c : ℕ} (feed : c ≠ code '\n') (carriage : c ≠ code '\r') (s : Str) :
    sseLines (c :: s) = (sseLines s).modifyHead (c :: ·) := by
  rw [sseLines.eq_def]
  simp only [feed, carriage, if_false]

/-- A line feed ends a line, whatever stands before it. -/
theorem sseLines_append_lf (t : Str) : ∃ first added, ∀ u,
    sseLines (t ++ code '\n' :: u) = first :: (added ++ sseLines u) := by
  induction t using sseLines.induct with
  | case1 => exact ⟨[], [], sseLines_lf⟩
  | case2 rest ih =>
    obtain ⟨first, added, lines⟩ := ih
    refine ⟨[], first :: added, fun u => ?_⟩
    rw [List.cons_append, sseLines_lf, lines]
    rfl
  | case3 _ => exact ⟨[], [], sseLines_cr_lf⟩
  | case4 rest _ ih =>
    obtain ⟨first, added, lines⟩ := ih
    refine ⟨[], first :: added, fun u => ?_⟩
    rw [List.cons_append, List.cons_append, sseLines_cr_lf, lines]
    rfl
  | case5 d rest other _ ih =>
    obtain ⟨first, added, lines⟩ := ih
    refine ⟨[], first :: added, fun u => ?_⟩
    rw [List.cons_append, List.cons_append, sseLines_cr other]
    exact congrArg (List.cons []) (lines u)
  | case6 c rest feed carriage ih =>
    obtain ⟨first, added, lines⟩ := ih
    refine ⟨c :: first, added, fun u => ?_⟩
    rw [List.cons_append, sseLines_other feed carriage, lines]
    rfl

/-- The lines that a text and the line feed behind it make beyond its first. -/
def addedLines (t : Str) : List Str := (sseLines (t ++ [code '\n'])).tail.dropLast

theorem sseLines_added (t : Str) : ∃ first, ∀ u,
    sseLines (t ++ code '\n' :: u) = first :: (addedLines t ++ sseLines u) := by
  obtain ⟨first, added, lines⟩ := sseLines_append_lf t
  have same : addedLines t = added := by
    rw [addedLines, lines]
    exact List.dropLast_concat
  exact ⟨first, fun u => by rw [lines, same]⟩

/-! ## Writing -/

/-- `format_sse_event`. -/
def formatSseEvent (fmt : FloatText F) (payload : List (Str × JsonValue F)) : Str :=
  let data := dumpsAscii fmt (.dict payload)
  match payload.lookup (text "type") with
  | some (.str (c :: rest)) =>
    text "event: " ++ (c :: rest) ++ code '\n' :: (text "data: " ++ data ++ text "\n\n")
  | _ => text "data: " ++ data ++ text "\n\n"

/-- `format_sse_data`. -/
def formatSseData (fmt : FloatText F) (payload : List (Str × JsonValue F)) : Str :=
  text "data: " ++ dumpsAscii fmt (.dict payload) ++ text "\n\n"

/-! ## Reading -/

/-- The characters removed by `str.strip`. -/
def isWhitespace (n : ℕ) : Bool :=
  (9 ≤ n && n ≤ 13) || (28 ≤ n && n ≤ 32) || n == 0x85 || n == 0xa0 || n == 0x1680
    || (0x2000 ≤ n && n ≤ 0x200a) || n == 0x2028 || n == 0x2029 || n == 0x202f
    || n == 0x205f || n == 0x3000

def strip (t : Str) : Str := (t.dropWhile isWhitespace).rdropWhile isWhitespace

def parseSseField (line : Str) : Str × Str :=
  if code ':' ∉ line then (line, [])
  else
    match (line.dropWhile (· ≠ code ':')).tail with
    | c :: value =>
      (line.takeWhile (· ≠ code ':'), if c = code ' ' then value else c :: value)
    | [] => (line.takeWhile (· ≠ code ':'), [])

/-- What a line adds to the data: nothing, when it is empty, a comment or another field. -/
def dataValue (line : Str) : Option Str :=
  if line = [] then none
  else if line.head? = some (code ':') then none
  else if (parseSseField line).1 = text "data" then some (parseSseField line).2
  else none

def extractSseDataLines (eventBlock : Str) : Option (List Str) :=
  let dataLines := (sseLines eventBlock).filterMap dataValue
  if dataLines = [] then none else some dataLines

def extractSseData (eventBlock : Str) : Option Str :=
  match extractSseDataLines eventBlock with
  | none => none
  | some dataLines =>
    let data := [code '\n'].intercalate dataLines
    if strip data = [] then none
    else if strip data = text "[DONE]" then none
    else some data

def parseSseDataJson (fmt : FloatText F) (eventBlock : Str) :
    Option (List (Str × JsonValue F)) :=
  match extractSseData eventBlock with
  | none => none
  | some data =>
    match loads fmt data with
    | some (.dict payload) => some payload
    | _ => none

theorem mem_strip {c : ℕ} {t : Str} (mem : c ∈ t) (shown : isWhitespace c = false) :
    c ∈ strip t := by
  have front : c ∈ t.dropWhile isWhitespace := by
    have split := List.takeWhile_append_dropWhile (p := isWhitespace) (l := t)
    rw [← split] at mem
    rcases List.mem_append.mp mem with dropped | kept
    · rw [List.mem_takeWhile_imp dropped] at shown
      cases shown
    · exact kept
  have back := List.rdropWhile_append_rtakeWhile (p := isWhitespace) (l := t.dropWhile isWhitespace)
  rw [← back] at front
  rcases List.mem_append.mp front with kept | dropped
  · exact kept
  · rw [List.mem_rtakeWhile_imp dropped] at shown
    cases shown

/-! ## A block read back -/

/-- The only empty line before the text's last one is that which ends the block. -/
def OneTerminator (block : Str) : Prop :=
  ∃ lines, sseLines block = lines ++ [[], []] ∧ ∀ line ∈ lines, line ≠ []

/-- The lines that a type adds are neither empty nor data fields with more than space. -/
def Harmless (eventType : Str) : Prop :=
  ∀ line ∈ addedLines eventType, line ≠ [] ∧
    ∀ value ∈ dataValue line, ∀ c ∈ value, isSpace c = true

theorem dataValue_data (d : Str) : dataValue (text "data: " ++ d) = some d := by
  have field : parseSseField (text "data: " ++ d) = (text "data", d) := by
    rw [parseSseField, if_neg (not_not_intro (List.mem_append_left d (by decide)))]
    rfl
  rw [dataValue, field]
  rfl

theorem dataValue_event (t : Str) : dataValue (text "event: " ++ t) = none := by
  have field : parseSseField (text "event: " ++ t) = (text "event", t) := by
    rw [parseSseField, if_neg (not_not_intro (List.mem_append_left t (by decide)))]
    rfl
  rw [dataValue, field]
  rfl

theorem dumpsAscii_unbroken (fmt : FloatText F) (v : JsonValue F) :
    Unbroken (dumpsAscii fmt v) := by
  intro c hc
  have printed := (dumpsAscii_ascii fmt v c hc).1
  constructor
  · rintro rfl
    exact absurd printed (by decide)
  · rintro rfl
    exact absurd printed (by decide)

theorem sseLines_data {d : Str} (unbroken : Unbroken d) :
    sseLines (text "data: " ++ d ++ text "\n\n") = [text "data: " ++ d, [], []] := by
  have field : Unbroken (text "data: ") := by
    unfold Unbroken
    decide
  have whole : Unbroken (text "data: " ++ d) := fun c hc =>
    (List.mem_append.mp hc).elim (field c) (unbroken c)
  have blank : sseLines (text "\n\n") = [[], [], []] := by decide
  rw [sseLines_unbroken whole, blank]
  exact congrArg (· :: _) (List.append_nil _)

theorem intercalate_concat {values : List Str} (h : values ≠ []) (d : Str) :
    [code '\n'].intercalate (values ++ [d]) = [code '\n'].intercalate values ++ code '\n' :: d := by
  induction values with
  | nil => exact absurd rfl h
  | cons v values ih =>
    cases values with
    | nil => simp [List.intercalate_cons_cons]
    | cons w values =>
      rw [List.cons_append, List.cons_append, List.intercalate_cons_cons, ← List.cons_append,
        ih (List.cons_ne_nil _ _), List.intercalate_cons_cons]
      simp only [List.append_assoc]

theorem mem_intercalate {values : List Str} {c : ℕ} (other : c ≠ code '\n') :
    c ∈ [code '\n'].intercalate values ↔ ∃ value ∈ values, c ∈ value := by
  induction values with
  | nil => simp
  | cons v values ih =>
    cases values with
    | nil => simp
    | cons w values =>
      rw [List.intercalate_cons_cons, List.mem_append, List.mem_append, ih]
      simp [other]

section Read

variable {fmt : FloatText F} {payload : List (Str × JsonValue F)}

theorem oneTerminator_iff {block data : Str} {before : List Str}
    (lines : sseLines block = before ++ [text "data: " ++ data, [], []]) :
    OneTerminator block ↔ ∀ line ∈ before, line ≠ [] := by
  have shown : text "data: " ++ data ≠ [] := List.cons_ne_nil _ _
  constructor
  · rintro ⟨all, same, filled⟩ line mem
    have parts : before ++ [text "data: " ++ data] = all := by
      have ended : (before ++ [text "data: " ++ data]) ++ [[], []] = all ++ [[], []] := by
        rw [← same, lines, List.append_assoc]
        rfl
      exact List.append_cancel_right ended
    exact filled line (parts ▸ List.mem_append_left _ mem)
  · intro filled
    refine ⟨before ++ [text "data: " ++ data], by rw [lines, List.append_assoc]; rfl, ?_⟩
    intro line mem
    rcases List.mem_append.mp mem with early | last
    · exact filled line early
    · exact List.mem_singleton.mp last ▸ shown

/-- The data of the block, which is no blank text and no end marker. -/
theorem extractSseData_lines {block data : Str} {before : List Str}
    (lines : sseLines block = before ++ [text "data: " ++ data, [], []])
    (head : data.head? = some (code '\x7b')) :
    extractSseData block =
      some ([code '\n'].intercalate (before.filterMap dataValue ++ [data])) := by
  have last : [text "data: " ++ data, [], []].filterMap dataValue = [data] := by
    rw [List.filterMap_cons_some (dataValue_data data)]
    rfl
  have values : (sseLines block).filterMap dataValue = before.filterMap dataValue ++ [data] := by
    rw [lines, List.filterMap_append, last]
  have brace : code '\x7b' ∈
      strip ([code '\n'].intercalate (before.filterMap dataValue ++ [data])) := by
    refine mem_strip ?_ (by decide)
    have inside : code '\x7b' ∈ data := List.mem_of_head? head
    by_cases none_before : before.filterMap dataValue = []
    · rw [none_before, List.nil_append, List.intercalate_singleton]
      exact inside
    · rw [intercalate_concat none_before]
      exact List.mem_append_right _ (List.mem_cons_of_mem _ inside)
  have shown := List.ne_nil_of_mem brace
  have unfinished : strip ([code '\n'].intercalate (before.filterMap dataValue ++ [data])) ≠
      text "[DONE]" := by
    intro same
    rw [same] at brace
    exact absurd brace (by decide)
  simp only [extractSseData, extractSseDataLines, values, List.append_ne_nil_of_right_ne_nil,
    ne_eq, List.cons_ne_nil, not_false_eq_true, if_false, if_neg shown, if_neg unfinished]

theorem parseSseDataJson_iff {block data : Str} {before : List Str}
    (lines : sseLines block = before ++ [text "data: " ++ data, [], []])
    (head : data.head? = some (code '\x7b')) (inverts : loads fmt data = some (.dict payload)) :
    parseSseDataJson fmt block = some payload ↔
      ∀ line ∈ before, ∀ value ∈ dataValue line, ∀ c ∈ value, isSpace c = true := by
  have extracted := extractSseData_lines lines head
  have quantified : (∀ line ∈ before, ∀ value ∈ dataValue line, ∀ c ∈ value, isSpace c = true) ↔
      ∀ value ∈ before.filterMap dataValue, ∀ c ∈ value, isSpace c = true := by
    simp only [List.mem_filterMap, forall_exists_index, and_imp]
    exact ⟨fun h v line mem found => h line mem v found, fun h line mem v found => h v line mem found⟩
  rw [quantified, parseSseDataJson, extracted]
  dsimp only
  cases values : before.filterMap dataValue with
  | nil =>
    rw [List.nil_append, List.intercalate_singleton, inverts]
    exact iff_of_true rfl nofun
  | cons v vs =>
    rw [intercalate_concat (List.cons_ne_nil v vs)]
    constructor
    · intro found
      by_contra shown
      push Not at shown
      obtain ⟨value, mem, c, inside, dark⟩ := shown
      have other : c ≠ code '\n' := by
        rintro rfl
        exact dark (by decide)
      have dark' : isSpace c = false := Bool.eq_false_iff.mpr dark
      rw [loads_line_feed head inverts
        ⟨c, (mem_intercalate other).mpr ⟨value, mem, inside⟩, dark'⟩] at found
      cases found
    · intro blank
      have spaces : ∀ c ∈ [code '\n'].intercalate (v :: vs) ++ [code '\n'], isSpace c = true := by
        intro c mem
        by_cases feed : c = code '\n'
        · rw [feed]
          decide
        · have inside : c ∈ [code '\n'].intercalate (v :: vs) :=
            (List.mem_append.mp mem).resolve_right fun last =>
              feed (List.mem_singleton.mp last)
          obtain ⟨value, among, at_value⟩ := (mem_intercalate feed).mp inside
          exact blank value among c at_value
      rw [List.append_cons, loads_space head inverts spaces]

/-- A block without a type line is always read back, and ends at its only blank line. -/
theorem formatSseData_round_trip
    (inverts : loads fmt (dumpsAscii fmt (.dict payload)) = some (.dict payload)) :
    parseSseDataJson fmt (formatSseData fmt payload) = some payload ∧
      OneTerminator (formatSseData fmt payload) := by
  have lines : sseLines (formatSseData fmt payload) =
      [] ++ [text "data: " ++ dumpsAscii fmt (.dict payload), [], []] :=
    sseLines_data (dumpsAscii_unbroken fmt (.dict payload))
  exact ⟨(parseSseDataJson_iff lines (dumpsAscii_head fmt payload) inverts).mpr nofun,
    (oneTerminator_iff lines).mpr nofun⟩

end Read

/-- Under the assumption that the text of a payload is read as the payload, an event block
is read as its payload and ends at its only blank line exactly when the type's lines allow it. -/
theorem formatSseEvent_round_trip_iff (fmt : FloatText F) (payload : List (Str × JsonValue F))
    (inverts : loads fmt (dumpsAscii fmt (.dict payload)) = some (.dict payload)) :
    (parseSseDataJson fmt (formatSseEvent fmt payload) = some payload ∧
      OneTerminator (formatSseEvent fmt payload)) ↔
    ∀ eventType, payload.lookup (text "type") = some (.str eventType) → eventType ≠ [] →
      Harmless eventType := by
  have head := dumpsAscii_head fmt payload
  have data := sseLines_data (dumpsAscii_unbroken fmt (.dict payload))
  rw [formatSseEvent]
  split
  · rename_i c rest named
    obtain ⟨first, added⟩ := sseLines_added (c :: rest)
    have event : Unbroken (text "event: ") := by
      unfold Unbroken
      decide
    have lines : sseLines (text "event: " ++ (c :: rest) ++ code '\n' ::
        (text "data: " ++ dumpsAscii fmt (.dict payload) ++ text "\n\n")) =
        (text "event: " ++ first) :: addedLines (c :: rest) ++
          [text "data: " ++ dumpsAscii fmt (.dict payload), [], []] := by
      rw [List.append_assoc, sseLines_unbroken event, added, data]
      rfl
    rw [parseSseDataJson_iff lines head inverts, oneTerminator_iff lines]
    have typed : ∀ eventType, payload.lookup (text "type") = some (.str eventType) →
        eventType = c :: rest := by
      intro eventType found
      rw [named] at found
      cases found
      rfl
    constructor
    · rintro ⟨blank, filled⟩ eventType found -
      rw [typed eventType found]
      exact fun line mem => ⟨filled line (List.mem_cons_of_mem _ mem),
        blank line (List.mem_cons_of_mem _ mem)⟩
    · intro harmless
      have each := harmless _ named (List.cons_ne_nil c rest)
      refine ⟨List.forall_mem_cons.mpr ⟨?_, fun line mem => (each line mem).2⟩,
        List.forall_mem_cons.mpr ⟨List.cons_ne_nil _ _, fun line mem => (each line mem).1⟩⟩
      intro value found
      rw [dataValue_event] at found
      cases found
  · rename_i untyped
    refine iff_of_true (formatSseData_round_trip inverts) ?_
    intro eventType found filled
    cases eventType with
    | nil => exact absurd rfl filled
    | cons c rest => exact absurd found (untyped c rest)

/-- A payload with nothing but a type of ASCII characters is read back from its text. -/
theorem loads_typed {t : Str}
    (plain : dumpsAscii literalFloats (.dict [(text "type", .str t)]) =
      dumps literalFloats (.dict [(text "type", .str t)])) :
    loads literalFloats (dumpsAscii literalFloats (.dict [(text "type", .str t)])) =
      some (.dict [(text "type", .str t)]) := by
  have distinct : (JsonValue.dict [(text "type", .str t)] :
      JsonValue {t : Str // isFloatLiteral t = true}).Distinct := ⟨by simp, trivial, trivial⟩
  rw [plain, loads_dumps distinct]
  rfl

/-- A data field of the type's own that holds a tab, and a carriage return at the end. -/
theorem formatSseEvent_round_trip_tab :
    parseSseDataJson literalFloats (formatSseEvent literalFloats
      [(text "type", .str (text "a\ndata: \t\r"))]) =
        some [(text "type", .str (text "a\ndata: \t\r"))] ∧
      OneTerminator (formatSseEvent literalFloats
        [(text "type", .str (text "a\ndata: \t\r"))]) := by
  refine (formatSseEvent_round_trip_iff literalFloats _ (loads_typed (by decide +kernel))).mpr ?_
  rintro eventType ⟨⟩ -
  have added : addedLines (text "a\ndata: \t\r") = [text "data: \t"] := by decide +kernel
  intro line mem
  rw [added] at mem
  rw [List.mem_singleton.mp mem]
  exact ⟨by decide, by rintro value ⟨⟩; decide⟩

/-- A type with a blank line and a data field of its own is neither read back nor one block. -/
theorem formatSseEvent_breaks :
    loads literalFloats (dumpsAscii literalFloats (.dict
      [(text "type", .str (text "a\n\ndata: x"))])) =
        some (.dict [(text "type", .str (text "a\n\ndata: x"))]) ∧
    parseSseDataJson literalFloats (formatSseEvent literalFloats
      [(text "type", .str (text "a\n\ndata: x"))]) ≠
        some [(text "type", .str (text "a\n\ndata: x"))] ∧
    ¬ OneTerminator (formatSseEvent literalFloats
      [(text "type", .str (text "a\n\ndata: x"))]) := by
  have inverts := loads_typed (t := text "a\n\ndata: x") (by decide +kernel)
  have lines : sseLines (formatSseEvent literalFloats
      [(text "type", .str (text "a\n\ndata: x"))]) =
      [text "event: a", [], text "data: x"] ++ [text "data: " ++ dumpsAscii literalFloats
        (.dict [(text "type", .str (text "a\n\ndata: x"))]), [], []] := by decide +kernel
  refine ⟨inverts, ?_, ?_⟩
  · rw [ne_eq, parseSseDataJson_iff lines (dumpsAscii_head _ _) inverts]
    intro blank
    have shown := blank (text "data: x") (by decide) (text "x") (by decide) (code 'x') (by decide)
    exact absurd shown (by decide)
  · rw [oneTerminator_iff lines]
    exact fun filled => filled [] (by decide) rfl

end Sse
