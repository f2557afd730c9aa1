import LivingBalancer.Lib.Utf8
import LivingBalancer.Proxy.SseEvents
import LivingBalancer.Tokdash.UsageStore

/-!
# The parsers of append-safe JSONL files

`KimiParser._parse_all` and `GeminiCLIParser._parse_all` on one file, and the tail of a file
(`_complete_jsonl_tail`, `_collect_parser_tail`). Both read line by line, in universal newline
mode, and drop a message id that they have seen. A line that Kimi cannot take apart raises and
ends the file; Gemini skips it. Entries are given as they are stored, under their keys.
-/

namespace JsonlUsage

open PyJson

/-! ## Line by line -/

/-- What a usage line gives: an entry to store, if any, or an exception. -/
inductive Outcome (Data : Type) where
  | raises
  | gives (entry : Option (Str × Data))

/-- What a line is to a parser. -/
inductive Reading (Id Data : Type) where
  | stop
  | usage (id : Id) (outcome : Outcome Data)

/-- The line ends the file, if it is the first of its message id. -/
def Reading.Stops {Id Data : Type} : Reading Id Data → Prop
  | .stop => True
  | .usage _ .raises => True
  | .usage _ (.gives _) => False

instance {Id Data : Type} : DecidablePred fun r : Reading Id Data => r.Stops
  | .stop => isTrue trivial
  | .usage _ .raises => isTrue trivial
  | .usage _ (.gives _) => isFalse id

def Reading.id? {Id Data : Type} : Reading Id Data → Option Id
  | .stop => none
  | .usage id _ => some id

structure JsonlParser (Id Data : Type) where
  /-- A line without the white space around it; `none` for one that is skipped. -/
  read : Str → Option (Reading Id Data)
  /-- The lines that are used of a file that does not decode. -/
  broken : List UInt8 → List Str

namespace JsonlParser

variable {Id Data : Type}

def lines (t : List Char) : List Str := Sse.sseLines (t.map code)

def readLine (parser : JsonlParser Id Data) (line : Str) : Option (Reading Id Data) :=
  if Sse.strip line = [] then none else parser.read (Sse.strip line)

def readings (parser : JsonlParser Id Data) (lines : List Str) : List (Reading Id Data) :=
  lines.filterMap parser.readLine

/-- The entries, given the message ids that were seen. -/
def collect [DecidableEq Id] (seen : List Id) : List (Reading Id Data) → List (Str × Data)
  | [] => []
  | .stop :: _ => []
  | .usage id outcome :: rest =>
    if id ∈ seen then collect seen rest
    else
      match outcome with
      | .raises => []
      | .gives entry => entry.toList ++ collect (id :: seen) rest

def parseFile [DecidableEq Id] (parser : JsonlParser Id Data) (content : List UInt8) :
    List (Str × Data) :=
  match Utf8.decode content with
  | some t => collect [] (parser.readings (lines t))
  | none => collect [] (parser.readings (parser.broken content))

/-- The bytes from `start` to the last line feed. -/
def completeTail (content : List UInt8) (start : ℕ) : List UInt8 :=
  (content.drop start).rdropWhile fun b => b != 10

/-- `_complete_jsonl_tail`. -/
def completeJsonlTail (content : List UInt8) (start : ℕ) : Option (List Char × ℕ) :=
  let tail := completeTail content start
  if tail = [] then some ([], start)
  else (Utf8.decode tail).map fun t => (t, start + tail.length)

/-- `_collect_parser_tail` of a JSONL file: the text is written to a file of its own. -/
def parseTail [DecidableEq Id] (parser : JsonlParser Id Data) (content : List UInt8)
    (start : ℕ) : Option (List (Str × Data) × ℕ) :=
  (completeJsonlTail content start).map fun p =>
    if p.1 = [] then ([], p.2) else (parser.parseFile (Utf8.encode p.1), p.2)

end JsonlParser

/-! ## The two sources -/

section Sources

variable {F Cost : Type}

/-- What a set compares of a hashable value. -/
inductive SetKey (F : Type) where
  | null
  | int (n : ℤ)
  | float (x : F)
  | str (t : Str)
  deriving DecidableEq

/-- `datetime.fromtimestamp`, in whole milliseconds. -/
inductive Timestamp where
  | millis (n : ℤ)
  | invalid
  | overflow

/-- The built-in operations on values, the clock and the prices; `yielded` are the lines that a
file object gives before it raises `UnicodeDecodeError`. -/
structure Rules (F Cost : Type) where
  fmt : FloatText F
  isZero : F → Bool
  floatKey : PyFloat F → SetKey F
  repr : JsonValue F → Str
  toInt : JsonValue F → ℤ
  fromTimestamp : JsonValue F → Timestamp
  fromIsoFormat : Str → Option ℤ
  getCost : JsonValue F → ℤ → ℤ → ℤ → ℤ → Option Cost
  yielded : List UInt8 → List Str

/-- An entry of `_entry_for_storage`. -/
structure UsageEntry (F Cost : Type) where
  source : Str
  model : Str
  provider : Str
  input : ℤ
  output : ℤ
  cacheRead : ℤ
  cacheWrite : ℤ
  reasoning : ℤ
  cost : Cost
  timestamp : ℤ
  messageCount : ℤ
  messageId : Option (JsonValue F)

/-- What `_entry_key` hashes of an entry without an id. -/
structure Basis (Cost : Type) where
  source : Str
  model : Str
  provider : Str
  timestamp : ℤ
  input : ℤ
  output : ℤ
  cacheRead : ℤ
  cacheWrite : ℤ
  reasoning : ℤ
  cost : Cost

namespace Rules

variable (rules : Rules F Cost)

def truthy : JsonValue F → Bool
  | .null => false
  | .bool b => b
  | .int n => n != 0
  | .float (.finite x) => !rules.isZero x
  | .float _ => true
  | .str t => !t.isEmpty
  | .list items => !items.isEmpty
  | .dict items => !items.isEmpty

/-- `none` for a value that is not hashable. -/
def hashed : JsonValue F → Option (SetKey F)
  | .null => some .null
  | .bool b => some (.int (if b then 1 else 0))
  | .int n => some (.int n)
  | .float x => some (rules.floatKey x)
  | .str t => some (.str t)
  | .list _ | .dict _ => none

def str : JsonValue F → Str
  | .null => text "None"
  | .bool b => if b then text "True" else text "False"
  | .int n => intText n
  | .str t => t
  | v => rules.repr v

def isStr (t : String) : JsonValue F → Bool
  | .str s => s == text t
  | _ => false

/-- `d.get(key, default)`. -/
def getD (items : List (Str × JsonValue F)) (key : String) (default : JsonValue F) :
    JsonValue F :=
  (items.lookup (text key)).getD default

/-- `_entry_for_storage`: entries without a time are dropped. -/
def forStorage (key : Str) (entry : UsageEntry F Cost) : Option (Str × UsageEntry F Cost) :=
  if entry.timestamp ≤ 0 then none else some (key, entry)

/-- `KimiParser._build_entry`; the model is the default one. -/
def kimiEntry (usage : List (Str × JsonValue F)) (timestamp : ℤ) (messageId : JsonValue F) :
    Option (UsageEntry F Cost) :=
  let model := text "kimi-k2.5"
  let inputOther := rules.toInt (getD usage "input_other" .null)
  let output := rules.toInt (getD usage "output" .null)
  let cacheRead := rules.toInt (getD usage "input_cache_read" .null)
  let cacheWrite := rules.toInt (getD usage "input_cache_creation" .null)
  (rules.getCost (.str model) inputOther output cacheRead cacheWrite).map fun cost =>
    { source := text "kimi"
      model := model
      provider := text "moonshotai"
      input := inputOther
      output := output
      cacheRead := cacheRead
      cacheWrite := cacheWrite
      reasoning := 0
      cost := cost
      timestamp := timestamp
      messageCount := 1
      messageId := some messageId }

/-- What Kimi makes of a `StatusUpdate` after its message id. -/
def kimiOutcome (entry usage : List (Str × JsonValue F)) (messageId : JsonValue F) :
    Outcome (UsageEntry F Cost) :=
  let timestamp := getD entry "timestamp" .null
  if rules.truthy timestamp then
    match rules.fromTimestamp timestamp with
    | .invalid => .gives none
    | .overflow => .raises
    | .millis n =>
      match rules.kimiEntry usage n messageId with
      | none => .raises
      | some built => .gives (forStorage (text "kimi:" ++ rules.str messageId) built)
  else .gives none

def kimiRead (line : Str) : Option (Reading (SetKey F) (UsageEntry F Cost)) :=
  match loads rules.fmt line with
  | none => none
  | some (.dict entry) =>
    match getD entry "message" (.dict []) with
    | .dict msg =>
      if isStr "StatusUpdate" (getD msg "type" .null) then
        match getD msg "payload" (.dict []) with
        | .dict payload =>
          match getD payload "token_usage" .null with
          | .dict usage =>
            let messageId := getD payload "message_id" (.str [])
            if rules.truthy messageId then
              match rules.hashed messageId with
              | some id => some (.usage id (rules.kimiOutcome entry usage messageId))
              | none => some .stop
            else none
          | _ => none
        | _ => some .stop
      else none
    | _ => some .stop
  | some _ => some .stop

/-- `GeminiCLIParser._build_entry`. -/
def geminiEntry (model : JsonValue F) (tokens : List (Str × JsonValue F)) (timestamp : ℤ) :
    Option (UsageEntry F Cost) :=
  let rawInput := rules.toInt (getD tokens "input" .null)
  let output := rules.toInt (getD tokens "output" .null)
  let cacheRead := rules.toInt (getD tokens "cached" .null)
  let input := max 0 (rawInput - cacheRead)
  (rules.getCost model input output cacheRead 0).map fun cost =>
    { source := text "gemini_cli"
      model := rules.str model
      provider := text "google"
      input := input
      output := output
      cacheRead := cacheRead
      cacheWrite := 0
      reasoning := rules.toInt (getD tokens "thoughts" .null)
      cost := cost
      timestamp := timestamp
      messageCount := 1
      messageId := none }

/-- What Gemini makes of a message after its id; an exception skips the message. -/
def geminiOutcome (msg tokens : List (Str × JsonValue F)) (msgId : JsonValue F) :
    Option (Str × UsageEntry F Cost) :=
  match getD msg "timestamp" .null with
  | .str t =>
    if t = [] then none
    else
      let named := getD msg "model" .null
      let model := if rules.truthy named then named else .str (text "unknown")
      let iso := t.flatMap fun c => if c = code 'Z' then text "+00:00" else [c]
      (rules.fromIsoFormat iso).bind fun n =>
        (rules.geminiEntry model tokens n).bind fun built =>
          forStorage (text "gemini_cli:" ++ rules.str msgId) built
  | _ => none

def geminiRead (line : Str) : Option (Reading (SetKey F) (UsageEntry F Cost)) :=
  match loads rules.fmt line with
  | some (.dict msg) =>
    if isStr "gemini" (getD msg "type" .null) then
      match getD msg "tokens" .null with
      | .dict tokens =>
        let msgId := getD msg "id" .null
        (rules.hashed msgId).map fun id => .usage id (.gives (rules.geminiOutcome msg tokens msgId))
      | _ => none
    else none
  | _ => none

end Rules

/-- Whole seconds as times, and no prices. -/
def wholeSeconds : Rules Empty Unit where
  fmt := ⟨fun _ => .nan, fun x => x.elim, fun x => x.elim, fun x => x.elim⟩
  isZero := fun x => x.elim
  floatKey _ := .null
  repr _ := []
  toInt
    | .int n => n
    | _ => 0
  fromTimestamp
    | .int n => .millis (1000 * n)
    | _ => .invalid
  fromIsoFormat _ := none
  getCost _ _ _ _ _ := some ()
  yielded _ := []

/-- The sources with `append_jsonl`. -/
inductive AppendSource where
  | kimi
  | gemini

def AppendSource.parser (rules : Rules F Cost) :
    AppendSource → JsonlParser (SetKey F) (UsageEntry F Cost)
  | .kimi => ⟨rules.kimiRead, rules.yielded⟩
  | .gemini => ⟨rules.geminiRead, fun _ => []⟩

end Sources

/-! ## Texts in two parts -/

section Parts

open Sse

/-- The lines of two parts whose cut line is one line. -/
def glue (first second : List Str) : List Str :=
  first.dropLast ++ (first.getLastD [] ++ second.headD []) :: second.tail

theorem glue_cons {first second : List Str} (line : Str) (h : first ≠ []) :
    glue (line :: first) second = line :: glue first second := by
  obtain ⟨l, rest, rfl⟩ := List.exists_cons_of_ne_nil h
  rfl

theorem glue_modifyHead {first second : List Str} (c : ℕ) (h : first ≠ []) :
    glue (first.modifyHead (c :: ·)) second = (glue first second).modifyHead (c :: ·) := by
  obtain ⟨l, rest, rfl⟩ := List.exists_cons_of_ne_nil h
  cases rest with
  | nil => rfl
  | cons m rest => rfl

theorem glue_nil {second : List Str} (h : second ≠ []) : glue [[]] second = second := by
  obtain ⟨l, rest, rfl⟩ := List.exists_cons_of_ne_nil h
  rfl

/-- The carriage return and the line feed of one boundary are on the two sides. -/
def SplitsBoundary (s u : Str) : Prop :=
  s.getLast? = some (code '\r') ∧ u.head? = some (code '\n')

theorem SplitsBoundary.cons {s u : Str} {c : ℕ} (h : SplitsBoundary s u) :
    SplitsBoundary (c :: s) u := by
  obtain ⟨last, first⟩ := h
  refine ⟨?_, first⟩
  rw [List.getLast?_cons, last]
  rfl

theorem sseLines_append {s u : Str} (whole : ¬ SplitsBoundary s u) :
    sseLines (s ++ u) = glue (sseLines s) (sseLines u) := by
  induction s using sseLines.induct with
  | case1 => exact (glue_nil (sseLines_ne_nil u)).symm
  | case2 rest ih =>
    rw [List.cons_append, sseLines_lf, sseLines_lf, glue_cons _ (sseLines_ne_nil rest),
      ih fun split => whole split.cons]
  | case3 _ =>
    cases u with
    | nil => rfl
    | cons d u =>
      have other : d ≠ code '\n' := by
        rintro rfl
        exact whole ⟨rfl, rfl⟩
      rw [List.singleton_append, sseLines_cr other]
      exact congrArg (List.cons []) (glue_nil (sseLines_ne_nil (d :: u))).symm
  | case4 rest _ ih =>
    rw [List.cons_append, List.cons_append, sseLines_cr_lf, sseLines_cr_lf,
      glue_cons _ (sseLines_ne_nil rest), ih fun split => whole split.cons.cons]
  | case5 d rest other _ ih =>
    rw [List.cons_append, List.cons_append, sseLines_cr other, sseLines_cr other,
      glue_cons _ (sseLines_ne_nil (d :: rest))]
    exact congrArg (List.cons []) (ih fun split => whole split.cons)
  | case6 c rest feed carriage ih =>
    rw [List.cons_append, sseLines_other feed carriage, sseLines_other feed carriage,
      glue_modifyHead c (sseLines_ne_nil rest), ih fun split => whole split.cons]

end Parts

namespace JsonlParser

variable {Id Data : Type} {parser : JsonlParser Id Data}

theorem readLine_nil : parser.readLine [] = none := rfl

/-- The line that the cut between two texts divides reads as its two pieces do. -/
def CutReads (parser : JsonlParser Id Data) (t u : List Char) : Prop :=
  (parser.readLine ((lines t).getLastD [] ++ (lines u).headD [])).toList =
    (parser.readLine ((lines t).getLastD [])).toList ++
      (parser.readLine ((lines u).headD [])).toList

theorem readings_cons (line : Str) (rest : List Str) :
    parser.readings (line :: rest) = (parser.readLine line).toList ++ parser.readings rest := by
  rw [readings, List.filterMap_cons]
  cases parser.readLine line <;> rfl

theorem readings_append (first second : List Str) :
    parser.readings (first ++ second) = parser.readings first ++ parser.readings second :=
  List.filterMap_append

theorem readings_ends {all : List Str} (h : all ≠ []) : parser.readings all =
    parser.readings all.dropLast ++ (parser.readLine (all.getLastD [])).toList := by
  have split : all.dropLast ++ [all.getLastD []] = all := by
    rw [List.getLastD_eq_getLast?, List.getLast?_eq_some_getLast h]
    exact List.dropLast_append_getLast h
  conv_lhs => rw [← split, readings_append, readings_cons]
  exact congrArg _ (List.append_nil _)

theorem readings_starts {all : List Str} (h : all ≠ []) : parser.readings all =
    (parser.readLine (all.headD [])).toList ++ parser.readings all.tail := by
  obtain ⟨line, rest, rfl⟩ := List.exists_cons_of_ne_nil h
  exact readings_cons line rest

theorem readings_lines_append {t u : List Char} (cut : parser.CutReads t u) :
    parser.readings (lines (t ++ u)) =
      parser.readings (lines t) ++ parser.readings (lines u) := by
  simp only [lines, List.map_append]
  by_cases split : SplitsBoundary (t.map code) (u.map code)
  · obtain ⟨s, hs⟩ := List.getLast?_eq_some_iff.mp split.1
    obtain ⟨v, hv⟩ := List.head?_eq_some_iff.mp split.2
    have across : ¬ SplitsBoundary s (code '\r' :: code '\n' :: v) :=
      fun h => absurd (Option.some.inj h.2) (by decide)
    have before : ¬ SplitsBoundary s [code '\r'] :=
      fun h => absurd (Option.some.inj h.2) (by decide)
    rw [hs, hv, List.append_assoc, List.singleton_append, sseLines_append across,
      sseLines_append before, Sse.sseLines_cr_lf, Sse.sseLines_lf, readings_cons, readLine_nil]
    simp only [glue, readings_append, readings_cons]
    simp [readLine_nil, show Sse.sseLines [code '\r'] = [[], []] from rfl, readings]
  · simp only [CutReads, lines] at cut
    rw [sseLines_append split, glue, readings_append, readings_cons, cut,
      readings_ends (Sse.sseLines_ne_nil (t.map code)),
      readings_starts (Sse.sseLines_ne_nil (u.map code))]
    simp only [List.append_assoc]

end JsonlParser

namespace JsonlParser

variable {Id Data : Type} {parser : JsonlParser Id Data}

/-- A cut behind a line feed divides no line. -/
theorem cutReads_lineFeed (t u : List Char) : parser.CutReads (t ++ ['\n']) u := by
  obtain ⟨first, added, split⟩ := Sse.sseLines_append_lf (t.map code)
  have last : (lines (t ++ ['\n'])).getLastD [] = [] := by
    have all : lines (t ++ ['\n']) = (first :: added) ++ [[]] := by
      rw [lines, List.map_append]
      exact split []
    rw [all, List.getLastD_concat]
  rw [CutReads, last]
  rfl

/-! ## Entries in two parts -/

variable [DecidableEq Id]

theorem collect_append {seen : List Id} {first second : List (Reading Id Data)}
    (reads : ∀ r ∈ first, ¬ r.Stops)
    (fresh : (first.filterMap Reading.id?).Nodup)
    (unseen : ∀ id ∈ first.filterMap Reading.id?, id ∉ seen) :
    collect seen (first ++ second) =
      collect seen first ++ collect ((first.filterMap Reading.id?).reverse ++ seen) second := by
  induction first generalizing seen with
  | nil => rfl
  | cons r rest ih =>
    cases r with
    | stop => exact absurd trivial (reads _ List.mem_cons_self)
    | usage id outcome =>
      cases outcome with
      | raises => exact absurd trivial (reads _ List.mem_cons_self)
      | gives entry =>
        have ids : (Reading.usage id (.gives entry) :: rest).filterMap Reading.id? =
            id :: rest.filterMap Reading.id? := rfl
        rw [ids] at fresh unseen ⊢
        obtain ⟨own, freshRest⟩ := List.nodup_cons.mp fresh
        have here : id ∉ seen := unseen id List.mem_cons_self
        have later : ∀ other ∈ rest.filterMap Reading.id?, other ∉ id :: seen := by
          intro other mem
          refine List.not_mem_cons_of_ne_of_not_mem ?_ (unseen other (List.mem_cons_of_mem id mem))
          rintro rfl
          exact own mem
        simp only [List.cons_append, collect, if_neg here]
        rw [ih (fun r hr => reads r (List.mem_cons_of_mem _ hr)) freshRest later,
          List.append_assoc, List.reverse_cons, List.append_assoc]
        rfl

theorem collect_unseen {seen : List Id} {all : List (Reading Id Data)}
    (unseen : ∀ id ∈ all.filterMap Reading.id?, id ∉ seen) (seen' : List Id) :
    collect (seen' ++ seen) all = collect seen' all := by
  induction all generalizing seen' with
  | nil => rfl
  | cons r rest ih =>
    cases r with
    | stop => rfl
    | usage id outcome =>
      have ids : (Reading.usage id outcome :: rest).filterMap Reading.id? =
          id :: rest.filterMap Reading.id? := rfl
      rw [ids] at unseen
      have later : ∀ other ∈ rest.filterMap Reading.id?, other ∉ seen :=
        fun other mem => unseen other (List.mem_cons_of_mem id mem)
      have same : id ∈ seen' ++ seen ↔ id ∈ seen' := by
        rw [List.mem_append]
        exact or_iff_left (unseen id List.mem_cons_self)
      simp only [collect, same]
      by_cases mem : id ∈ seen'
      · rw [if_pos mem, if_pos mem, ih later seen']
      · rw [if_neg mem, if_neg mem]
        cases outcome with
        | raises => rfl
        | gives entry => exact congrArg (entry.toList ++ ·) (ih later (id :: seen'))

/-- The message ids of the usage lines are all different. -/
def OwnIds (parser : JsonlParser Id Data) (t : List Char) : Prop :=
  ((parser.readings (lines t)).filterMap Reading.id?).Nodup

instance (t : List Char) : Decidable (parser.OwnIds t) :=
  inferInstanceAs (Decidable (List.Nodup _))

/-- The cut line reads as its pieces, and nothing before it ends a file that goes on. -/
structure ReadsOn (parser : JsonlParser Id Data) (t u : List Char) : Prop where
  reads : parser.readings (lines u) ≠ [] → ∀ r ∈ parser.readings (lines t), ¬ r.Stops
  cut : parser.CutReads t u

omit [DecidableEq Id] in
theorem OwnIds.left {t u : List Char} (own : parser.OwnIds (t ++ u)) (cut : parser.CutReads t u) :
    parser.OwnIds t := by
  rw [OwnIds, readings_lines_append cut, List.filterMap_append] at own
  exact own.of_append_left

theorem parseFile_encode (t : List Char) :
    parser.parseFile (Utf8.encode t) = collect [] (parser.readings (lines t)) := by
  rw [parseFile, Utf8.decode_encode]

/-- The file is read as its two parts are. -/
theorem parseFile_append {before tail : List UInt8} {t u : List Char}
    (ht : Utf8.decode before = some t) (hu : Utf8.decode tail = some u)
    (on : parser.ReadsOn t u) (own : parser.OwnIds (t ++ u)) :
    parser.parseFile (before ++ tail) = parser.parseFile before ++ parser.parseFile tail := by
  have all := Utf8.decode_append ht hu
  rw [OwnIds, readings_lines_append on.cut, List.filterMap_append, List.nodup_append] at own
  obtain ⟨first, _, apart⟩ := own
  simp only [parseFile, all, ht, hu]
  rw [readings_lines_append on.cut]
  by_cases goesOn : parser.readings (lines u) = []
  · rw [goesOn, List.append_nil]
    exact (List.append_nil _).symm
  rw [collect_append (on.reads goesOn) first fun _ _ => List.not_mem_nil, List.append_nil]
  have unseen : ∀ id ∈ (parser.readings (lines u)).filterMap Reading.id?,
      id ∉ ((parser.readings (lines t)).filterMap Reading.id?).reverse :=
    fun id mem seen => apart id (List.mem_reverse.mp seen) id mem rfl
  exact congrArg _ (collect_unseen unseen [])

/-! ## Tails -/

omit [DecidableEq Id] in
theorem completeTail_initial (content : List UInt8) (start : ℕ) :
    completeTail content start <+: content.drop start :=
  List.rdropWhile_prefix _ _

/-- A file that ends with a line feed is read to its end. -/
theorem completeTail_ended {content : List UInt8} {start : ℕ} (ends : content.getLast? = some 10) :
    completeTail content start = content.drop start := by
  rw [completeTail, List.rdropWhile_eq_self_iff]
  intro rest
  have last := List.getLast_drop rest
  rw [List.getLast?_eq_some_getLast (by rintro rfl; cases ends)] at ends
  rw [last, Option.some.inj ends]
  decide

theorem take_completeTail (content : List UInt8) (start : ℕ) :
    content.take (start + (completeTail content start).length) =
      content.take start ++ completeTail content start := by
  rw [List.take_add]
  exact congrArg _ (List.prefix_iff_eq_take.mp (completeTail_initial content start)).symm

/-- What a tail gives: nothing when it has no whole line, else what a file of it gives. -/
theorem parseTail_eq_some {content : List UInt8} {start safe : ℕ} {entries : List (Str × Data)}
    (h : parser.parseTail content start = some (entries, safe)) :
    safe = start + (completeTail content start).length ∧
      ((completeTail content start = [] ∧ entries = []) ∨
        ∃ u, completeTail content start ≠ [] ∧ Utf8.decode (completeTail content start) = some u ∧
          entries = parser.parseFile (completeTail content start)) := by
  obtain ⟨⟨t, offset⟩, hread, result⟩ := Option.map_eq_some_iff.mp h
  simp only [completeJsonlTail] at hread
  split at hread
  · rename_i empty
    cases hread
    rw [if_pos rfl, Prod.mk.injEq] at result
    rw [empty]
    exact ⟨result.2.symm, .inl ⟨rfl, result.1.symm⟩⟩
  · rename_i some_
    obtain ⟨u, decoded, pair⟩ := Option.map_eq_some_iff.mp hread
    cases pair
    have whole := Utf8.decode_eq_some.mp decoded
    have text_ : t ≠ [] := by
      rintro rfl
      exact some_ whole
    rw [if_neg text_, Prod.mk.injEq, ← whole] at result
    exact ⟨result.2.symm, .inr ⟨t, some_, decoded, result.1.symm⟩⟩

end JsonlParser

end JsonlUsage
