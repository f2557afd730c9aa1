import Mathlib.Data.List.Sort
import LivingBalancer.Tokdash.JsonlParsers

/-!
# Quota snapshots in Codex rollout files

The snapshots of a `token_count` line, of a piece of a file, and the first of each hour.
`json.loads` of bytes finds the encoding first; its floats, the clock and `repr` are parameters.
-/

namespace QuotaSnapshots

open PyJson JsonlUsage

/-! ## Bytes as JSON -/

abbrev Bytes := List UInt8

def newline : UInt8 := 10

/-- UTF-8 with surrogates let through: `need` more bytes of a character that is at least `least`. -/
def utf8From (need least value : ℕ) : List ℕ → Option Str
  | [] => if need = 0 then some [] else none
  | b :: rest =>
    match need with
    | 0 =>
      if b < 0x80 then (utf8From 0 0 0 rest).map (b :: ·)
      else if 0xc2 ≤ b ∧ b < 0xe0 then utf8From 1 0x80 (b - 0xc0) rest
      else if 0xe0 ≤ b ∧ b < 0xf0 then utf8From 2 0x800 (b - 0xe0) rest
      else if 0xf0 ≤ b ∧ b < 0xf5 then utf8From 3 0x10000 (b - 0xf0) rest
      else none
    | more + 1 =>
      let next := value * 0x40 + (b - 0x80)
      if b < 0x80 ∨ 0xc0 ≤ b then none
      else if more = 0 then
        if least ≤ next ∧ next ≤ 0x10ffff then (utf8From 0 0 0 rest).map (next :: ·) else none
      else utf8From more least next rest

/-- The 16-bit units of a text; `none` for an odd byte. -/
def units16 (little : Bool) : List ℕ → Option (List ℕ)
  | [] => some []
  | [_] => none
  | a :: b :: rest =>
    (units16 little rest).map ((if little then b * 0x100 + a else a * 0x100 + b) :: ·)

def utf16 (little : Bool) (b : List ℕ) : Option Str :=
  (units16 little b).map fun units => joinSurrogates (units.map fun u => (true, u))

def utf32 (little : Bool) : List ℕ → Option Str
  | [] => some []
  | a :: b :: c :: d :: rest =>
    let n := if little then ((d * 0x100 + c) * 0x100 + b) * 0x100 + a
      else ((a * 0x100 + b) * 0x100 + c) * 0x100 + d
    if n ≤ 0x10ffff then (utf32 little rest).map (n :: ·) else none
  | _ => none

/-- `b.decode(detect_encoding(b), 'surrogatepass')`. -/
def decodeDetected (b : List ℕ) : Option Str :=
  match b with
  | 0 :: 0 :: 0xfe :: 0xff :: rest => utf32 false rest
  | 0xff :: 0xfe :: 0 :: 0 :: rest => utf32 true rest
  | 0xfe :: 0xff :: rest => utf16 false rest
  | 0xff :: 0xfe :: rest => utf16 true rest
  | 0xef :: 0xbb :: 0xbf :: rest => utf8From 0 0 0 rest
  | 0 :: c :: _ :: _ :: _ => if c = 0 then utf32 false b else utf16 false b
  | _ :: 0 :: c :: d :: _ => if c = 0 ∧ d = 0 then utf32 true b else utf16 true b
  | [0, _] => utf16 false b
  | [_, 0] => utf16 true b
  | _ => utf8From 0 0 0 b

/-! ## Snapshots -/

section Snapshots

variable {F G Cost : Type}

/-- `QuotaSnapshot`, with the rate limits of its `raw`. -/
structure QuotaSnapshot (F G : Type) where
  provider : Str
  account : Str
  bucket : Str
  bucketLabel : Str
  usedPercent : Option (PyFloat G)
  resetsAt : Option ℤ
  plan : Option Str
  capturedAt : ℤ
  source : Str
  status : Str
  raw : List (Str × JsonValue F)

/-- `float` and what is asked of a finite float, `str.isdigit` with `int`, and
`datetime.fromisoformat` in whole seconds. -/
structure QuotaRules (F G Cost : Type) extends Rules F Cost where
  repr_ne : ∀ v, repr v ≠ []
  toFloat : JsonValue F → Option (PyFloat G)
  isNegative : G → Bool
  isNull : G → Bool
  overTenBillion : G → Bool
  thousandth : G → G
  truncate : G → ℤ
  round4 : G → G
  digits : Str → Option (Option ℤ)
  isoSeconds : Str → Option ℤ

namespace QuotaRules

variable (rules : QuotaRules F G Cost)

def dictOr (v : JsonValue F) : List (Str × JsonValue F) :=
  match v with
  | .dict items => items
  | _ => []

/-- `int(number / 1000) if number > 10_000_000_000 else int(number)`. -/
def wholeSeconds : PyFloat G → Option ℤ
  | .finite x => some (rules.truncate (if rules.overTenBillion x then rules.thousandth x else x))
  | _ => none

/-- `_parse_time`. -/
def parseTime (value : JsonValue F) : Option ℤ :=
  match value with
  | .null => none
  | .bool _ | .int _ | .float _ => (rules.toFloat value).bind rules.wholeSeconds
  | _ =>
    let t := Sse.strip (rules.str value)
    if t = [] then none
    else
      match rules.digits t with
      | some n => n.bind fun n => (rules.toFloat (.int n)).bind rules.wholeSeconds
      | none => rules.isoSeconds (t.flatMap fun c => if c = code 'Z' then text "+00:00" else [c])

/-- `_normalize_percent` with `unit_interval_as_fraction=False`. -/
def normalizePercent (value : JsonValue F) : Option (PyFloat G) :=
  match value with
  | .null => none
  | _ =>
    (rules.toFloat value).bind fun pct =>
      match pct with
      | .finite x => if rules.isNegative x then none else some (.finite (rules.round4 x))
      | .infinity true => none
      | pct => some pct

/-- `_first_present`. -/
def firstPresent (data : List (Str × JsonValue F)) (keys : List String) : JsonValue F :=
  (keys.findSome? fun key => data.lookup (text key)).getD .null

/-- `not used_percent`. -/
def noneUsed : PyFloat G → Bool
  | .finite x => rules.isNull x
  | _ => false

/-- `_bucket_snapshot`. -/
def bucketSnapshot (rateLimits : List (Str × JsonValue F)) (bucket bucketLabel : Str)
    (bucketPayload : List (Str × JsonValue F)) (capturedAt : ℤ) : Option (QuotaSnapshot F G) :=
  (rules.normalizePercent
    (firstPresent bucketPayload ["used_percent", "usage_percent", "usedPercent"])).map fun used =>
    let accountId := Rules.getD rateLimits "account_id" .null
    let planType := Rules.getD rateLimits "plan_type" .null
    { provider := text "codex"
      account := if rules.truthy accountId then rules.str accountId else text "default"
      bucket := bucket
      bucketLabel := bucketLabel
      usedPercent := some used
      resetsAt := if rules.noneUsed used then none
        else rules.parseTime (firstPresent bucketPayload ["resets_at", "reset_at", "resetAt"])
      plan := if rules.truthy planType then some (rules.str planType) else none
      capturedAt := capturedAt
      source := text "codex_session"
      status := text "ok"
      raw := rateLimits }

/-- `snapshots_from_token_count_event`. -/
def snapshotsFromTokenCountEvent (obj : List (Str × JsonValue F)) : List (QuotaSnapshot F G) :=
  let payload := dictOr (Rules.getD obj "payload" .null)
  if Rules.isStr "event_msg" (Rules.getD obj "type" .null) &&
      Rules.isStr "token_count" (Rules.getD payload "type" .null) then
    match rules.parseTime (Rules.getD obj "timestamp" .null) with
    | none => []
    | some capturedAt =>
      let info := dictOr (Rules.getD payload "info" .null)
      let own := dictOr (Rules.getD payload "rate_limits" .null)
      let rateLimits := if own.isEmpty then dictOr (Rules.getD info "rate_limits" .null) else own
      let primary := dictOr (Rules.getD rateLimits "primary" .null)
      let secondary := dictOr (Rules.getD rateLimits "secondary" .null)
      (if primary.isEmpty then []
        else (rules.bucketSnapshot rateLimits (text "5h") (text "5-hour window") primary
          capturedAt).toList) ++
        if secondary.isEmpty then []
        else (rules.bucketSnapshot rateLimits (text "7d") (text "7-day window") secondary
          capturedAt).toList
  else []

/-- The snapshots of one line. A blank line gives none, as a line that does not parse. -/
def lineSnapshots (line : Bytes) : List (QuotaSnapshot F G) :=
  if line.all fun b => b.toNat ∈ [9, 10, 11, 12, 13, 32] then []
  else
    match (decodeDetected (line.map UInt8.toNat)).bind (loads rules.fmt) with
    | some (.dict obj) => rules.snapshotsFromTokenCountEvent obj
    | _ => []

/-- `data.rfind(b"\n")`. -/
def rfindNewline : Bytes → Option ℕ
  | [] => none
  | b :: rest =>
    match rfindNewline rest with
    | some n => some (n + 1)
    | none => if b = newline then some 0 else none

/-- `data.split(b"\n")`. -/
def splitNewline : Bytes → List Bytes
  | [] => [[]]
  | b :: rest =>
    if b = newline then [] :: splitNewline rest
    else (splitNewline rest).modifyHead (b :: ·)

/-- `_snapshots_from_bytes`. -/
def snapshotsFromBytes (data : Bytes) : List (QuotaSnapshot F G) × ℕ :=
  match rfindNewline data with
  | none => ([], 0)
  | some lastNl =>
    ((splitNewline (data.take (lastNl + 1))).flatMap rules.lineSnapshots, lastNl + 1)

end QuotaRules

/-! ## The first of each hour -/

def hour (capturedAt : ℤ) : ℤ := capturedAt - capturedAt % 3600

namespace QuotaSnapshot

def hourKey (snap : QuotaSnapshot F G) : Str × Str × Str × ℤ :=
  (snap.provider, snap.account, snap.bucket, hour snap.capturedAt)

/-- `_downsample_snapshots`. -/
def downsample (snaps : List (QuotaSnapshot F G)) : List (QuotaSnapshot F G) :=
  ((snaps.insertionSort fun a b => a.capturedAt ≤ b.capturedAt).foldl
    (fun kept snap => kept.setdefault snap.hourKey snap) Dict.empty).values

end QuotaSnapshot

end Snapshots

/-! ## Lines of a file -/

section Lines

variable {content before after line : Bytes} {offset : ℕ}

/-- The start of a file, or just after a newline. -/
def AtLineStart (content : Bytes) (offset : ℕ) : Prop :=
  offset = 0 ∨ content[offset - 1]? = some newline

/-- A complete line of the file, without its newline, that ends before the offset. -/
def LineBefore (content : Bytes) (offset : ℕ) (line : Bytes) : Prop :=
  ∃ before after, content = before ++ (line ++ newline :: after) ∧ newline ∉ line ∧
    AtLineStart before before.length ∧ before.length + line.length < offset

theorem atLineStart_append_newline (before : Bytes) :
    AtLineStart (before ++ [newline]) (before ++ [newline]).length := by
  right
  simp

theorem AtLineStart.eq_append (h : AtLineStart before before.length) :
    before = [] ∨ ∃ start, before = start ++ [newline] := by
  obtain rfl | ⟨start, b, rfl⟩ := List.eq_nil_or_concat before
  · exact .inl rfl
  · right
    refine ⟨start, ?_⟩
    obtain empty | last := h
    · simp at empty
    · simpa using last

theorem AtLineStart.exists_append (h : AtLineStart content offset) :
    ∃ before after, content = before ++ after ∧ before.length = offset ∧
      AtLineStart before before.length := by
  by_cases start : offset = 0
  · exact ⟨[], content, rfl, start.symm, .inl rfl⟩
  · have last := h.resolve_left start
    have bound := (List.getElem?_eq_some_iff.mp last).1
    have length : (content.take offset).length = offset := List.length_take_of_le (by omega)
    refine ⟨content.take offset, content.drop offset, (List.take_append_drop _ _).symm, length, ?_⟩
    right
    rw [length, List.getElem?_take_of_lt (by omega)]
    exact last

theorem AtLineStart.le_length (h : AtLineStart content offset) :
    offset ≤ content.length := by
  obtain ⟨before, after, rfl, rfl, _⟩ := h.exists_append
  rw [List.length_append]
  exact Nat.le_add_right _ _

theorem AtLineStart.append (h : AtLineStart content offset) (more : Bytes) :
    AtLineStart (content ++ more) offset := by
  refine h.imp id fun last => ?_
  rw [List.getElem?_append_left (List.getElem?_eq_some_iff.mp last).1]
  exact last

theorem AtLineStart.append_start (first : AtLineStart before before.length)
    (second : AtLineStart after after.length) :
    AtLineStart (before ++ after) (before ++ after).length := by
  obtain rfl | ⟨start, rfl⟩ := second.eq_append
  · rwa [List.append_nil]
  · rw [← List.append_assoc]
    exact atLineStart_append_newline _

end Lines

section Splitting

variable {F G Cost : Type} {rules : QuotaRules F G Cost} {content before after line data : Bytes}
variable {offset : ℕ}

open QuotaRules

theorem splitNewline_ne_nil (data : Bytes) : splitNewline data ≠ [] := by
  induction data with
  | nil => exact List.cons_ne_nil [] []
  | cons b rest ih =>
    rw [splitNewline]
    split
    · exact List.cons_ne_nil _ _
    · rwa [ne_eq, List.modifyHead_eq_nil_iff]

theorem splitNewline_append (before after : Bytes) :
    splitNewline (before ++ newline :: after) = splitNewline before ++ splitNewline after := by
  induction before with
  | nil => simp [splitNewline]
  | cons b rest ih =>
    rw [List.cons_append, splitNewline, splitNewline, ih]
    split
    · rfl
    · obtain ⟨head, tail, same⟩ := List.exists_cons_of_ne_nil (splitNewline_ne_nil rest)
      rw [same]
      rfl

theorem splitNewline_of_not_mem (plain : newline ∉ line) : splitNewline line = [line] := by
  induction line with
  | nil => rfl
  | cons b rest ih =>
    rw [List.mem_cons, not_or] at plain
    rw [splitNewline, if_neg (Ne.symm plain.1), ih plain.2]
    rfl

theorem LineBefore.mem_split (h : LineBefore content offset line) :
    line ∈ splitNewline (content.take offset) := by
  obtain ⟨before, after, rfl, plain, start, ends⟩ := h
  obtain ⟨rest, same⟩ : ∃ rest, (before ++ (line ++ newline :: after)).take offset =
      before ++ (line ++ newline :: rest) := by
    obtain ⟨more, rfl⟩ : ∃ more, offset = (before ++ (line ++ [newline])).length + more := by
      refine ⟨offset - (before.length + line.length + 1), ?_⟩
      simp only [List.length_append, List.length_singleton]
      omega
    refine ⟨after.take more, ?_⟩
    have whole : before ++ (line ++ newline :: after) = (before ++ (line ++ [newline])) ++ after := by
      simp
    rw [whole, List.take_length_add_append]
    simp
  rw [same]
  have own : line ∈ splitNewline (line ++ newline :: rest) := by
    rw [splitNewline_append, splitNewline_of_not_mem plain]
    exact List.mem_cons_self
  obtain rfl | ⟨first, rfl⟩ := start.eq_append
  · exact own
  · rw [List.append_assoc, List.singleton_append, splitNewline_append]
    exact List.mem_append_right _ own

/-- The snapshots of the lines of some bytes. -/
def snapshotsOf (rules : QuotaRules F G Cost) (data : Bytes) : List (QuotaSnapshot F G) :=
  (splitNewline data).flatMap rules.lineSnapshots

theorem lineSnapshots_nil : rules.lineSnapshots [] = [] := rfl

theorem snapshotsOf_append (start : AtLineStart before before.length) :
    snapshotsOf rules (before ++ after) = snapshotsOf rules before ++ snapshotsOf rules after := by
  obtain rfl | ⟨first, rfl⟩ := start.eq_append
  · simp [snapshotsOf, splitNewline, lineSnapshots_nil]
  · rw [List.append_assoc, List.singleton_append, snapshotsOf, snapshotsOf, snapshotsOf,
      splitNewline_append, splitNewline_append]
    simp [splitNewline, lineSnapshots_nil]

theorem rfindNewline_eq_none : rfindNewline data = none ↔ newline ∉ data := by
  induction data with
  | nil => simp [rfindNewline]
  | cons b rest ih =>
    rw [rfindNewline, List.mem_cons, not_or]
    cases found : rfindNewline rest with
    | some n =>
      have there : newline ∈ rest := by
        by_contra absent
        rw [ih.mpr absent] at found
        cases found
      simp [there]
    | none => 
      by_cases own : b = newline <;> simp [own, ih.mp found, Ne.symm]

theorem rfindNewline_eq_some {n : ℕ} (h : rfindNewline data = some n) :
    ∃ before after, data = before ++ newline :: after ∧ before.length = n ∧ newline ∉ after := by
  induction data generalizing n with
  | nil => cases h
  | cons b rest ih =>
    rw [rfindNewline] at h
    cases found : rfindNewline rest with
    | some m =>
      rw [found] at h
      cases h
      obtain ⟨before, after, rfl, rfl, plain⟩ := ih found
      exact ⟨b :: before, after, rfl, rfl, plain⟩
    | none =>
      rw [found] at h
      by_cases own : b = newline
      · subst own
        cases h
        exact ⟨[], rest, rfl, rfl, rfindNewline_eq_none.mp found⟩
      · simp [own] at h

/-- The lines up to the last newline are read, and nothing behind it. -/
theorem snapshotsFromBytes_spec (rules : QuotaRules F G Cost) (data : Bytes) :
    ∃ read rest, data = read ++ rest ∧ AtLineStart read read.length ∧ newline ∉ rest ∧
      rules.snapshotsFromBytes data = (snapshotsOf rules read, read.length) := by
  rw [snapshotsFromBytes]
  cases found : rfindNewline data with
  | none => exact ⟨[], data, rfl, .inl rfl, rfindNewline_eq_none.mp found, rfl⟩
  | some n =>
    obtain ⟨before, after, rfl, rfl, plain⟩ := rfindNewline_eq_some found
    have whole : before ++ newline :: after = (before ++ [newline]) ++ after := by simp
    refine ⟨before ++ [newline], after, whole, atLineStart_append_newline before, plain, ?_⟩
    have length : before.length + 1 = (before ++ [newline]).length := by simp
    simp only [length]
    rw [whole, List.take_left]
    rfl

end Splitting

/-! ## What the first of each hour stands for -/

section Downsample

variable {F G : Type} {snaps : List (QuotaSnapshot F G)} {snap kept : QuotaSnapshot F G}

theorem mem_downsample : kept ∈ QuotaSnapshot.downsample snaps ↔ ∃ k,
    ((snaps.insertionSort fun a b => a.capturedAt ≤ b.capturedAt).find? fun snap =>
      decide (snap.hourKey = k)) = some kept := by
  simp only [QuotaSnapshot.downsample, Dict.mem_values, Dict.get_setdefault_all, Dict.get_empty,
    Option.none_or]

theorem mem_of_mem_downsample (h : kept ∈ QuotaSnapshot.downsample snaps) : kept ∈ snaps := by
  obtain ⟨k, found⟩ := mem_downsample.mp h
  exact (List.mem_insertionSort _).mp (List.mem_of_find?_eq_some found)

/-- Every snapshot is in the hour of one that is kept and not later. -/
theorem downsample_covers (mem : snap ∈ snaps) :
    ∃ kept ∈ QuotaSnapshot.downsample snaps, kept.hourKey = snap.hourKey ∧
      kept.capturedAt ≤ snap.capturedAt := by
  have sorted := List.pairwise_insertionSort
    (fun a b : QuotaSnapshot F G => a.capturedAt ≤ b.capturedAt) snaps
  have there := (List.mem_insertionSort
    (fun a b : QuotaSnapshot F G => a.capturedAt ≤ b.capturedAt)).mpr mem
  cases found : (snaps.insertionSort fun a b => a.capturedAt ≤ b.capturedAt).find?
      fun other => decide (other.hourKey = snap.hourKey) with
  | none =>
    have other := List.find?_eq_none.mp found snap there
    simp at other
  | some kept =>
    have own := List.find?_some found
    refine ⟨kept, mem_downsample.mpr ⟨_, found⟩, of_decide_eq_true own, ?_⟩
    obtain ⟨_, earlier, later, same, before⟩ := List.find?_eq_some_iff_append.mp found
    rw [same] at there sorted
    obtain first | behind := List.mem_append.mp there
    · have other := before snap first
      simp at other
    · obtain rfl | behind := List.mem_cons.mp behind
      · exact le_refl _
      · exact List.rel_of_pairwise_cons (List.pairwise_append.mp sorted).2.1 behind

end Downsample
end QuotaSnapshots
