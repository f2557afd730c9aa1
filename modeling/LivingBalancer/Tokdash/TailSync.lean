import LivingBalancer.Tokdash.FileSync
import LivingBalancer.Tokdash.JsonlParsers

/-!
# Syncs of tails

A sync reads the tail of a file that has grown from the size that the last sync stored. That
size is the end of a line after a tail, but the end of the file after a whole parse. `Tracks`
says that the rows of the file are those of the bytes before the stored size; a tail keeps it
when nothing before the tail raises and the line at the stored size reads as its two pieces.
-/

namespace UsageStore

variable {Path Key Data Config : Type} [DecidableEq Path] [DecidableEq Key]

/-! ## The rows of one file -/

namespace Store

variable {s : Store Path Key Data Config} {config : Config} {path : Path} {k : Key} {data : Data}
  {parsed : List (Parsed Path Key Data)}

/-- A row of a file after the writes: of an entry of it, or one that its tail left alone. -/
theorem writeAll_from
    (h : (parsed.foldl (Store.write config) s).rows.get k = some ⟨path, data⟩) :
    (∃ p ∈ parsed, p.file.path = path ∧ lastEntry k p.entries = some data) ∨
      (s.rows.get k = some ⟨path, data⟩ ∧ ∀ p ∈ parsed, p.file.path = path →
        p.appended = true ∧ lastEntry k p.entries = none) := by
  induction parsed generalizing s with
  | nil => exact .inr ⟨h, List.forall_mem_nil _⟩
  | cons p rest ih =>
    rcases ih h with ⟨q, hq, own, gives⟩ | ⟨before, others⟩
    · exact .inl ⟨q, List.mem_cons_of_mem p hq, own, gives⟩
    · rw [write_get] at before
      cases hlast : lastEntry k p.entries with
      | some given =>
        rw [hlast] at before
        cases before
        exact .inl ⟨p, List.mem_cons_self, rfl, hlast⟩
      | none =>
        rw [hlast, Option.map_none, Option.none_or, Option.filter_eq_some_iff] at before
        obtain ⟨old, kept⟩ := before
        refine .inr ⟨old, ?_⟩
        intro q hq own
        rcases List.mem_cons.mp hq with rfl | tail
        · simp only [own, ne_eq, not_true_eq_false, decide_false, Bool.or_false] at kept
          exact ⟨kept, hlast⟩
        · exact others q tail own

/-- The rows of a file after the writes, when no other file gives the key. -/
theorem writeAll_to (distinct : (parsed.map (·.file.path)).Nodup)
    (elsewhere : ∀ p ∈ parsed, p.file.path ≠ path → lastEntry k p.entries = none)
    (h : (∃ p ∈ parsed, p.file.path = path ∧ lastEntry k p.entries = some data) ∨
      (s.rows.get k = some ⟨path, data⟩ ∧ ∀ p ∈ parsed, p.file.path = path →
        p.appended = true ∧ lastEntry k p.entries = none)) :
    (parsed.foldl (Store.write config) s).rows.get k = some ⟨path, data⟩ := by
  induction parsed generalizing s with
  | nil =>
    rcases h with ⟨p, hp, _⟩ | ⟨row, _⟩
    · cases hp
    · exact row
  | cons p rest ih =>
    obtain ⟨fresh, distinctRest⟩ := List.nodup_cons.mp distinct
    have elsewhereRest : ∀ q ∈ rest, q.file.path ≠ path → lastEntry k q.entries = none :=
      fun q hq => elsewhere q (List.mem_cons_of_mem p hq)
    have written := write_get (s := s) config p k
    refine ih distinctRest elsewhereRest ?_
    by_cases own : p.file.path = path
    · have others : ∀ q ∈ rest, q.file.path ≠ path := by
        intro q hq same
        exact fresh (List.mem_map.mpr ⟨q, hq, same.trans own.symm⟩)
      refine .inr ⟨?_, fun q hq same => absurd same (others q hq)⟩
      rcases h with ⟨q, hq, same, gives⟩ | ⟨row, kept⟩
      · rcases List.mem_cons.mp hq with rfl | tail
        · rw [written, gives, ← own]
          rfl
        · exact absurd same (others q tail)
      · obtain ⟨appended, nothing⟩ := kept p List.mem_cons_self own
        rw [written, nothing, appended, row]
        rfl
    · rw [elsewhere p List.mem_cons_self own, Option.map_none, Option.none_or] at written
      rcases h with ⟨q, hq, same, gives⟩ | ⟨row, kept⟩
      · rcases List.mem_cons.mp hq with rfl | tail
        · exact absurd same own
        · exact .inl ⟨q, tail, same, gives⟩
      · refine .inr ⟨?_, fun q hq => kept q (List.mem_cons_of_mem p hq)⟩
        rw [written, row]
        simp [Ne.symm own]

end Store

/-! ## What a sync parses -/

namespace Store

variable [DecidableEq Config] {s : Store Path Key Data Config} {config : Config}
  {readers : Readers Path Key Data} {file : FileSig Path}

omit [DecidableEq Key] in
theorem parse_file : (s.parse config readers file).file = file := by
  simp only [parse]
  split <;> rfl

omit [DecidableEq Key] in
/-- A parse is of the tail, when that can be read, or of the whole file. -/
theorem parse_cases (s : Store Path Key Data Config) (config : Config)
    (readers : Readers Path Key Data) (file : FileSig Path) :
    (∃ parseTail start entries safe, readers.parseTail = some parseTail ∧
      s.tailStart config file = some start ∧ parseTail file start = some (entries, safe) ∧
      s.parse config readers file = ⟨file, entries, safe, true⟩) ∨
    s.parse config readers file = ⟨file, readers.parseFile file, file.size, false⟩ := by
  simp only [parse]
  split
  · rename_i entries safe tail
    obtain ⟨parseTail, hreader, tail⟩ := Option.bind_eq_some_iff.mp tail
    obtain ⟨start, hstart, tail⟩ := Option.bind_eq_some_iff.mp tail
    exact .inl ⟨parseTail, start, entries, safe, hreader, hstart, tail, rfl⟩
  · exact .inr rfl

omit [DecidableEq Key] in
theorem tailStart_eq_some {start : ℕ} (h : s.tailStart config file = some start) :
    ∃ state, s.files.get file.path = some state ∧ state.missing = false ∧
      start = (if state.size ≠ 0 then state.size else state.safeOffset) ∧ start < file.size := by
  simp only [tailStart] at h
  split at h
  · cases h
  · rename_i state known
    rw [Option.ite_none_right_eq_some, Option.some.injEq] at h
    obtain ⟨grown, rfl⟩ := h
    simp only [Bool.and_eq_true, Bool.not_eq_true', decide_eq_true_eq] at grown
    exact ⟨state, known, grown.1.1, rfl, grown.1.2⟩

/-- A key that some reader gives for the file. -/
def GivenBy (readers : Readers Path Key Data) (file : FileSig Path) (k : Key) : Prop :=
  k ∈ (readers.parseFile file).map Prod.fst ∨
    ∃ parseTail start entries safe, readers.parseTail = some parseTail ∧
      parseTail file start = some (entries, safe) ∧ k ∈ entries.map Prod.fst

omit [DecidableEq Key] in
theorem parse_givenBy {k : Key} (h : k ∈ (s.parse config readers file).entries.map Prod.fst) :
    GivenBy readers file k := by
  rcases parse_cases s config readers file with
    ⟨parseTail, start, entries, safe, hreader, _, tail, parsed⟩ | parsed
  · rw [parsed] at h
    exact .inr ⟨parseTail, start, entries, safe, hreader, tail, h⟩
  · rw [parsed] at h
    exact .inl h

variable {keepMissing : Bool} {files : List (FileSig Path)}

omit [DecidableEq Key] in
theorem parsed_distinct (distinct : (files.map (·.path)).Nodup) :
    (((files.filter (s.changed config)).map (s.parse config readers)).map
      (·.file.path)).Nodup := by
  have paths : ((files.filter (s.changed config)).map (s.parse config readers)).map
      (·.file.path) = (files.filter (s.changed config)).map (·.path) := by
    rw [List.map_map]
    exact List.map_congr_left fun file _ => congrArg FileSig.path parse_file
  rw [paths]
  exact distinct.sublist (List.filter_sublist.map _)

omit [DecidableEq Config] in
/-- The rows of a current file are kept by the removals. -/
theorem removeAll_own (s : Store Path Key Data Config) (keepMissing : Bool) (k : Key)
    (data : Data) {path : Path} (current : ∃ file ∈ files, file.path = path) :
    ((s.removedPaths keepMissing files).foldl (fun s path => s.remove keepMissing path)
      s).rows.get k = some ⟨path, data⟩ ↔ s.rows.get k = some ⟨path, data⟩ := by
  obtain ⟨file, mem, rfl⟩ := current
  have stays : file.path ∉ s.removedPaths keepMissing files :=
    fun removed => (History.mem_removedPaths.mp removed).1 file mem rfl
  rw [removeAll_get, Option.filter_eq_some_iff]
  simp only [stays, not_false_eq_true, decide_true, Bool.or_true, and_true]

/-- The rows of a file that is not parsed again. -/
theorem sync_rows_kept {file : FileSig Path} {k : Key} {data : Data} (mem : file ∈ files)
    (distinct : (files.map (·.path)).Nodup) (same : s.changed config file = false)
    (elsewhere : s.rows.get k = some ⟨file.path, data⟩ →
      ∀ other ∈ files, other.path ≠ file.path → ¬ GivenBy readers other k) :
    (s.syncFiles config readers keepMissing files).1.rows.get k = some ⟨file.path, data⟩ ↔
      s.rows.get k = some ⟨file.path, data⟩ := by
  have apart : ∀ p ∈ (files.filter (s.changed config)).map (s.parse config readers),
      p.file.path ≠ file.path := by
    intro p hp own
    obtain ⟨other, hother, rfl⟩ := List.mem_map.mp hp
    obtain ⟨listed, reparsed⟩ := List.mem_filter.mp hother
    rw [parse_file] at own
    rw [List.inj_on_of_nodup_map distinct listed mem own, same] at reparsed
    cases reparsed
  have removal := removeAll_own s keepMissing k data ⟨file, mem, rfl⟩
  rw [History.syncFiles_eq]
  refine Iff.trans ?_ removal
  constructor
  · intro after
    rcases writeAll_from after with ⟨p, hp, own, _⟩ | ⟨row, _⟩
    · exact absurd own (apart p hp)
    · exact row
  · intro row
    refine writeAll_to (parsed_distinct distinct) ?_ (.inr ⟨row, ?_⟩)
    · intro p hp other
      obtain ⟨file', hfile, rfl⟩ := List.mem_map.mp hp
      rw [parse_file] at other
      refine lastEntry_eq_none.mpr fun gives => ?_
      exact elsewhere (removal.mp row) file' (List.mem_filter.mp hfile).1 other (parse_givenBy gives)
    · exact fun p hp own => absurd own (apart p hp)

/-- The rows of a file that is parsed again: of the parse, and with a tail the old ones. -/
theorem sync_rows_parsed {file : FileSig Path} {k : Key} {data : Data} (mem : file ∈ files)
    (distinct : (files.map (·.path)).Nodup) (reparsed : s.changed config file = true)
    (elsewhere : lastEntry k (s.parse config readers file).entries = some data ∨
      (s.rows.get k = some ⟨file.path, data⟩ ∧ (s.parse config readers file).appended = true ∧
        lastEntry k (s.parse config readers file).entries = none) →
      ∀ other ∈ files, other.path ≠ file.path → ¬ GivenBy readers other k) :
    (s.syncFiles config readers keepMissing files).1.rows.get k = some ⟨file.path, data⟩ ↔
      lastEntry k (s.parse config readers file).entries = some data ∨
        (s.rows.get k = some ⟨file.path, data⟩ ∧ (s.parse config readers file).appended = true ∧
          lastEntry k (s.parse config readers file).entries = none) := by
  have listed : s.parse config readers file ∈
      (files.filter (s.changed config)).map (s.parse config readers) :=
    List.mem_map.mpr ⟨file, List.mem_filter.mpr ⟨mem, reparsed⟩, rfl⟩
  have only : ∀ p ∈ (files.filter (s.changed config)).map (s.parse config readers),
      p.file.path = file.path → p = s.parse config readers file := by
    intro p hp own
    obtain ⟨other, hother, rfl⟩ := List.mem_map.mp hp
    rw [parse_file] at own
    rw [List.inj_on_of_nodup_map distinct (List.mem_filter.mp hother).1 mem own]
  have removal := removeAll_own s keepMissing k data ⟨file, mem, rfl⟩
  rw [History.syncFiles_eq]
  constructor
  · intro after
    rcases writeAll_from after with ⟨p, hp, own, gives⟩ | ⟨row, others⟩
    · rw [only p hp own] at gives
      exact .inl gives
    · exact .inr ⟨removal.mp row, others _ listed (congrArg FileSig.path parse_file)⟩
  · intro cases
    refine writeAll_to (parsed_distinct distinct) ?_ ?_
    · intro p hp other
      obtain ⟨file', hfile, rfl⟩ := List.mem_map.mp hp
      rw [parse_file] at other
      refine lastEntry_eq_none.mpr fun gives => ?_
      exact elsewhere cases file' (List.mem_filter.mp hfile).1 other (parse_givenBy gives)
    · rcases cases with gives | ⟨row, kept⟩
      · exact .inl ⟨_, listed, congrArg FileSig.path parse_file, gives⟩
      · refine .inr ⟨removal.mpr row, ?_⟩
        intro p hp own
        rw [only p hp own]
        exact kept

end Store

namespace Store

variable [DecidableEq Config] {s : Store Path Key Data Config} {config : Config}
  {readers : Readers Path Key Data} {keepMissing : Bool} {files : List (FileSig Path)}

theorem sync_files_parsed {file : FileSig Path} (mem : file ∈ files)
    (distinct : (files.map (·.path)).Nodup) (reparsed : s.changed config file = true) :
    (s.syncFiles config readers keepMissing files).1.files.get file.path =
      some ⟨file.mtimeNs, (s.parse config readers file).safeOffset,
        (s.parse config readers file).safeOffset, false,
        ⟨⟨file.path, file.mtimeNs, (s.parse config readers file).safeOffset⟩, config⟩⟩ := by
  have listed : s.parse config readers file ∈
      (files.filter (s.changed config)).map (s.parse config readers) :=
    List.mem_map.mpr ⟨file, List.mem_filter.mpr ⟨mem, reparsed⟩, rfl⟩
  have written (kept : Store Path Key Data Config) :
      (((files.filter (s.changed config)).map (s.parse config readers)).foldl (Store.write config)
        kept).files.get (s.parse config readers file).file.path = _ :=
    Store.writeAll_files listed (parsed_distinct distinct)
  rw [parse_file] at written
  rw [History.syncFiles_eq]
  exact written _

theorem sync_files_other {path : Path}
    (other : ∀ file ∈ files, s.changed config file = true → file.path ≠ path) :
    (s.syncFiles config readers keepMissing files).1.files.get path =
      if path ∈ s.removedPaths keepMissing files then
        if keepMissing then (s.files.get path).map fun state => { state with missing := true }
        else none
      else s.files.get path := by
  rw [History.syncFiles_eq, Store.writeAll_files_other, Store.removeAll_files]
  intro p hp
  obtain ⟨file, hfile, rfl⟩ := List.mem_map.mp hp
  obtain ⟨mem, reparsed⟩ := List.mem_filter.mp hfile
  rw [parse_file]
  exact other file mem reparsed

theorem sync_files_same {file : FileSig Path} (mem : file ∈ files)
    (distinct : (files.map (·.path)).Nodup) (same : s.changed config file = false) :
    (s.syncFiles config readers keepMissing files).1.files.get file.path =
      s.files.get file.path := by
  rw [sync_files_other, if_neg]
  · exact fun removed => (History.mem_removedPaths.mp removed).1 file mem rfl
  · intro other hother reparsed own
    rw [List.inj_on_of_nodup_map distinct hother mem own, same] at reparsed
    cases reparsed

/-- A file that is not in the file set is not known any more, or missing. -/
theorem sync_files_absent {path : Path} {state : FileState Path Config}
    (absent : ∀ file ∈ files, file.path ≠ path)
    (after : (s.syncFiles config readers keepMissing files).1.files.get path = some state) :
    state.missing = true := by
  rw [sync_files_other fun file mem _ => absent file mem] at after
  by_cases removed : path ∈ s.removedPaths keepMissing files
  · rw [if_pos removed, Option.ite_none_right_eq_some] at after
    obtain ⟨old, _, rfl⟩ := Option.map_eq_some_iff.mp after.2
    rfl
  · rw [if_neg removed] at after
    cases gone : state.missing with
    | true => rfl
    | false =>
      exact absurd (History.mem_removedPaths.mpr ⟨absent, state, after, .inr gone⟩) removed

end Store

end UsageStore

namespace JsonlUsage

open PyJson UsageStore

variable {Path Id Data Config : Type}

/-- How the files of a source are read: JSONL files line by line, others whole. -/
structure FileReader (Path Id Data : Type) where
  parser : JsonlParser Id Data
  isJsonl : Path → Bool
  parseOther : List UInt8 → List (Str × Data)

/-- The readers that `_sync_usage_store` passes, on what the files hold now. -/
def FileReader.readers [DecidableEq Id] (reader : FileReader Path Id Data)
    (contents : Path → List UInt8) : Readers Path Str Data where
  parseFile file :=
    if reader.isJsonl file.path then reader.parser.parseFile (contents file.path)
    else reader.parseOther (contents file.path)
  parseTail := some fun file start =>
    if reader.isJsonl file.path then reader.parser.parseTail (contents file.path) start else none

/-- One call, with what the files hold at it; a file set has every path once. -/
structure TailCall (Path : Type) where
  contents : Path → List UInt8
  files : List (FileSig Path)
  distinct : (files.map (·.path)).Nodup
  durable : Bool

variable [DecidableEq Path] [DecidableEq Id] [DecidableEq Config]

section Run

variable (reader : FileReader Path Id Data) (config : Config) (path : Path)

def sync (s : Store Path Str Data Config) (call : TailCall Path) : Store Path Str Data Config :=
  (s.syncFiles config (reader.readers call.contents) call.durable call.files).1

def run (calls : List (TailCall Path)) : Store Path Str Data Config :=
  calls.foldl (sync reader config) .empty

/-- The file only grows, and every signature of it has its size. -/
structure Grows (calls : List (TailCall Path)) : Prop where
  appended : calls.Pairwise fun earlier later => earlier.contents path <+: later.contents path
  sized : ∀ call ∈ calls, ∀ file ∈ call.files, file.path = path →
    file.size = (call.contents path).length

/-- A tail of the file is read only where the line at the stored size reads as its two pieces,
behind text of which no line raises. -/
def TailsReadOn (s : Store Path Str Data Config) (call : TailCall Path) : Prop :=
  ∀ file ∈ call.files, file.path = path → s.changed config file = true →
    ∀ start, s.tailStart config file = some start →
      ∀ u, JsonlParser.completeTail (call.contents path) start ≠ [] →
        Utf8.decode (JsonlParser.completeTail (call.contents path) start) = some u →
        ∃ t, Utf8.decode ((call.contents path).take start) = some t ∧ reader.parser.ReadsOn t u

/-- No other file gives the key, read whole or from any offset. -/
def Elsewhere (calls : List (TailCall Path)) (k : Str) : Prop :=
  ∃ call ∈ calls, ∃ file ∈ call.files, file.path ≠ path ∧
    Store.GivenBy (reader.readers call.contents) file k

/-- Every usage line has its own message id, which is used nowhere else. -/
structure OwnMessageIds (calls : List (TailCall Path)) (content : List UInt8) : Prop where
  ids : ∀ t, Utf8.decode content = some t → reader.parser.OwnIds t
  keys : ∀ k ∈ (reader.parser.parseFile content).map Prod.fst, ¬ Elsewhere reader path calls k

/-- The rows of the file are those of the bytes before the stored size. -/
def Tracks (calls : List (TailCall Path)) (s : Store Path Str Data Config)
    (content : List UInt8) : Prop :=
  ∀ state, s.files.get path = some state → state.missing = false →
    state.size ≤ content.length ∧ state.safeOffset = state.size ∧
      state.signature.file.size = state.size ∧
      (OwnMessageIds reader path calls (content.take state.size) → ∀ k data,
        s.rows.get k = some ⟨path, data⟩ ↔
          lastEntry k (reader.parser.parseFile (content.take state.size)) = some data)

end Run

variable {reader : FileReader Path Id Data} {config : Config} {path : Path}
  {calls : List (TailCall Path)} {s : Store Path Str Data Config} {call : TailCall Path}

omit [DecidableEq Config] in
theorem Tracks.grow {content longer : List UInt8} (tracks : Tracks reader path calls s content)
    (grows : content <+: longer) : Tracks reader path calls s longer := by
  intro state known there
  obtain ⟨bound, offset, signed, rows⟩ := tracks state known there
  obtain ⟨appended, rfl⟩ := grows
  refine ⟨by rw [List.length_append]; omega, offset, signed, ?_⟩
  rw [List.take_append_of_le_length bound]
  exact rows

omit [DecidableEq Path] in
/-- What is read from the stored size on, and where the next read starts. -/
theorem tail_rows {content : List UInt8} {start safe : ℕ} {entries : List (Str × Data)}
    (read : reader.parser.parseTail content start = some (entries, safe))
    (on : ∀ u, JsonlParser.completeTail content start ≠ [] →
      Utf8.decode (JsonlParser.completeTail content start) = some u →
      ∃ t, Utf8.decode (content.take start) = some t ∧ reader.parser.ReadsOn t u)
    (own : OwnMessageIds reader path calls (content.take safe)) :
    OwnMessageIds reader path calls (content.take start) ∧
      reader.parser.parseFile (content.take safe) =
        reader.parser.parseFile (content.take start) ++ entries := by
  obtain ⟨rfl, ⟨empty, rfl⟩ | ⟨u, tail, hu, rfl⟩⟩ := JsonlParser.parseTail_eq_some read
  · rw [empty, List.length_nil, Nat.add_zero] at own ⊢
    exact ⟨own, (List.append_nil _).symm⟩
  · obtain ⟨t, ht, readsOn⟩ := on u tail hu
    rw [JsonlParser.take_completeTail] at own ⊢
    have ids := own.ids _ (Utf8.decode_append ht hu)
    have split := JsonlParser.parseFile_append ht hu readsOn ids
    refine ⟨⟨?_, ?_⟩, split⟩
    · intro t' ht'
      rw [ht] at ht'
      cases ht'
      exact ids.left readsOn.cut
    · intro k mem
      refine own.keys k ?_
      rw [split, List.map_append]
      exact List.mem_append_left _ mem

/-- One call keeps the rows of the file in step with the size that it stores. -/
theorem Tracks.sync (tracks : Tracks reader path calls s (call.contents path))
    (jsonl : reader.isJsonl path = true) (mem : call ∈ calls)
    (sized : ∀ file ∈ call.files, file.path = path → file.size = (call.contents path).length)
    (readOn : TailsReadOn reader config path s call) :
    Tracks reader path calls (sync reader config s call) (call.contents path) := by
  intro state known there
  by_cases listed : ∃ file ∈ call.files, file.path = path
  · obtain ⟨file, hfile, rfl⟩ := listed
    have apart : ∀ k, ¬ Elsewhere reader file.path calls k → ∀ other ∈ call.files,
        other.path ≠ file.path → ¬ Store.GivenBy (reader.readers call.contents) other k :=
      fun k only other hother ne gives => only ⟨call, mem, other, hother, ne, gives⟩
    cases reparsed : s.changed config file with
    | false =>
      have same : (JsonlUsage.sync reader config s call).files.get file.path =
          s.files.get file.path := Store.sync_files_same hfile call.distinct reparsed
      rw [same] at known
      obtain ⟨bound, offset, signed, rows⟩ := tracks state known there
      refine ⟨bound, offset, signed, fun own k data => ?_⟩
      rw [← rows own k data]
      refine Store.sync_rows_kept hfile call.distinct reparsed fun row => apart k ?_
      exact own.keys k (lastEntry_isSome.mp (Option.isSome_of_eq_some ((rows own k data).mp row)))
    | true =>
      have written : (JsonlUsage.sync reader config s call).files.get file.path = _ :=
        Store.sync_files_parsed hfile call.distinct reparsed
      rw [written, Option.some.injEq] at known
      subst known
      have onlyHere : ∀ {content : List UInt8} {k : Str} {data : Data},
          OwnMessageIds reader file.path calls content →
          lastEntry k (reader.parser.parseFile content) = some data →
          ¬ Elsewhere reader file.path calls k :=
        fun own given => own.keys _ (lastEntry_isSome.mp (Option.isSome_of_eq_some given))
      rcases Store.parse_cases s config (reader.readers call.contents) file with
        ⟨parseTail, start, entries, safe, hreader, hstart, read, parsed⟩ | parsed
      · have tailReader : reader.parser.parseTail (call.contents file.path) start =
            some (entries, safe) := by
          cases hreader
          simpa only [jsonl, if_true] using read
        obtain ⟨old, hold, present, hsize, grown⟩ := Store.tailStart_eq_some hstart
        obtain ⟨_, offset, _, rows⟩ := tracks old hold present
        have stored : start = old.size := by
          rw [hsize, offset, ite_self]
        have shorter := (JsonlParser.completeTail_initial (call.contents file.path) start).length_le
        rw [List.length_drop] at shorter
        rw [sized file hfile rfl] at grown
        have within : safe ≤ (call.contents file.path).length := by
          rw [(JsonlParser.parseTail_eq_some tailReader).1]
          omega
        rw [parsed]
        refine ⟨within, rfl, rfl, fun own k data => ?_⟩
        obtain ⟨ownBefore, split⟩ :=
          tail_rows tailReader (readOn file hfile rfl reparsed start hstart) own
        rw [stored] at ownBefore split
        have given : lastEntry k (reader.parser.parseFile ((call.contents file.path).take safe)) =
            some data ↔ lastEntry k entries = some data ∨
              (s.rows.get k = some ⟨file.path, data⟩ ∧ lastEntry k entries = none) := by
          rw [split, lastEntry_append, Option.or_eq_some_iff, rows ownBefore k data,
            and_comm (b := lastEntry k entries = none)]
        refine Iff.trans (Store.sync_rows_parsed hfile call.distinct reparsed ?_) ?_
        · rw [parsed]
          rintro (gives | ⟨row, _, nothing⟩)
          · exact apart k (onlyHere own (given.mpr (.inl gives)))
          · exact apart k (onlyHere own (given.mpr (.inr ⟨row, nothing⟩)))
        · rw [parsed, given]
          simp only [true_and]
      · have whole : (reader.readers call.contents).parseFile file =
            reader.parser.parseFile (call.contents file.path) := if_pos jsonl
        have all : (call.contents file.path).take file.size = call.contents file.path := by
          rw [sized file hfile rfl, List.take_length]
        rw [parsed]
        refine ⟨(sized file hfile rfl).le, rfl, rfl, fun own k data => ?_⟩
        rw [all] at own ⊢
        refine Iff.trans (Store.sync_rows_parsed hfile call.distinct reparsed ?_) ?_
        · rw [parsed, whole]
          rintro (gives | ⟨_, appended, _⟩)
          · exact apart k (onlyHere own gives)
          · cases appended
        · rw [parsed, whole]
          simp only [Bool.false_eq_true, false_and, and_false, or_false]
  · have absent : ∀ file ∈ call.files, file.path ≠ path :=
      fun file hfile own => listed ⟨file, hfile, own⟩
    rw [Store.sync_files_absent absent known] at there
    cases there

/-- A call that finds a file ending with a line feed stores its whole size. -/
theorem sync_stores {file : FileSig Path}
    (tracks : Tracks reader file.path calls s (call.contents file.path))
    (jsonl : reader.isJsonl file.path = true) (listed : file ∈ call.files)
    (sized : file.size = (call.contents file.path).length)
    (ends : (call.contents file.path).getLast? = some 10) :
    ∃ state, (sync reader config s call).files.get file.path = some state ∧
      state.missing = false ∧ state.size = (call.contents file.path).length := by
  cases reparsed : s.changed config file with
  | false =>
    obtain ⟨state, known, signature, there⟩ := Store.unchanged_state reparsed
    obtain ⟨_, _, signed, _⟩ := tracks state known there
    refine ⟨state, ?_, there, ?_⟩
    · exact (Store.sync_files_same listed call.distinct reparsed).trans known
    · rw [← signed, signature, ← sized]
  | true =>
    refine ⟨_, Store.sync_files_parsed listed call.distinct reparsed, rfl, ?_⟩
    rcases Store.parse_cases s config (reader.readers call.contents) file with
      ⟨parseTail, start, entries, safe, hreader, hstart, read, parsed⟩ | parsed
    · have tailReader : reader.parser.parseTail (call.contents file.path) start =
          some (entries, safe) := by
        cases hreader
        simpa only [jsonl, if_true] using read
      obtain ⟨_, _, _, _, grown⟩ := Store.tailStart_eq_some hstart
      rw [parsed, (JsonlParser.parseTail_eq_some tailReader).1,
        JsonlParser.completeTail_ended ends, List.length_drop]
      exact Nat.add_sub_of_le (sized ▸ grown.le)
    · rw [parsed]
      exact sized

/-! ## Runs -/

theorem run_append (calls : List (TailCall Path)) (call : TailCall Path) :
    run reader config (calls ++ [call]) = sync reader config (run reader config calls) call := by
  rw [run, List.foldl_append]
  rfl

/-- The calls up to one of a run keep the rows in step. -/
theorem run_tracks (jsonl : reader.isJsonl path = true) (grows : Grows path calls)
    (readOn : ∀ before call later, calls = before ++ call :: later →
      TailsReadOn reader config path (run reader config before) call)
    {done later : List (TailCall Path)} (split : calls = done ++ later)
    {content : List UInt8} (longer : ∀ call ∈ done, call.contents path <+: content) :
    Tracks reader path calls (run reader config done) content := by
  induction done using List.reverseRecOn generalizing later content with
  | nil =>
    intro state known
    cases known
  | append_singleton before call ih =>
    have split' : calls = before ++ call :: later := by
      rw [split, List.append_assoc]
      rfl
    have mem : call ∈ calls := by
      rw [split']
      exact List.mem_append_right _ List.mem_cons_self
    have shorter : ∀ earlier ∈ before, earlier.contents path <+: call.contents path := by
      have ordered := grows.appended
      rw [split'] at ordered
      exact fun earlier hearlier =>
        (List.pairwise_append.mp ordered).2.2 earlier hearlier call List.mem_cons_self
    have now := (ih split' shorter).sync jsonl mem (grows.sized call mem)
      (readOn before call later split')
    rw [run_append]
    exact now.grow (longer call (List.mem_append_right _ (List.mem_singleton_self call)))

/-- One sync of the file alone into an empty store. -/
def syncOnce (reader : FileReader Path Id Data) (config : Config)
    (contents : Path → List UInt8) (file : FileSig Path) : Store Path Str Data Config :=
  sync reader config .empty ⟨contents, [file], List.nodup_singleton _, false⟩

theorem syncOnce_parse {contents : Path → List UInt8} {file : FileSig Path}
    (jsonl : reader.isJsonl file.path = true) :
    Store.empty.parse config (reader.readers contents) file =
      ⟨file, reader.parser.parseFile (contents file.path), file.size, false⟩ := by
  rcases Store.parse_cases .empty config (reader.readers contents) file with
    ⟨_, _, _, _, _, hstart, _⟩ | parsed
  · obtain ⟨_, known, _⟩ := Store.tailStart_eq_some hstart
    cases known
  · rw [parsed]
    exact congrArg (fun entries => Parsed.mk file entries file.size false) (if_pos jsonl)

theorem syncOnce_rows {contents : Path → List UInt8} {file : FileSig Path}
    (jsonl : reader.isJsonl file.path = true) (k : Str) (data : Data) :
    (syncOnce reader config contents file).rows.get k = some ⟨file.path, data⟩ ↔
      lastEntry k (reader.parser.parseFile (contents file.path)) = some data := by
  refine Iff.trans (Store.sync_rows_parsed List.mem_cons_self (List.nodup_singleton _) rfl ?_) ?_
  · intro _ other mem apart
    exact absurd (congrArg FileSig.path (List.mem_singleton.mp mem)) apart
  · rw [syncOnce_parse jsonl]
    simp only [Bool.false_eq_true, false_and, and_false, or_false]

/-- A file that has grown since the one sync of it is read from its old size on. -/
theorem syncOnce_grown {contents : Path → List UInt8} {file later : FileSig Path}
    (jsonl : reader.isJsonl file.path = true) (same : later.path = file.path)
    (grown : file.size < later.size) :
    (syncOnce reader config contents file).changed config later = true ∧
      (syncOnce reader config contents file).tailStart config later = some file.size := by
  have stored : (syncOnce reader config contents file).files.get later.path =
      some ⟨file.mtimeNs, file.size, file.size, false, ⟨file, config⟩⟩ := by
    have state : (Store.empty.syncFiles config (reader.readers contents) false
        [file]).1.files.get file.path = _ :=
      Store.sync_files_parsed List.mem_cons_self (List.nodup_singleton _) rfl
    rw [syncOnce_parse jsonl] at state
    rw [same]
    exact state
  constructor
  · have differ : (⟨file, config⟩ : Signature Path Config) ≠ ⟨later, config⟩ := by
      rintro ⟨⟩
      exact lt_irrefl _ grown
    simp only [Store.changed, stored, differ, ne_eq, not_false_eq_true, decide_true, Bool.true_or]
  · rw [Store.tailStart, stored]
    simp [grown, same]

/-- A sync of the file alone that reads its tail: the rows of the tail, and the old ones. -/
theorem sync_rows_tail {call : TailCall Path} {file : FileSig Path} {start safe : ℕ}
    {entries : List (Str × Data)} (only : call.files = [file])
    (jsonl : reader.isJsonl file.path = true) (changed : s.changed config file = true)
    (known : s.tailStart config file = some start)
    (read : reader.parser.parseTail (call.contents file.path) start = some (entries, safe))
    (k : Str) (data : Data) :
    (sync reader config s call).rows.get k = some ⟨file.path, data⟩ ↔
      lastEntry k entries = some data ∨
        (s.rows.get k = some ⟨file.path, data⟩ ∧ lastEntry k entries = none) := by
  have mem : file ∈ call.files := by simp [only]
  have parsed : s.parse config (reader.readers call.contents) file = ⟨file, entries, safe, true⟩ := by
    simp only [Store.parse, FileReader.readers, jsonl, if_true, known, read, Option.bind_some]
  refine Iff.trans (Store.sync_rows_parsed mem call.distinct changed ?_) ?_
  · intro _ other listed apart
    rw [only, List.mem_singleton] at listed
    exact absurd (congrArg FileSig.path listed) apart
  · simp only [parsed, true_and]

/-- After a sync of a file that ends with a line feed its rows are those of one sync of it. -/
theorem run_rows {last : TailCall Path} {file : FileSig Path} (jsonl : reader.isJsonl path = true)
    (grows : Grows path (calls ++ [last]))
    (listed : file ∈ last.files) (own : file.path = path)
    (ends : (last.contents path).getLast? = some 10)
    (ids : OwnMessageIds reader path (calls ++ [last]) (last.contents path))
    (readOn : ∀ before call later, calls ++ [last] = before ++ call :: later →
      TailsReadOn reader config path (run reader config before) call) (k : Str) (data : Data) :
    (run reader config (calls ++ [last])).rows.get k = some ⟨path, data⟩ ↔
      (syncOnce reader config last.contents file).rows.get k = some ⟨path, data⟩ := by
  subst own
  have shorter : ∀ call ∈ calls, call.contents file.path <+: last.contents file.path :=
    fun call mem =>
      (List.pairwise_append.mp grows.appended).2.2 call mem last (List.mem_singleton_self last)
  have mem : last ∈ calls ++ [last] := List.mem_append_right _ (List.mem_singleton_self last)
  have sized := grows.sized last mem
  have before := run_tracks jsonl grows readOn rfl shorter
  have after := before.sync jsonl mem sized (readOn calls last [] rfl)
  obtain ⟨state, known, there, size⟩ :=
    sync_stores before jsonl listed (sized file listed rfl) ends
  obtain ⟨_, _, _, rows⟩ := after state known there
  rw [size, List.take_length] at rows
  rw [run_append, rows ids, syncOnce_rows jsonl]

/-! ## The append-safe sources -/

/-- A file of two usage lines, each of 106 bytes with its line feed. -/
def wireText (id : Char) : List Char :=
  "\x7b\"timestamp\":1,\"message\":\x7b\"type\":\"StatusUpdate\",\"payload\":".toList ++
    "\x7b\"token_usage\":\x7b\"output\":7\x7d,\"message_id\":\"".toList ++
    id :: "\"\x7d\x7d\x7d".toList ++ ['\n']

def wireFile : List UInt8 := Utf8.encode (wireText 'a') ++ Utf8.encode (wireText 'b')

/-- A sync of the first `n` bytes of the file. -/
def wireCall (n : ℕ) : TailCall Unit where
  contents _ := wireFile.take n
  files := [⟨(), n, (wireFile.take n).length⟩]
  distinct := List.nodup_singleton _
  durable := false

def wireReader : FileReader Unit (SetKey Empty) (UsageEntry Empty Unit) :=
  ⟨AppendSource.kimi.parser wholeSeconds, fun _ => true, fun _ => []⟩

theorem wireCalls_grow {n m : ℕ} (le : n ≤ m) : Grows () [wireCall n, wireCall m] where
  appended := by
    refine List.Pairwise.cons ?_ (List.pairwise_singleton _ _)
    intro later mem
    rw [List.mem_singleton.mp mem]
    exact List.take_prefix_take_left le
  sized := by
    intro call mem file listed _
    have calls : ∃ n, call = wireCall n := by
      rcases List.mem_cons.mp mem with rfl | mem
      · exact ⟨n, rfl⟩
      · exact ⟨m, List.mem_singleton.mp mem⟩
    obtain ⟨n, rfl⟩ := calls
    rw [List.mem_singleton.mp listed]
    rfl

theorem wireText_ascii : (wireText 'a').length = 106 ∧ (wireText 'b').length = 106 ∧
    ∀ c ∈ wireText 'a' ++ wireText 'b', c.toNat < 128 := by
  have all : (wireText 'a').length = 106 ∧ (wireText 'b').length = 106 ∧
      (wireText 'a' ++ wireText 'b').all (fun c => c.toNat < 128) = true := by
    decide +kernel
  simpa only [List.all_eq_true, decide_eq_true_eq] using all

theorem wireFile_eq : wireFile = Utf8.encode (wireText 'a' ++ wireText 'b') :=
  (Utf8.encode_append _ _).symm

theorem wireFile_length : wireFile.length = 212 := by
  obtain ⟨first, second, ascii⟩ := wireText_ascii
  rw [wireFile_eq, Utf8.length_encode ascii, List.length_append, first, second]

theorem wireCall_contents : (wireCall 212).contents () = wireFile :=
  List.take_of_length_le (Nat.le_of_eq wireFile_length)

theorem wireFile_ends : ((wireCall 212).contents ()).getLast? = some 10 := by
  have last : (Utf8.encode (wireText 'b')).getLast? = some 10 := by
    obtain ⟨front, line⟩ : ∃ front, wireText 'b' = front ++ ['\n'] := ⟨_, rfl⟩
    have feed : Utf8.encode ['\n'] = [10] := rfl
    rw [line, Utf8.encode_append, feed, List.getLast?_concat]
  rw [wireCall_contents, wireFile, List.getLast?_append, last, Option.some_or]

/-- What is read of the file, of its parts around byte 40 and of its first line. -/
theorem wireText_read :
    (lastEntry (text "kimi:a") (JsonlParser.collect []
      (wireReader.parser.readings (JsonlParser.lines (wireText 'a' ++ wireText 'b'))))).isSome ∧
    lastEntry (text "kimi:a") (JsonlParser.collect [] (wireReader.parser.readings
      (JsonlParser.lines ((wireText 'a' ++ wireText 'b').take 40)))) = none ∧
    lastEntry (text "kimi:a") (JsonlParser.collect [] (wireReader.parser.readings
      (JsonlParser.lines ((wireText 'a' ++ wireText 'b').drop 40)))) = none ∧
    wireReader.parser.OwnIds (wireText 'a' ++ wireText 'b') ∧
    ∀ r ∈ wireReader.parser.readings (JsonlParser.lines (wireText 'a')), ¬ r.Stops := by
  decide +kernel

theorem wireFile_ownIds (calls : List (TailCall Unit)) :
    OwnMessageIds wireReader () calls ((wireCall 212).contents ()) where
  ids := by
    intro t decoded
    rw [wireCall_contents, wireFile_eq, Utf8.decode_encode] at decoded
    cases decoded
    exact wireText_read.2.2.2.1
  keys := by
    rintro k _ ⟨call, _, file, _, other, _⟩
    exact other rfl

/-- One sync of the whole file has a row for its first line. -/
theorem wireFile_reparsed : ∃ data, (syncOnce wireReader () (wireCall 212).contents
    ⟨(), 212, (wireFile.take 212).length⟩).rows.get (text "kimi:a") = some ⟨(), data⟩ := by
  obtain ⟨data, last⟩ := Option.isSome_iff_exists.mp wireText_read.1
  refine ⟨data, (syncOnce_rows rfl (text "kimi:a") data).mpr ?_⟩
  rw [wireCall_contents, wireFile_eq, JsonlParser.parseFile_encode, last]

/-- After a first sync of `n` bytes the second reads the file from there on. -/
theorem wireCall_grown {n : ℕ} (less : n < 212) :
    (run wireReader () [wireCall n]).changed () ⟨(), (212 : ℕ), (wireFile.take 212).length⟩ = true ∧
      (run wireReader () [wireCall n]).tailStart () ⟨(), (212 : ℕ), (wireFile.take 212).length⟩ =
        some n := by
  have size : (wireFile.take n).length = n := by
    rw [List.length_take, wireFile_length, Nat.min_eq_left (Nat.le_of_lt less)]
  have sizes : (wireFile.take n).length < (wireFile.take 212).length := by
    rw [size, List.length_take, wireFile_length, Nat.min_self]
    exact less
  have grown : (syncOnce wireReader () (wireCall n).contents
        ⟨(), (n : ℕ), (wireFile.take n).length⟩).changed ()
          ⟨(), (212 : ℕ), (wireFile.take 212).length⟩ = true ∧
      (syncOnce wireReader () (wireCall n).contents
        ⟨(), (n : ℕ), (wireFile.take n).length⟩).tailStart ()
          ⟨(), (212 : ℕ), (wireFile.take 212).length⟩ = some (wireFile.take n).length :=
    syncOnce_grown rfl rfl sizes
  exact ⟨grown.1, grown.2.trans (congrArg some size)⟩

/-- The second sync reads from the stored size on, inside the first line. -/
theorem wireTail_read : wireReader.parser.parseTail ((wireCall 212).contents ()) 40 = some
    (wireReader.parser.parseFile (Utf8.encode ((wireText 'a' ++ wireText 'b').drop 40)), 212) := by
  obtain ⟨first, second, ascii⟩ := wireText_ascii
  have tail : JsonlParser.completeTail ((wireCall 212).contents ()) 40 =
      Utf8.encode ((wireText 'a' ++ wireText 'b').drop 40) := by
    rw [JsonlParser.completeTail_ended wireFile_ends, wireCall_contents, wireFile_eq,
      Utf8.drop_encode ascii]
  have length : (Utf8.encode ((wireText 'a' ++ wireText 'b').drop 40)).length = 172 := by
    rw [← Utf8.drop_encode ascii, ← wireFile_eq, List.length_drop, wireFile_length]
  have bytes : Utf8.encode ((wireText 'a' ++ wireText 'b').drop 40) ≠ [] := by
    rw [← List.length_pos_iff, length]
    decide
  have chars : (wireText 'a' ++ wireText 'b').drop 40 ≠ [] := by
    intro empty
    rw [empty] at bytes
    exact bytes rfl
  rw [JsonlParser.parseTail, JsonlParser.completeJsonlTail, tail]
  simp only [if_neg bytes, Utf8.decode_encode, Option.map_some, if_neg chars, length]

theorem wireHead_lost : lastEntry (text "kimi:a")
    (wireReader.parser.parseFile ((wireCall 40).contents ())) = none := by
  have head : (wireCall 40).contents () = Utf8.encode ((wireText 'a' ++ wireText 'b').take 40) := by
    rw [← Utf8.take_encode wireText_ascii.2.2, ← wireFile_eq]
    rfl
  rw [head, JsonlParser.parseFile_encode]
  exact wireText_read.2.1

theorem wireRow_lost (data : UsageEntry Empty Unit) :
    (run wireReader () ([wireCall 40] ++ [wireCall 212])).rows.get (text "kimi:a") ≠
      some ⟨(), data⟩ := by
  obtain ⟨changed, start⟩ := wireCall_grown (n := 40) (by decide)
  have tail := wireText_read.2.2.1
  rw [← JsonlParser.parseFile_encode] at tail
  have single : run wireReader () [wireCall 40] =
      syncOnce wireReader () (wireCall 40).contents ⟨(), (40 : ℕ), (wireFile.take 40).length⟩ := rfl
  rw [run_append, Ne, sync_rows_tail rfl rfl changed start wireTail_read, tail, single,
    syncOnce_rows rfl, wireHead_lost]
  simp

end JsonlUsage
