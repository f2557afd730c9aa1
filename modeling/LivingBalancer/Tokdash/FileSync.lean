import Mathlib.Data.List.Induction
import LivingBalancer.Tokdash.UsageStore

/-!
# Syncs of whole files

Without a tail parser a sync keeps every key that a current file gives, unless it deletes a
row by its path while another file that it does not parse again gives the same key:
`INSERT OR REPLACE` has moved the row to the file that wrote it last. `Spares` says that a
call meets no such row and, with `durable`, no row of a key that was first stored from a file
which is not there.
-/

namespace UsageStore

variable {Path Key Data Config : Type}

section Whole

variable [DecidableEq Path] [DecidableEq Key] {s : Store Path Key Data Config} {config : Config}
  {parsed : List (Parsed Path Key Data)} {k : Key}

/-- A row after the loop over files parsed whole. -/
theorem Store.writeAll_row {row : UsageRow Path Data} (whole : ∀ p ∈ parsed, p.appended = false)
    (h : (parsed.foldl (Store.write config) s).rows.get k = some row) :
    (∃ p ∈ parsed, p.file.path = row.filePath ∧ k ∈ p.entries.map Prod.fst) ∨
      (s.rows.get k = some row ∧ ∀ p ∈ parsed, p.file.path ≠ row.filePath) := by
  induction parsed generalizing s with
  | nil => exact .inr ⟨h, List.forall_mem_nil _⟩
  | cons p rest ih =>
    have later := ih (fun q hq => whole q (List.mem_cons_of_mem p hq)) h
    rcases later with ⟨q, hq, own, gives⟩ | ⟨before, others⟩
    · exact .inl ⟨q, List.mem_cons_of_mem p hq, own, gives⟩
    · rw [Store.write_get, whole p List.mem_cons_self] at before
      cases hlast : lastEntry k p.entries with
      | some data =>
        rw [hlast] at before
        cases before
        refine .inl ⟨p, List.mem_cons_self, rfl, ?_⟩
        exact lastEntry_isSome.mp (Option.isSome_of_eq_some hlast)
      | none =>
        rw [hlast, Option.map_none, Option.none_or, Option.filter_eq_some_iff] at before
        obtain ⟨old, kept⟩ := before
        refine .inr ⟨old, ?_⟩
        rintro q hq
        rcases List.mem_cons.mp hq with rfl | tail
        · intro own
          simp [own] at kept
        · exact others q tail

/-- The keys that are stored after the loop. -/
theorem Store.writeAll_stored (whole : ∀ p ∈ parsed, p.appended = false)
    (distinct : (parsed.map (·.file.path)).Nodup)
    (h : (∃ p ∈ parsed, k ∈ p.entries.map Prod.fst) ∨
      ∃ row, s.rows.get k = some row ∧ ∀ p ∈ parsed, p.file.path ≠ row.filePath) :
    ((parsed.foldl (Store.write config) s).rows.get k).isSome = true := by
  induction parsed generalizing s with
  | nil =>
    rcases h with ⟨p, hp, _⟩ | ⟨row, hrow, _⟩
    · cases hp
    · exact Option.isSome_of_eq_some hrow
  | cons p rest ih =>
    obtain ⟨fresh, distinctRest⟩ := List.nodup_cons.mp distinct
    refine ih (fun q hq => whole q (List.mem_cons_of_mem p hq)) distinctRest ?_
    have elsewhere : ∀ q ∈ rest, q.file.path ≠ p.file.path :=
      fun q hq same => fresh (List.mem_map.mpr ⟨q, hq, same⟩)
    have written := Store.write_get (s := s) config p k
    rw [whole p List.mem_cons_self] at written
    by_cases gives : k ∈ p.entries.map Prod.fst
    · obtain ⟨data, hlast⟩ := Option.isSome_iff_exists.mp (lastEntry_isSome.mpr gives)
      rw [hlast] at written
      exact .inr ⟨⟨p.file.path, data⟩, written, elsewhere⟩
    · rw [lastEntry_eq_none.mpr gives, Option.map_none, Option.none_or] at written
      rcases h with ⟨q, hq, givesq⟩ | ⟨row, hrow, others⟩
      · rcases List.mem_cons.mp hq with rfl | tail
        · exact absurd givesq gives
        · exact .inl ⟨q, tail, givesq⟩
      · refine .inr ⟨row, ?_, fun q hq => others q (List.mem_cons_of_mem p hq)⟩
        rw [written, hrow]
        simp [Ne.symm (others p List.mem_cons_self)]

omit k in
theorem Store.writeAll_files_other {path : Path} (other : ∀ p ∈ parsed, p.file.path ≠ path) :
    (parsed.foldl (Store.write config) s).files.get path = s.files.get path := by
  induction parsed generalizing s with
  | nil => rfl
  | cons p rest ih =>
    rw [List.foldl_cons, ih fun q hq => other q (List.mem_cons_of_mem p hq), Store.write_files,
      if_neg (Ne.symm (other p List.mem_cons_self))]

omit k in
theorem Store.writeAll_files {p : Parsed Path Key Data} (hp : p ∈ parsed)
    (distinct : (parsed.map (·.file.path)).Nodup) :
    (parsed.foldl (Store.write config) s).files.get p.file.path =
      some ⟨p.file.mtimeNs, p.safeOffset, p.safeOffset, false,
        ⟨⟨p.file.path, p.file.mtimeNs, p.safeOffset⟩, config⟩⟩ := by
  induction parsed generalizing s with
  | nil => cases hp
  | cons q rest ih =>
    obtain ⟨fresh, distinctRest⟩ := List.nodup_cons.mp distinct
    rcases List.mem_cons.mp hp with rfl | tail
    · rw [List.foldl_cons, Store.writeAll_files_other, Store.write_files, if_pos rfl]
      exact fun r hr same => fresh (List.mem_map.mpr ⟨r, hr, same⟩)
    · exact ih tail distinctRest

end Whole

/-! ## Runs of syncs -/

/-- The arguments of one call; a file set has every path once. -/
structure SyncCall (Path : Type) where
  files : List (FileSig Path)
  distinct : (files.map (·.path)).Nodup
  durable : Bool

/-- The store, and the file that each stored key was first stored from. -/
structure History (Path Key Data Config : Type) where
  store : Store Path Key Data Config
  first : Key → Option Path

namespace History

variable [DecidableEq Path] [DecidableEq Key] [DecidableEq Config]
variable (config : Config) (parse : FileSig Path → List (Key × Data))

def initial : History Path Key Data Config := ⟨.empty, fun _ => none⟩

/-- The parser gives the key for the file. -/
def Gives (file : FileSig Path) (k : Key) : Prop := k ∈ (parse file).map Prod.fst

instance (file : FileSig Path) (k : Key) : Decidable (Gives parse file k) :=
  inferInstanceAs (Decidable (k ∈ (parse file).map Prod.fst))

def Stored (h : History Path Key Data Config) (k : Key) : Prop :=
  (h.store.rows.get k).isSome = true

instance (h : History Path Key Data Config) (k : Key) : Decidable (h.Stored k) :=
  inferInstanceAs (Decidable (_ = true))

/-- The call finds the file changed. -/
def Reparsed (h : History Path Key Data Config) (file : FileSig Path) : Prop :=
  h.store.changed config file = true

/-- One call without a tail parser. -/
def sync (h : History Path Key Data Config) (call : SyncCall Path) :
    History Path Key Data Config :=
  let store := (h.store.syncFiles config ⟨parse, none⟩ call.durable call.files).1
  let giver k := (call.files.filter (h.store.changed config)).find? fun file =>
    decide (Gives parse file k)
  { store := store
    first := fun k =>
      if (store.rows.get k).isSome then
        if h.Stored k then h.first k else (giver k).map (·.path)
      else none }

def run (calls : List (SyncCall Path)) : History Path Key Data Config :=
  calls.foldl (sync config parse) initial

/-- What a call is to keep: the keys of the current files are stored, and without `durable` no
others; with it no key is removed that was first stored from a file which is not there. -/
structure Keeps (h : History Path Key Data Config) (call : SyncCall Path)
    (h' : History Path Key Data Config) : Prop where
  current : ∀ file ∈ call.files, ∀ k, Gives parse file k → h'.Stored k
  exact : call.durable = false → ∀ k, h'.Stored k → ∃ file ∈ call.files, Gives parse file k
  missing : call.durable = true → ∀ k path, h.first k = some path →
    (∀ file ∈ call.files, file.path ≠ path) → h.Stored k → h'.Stored k

/-- The call deletes the rows of the path. -/
def Cleared (h : History Path Key Data Config) (call : SyncCall Path) (path : Path) : Prop :=
  (∃ file ∈ call.files, h.Reparsed config file ∧ file.path = path) ∨
    (call.durable = false ∧ ∀ file ∈ call.files, file.path ≠ path)

/-- A key whose row the call deletes is given by a file that is parsed again, or no current file
gives it and, with `durable`, the file it was first stored from is a current one. -/
def Spares (h : History Path Key Data Config) (call : SyncCall Path) : Prop :=
  ∀ k row, h.store.rows.get k = some row → Cleared config h call row.filePath →
    (∃ file ∈ call.files, h.Reparsed config file ∧ Gives parse file k) ∨
      ((∀ file ∈ call.files, ¬ Gives parse file k) ∧
        (call.durable = true → ∀ path, h.first k = some path →
          ∃ file ∈ call.files, file.path = path))

end History

namespace History

variable [DecidableEq Path] [DecidableEq Key] [DecidableEq Config]
variable {config : Config} {parse : FileSig Path → List (Key × Data)}
variable {h : History Path Key Data Config} {call : SyncCall Path}

/-! ## One call -/

theorem syncFiles_eq (s : Store Path Key Data Config) (readers : Readers Path Key Data)
    (keepMissing : Bool) (files : List (FileSig Path)) :
    (s.syncFiles config readers keepMissing files).1 =
      ((files.filter (s.changed config)).map (s.parse config readers)).foldl (Store.write config)
        ((s.removedPaths keepMissing files).foldl (fun s path => s.remove keepMissing path) s) := by
  simp only [Store.syncFiles]
  split
  · rename_i idle
    simp only [Bool.and_eq_true, List.isEmpty_iff] at idle
    rw [idle.1, idle.2]
    rfl
  · rfl

omit [DecidableEq Key] [DecidableEq Config] in
theorem mem_removedPaths {s : Store Path Key Data Config} {keepMissing : Bool}
    {files : List (FileSig Path)} {path : Path} :
    path ∈ s.removedPaths keepMissing files ↔ (∀ file ∈ files, file.path ≠ path) ∧
      ∃ state, s.files.get path = some state ∧ (keepMissing = false ∨ state.missing = false) := by
  simp only [Store.removedPaths, List.mem_map, List.mem_filter, Bool.and_eq_true, Bool.not_eq_true',
    Bool.or_eq_true, List.any_eq_false, decide_eq_true_eq]
  constructor
  · rintro ⟨⟨path', state⟩, ⟨known, absent, gone⟩, rfl⟩
    exact ⟨absent, state, Dict.get_of_mem known, gone⟩
  · rintro ⟨absent, state, known, gone⟩
    exact ⟨⟨path, state⟩, ⟨Dict.mem_of_get known, absent, gone⟩, rfl⟩

/-- What the call writes: every changed file, parsed whole. -/
def wholes (parse : FileSig Path → List (Key × Data)) (config : Config)
    (h : History Path Key Data Config) (call : SyncCall Path) : List (Parsed Path Key Data) :=
  (call.files.filter (h.store.changed config)).map fun file => ⟨file, parse file, file.size, false⟩

omit [DecidableEq Key] in
theorem wholes_whole : ∀ p ∈ wholes parse config h call, p.appended = false := by
  intro p hp
  obtain ⟨file, _, rfl⟩ := List.mem_map.mp hp
  rfl

omit [DecidableEq Key] in
theorem wholes_distinct : ((wholes parse config h call).map (·.file.path)).Nodup := by
  have paths : (wholes parse config h call).map (·.file.path) =
      (call.files.filter (h.store.changed config)).map (·.path) := by
    simp only [wholes, List.map_map]
    rfl
  rw [paths]
  exact call.distinct.sublist (List.filter_sublist.map _)

omit [DecidableEq Key] in
theorem mem_wholes {p : Parsed Path Key Data} : p ∈ wholes parse config h call ↔
    ∃ file ∈ call.files, h.Reparsed config file ∧ ⟨file, parse file, file.size, false⟩ = p := by
  simp only [wholes, List.mem_map, List.mem_filter, Reparsed, and_assoc]

theorem sync_store : (sync config parse h call).store =
    (wholes parse config h call).foldl (Store.write config)
      ((h.store.removedPaths call.durable call.files).foldl
        (fun s path => s.remove call.durable path) h.store) := by
  simp only [sync, syncFiles_eq]
  rfl

/-- Every row belongs to a file that is known, and whose last parse gave the key. -/
def Owned (parse : FileSig Path → List (Key × Data)) (h : History Path Key Data Config) : Prop :=
  ∀ k row, h.store.rows.get k = some row →
    ∃ state, h.store.files.get row.filePath = some state ∧ Gives parse state.signature.file k

/-- The keys of every file that is not missing are stored. -/
def Shown (parse : FileSig Path → List (Key × Data)) (h : History Path Key Data Config) : Prop :=
  ∀ path state, h.store.files.get path = some state → state.missing = false →
    ∀ k, Gives parse state.signature.file k → h.Stored k

/-- A row after the call: of a file that was parsed again, or one that the call leaves alone. -/
theorem sync_row {k : Key} {row : UsageRow Path Data} (owned : h.Owned parse)
    (after : (sync config parse h call).store.rows.get k = some row) :
    (∃ file ∈ call.files, h.Reparsed config file ∧ file.path = row.filePath ∧
      Gives parse file k) ∨
      (h.store.rows.get k = some row ∧ ¬ Cleared config h call row.filePath) := by
  rw [sync_store] at after
  rcases Store.writeAll_row wholes_whole after with ⟨p, hp, own, gives⟩ | ⟨before, others⟩
  · obtain ⟨file, mem, reparsed, rfl⟩ := mem_wholes.mp hp
    exact .inl ⟨file, mem, reparsed, own, gives⟩
  · rw [Store.removeAll_get, Option.filter_eq_some_iff] at before
    obtain ⟨old, kept⟩ := before
    refine .inr ⟨old, ?_⟩
    rintro (⟨file, mem, reparsed, own⟩ | ⟨deletes, absent⟩)
    · exact others _ (mem_wholes.mpr ⟨file, mem, reparsed, rfl⟩) own
    · obtain ⟨state, known, _⟩ := owned k row old
      have removed := mem_removedPaths.mpr ⟨absent, state, known, .inl deletes⟩
      simp only [deletes, Bool.false_or, decide_eq_true_eq] at kept
      rw [deletes] at removed
      exact kept removed

theorem sync_stored {k : Key} (owned : h.Owned parse) : (sync config parse h call).Stored k ↔
    (∃ file ∈ call.files, h.Reparsed config file ∧ Gives parse file k) ∨
      ∃ row, h.store.rows.get k = some row ∧ ¬ Cleared config h call row.filePath := by
  constructor
  · intro stored
    obtain ⟨row, after⟩ := Option.isSome_iff_exists.mp stored
    rcases sync_row owned after with ⟨file, mem, reparsed, _, gives⟩ | kept
    · exact .inl ⟨file, mem, reparsed, gives⟩
    · exact .inr ⟨row, kept⟩
  · intro cases
    simp only [Stored]
    rw [sync_store]
    refine Store.writeAll_stored wholes_whole wholes_distinct ?_
    rcases cases with ⟨file, mem, reparsed, gives⟩ | ⟨row, old, spared⟩
    · exact .inl ⟨_, mem_wholes.mpr ⟨file, mem, reparsed, rfl⟩, gives⟩
    · refine .inr ⟨row, ?_, ?_⟩
      · rw [Store.removeAll_get, Option.filter_eq_some_iff]
        refine ⟨old, ?_⟩
        cases hdurable : call.durable with
        | true => rfl
        | false =>
          simp only [Bool.false_or, decide_eq_true_eq]
          intro removed
          exact spared (.inr ⟨hdurable, (mem_removedPaths.mp removed).1⟩)
      · intro p hp own
        obtain ⟨file, mem, reparsed, rfl⟩ := mem_wholes.mp hp
        exact spared (.inl ⟨file, mem, reparsed, own⟩)

theorem sync_files_reparsed {file : FileSig Path} (mem : file ∈ call.files)
    (reparsed : h.Reparsed config file) :
    (sync config parse h call).store.files.get file.path =
      some ⟨file.mtimeNs, file.size, file.size, false, ⟨file, config⟩⟩ := by
  rw [sync_store]
  exact Store.writeAll_files (mem_wholes.mpr ⟨file, mem, reparsed, rfl⟩) wholes_distinct

theorem sync_files_kept {path : Path}
    (kept : ∀ file ∈ call.files, h.Reparsed config file → file.path ≠ path) :
    (sync config parse h call).store.files.get path =
      if path ∈ h.store.removedPaths call.durable call.files then
        if call.durable then
          (h.store.files.get path).map fun state => { state with missing := true }
        else none
      else h.store.files.get path := by
  rw [sync_store, Store.writeAll_files_other, Store.removeAll_files]
  intro p hp
  obtain ⟨file, mem, reparsed, rfl⟩ := mem_wholes.mp hp
  exact kept file mem reparsed

omit [DecidableEq Key] in
/-- A file that is not parsed again has its signature stored. -/
theorem unchanged_state {file : FileSig Path} (same : ¬ h.Reparsed config file) :
    ∃ state, h.store.files.get file.path = some state ∧ state.signature = ⟨file, config⟩ ∧
      state.missing = false :=
  Store.unchanged_state (Bool.not_eq_true _ ▸ same)

end History

namespace History

variable [DecidableEq Path] [DecidableEq Key] [DecidableEq Config]
variable {config : Config} {parse : FileSig Path → List (Key × Data)}
variable {h : History Path Key Data Config} {call : SyncCall Path}

/-! ## What a call keeps -/

theorem Owned.sync (owned : h.Owned parse) : (sync config parse h call).Owned parse := by
  intro k row after
  rcases sync_row owned after with ⟨file, mem, reparsed, own, gives⟩ | ⟨old, spared⟩
  · rw [← own]
    exact ⟨_, sync_files_reparsed mem reparsed, gives⟩
  · obtain ⟨state, known, gives⟩ := owned k row old
    have kept : ∀ file ∈ call.files, h.Reparsed config file → file.path ≠ row.filePath :=
      fun file mem reparsed own => spared (.inl ⟨file, mem, reparsed, own⟩)
    rw [sync_files_kept kept]
    by_cases removed : row.filePath ∈ h.store.removedPaths call.durable call.files
    · rw [if_pos removed, known]
      cases hdurable : call.durable with
      | true => exact ⟨_, rfl, gives⟩
      | false => exact absurd (.inr ⟨hdurable, (mem_removedPaths.mp removed).1⟩) spared
    · rw [if_neg removed]
      exact ⟨state, known, gives⟩

/-- A file that is not missing after the call is a current one, with its present signature. -/
theorem sync_current {path : Path} {state : FileState Path Config}
    (known : (sync config parse h call).store.files.get path = some state)
    (there : state.missing = false) : ∃ file ∈ call.files, state.signature.file = file := by
  by_cases fresh : ∃ file ∈ call.files, h.Reparsed config file ∧ file.path = path
  · obtain ⟨file, mem, reparsed, rfl⟩ := fresh
    rw [sync_files_reparsed mem reparsed] at known
    cases known
    exact ⟨file, mem, rfl⟩
  · have kept : ∀ file ∈ call.files, h.Reparsed config file → file.path ≠ path :=
      fun file mem reparsed own => fresh ⟨file, mem, reparsed, own⟩
    rw [sync_files_kept kept] at known
    split at known
    · split at known
      · obtain ⟨old, _, rfl⟩ := Option.map_eq_some_iff.mp known
        cases there
      · cases known
    · rename_i stays
      have current : ∃ file ∈ call.files, file.path = path := by
        by_contra absent
        refine stays (mem_removedPaths.mpr ⟨?_, state, known, .inr there⟩)
        exact fun file mem own => absent ⟨file, mem, own⟩
      obtain ⟨file, mem, rfl⟩ := current
      have same : ¬ h.Reparsed config file := fun reparsed => kept file mem reparsed rfl
      obtain ⟨state', known', signature, _⟩ := unchanged_state same
      rw [known] at known'
      cases known'
      exact ⟨file, mem, congrArg Signature.file signature⟩

theorem Shown.sync (keeps : Keeps parse h call (sync config parse h call)) :
    (sync config parse h call).Shown parse := by
  intro path state known there k gives
  obtain ⟨file, mem, rfl⟩ := sync_current known there
  exact keeps.current _ mem k gives

theorem Keeps.spares (owned : h.Owned parse)
    (keeps : Keeps parse h call (sync config parse h call)) : Spares config parse h call := by
  intro k row old cleared
  by_cases again : ∃ file ∈ call.files, h.Reparsed config file ∧ Gives parse file k
  · exact .inl again
  have removed : ¬ (sync config parse h call).Stored k := by
    intro stored
    rcases (sync_stored owned).mp stored with parsed | ⟨row', old', spared⟩
    · exact again parsed
    · rw [old] at old'
      cases old'
      exact spared cleared
  refine .inr ⟨fun file mem gives => removed (keeps.current file mem k gives), ?_⟩
  intro durable path first
  by_contra absent
  have missing : ∀ file ∈ call.files, file.path ≠ path :=
    fun file mem own => absent ⟨file, mem, own⟩
  exact removed (keeps.missing durable k path first missing (Option.isSome_of_eq_some old))

theorem Spares.keeps (owned : h.Owned parse) (shown : h.Shown parse)
    (spares : Spares config parse h call) : Keeps parse h call (sync config parse h call) where
  current file mem k gives := by
    by_cases reparsed : h.Reparsed config file
    · exact (sync_stored owned).mpr (.inl ⟨file, mem, reparsed, gives⟩)
    · obtain ⟨state, known, signature, there⟩ := unchanged_state reparsed
      have stored := shown file.path state known there k (by rwa [signature])
      obtain ⟨row, old⟩ := Option.isSome_iff_exists.mp stored
      refine (sync_stored owned).mpr ?_
      by_cases cleared : Cleared config h call row.filePath
      · rcases spares k row old cleared with parsed | ⟨none, _⟩
        · exact .inl parsed
        · exact absurd gives (none file mem)
      · exact .inr ⟨row, old, cleared⟩
  exact deletes k stored := by
    rcases (sync_stored owned).mp stored with ⟨file, mem, _, gives⟩ | ⟨row, old, spared⟩
    · exact ⟨file, mem, gives⟩
    · obtain ⟨state, known, gives⟩ := owned k row old
      have current : ∃ file ∈ call.files, file.path = row.filePath := by
        by_contra absent
        exact spared (.inr ⟨deletes, fun file mem own => absent ⟨file, mem, own⟩⟩)
      obtain ⟨file, mem, own⟩ := current
      have same : ¬ h.Reparsed config file := fun reparsed =>
        spared (.inl ⟨file, mem, reparsed, own⟩)
      obtain ⟨state', known', signature, _⟩ := unchanged_state same
      rw [own, known] at known'
      cases known'
      rw [signature] at gives
      exact ⟨file, mem, gives⟩
  missing durable k path first missing stored := by
    obtain ⟨row, old⟩ := Option.isSome_iff_exists.mp stored
    refine (sync_stored owned).mpr ?_
    by_cases cleared : Cleared config h call row.filePath
    · rcases spares k row old cleared with parsed | ⟨_, back⟩
      · exact .inl parsed
      · obtain ⟨file, mem, own⟩ := back durable path first
        exact absurd own (missing file mem)
    · exact .inr ⟨row, old, cleared⟩

/-! ## Runs -/

theorem run_append (calls : List (SyncCall Path)) (call : SyncCall Path) :
    run config parse (calls ++ [call]) = sync config parse (run config parse calls) call := by
  simp only [run, List.foldl_append, List.foldl_cons, List.foldl_nil]

theorem run_owned (calls : List (SyncCall Path)) : (run config parse calls).Owned parse := by
  induction calls using List.reverseRecOn with
  | nil =>
    intro k row stored
    cases stored
  | append_singleton calls call ih =>
    rw [run_append]
    exact ih.sync

theorem run_shown {calls : List (SyncCall Path)}
    (keeps : ∀ before call later, calls = before ++ call :: later →
      Keeps parse (run config parse before) call (run config parse (before ++ [call]))) :
    (run config parse calls).Shown parse := by
  induction calls using List.reverseRecOn with
  | nil =>
    intro path state known
    cases known
  | append_singleton calls call _ =>
    rw [run_append]
    have last := keeps calls call [] rfl
    rw [run_append] at last
    exact Shown.sync last

/-- Every call of a run keeps what it is to keep just when every call spares the keys that other
files give. -/
theorem sync_files_keeps_iff (calls : List (SyncCall Path)) :
    (∀ before call later, calls = before ++ call :: later →
      Keeps parse (run config parse before) call (run config parse (before ++ [call]))) ↔
    ∀ before call later, calls = before ++ call :: later →
      Spares config parse (run config parse before) call := by
  constructor
  · intro keeps before call later split
    have here := keeps before call later split
    rw [run_append] at here
    exact here.spares (run_owned before)
  · intro spares before
    induction hlength : before.length using Nat.strongRecOn generalizing before with
    | ind n ih =>
      intro call later split
      have shown : (run config parse before).Shown parse := by
        refine run_shown ?_
        intro earlier call' later' split'
        refine ih earlier.length ?_ earlier rfl call' (later' ++ call :: later) ?_
        · rw [← hlength, split', List.length_append, List.length_cons]
          omega
        · rw [split, split', List.append_assoc]
          rfl
      rw [run_append]
      exact (spares before call later split).keeps (run_owned before) shown

end History

namespace History

/-- The first file and the first version of the second give the same key. -/
def sharedKey (file : FileSig ℕ) : List (ℕ × ℕ) :=
  if file = ⟨1, 0, 20⟩ then [] else [(7, file.path)]

def sharedCalls : List (SyncCall ℕ) :=
  [⟨[⟨0, 0, 10⟩, ⟨1, 0, 10⟩], by decide, false⟩, ⟨[⟨0, 0, 10⟩, ⟨1, 0, 20⟩], by decide, false⟩]

/-- The second file drops the key, and its row goes although the first file still gives it. -/
theorem sync_files_loses_shared :
    ¬ ∀ before call later, sharedCalls = before ++ call :: later →
      Keeps sharedKey (run () sharedKey before) call (run () sharedKey (before ++ [call])) := by
  intro keeps
  have last := keeps [⟨[⟨0, 0, 10⟩, ⟨1, 0, 10⟩], by decide, false⟩]
    ⟨[⟨0, 0, 10⟩, ⟨1, 0, 20⟩], by decide, false⟩ [] rfl
  have stored := last.current ⟨0, 0, 10⟩ List.mem_cons_self 7 (by decide)
  exact absurd stored (by decide)

end History

end UsageStore
