import Mathlib.Algebra.Group.Int.Defs
import Mathlib.Data.Nat.Notation
import LivingBalancer.Lib.Dict

/-!
# The usage store of one file-backed source

`UsageEntryStore.sync_files`. Rows are unique by entry key and belong to the file that wrote
them last; a file that is parsed whole first loses the rows that belong to it. The two readers
give entries as they are stored, each under its key. The counts, the update times and the
signature of the source are left out: no sync reads them.
-/

namespace UsageStore

variable {Path Key Data Config : Type}

/-- One file of `_normalize_file_signatures`. -/
structure FileSig (Path : Type) where
  path : Path
  mtimeNs : ℤ
  size : ℕ
  deriving DecidableEq

/-- `build_source_signature` of one file, with the pricing and parser signatures as `config`;
the text that is stored encodes these. -/
structure Signature (Path Config : Type) where
  file : FileSig Path
  config : Config
  deriving DecidableEq

/-- A row of `file_state`. -/
structure FileState (Path Config : Type) where
  mtimeNs : ℤ
  size : ℕ
  safeOffset : ℕ
  missing : Bool
  signature : Signature Path Config
  deriving DecidableEq

/-- A row of `usage_entries`. -/
structure UsageRow (Path Data : Type) where
  filePath : Path
  data : Data
  deriving DecidableEq

structure Store (Path Key Data Config : Type) where
  rows : Dict Key (UsageRow Path Data)
  files : Dict Path (FileState Path Config)

/-- `parse_file_entries` and `parse_file_tail_entries`; a tail that raises gives `none`. -/
structure Readers (Path Key Data : Type) where
  parseFile : FileSig Path → List (Key × Data)
  parseTail : Option (FileSig Path → ℕ → Option (List (Key × Data) × ℕ))

/-- What a sync has parsed of one changed file. -/
structure Parsed (Path Key Data : Type) where
  file : FileSig Path
  entries : List (Key × Data)
  safeOffset : ℕ
  appended : Bool

namespace Store

def empty : Store Path Key Data Config := ⟨.empty, .empty⟩

variable [DecidableEq Path]

/-- `removed_paths`. -/
def removedPaths (s : Store Path Key Data Config) (keepMissing : Bool)
    (files : List (FileSig Path)) : List Path :=
  (s.files.items.filter fun item =>
    !(files.any fun file => decide (file.path = item.1)) && (!keepMissing || !item.2.missing)).map
      Prod.fst

/-- The condition of `changed_files` on one file. -/
def changed [DecidableEq Config] (s : Store Path Key Data Config) (config : Config)
    (file : FileSig Path) : Bool :=
  match s.files.get file.path with
  | none => true
  | some state => decide (state.signature ≠ ⟨file, config⟩) || state.missing

/-- Where the tail of a file starts, if its tail is to be parsed. -/
def tailStart [DecidableEq Config] (s : Store Path Key Data Config) (config : Config)
    (file : FileSig Path) : Option ℕ :=
  match s.files.get file.path with
  | none => none
  | some state =>
    let oldSize := if state.size ≠ 0 then state.size else state.safeOffset
    if !state.missing && decide (oldSize < file.size) &&
        decide (state.signature = ⟨⟨file.path, state.mtimeNs, oldSize⟩, config⟩) then some oldSize
    else none

/-- One turn of the loop over the changed files. -/
def parse [DecidableEq Config] (s : Store Path Key Data Config) (config : Config)
    (readers : Readers Path Key Data) (file : FileSig Path) : Parsed Path Key Data :=
  let tail := readers.parseTail.bind fun parseTail =>
    (s.tailStart config file).bind fun start => parseTail file start
  match tail with
  | some (entries, safeOffset) => ⟨file, entries, safeOffset, true⟩
  | none => ⟨file, readers.parseFile file, file.size, false⟩

/-- The deletion of the rows of a file. -/
def deleteRows (s : Store Path Key Data Config) (path : Path) : Store Path Key Data Config :=
  { s with rows := s.rows.filter fun item => decide (item.2.filePath ≠ path) }

/-- A path that is not in the file set any more. -/
def remove (s : Store Path Key Data Config) (keepMissing : Bool) (path : Path) :
    Store Path Key Data Config :=
  if keepMissing then
    match s.files.get path with
    | some state => { s with files := s.files.set path { state with missing := true } }
    | none => s
  else { s.deleteRows path with files := s.files.pop path }

/-- `INSERT OR REPLACE` of one entry. -/
def replace [DecidableEq Key] (s : Store Path Key Data Config) (path : Path)
    (entry : Key × Data) : Store Path Key Data Config :=
  { s with rows := (s.rows.pop entry.1).set entry.1 ⟨path, entry.2⟩ }

/-- The statements for one parsed file. -/
def write [DecidableEq Key] (config : Config) (s : Store Path Key Data Config)
    (parsed : Parsed Path Key Data) : Store Path Key Data Config :=
  let path := parsed.file.path
  let cleared := if parsed.appended then s else s.deleteRows path
  let written := parsed.entries.foldl (fun s entry => s.replace path entry) cleared
  let signature := ⟨⟨path, parsed.file.mtimeNs, parsed.safeOffset⟩, config⟩
  { written with
    files := written.files.set path
      ⟨parsed.file.mtimeNs, parsed.safeOffset, parsed.safeOffset, false, signature⟩ }

/-- `sync_files`, and whether it wrote. -/
def syncFiles [DecidableEq Key] [DecidableEq Config] (s : Store Path Key Data Config)
    (config : Config) (readers : Readers Path Key Data) (keepMissing : Bool)
    (files : List (FileSig Path)) : Store Path Key Data Config × Bool :=
  let removed := s.removedPaths keepMissing files
  let changed := files.filter (s.changed config)
  if removed.isEmpty && changed.isEmpty then (s, false)
  else
    let parsed := changed.map (s.parse config readers)
    let kept := removed.foldl (fun s path => s.remove keepMissing path) s
    (parsed.foldl (write config) kept, true)

end Store

/-! ## What a parameter of a statement can be -/

/-- An SQLite integer has 64 bits. -/
def Fits (n : ℤ) : Prop := -2 ^ 63 ≤ n ∧ n < 2 ^ 63

instance : DecidablePred Fits := fun _ => inferInstanceAs (Decidable (_ ∧ _))

/-- A text without lone surrogates has a UTF-8 form. -/
def Encodes (t : List ℕ) : Prop := ∀ c ∈ t, ¬ (0xd800 ≤ c ∧ c < 0xe000)

instance : DecidablePred Encodes := fun t => inferInstanceAs (Decidable (∀ c ∈ t, _))

/-! ## What the statements do -/

/-- The last data that a list of entries gives for a key. -/
def lastEntry [DecidableEq Key] (k : Key) : List (Key × Data) → Option Data
  | [] => none
  | entry :: rest => (lastEntry k rest).or (if entry.1 = k then some entry.2 else none)

section Entries

variable [DecidableEq Key] {k : Key} {entries : List (Key × Data)}

theorem lastEntry_eq_none : lastEntry k entries = none ↔ k ∉ entries.map Prod.fst := by
  induction entries with
  | nil => simp [lastEntry]
  | cons entry rest ih =>
    simp only [lastEntry, Option.or_eq_none_iff, ih, List.map_cons, List.mem_cons, not_or]
    by_cases here : entry.1 = k
    · simp [here]
    · simp [here, Ne.symm here]

theorem lastEntry_append (k : Key) (first second : List (Key × Data)) :
    lastEntry k (first ++ second) = (lastEntry k second).or (lastEntry k first) := by
  induction first with
  | nil => exact (Option.or_none).symm
  | cons entry rest ih => rw [List.cons_append, lastEntry, lastEntry, ih, Option.or_assoc]

theorem lastEntry_isSome : (lastEntry k entries).isSome = true ↔ k ∈ entries.map Prod.fst := by
  rw [← not_iff_not, ← lastEntry_eq_none, Bool.not_eq_true, Option.isSome_eq_false_iff,
    Option.isNone_iff_eq_none]

theorem lastEntry_mem {data : Data} (h : lastEntry k entries = some data) :
    (k, data) ∈ entries := by
  induction entries with
  | nil => cases h
  | cons entry rest ih =>
    rw [lastEntry, Option.or_eq_some_iff] at h
    rcases h with later | ⟨_, here⟩
    · exact List.mem_cons_of_mem _ (ih later)
    · split at here
      · rename_i own
        cases here
        rw [← own]
        exact List.mem_cons_self
      · cases here

theorem lastEntry_eq_some (distinct : (entries.map Prod.fst).Nodup) {data : Data} :
    lastEntry k entries = some data ↔ (k, data) ∈ entries := by
  induction entries with
  | nil => simp [lastEntry]
  | cons entry rest ih =>
    obtain ⟨fresh, distinctRest⟩ := List.nodup_cons.mp distinct
    rw [lastEntry, Option.or_eq_some_iff, ih distinctRest, List.mem_cons, lastEntry_eq_none, or_comm]
    refine or_congr_left ⟨fun h => ?_, fun h => ?_⟩
    · obtain ⟨_, given⟩ := h
      split at given
      · rename_i own
        cases given
        rw [← own]
      · cases given
    · rw [← h]
      exact ⟨fresh ∘ fun same => by rw [← h]; exact same, if_pos rfl⟩

end Entries

namespace Store

variable [DecidableEq Path] [DecidableEq Key] {s : Store Path Key Data Config}

omit [DecidableEq Path] in
theorem replace_get (s : Store Path Key Data Config) (path : Path) (entry : Key × Data) (k : Key) :
    (s.replace path entry).rows.get k =
      if k = entry.1 then some ⟨path, entry.2⟩ else s.rows.get k := by
  simp only [replace, Dict.get_set, Dict.get_pop]
  by_cases own : k = entry.1
  · rw [if_pos own, if_pos own]
  · rw [if_neg own, if_neg own, if_neg own]

omit [DecidableEq Path] in
theorem replaceAll_get (path : Path) (entries : List (Key × Data)) (k : Key) :
    (entries.foldl (fun s entry => s.replace path entry) s).rows.get k =
      ((lastEntry k entries).map (UsageRow.mk path)).or (s.rows.get k) := by
  induction entries generalizing s with
  | nil => rfl
  | cons entry rest ih =>
    rw [List.foldl_cons, ih, replace_get, lastEntry]
    cases lastEntry k rest with
    | some data => rfl
    | none =>
      by_cases own : k = entry.1
      · simp [own]
      · simp [own, Ne.symm own]

omit [DecidableEq Path] in
theorem replaceAll_files (path : Path) (entries : List (Key × Data)) :
    (entries.foldl (fun s entry => s.replace path entry) s).files = s.files := by
  induction entries generalizing s with
  | nil => rfl
  | cons entry rest ih => exact ih

theorem deleteRows_get (path : Path) (k : Key) :
    (s.deleteRows path).rows.get k =
      (s.rows.get k).filter fun row => decide (row.filePath ≠ path) := by
  simp only [deleteRows]
  rw [Dict.get_filter]

theorem write_get (config : Config) (parsed : Parsed Path Key Data) (k : Key) :
    (s.write config parsed).rows.get k =
      ((lastEntry k parsed.entries).map (UsageRow.mk parsed.file.path)).or
        ((s.rows.get k).filter fun row =>
          parsed.appended || decide (row.filePath ≠ parsed.file.path)) := by
  simp only [write, replaceAll_get]
  cases parsed.appended with
  | true =>
    rw [if_pos rfl]
    cases s.rows.get k <;> rfl
  | false =>
    rw [if_neg Bool.false_ne_true, deleteRows_get]
    rfl

theorem write_files (config : Config) (parsed : Parsed Path Key Data) (path : Path) :
    (s.write config parsed).files.get path =
      if path = parsed.file.path then
        some ⟨parsed.file.mtimeNs, parsed.safeOffset, parsed.safeOffset, false,
          ⟨⟨parsed.file.path, parsed.file.mtimeNs, parsed.safeOffset⟩, config⟩⟩
      else s.files.get path := by
  simp only [write, Dict.get_set, replaceAll_files]
  cases parsed.appended <;> rfl

omit [DecidableEq Key] in
theorem removeAll_files (keepMissing : Bool) (removed : List Path) (path : Path) :
    (removed.foldl (fun s path => s.remove keepMissing path) s).files.get path =
      if path ∈ removed then
        if keepMissing then (s.files.get path).map fun state => { state with missing := true }
        else none
      else s.files.get path := by
  induction removed generalizing s with
  | nil => rfl
  | cons first rest ih =>
    rw [List.foldl_cons, ih]
    have here : (s.remove keepMissing first).files.get path =
        if path = first then
          if keepMissing then (s.files.get path).map fun state => { state with missing := true }
          else none
        else s.files.get path := by
      simp only [remove]
      cases keepMissing with
      | false =>
        rw [if_neg Bool.false_ne_true, if_neg Bool.false_ne_true]
        exact Dict.get_pop _ _ _
      | true =>
        rw [if_pos rfl, if_pos rfl]
        cases hfirst : s.files.get first with
        | none =>
          by_cases same : path = first
          · rw [if_pos same, same, hfirst]
            rfl
          · rw [if_neg same]
        | some state =>
          rw [Dict.get_set]
          by_cases same : path = first
          · rw [if_pos same, if_pos same, same, hfirst]
            rfl
          · rw [if_neg same, if_neg same]
    rw [here]
    by_cases same : path = first
    · subst same
      simp only [if_pos, List.mem_cons, true_or]
      by_cases later : path ∈ rest
      · rw [if_pos later]
        cases keepMissing with
        | false => rfl
        | true => cases s.files.get path <;> rfl
      · rw [if_neg later]
    · rw [if_neg same]
      by_cases later : path ∈ rest
      · rw [if_pos later, if_pos (List.mem_cons_of_mem first later)]
      · rw [if_neg later, if_neg fun mem => (List.mem_cons.mp mem).elim same later]

theorem removeAll_get (keepMissing : Bool) (removed : List Path) (k : Key) :
    (removed.foldl (fun s path => s.remove keepMissing path) s).rows.get k =
      (s.rows.get k).filter fun row => keepMissing || decide (row.filePath ∉ removed) := by
  induction removed generalizing s with
  | nil =>
    simp only [List.foldl_nil, List.not_mem_nil, not_false_eq_true, decide_true, Bool.or_true]
    cases s.rows.get k <;> rfl
  | cons first rest ih =>
    rw [List.foldl_cons, ih]
    cases keepMissing with
    | true =>
      have same : (s.remove true first).rows = s.rows := by
        simp only [remove, if_true]
        split <;> rfl
      rw [same]
      cases s.rows.get k <;> rfl
    | false =>
      have here : (s.remove false first).rows.get k = (s.deleteRows first).rows.get k := rfl
      rw [here, deleteRows_get]
      cases s.rows.get k with
      | none => rfl
      | some row => simp

omit [DecidableEq Key] in
/-- A file that is not parsed again has its signature stored. -/
theorem unchanged_state [DecidableEq Config] {config : Config} {file : FileSig Path}
    (same : s.changed config file = false) :
    ∃ state, s.files.get file.path = some state ∧ state.signature = ⟨file, config⟩ ∧
      state.missing = false := by
  simp only [changed] at same
  split at same
  · cases same
  · rename_i state known
    simp only [Bool.or_eq_false_iff, decide_eq_false_iff_not, not_not] at same
    exact ⟨state, known, same.1, same.2⟩

end Store

end UsageStore
