import LivingBalancer.Lib.JsonReading
import LivingBalancer.Lib.Runs
import LivingBalancer.Tokdash.QuotaLines
import LivingBalancer.Tokdash.UsageStore

/-!
# Watermarks of quota snapshots

Pollers read rollout files that only grow and commit the snapshots together with the offsets they
were read to. The watermarks are read before the files, the size of a file before its bytes, and a
commit may fail and roll back. Rows are never pruned here.
-/

namespace QuotaWatermarks

open PyJson UsageStore QuotaSnapshots Runs

variable {F G Cost : Type}

/-! ## The store -/

/-- A row of `quota_file_state`. -/
structure Watermark where
  mtime : ℤ
  size : ℕ
  safeOffset : ℕ

/-- An item of `updates`. -/
structure Update where
  path : Str
  mark : Watermark

/-- `_quota_snapshot_rows`. -/
def quotaSnapshotRow (snap : QuotaSnapshot F G) : QuotaSnapshot F G :=
  { snap with
    account := if snap.account = [] then text "default" else snap.account
    status := if snap.status = [] then text "ok" else snap.status }

/-- SQLite takes the parameters; `raw_json` is in ASCII. -/
def Binds (row : QuotaSnapshot F G) : Prop :=
  (∀ t ∈ [row.provider, row.account, row.bucket, row.bucketLabel, row.source, row.status] ++
    row.plan.toList, Encodes t) ∧ ∀ n ∈ row.capturedAt :: row.resetsAt.toList, Fits n

instance : DecidablePred (Binds (F := F) (G := G)) := fun _ => inferInstanceAs (Decidable (_ ∧ _))

def Update.Binds (update : Update) : Prop :=
  Encodes update.path ∧
    ∀ n ∈ [update.mark.mtime, (update.mark.size : ℤ), (update.mark.safeOffset : ℤ)], Fits n

instance : DecidablePred Update.Binds := fun _ => inferInstanceAs (Decidable (_ ∧ _))

/-- What the unique index compares. -/
def rowKey (row : QuotaSnapshot F G) : Str × Str × Str × Str × ℤ :=
  (row.provider, row.account, row.bucket, row.source, row.capturedAt)

/-- `INSERT OR IGNORE INTO quota_snapshots`. -/
def insertOrIgnore (rows : List (QuotaSnapshot F G)) (row : QuotaSnapshot F G) :
    List (QuotaSnapshot F G) :=
  if rows.any fun other => decide (rowKey other = rowKey row) then rows else rows ++ [row]

/-- The upsert into `quota_file_state`. -/
def upsert (marks : Str → Option Watermark) (update : Update) : Str → Option Watermark :=
  fun path => if path = update.path then some update.mark else marks path

/-! ## Pollers -/

structure File where
  content : Bytes
  mtime : ℤ

/-- `fresh` and `updates`. -/
structure Batch (F G : Type) where
  fresh : List (QuotaSnapshot F G)
  updates : List Update

/-- A file between `stat` and the read. -/
structure Opened where
  path : Str
  mtime : ℤ
  size : ℕ
  base : ℕ

structure Scan (F G : Type) where
  backfilled : Bool
  marks : Str → Option Watermark
  todo : List Str
  opened : Option Opened
  batch : Batch F G

/-- Where a call of `collect_codex_session_snapshots_incremental` stands. -/
inductive Poller (F G : Type) where
  | idle
  | started (backfilled : Bool)
  | marked (backfilled : Bool) (marks : Str → Option Watermark)
  | scanning (scan : Scan F G)

structure State (F G : Type) where
  files : Str → Option File
  rows : List (QuotaSnapshot F G)
  marks : Str → Option Watermark
  backfillDone : Bool
  pollers : ℕ → Poller F G

inductive Act where
  /-- A file appears or gets more bytes. -/
  | grow (path : Str) (bytes : Bytes) (mtime : ℤ)
  | start (i : ℕ)
  | readMarks (i : ℕ)
  /-- `sorted(root.rglob(...))` gives these paths. -/
  | list (i : ℕ) (paths : List Str)
  | stat (i : ℕ) (fails : Bool)
  | read (i : ℕ) (fails : Bool)
  | commit (i : ℕ) (fails : Bool)
  /-- An exception or the end of the process. -/
  | stop (i : ℕ)

namespace State

variable (s : State F G)

def setPoller (i : ℕ) (p : Poller F G) : State F G :=
  { s with pollers := fun j => if j = i then p else s.pollers j }

def grow (path : Str) (bytes : Bytes) (mtime : ℤ) : State F G :=
  { s with files := fun other =>
      if other = path then some ⟨((s.files path).elim [] File.content) ++ bytes, mtime⟩
      else s.files other }

end State

/-- What the loop decides from the `stat` of a file: nothing to read, or where to start. -/
def statBase (marks : Str → Option Watermark) (path : Str) (mtime : ℤ) (size : ℕ) : Option ℕ :=
  match marks path with
  | none => some 0
  | some w =>
    if w.mtime = mtime ∧ w.size = size then none
    else if size < w.safeOffset then some 0
    else some w.safeOffset

section Steps

variable (rules : QuotaRules F G Cost)

/-- The rest of the loop body, on the bytes read from the start on. -/
def readInto (opened : Opened) (content : Bytes) (batch : Batch F G) : Batch F G :=
  let found := rules.snapshotsFromBytes (content.drop opened.base)
  ⟨batch.fresh ++ found.1,
    batch.updates ++ [⟨opened.path, ⟨opened.mtime, opened.size, opened.base + found.2⟩⟩]⟩

/-- `commit_quota_session_batch` without the pruning; `none` if it raises and rolls back. -/
def commitBatch (s : State F G) (batch : Batch F G) (backfilled : Bool) : Option (State F G) :=
  let rows := (QuotaSnapshot.downsample batch.fresh).map quotaSnapshotRow
  if rows.isEmpty && batch.updates.isEmpty && backfilled then some s
  else if (∀ row ∈ rows, Binds row) ∧ ∀ update ∈ batch.updates, update.Binds then
    some { s with
      rows := rows.foldl insertOrIgnore s.rows
      marks := batch.updates.foldl upsert s.marks
      backfillDone := s.backfillDone || !backfilled }
  else none

def step (s : State F G) : Act → Option (State F G)
  | .grow path bytes mtime => some (s.grow path bytes mtime)
  | .start i =>
    match s.pollers i with
    | .idle => some (s.setPoller i (.started s.backfillDone))
    | _ => none
  | .readMarks i =>
    match s.pollers i with
    | .started backfilled => some (s.setPoller i (.marked backfilled s.marks))
    | _ => none
  | .list i paths =>
    match s.pollers i with
    | .marked backfilled marks =>
      some (s.setPoller i (.scanning ⟨backfilled, marks, paths, none, ⟨[], []⟩⟩))
    | _ => none
  | .stat i fails =>
    match s.pollers i with
    | .scanning ⟨backfilled, marks, path :: todo, none, batch⟩ =>
      let opened := if fails then none else
        (s.files path).bind fun file =>
          (statBase marks path file.mtime file.content.length).map fun base =>
            ⟨path, file.mtime, file.content.length, base⟩
      some (s.setPoller i (.scanning ⟨backfilled, marks, todo, opened, batch⟩))
    | _ => none
  | .read i fails =>
    match s.pollers i with
    | .scanning ⟨backfilled, marks, todo, some opened, batch⟩ =>
      let batch' := match s.files opened.path with
        | some file => if fails then batch else readInto rules opened file.content batch
        | none => batch
      some (s.setPoller i (.scanning ⟨backfilled, marks, todo, none, batch'⟩))
    | _ => none
  | .commit i fails =>
    match s.pollers i with
    | .scanning ⟨backfilled, _, [], none, batch⟩ =>
      some (((if fails then none else commitBatch s batch backfilled).getD s).setPoller i .idle)
    | _ => none
  | .stop i => some (s.setPoller i .idle)

end Steps

/-! ## What is stored -/

section Stored

variable {rows rows' new : List (QuotaSnapshot F G)} {row snap : QuotaSnapshot F G}

/-- A row of the same bucket and hour that is not later. -/
def Stored (rows : List (QuotaSnapshot F G)) (snap : QuotaSnapshot F G) : Prop :=
  ∃ row ∈ rows, row.provider = snap.provider ∧ row.account = snap.account ∧
    row.bucket = snap.bucket ∧ row.source = snap.source ∧
    hour row.capturedAt = hour snap.capturedAt ∧ row.capturedAt ≤ snap.capturedAt

theorem Stored.mono (h : Stored rows snap) (sub : rows ⊆ rows') : Stored rows' snap := by
  obtain ⟨row, mem, same⟩ := h
  exact ⟨row, sub mem, same⟩

theorem subset_insertAll (new rows : List (QuotaSnapshot F G)) :
    rows ⊆ new.foldl insertOrIgnore rows := by
  induction new generalizing rows with
  | nil => exact List.Subset.refl rows
  | cons row rest ih =>
    refine List.Subset.trans ?_ (ih (insertOrIgnore rows row))
    rw [insertOrIgnore]
    split
    · exact List.Subset.refl rows
    · exact List.subset_append_left rows [row]

theorem insertOrIgnore_key (rows : List (QuotaSnapshot F G)) (row : QuotaSnapshot F G) :
    ∃ other ∈ insertOrIgnore rows row, rowKey other = rowKey row := by
  rw [insertOrIgnore]
  split
  · rename_i known
    obtain ⟨other, mem, same⟩ := List.any_eq_true.mp known
    exact ⟨other, mem, of_decide_eq_true same⟩
  · exact ⟨row, List.mem_append_right rows (List.mem_singleton_self row), rfl⟩

/-- A row is in the table or the unique index has another with its values. -/
theorem insertAll_key (mem : row ∈ new) :
    ∃ other ∈ new.foldl insertOrIgnore rows, rowKey other = rowKey row := by
  induction new generalizing rows with
  | nil => cases mem
  | cons first rest ih =>
    obtain rfl | later := List.mem_cons.mp mem
    · obtain ⟨other, there, same⟩ := insertOrIgnore_key rows row
      exact ⟨other, subset_insertAll rest _ there, same⟩
    · exact ih later

/-- What every snapshot of a rollout file has. -/
structure FromSession (snap : QuotaSnapshot F G) : Prop where
  source : snap.source = text "codex_session"
  account : snap.account ≠ []
  status : snap.status ≠ []

theorem FromSession.row_eq (h : FromSession snap) : quotaSnapshotRow snap = snap := by
  rw [quotaSnapshotRow, if_neg h.account, if_neg h.status]

theorem stored_of_downsample (fresh : ∀ snap ∈ new, FromSession snap) (mem : snap ∈ new) :
    Stored (((QuotaSnapshot.downsample new).map quotaSnapshotRow).foldl insertOrIgnore rows)
      snap := by
  obtain ⟨kept, there, sameHour, earlier⟩ := downsample_covers mem
  have keptFresh := fresh kept (mem_of_mem_downsample there)
  obtain ⟨row, inTable, sameKey⟩ := @insertAll_key _ _ rows _ _
    (List.mem_map_of_mem (f := quotaSnapshotRow) there)
  rw [keptFresh.row_eq] at sameKey
  simp only [rowKey, Prod.mk.injEq] at sameKey
  obtain ⟨provider, account, bucket, source, time⟩ := sameKey
  simp only [QuotaSnapshot.hourKey, Prod.mk.injEq] at sameHour
  refine ⟨row, inTable, provider.trans sameHour.1, account.trans sameHour.2.1,
    bucket.trans sameHour.2.2.1, ?_, ?_, ?_⟩
  · rw [source, keptFresh.source, (fresh snap mem).source]
  · rw [time, sameHour.2.2.2]
  · rw [time]
    exact earlier

end Stored

/-! ## Snapshots of a session -/

section Session

variable {rules : QuotaRules F G Cost}

theorem natText_ne_nil (n : ℕ) : natText n ≠ [] := by
  intro empty
  have read := takeInteger_natText n
  rw [empty] at read
  cases read

theorem str_ne_nil (rules : QuotaRules F G Cost) {v : JsonValue F}
    (truthy : rules.truthy v = true) : rules.str v ≠ [] := by
  cases v with
  | null => cases truthy
  | bool b => cases b <;> exact List.cons_ne_nil _ _
  | int n =>
    cases n with
    | ofNat n => exact natText_ne_nil n
    | negSucc n => exact List.cons_ne_nil _ _
  | float x => exact rules.repr_ne _
  | str t =>
    intro empty
    have none_ : t = [] := empty
    rw [none_] at truthy
    cases truthy
  | list items => exact rules.repr_ne _
  | dict items => exact rules.repr_ne _

theorem bucketSnapshot_fromSession {rateLimits payload : List (Str × JsonValue F)}
    {bucket label : Str} {capturedAt : ℤ} {snap : QuotaSnapshot F G}
    (h : rules.bucketSnapshot rateLimits bucket label payload capturedAt = some snap) :
    FromSession snap := by
  obtain ⟨used, _, rfl⟩ := Option.map_eq_some_iff.mp h
  refine ⟨rfl, ?_, List.cons_ne_nil _ _⟩
  by_cases named : rules.truthy (JsonlUsage.Rules.getD rateLimits "account_id" .null) = true
  · simp only [named, if_true]
    exact str_ne_nil rules named
  · simp only [named]
    exact List.cons_ne_nil (code 'd') (text "efault")

theorem lineSnapshots_fromSession {line : Bytes} {snap : QuotaSnapshot F G}
    (mem : snap ∈ rules.lineSnapshots line) : FromSession snap := by
  have ofEvent : ∀ obj, snap ∈ rules.snapshotsFromTokenCountEvent obj → FromSession snap := by
    intro obj mem
    simp only [QuotaRules.snapshotsFromTokenCountEvent] at mem
    split at mem
    · split at mem
      · cases mem
      · obtain first | second := List.mem_append.mp mem
        · exact bucketSnapshot_fromSession (Option.mem_toList.mp (List.mem_ite_nil_left.mp first).2)
        · exact bucketSnapshot_fromSession (Option.mem_toList.mp (List.mem_ite_nil_left.mp second).2)
    · cases mem
  rw [QuotaRules.lineSnapshots] at mem
  split at mem
  · cases mem
  · split at mem
    · exact ofEvent _ mem
    · cases mem

theorem snapshotsOf_fromSession {data : Bytes} {snap : QuotaSnapshot F G}
    (mem : snap ∈ snapshotsOf rules data) : FromSession snap := by
  obtain ⟨line, _, there⟩ := List.mem_flatMap.mp mem
  exact lineSnapshots_fromSession there

end Session
/-! ## What an offset accounts for -/

section Accounts

variable {rules : QuotaRules F G Cost} {files files' : Str → Option File}
variable {rows rows' : List (QuotaSnapshot F G)} {good good' : QuotaSnapshot F G → Prop}
variable {path : Str} {offset size : ℕ} {w : Watermark}

/-- The lines of the file up to the offset give good snapshots only. -/
def ReadTo (rules : QuotaRules F G Cost) (files : Str → Option File)
    (good : QuotaSnapshot F G → Prop) (path : Str) (offset : ℕ) : Prop :=
  ∃ file, files path = some file ∧ AtLineStart file.content offset ∧
    ∀ snap ∈ snapshotsOf rules (file.content.take offset), good snap

/-- The file has the size, and no newline from the offset to the size. -/
def Past (files : Str → Option File) (path : Str) (offset size : ℕ) : Prop :=
  ∃ file, files path = some file ∧ size ≤ file.content.length ∧
    ∀ n, offset ≤ n → n < size → file.content[n]? ≠ some newline

structure Accounted (rules : QuotaRules F G Cost) (files : Str → Option File)
    (good : QuotaSnapshot F G → Prop) (path : Str) (w : Watermark) : Prop where
  readTo : ReadTo rules files good path w.safeOffset
  past : Past files path w.safeOffset w.size

/-- Files only get longer. -/
def Grown (files files' : Str → Option File) : Prop :=
  ∀ path file, files path = some file →
    ∃ file' more, files' path = some file' ∧ file'.content = file.content ++ more

theorem Grown.refl (files : Str → Option File) : Grown files files :=
  fun _ file known => ⟨file, [], known, (List.append_nil _).symm⟩

theorem ReadTo.mono (h : ReadTo rules files good path offset) (grown : Grown files files')
    (imp : ∀ snap, good snap → good' snap) : ReadTo rules files' good' path offset := by
  obtain ⟨file, known, start, each⟩ := h
  obtain ⟨file', more, known', same⟩ := grown path file known
  refine ⟨file', known', same ▸ start.append more, fun snap mem => imp snap (each snap ?_)⟩
  rwa [same, List.take_append_of_le_length start.le_length] at mem

theorem Past.mono (h : Past files path offset size) (grown : Grown files files') :
    Past files' path offset size := by
  obtain ⟨file, known, fits, plain⟩ := h
  obtain ⟨file', more, known', same⟩ := grown path file known
  refine ⟨file', known', ?_, fun n low high => ?_⟩
  · rw [same, List.length_append]
    omega
  · rw [same, List.getElem?_append_left (by omega)]
    exact plain n low high

theorem Accounted.mono (h : Accounted rules files good path w) (grown : Grown files files')
    (imp : ∀ snap, good snap → good' snap) : Accounted rules files' good' path w :=
  ⟨h.readTo.mono grown imp, h.past.mono grown⟩

/-- What a scan may rely on. -/
structure ScanSound (rules : QuotaRules F G Cost) (files : Str → Option File)
    (rows : List (QuotaSnapshot F G)) (scan : Scan F G) : Prop where
  marks : ∀ path w, scan.marks path = some w → Accounted rules files (Stored rows) path w
  opened : ∀ o, scan.opened = some o → ReadTo rules files (Stored rows) o.path o.base ∧
    Past files o.path o.size o.size
  fresh : ∀ snap ∈ scan.batch.fresh, FromSession snap
  updates : ∀ update ∈ scan.batch.updates,
    Accounted rules files (fun snap => Stored rows snap ∨ snap ∈ scan.batch.fresh) update.path
      update.mark

def PollerSound (rules : QuotaRules F G Cost) (files : Str → Option File)
    (rows : List (QuotaSnapshot F G)) : Poller F G → Prop
  | .idle | .started _ => True
  | .marked _ marks => ∀ path w, marks path = some w → Accounted rules files (Stored rows) path w
  | .scanning scan => ScanSound rules files rows scan

theorem PollerSound.mono {poller : Poller F G} (h : PollerSound rules files rows poller)
    (grown : Grown files files') (sub : rows ⊆ rows') :
    PollerSound rules files' rows' poller := by
  cases poller with
  | idle => trivial
  | started => trivial
  | marked backfilled marks =>
    exact fun path w known => (h path w known).mono grown fun snap stored => stored.mono sub
  | scanning scan =>
    obtain ⟨marks, opened, fresh, updates⟩ := h
    refine ⟨fun path w known => ?_, fun o known => ?_, fresh, fun update mem => ?_⟩
    · exact (marks path w known).mono grown fun snap stored => stored.mono sub
    · obtain ⟨read, past⟩ := opened o known
      exact ⟨read.mono grown fun snap stored => stored.mono sub, past.mono grown⟩
    · exact (updates update mem).mono grown fun snap => Or.imp_left fun stored => stored.mono sub

/-- The watermarks and all pollers are sound. -/
structure Sound (rules : QuotaRules F G Cost) (s : State F G) : Prop where
  marks : ∀ path w, s.marks path = some w → Accounted rules s.files (Stored s.rows) path w
  pollers : ∀ i, PollerSound rules s.files s.rows (s.pollers i)

theorem Sound.setPoller {s : State F G} (sound : Sound rules s) {i : ℕ} {poller : Poller F G}
    (own : PollerSound rules s.files s.rows poller) : Sound rules (s.setPoller i poller) := by
  refine ⟨sound.marks, fun j => ?_⟩
  by_cases here : j = i
  · subst here
    simpa [State.setPoller] using own
  · simpa [State.setPoller, here] using sound.pollers j

theorem grown_grow (s : State F G) (path : Str) (bytes : Bytes) (mtime : ℤ) :
    Grown s.files (s.grow path bytes mtime).files := by
  intro other file known
  by_cases same : other = path
  · subst same
    exact ⟨_, bytes, if_pos rfl, by rw [known]; rfl⟩
  · exact ⟨file, [], (if_neg same).trans known, (List.append_nil _).symm⟩

theorem Sound.grow {s : State F G} (sound : Sound rules s) (path : Str) (bytes : Bytes)
    (mtime : ℤ) : Sound rules (s.grow path bytes mtime) where
  marks other w known :=
    (sound.marks other w known).mono (grown_grow s path bytes mtime) fun _ stored => stored
  pollers i := (sound.pollers i).mono (grown_grow s path bytes mtime) (List.Subset.refl _)

end Accounts

/-! ## Steps of a poller -/

section Poll

variable {rules : QuotaRules F G Cost} {s t : State F G} {batch : Batch F G} {i : ℕ}

/-- The rows and the offsets that a commit would bind. -/
def BatchBinds (batch : Batch F G) : Prop :=
  (∀ row ∈ (QuotaSnapshot.downsample batch.fresh).map quotaSnapshotRow, Binds row) ∧
    ∀ update ∈ batch.updates, update.Binds

instance : DecidablePred (BatchBinds (F := F) (G := G)) :=
  fun _ => inferInstanceAs (Decidable (_ ∧ _))

/-- The state behind a commit that does not raise. -/
def State.commit (s : State F G) (batch : Batch F G) (backfilled : Bool) : State F G :=
  { s with
    rows := ((QuotaSnapshot.downsample batch.fresh).map quotaSnapshotRow).foldl insertOrIgnore s.rows
    marks := batch.updates.foldl upsert s.marks
    backfillDone := s.backfillDone || !backfilled }

theorem commit_marks (s : State F G) (batch : Batch F G) (backfilled : Bool) :
    (s.commit batch backfilled).marks = batch.updates.foldl upsert s.marks := rfl

theorem commitBatch_eq (s : State F G) (batch : Batch F G) (backfilled : Bool) :
    commitBatch s batch backfilled =
      if BatchBinds batch then some (s.commit batch backfilled) else none := by
  rw [commitBatch]
  split
  · rename_i nothing
    simp only [Bool.and_eq_true, List.isEmpty_iff] at nothing
    obtain ⟨⟨noRows, noUpdates⟩, done⟩ := nothing
    have binds : BatchBinds batch := by
      rw [BatchBinds, noRows, noUpdates]
      exact ⟨fun _ mem => (List.not_mem_nil mem).elim, fun _ mem => (List.not_mem_nil mem).elim⟩
    rw [if_pos binds, State.commit, noRows, noUpdates, done]
    simp
  · rfl

theorem upsertAll_cases (marks : Str → Option Watermark) (updates : List Update) (path : Str) :
    (updates.foldl upsert marks path = marks path ∧ ∀ update ∈ updates, update.path ≠ path) ∨
      ∃ update ∈ updates, update.path = path ∧
        updates.foldl upsert marks path = some update.mark := by
  induction updates generalizing marks with
  | nil => exact .inl ⟨rfl, fun _ mem => (List.not_mem_nil mem).elim⟩
  | cons update rest ih =>
    rw [List.foldl_cons]
    obtain ⟨known, others⟩ | ⟨later, mem, own, same⟩ := ih (upsert marks update)
    · by_cases own : path = update.path
      · rw [upsert, if_pos own] at known
        exact .inr ⟨update, List.mem_cons_self, own.symm, known⟩
      · rw [upsert, if_neg own] at known
        exact .inl ⟨known, List.forall_mem_cons.mpr ⟨Ne.symm own, others⟩⟩
    · exact .inr ⟨later, List.mem_cons_of_mem update mem, own, same⟩

theorem Sound.commit {scan : Scan F G} (sound : Sound rules s)
    (own : ScanSound rules s.files s.rows scan) (backfilled : Bool) :
    Sound rules (s.commit scan.batch backfilled) := by
  have sub : s.rows ⊆ (s.commit scan.batch backfilled).rows := subset_insertAll _ s.rows
  refine ⟨fun path w known => ?_, fun j => (sound.pollers j).mono (.refl _) sub⟩
  obtain ⟨old, _⟩ | ⟨update, mem, rfl, new⟩ := upsertAll_cases s.marks scan.batch.updates path
  · rw [commit_marks, old] at known
    exact (sound.marks path w known).mono (.refl _) fun snap stored => stored.mono sub
  · rw [commit_marks, new] at known
    cases known
    refine (own.updates update mem).mono (.refl _) fun snap good => ?_
    obtain stored | fresh := good
    · exact stored.mono sub
    · exact stored_of_downsample own.fresh fresh

theorem getElem?_ne_newline {data : Bytes} (plain : newline ∉ data) (n : ℕ) :
    data[n]? ≠ some newline := fun found => plain (List.mem_of_getElem? found)

/-- A tail starts where the lines before it are stored. -/
theorem statBase_readTo {files : Str → Option File} {rows : List (QuotaSnapshot F G)}
    {marks : Str → Option Watermark} {path : Str} {file : File} {base : ℕ}
    (accounted : ∀ path w, marks path = some w → Accounted rules files (Stored rows) path w)
    (known : files path = some file)
    (from_ : statBase marks path file.mtime file.content.length = some base) :
    ReadTo rules files (Stored rows) path base := by
  have whole : ReadTo rules files (Stored rows) path 0 :=
    ⟨file, known, .inl rfl, fun snap mem => by cases mem⟩
  rw [statBase] at from_
  cases marked : marks path with
  | none =>
    rw [marked] at from_
    cases from_
    exact whole
  | some w =>
    simp only [marked] at from_
    split at from_
    · cases from_
    · split at from_
      · cases from_
        exact whole
      · cases from_
        exact (accounted path w marked).readTo

theorem ScanSound.stat {files : Str → Option File} {rows : List (QuotaSnapshot F G)}
    {backfilled : Bool} {marks : Str → Option Watermark} {path : Str} {todo : List Str}
    (own : ScanSound rules files rows ⟨backfilled, marks, path :: todo, none, batch⟩)
    {file : File} (known : files path = some file) {base : ℕ}
    (from_ : statBase marks path file.mtime file.content.length = some base) :
    ScanSound rules files rows ⟨backfilled, marks, todo,
      some ⟨path, file.mtime, file.content.length, base⟩, batch⟩ := by
  refine ⟨own.marks, ?_, own.fresh, own.updates⟩
  rintro o ⟨⟩
  refine ⟨statBase_readTo own.marks known from_, file, known, le_refl _, fun n low high => ?_⟩
  exact absurd high (Nat.not_lt.mpr low)

/-- The bytes behind the offset are read to their last newline. -/
theorem ScanSound.read {files : Str → Option File} {rows : List (QuotaSnapshot F G)}
    {backfilled : Bool} {marks : Str → Option Watermark} {opened : Opened} {todo : List Str}
    (own : ScanSound rules files rows ⟨backfilled, marks, todo, some opened, batch⟩)
    {file : File} (known : files opened.path = some file) :
    ScanSound rules files rows ⟨backfilled, marks, todo, none,
      readInto rules opened file.content batch⟩ := by
  obtain ⟨⟨_, known', start, each⟩, _, known'', fits, _⟩ := own.opened opened rfl
  cases known.symm.trans known'
  cases known.symm.trans known''
  obtain ⟨read, rest, same, readStart, plain, spec⟩ :=
    snapshotsFromBytes_spec rules (file.content.drop opened.base)
  obtain ⟨before, after, content, length, beforeStart⟩ := start.exists_append
  have dropped : file.content.drop opened.base = after := by
    rw [content, ← length, List.drop_left]
  have taken : file.content.take opened.base = before := by
    rw [content, ← length, List.take_left]
  have whole : file.content = (before ++ read) ++ rest := by
    rw [content, ← dropped, same, List.append_assoc]
  have offset : (before ++ read).length = opened.base + read.length := by
    rw [List.length_append, length]
  have batch_eq : readInto rules opened file.content batch =
      ⟨batch.fresh ++ snapshotsOf rules read,
        batch.updates ++ [⟨opened.path, ⟨opened.mtime, opened.size, opened.base + read.length⟩⟩]⟩ := by
    rw [readInto, spec]
  rw [batch_eq]
  refine ⟨own.marks, ?_, ?_, ?_⟩
  · rintro o ⟨⟩
  · intro snap mem
    obtain old | new := List.mem_append.mp mem
    · exact own.fresh snap old
    · exact snapshotsOf_fromSession new
  · intro update mem
    obtain old | new := List.mem_append.mp mem
    · exact (own.updates update old).mono (.refl _) fun snap =>
        Or.imp_right fun there => List.mem_append_left _ there
    · rw [List.mem_singleton.mp new]
      refine ⟨⟨file, known, ?_, fun snap mem => ?_⟩, file, known, fits, fun n low _ => ?_⟩
      · rw [whole, ← offset]
        exact (beforeStart.append_start readStart).append rest
      · rw [← offset, whole, List.take_left, snapshotsOf_append beforeStart] at mem
        obtain earlier | here := List.mem_append.mp mem
        · rw [← taken] at earlier
          exact .inl (each snap earlier)
        · exact .inr (List.mem_append_right _ here)
      · rw [whole, List.getElem?_append_right (by rw [offset]; exact low)]
        exact getElem?_ne_newline plain _

theorem sound_step (sound : Sound rules s) {a : Act} (h : step rules s a = some t) :
    Sound rules t := by
  cases a with
  | grow path bytes mtime =>
    cases h
    exact sound.grow path bytes mtime
  | stop i =>
    cases h
    exact sound.setPoller trivial
  | start i =>
    rw [step] at h
    split at h
    · cases h
      exact sound.setPoller trivial
    · cases h
  | readMarks i =>
    rw [step] at h
    split at h
    · cases h
      exact sound.setPoller sound.marks
    · cases h
  | list i paths =>
    have own := sound.pollers i
    rw [step] at h
    split at h
    · rename_i at_
      cases h
      rw [at_] at own
      refine sound.setPoller ⟨own, ?_, ?_, ?_⟩
      · rintro o ⟨⟩
      · exact fun _ mem => (List.not_mem_nil mem).elim
      · exact fun _ mem => (List.not_mem_nil mem).elim
    · cases h
  | stat i fails =>
    have own := sound.pollers i
    rw [step] at h
    split at h
    · rename_i backfilled marks path todo batch at_
      rw [at_] at own
      cases h
      have skipped : ScanSound rules s.files s.rows ⟨backfilled, marks, todo, none, batch⟩ := by
        refine ⟨own.marks, ?_, own.fresh, own.updates⟩
        rintro o ⟨⟩
      refine sound.setPoller ?_
      cases fails with
      | true => exact skipped
      | false =>
        cases known : s.files path with
        | none => exact skipped
        | some file =>
          cases from_ : statBase marks path file.mtime file.content.length with
          | none => simpa [from_, PollerSound] using skipped
          | some base => simpa [from_, PollerSound] using own.stat known from_
    · cases h
  | read i fails =>
    have own := sound.pollers i
    rw [step] at h
    split at h
    · rename_i backfilled marks todo opened batch at_
      rw [at_] at own
      cases h
      have skipped : ScanSound rules s.files s.rows ⟨backfilled, marks, todo, none, batch⟩ := by
        refine ⟨own.marks, ?_, own.fresh, own.updates⟩
        rintro o ⟨⟩
      refine sound.setPoller ?_
      cases known : s.files opened.path with
      | none => exact skipped
      | some file =>
        cases fails with
        | true => exact skipped
        | false => exact own.read known
    · cases h
  | commit i fails =>
    have own := sound.pollers i
    rw [step] at h
    split at h
    · rename_i backfilled marks batch at_
      rw [at_] at own
      cases h
      cases fails with
      | true => exact sound.setPoller trivial
      | false =>
        refine Sound.setPoller ?_ trivial
        rw [commitBatch_eq]
        by_cases binds : BatchBinds batch
        · simpa [binds] using sound.commit own backfilled
        · simpa [binds] using sound
    · cases h

end Poll
/-! ## An undisturbed poll -/

section Undisturbed

variable (rules : QuotaRules F G Cost)

/-- What the loop makes of one file, as it stands. -/
def visit (files : Str → Option File) (marks : Str → Option Watermark) (batch : Batch F G)
    (path : Str) : Batch F G :=
  match files path with
  | none => batch
  | some file =>
    match statBase marks path file.mtime file.content.length with
    | none => batch
    | some base =>
      readInto rules ⟨path, file.mtime, file.content.length, base⟩ file.content batch

/-- The batch of a poll during which nothing changes. -/
def collect (files : Str → Option File) (marks : Str → Option Watermark) (paths : List Str) :
    Batch F G :=
  paths.foldl (visit rules files marks) ⟨[], []⟩

/-- What is left to do of a scan. -/
def Scan.finish (files : Str → Option File) (scan : Scan F G) : Batch F G :=
  scan.todo.foldl (visit rules files scan.marks) <|
    match scan.opened.bind fun o => (files o.path).map fun file => (o, file) with
    | none => scan.batch
    | some (o, file) => readInto rules o file.content scan.batch

def safeOffset (s : State F G) (path : Str) : ℕ := (s.marks path).elim 0 Watermark.safeOffset

/-- The lines before an offset have their snapshots stored. -/
def LinesStored (s : State F G) (content : Bytes) (offset : ℕ) : Prop :=
  ∀ line, LineBefore content offset line → ∀ snap ∈ rules.lineSnapshots line, Stored s.rows snap

/-- Every line of every file is before its offset, and stored. -/
def EveryLineCovered (s : State F G) : Prop :=
  ∀ path file, s.files path = some file → safeOffset s path = file.content.length ∧
    LinesStored rules s file.content file.content.length

variable {rules} {s t : State F G} {i : ℕ}

theorem setPoller_setPoller (s : State F G) (i : ℕ) (p q : Poller F G) :
    (s.setPoller i p).setPoller i q = s.setPoller i q := by
  simp only [State.setPoller, State.mk.injEq, true_and]
  funext j
  by_cases here : j = i <;> simp [here]

theorem commit_setPoller (s : State F G) (i : ℕ) (p : Poller F G) (batch : Batch F G)
    (backfilled : Bool) :
    commitBatch (s.setPoller i p) batch backfilled =
      (commitBatch s batch backfilled).map (·.setPoller i p) := by
  rw [commitBatch_eq, commitBatch_eq]
  split <;> rfl

/-- The steps of a poller on its own, without failures. -/
def Own (i : ℕ) (a : Act) : Prop := a = .stat i false ∨ a = .read i false

theorem own_step {scan : Scan F G} {a : Act} (own : Own i a)
    (h : step rules (s.setPoller i (.scanning scan)) a = some t) :
    ∃ scan', t = s.setPoller i (.scanning scan') ∧ scan'.backfilled = scan.backfilled ∧
      scan'.finish rules s.files = scan.finish rules s.files := by
  obtain ⟨backfilled, marks, todo, opened, batch⟩ := scan
  have at_ : (s.setPoller i (.scanning ⟨backfilled, marks, todo, opened, batch⟩)).pollers i =
      .scanning ⟨backfilled, marks, todo, opened, batch⟩ := if_pos rfl
  obtain rfl | rfl := own
  · rw [step, at_] at h
    cases opened with
    | some o => cases todo <;> cases h
    | none =>
      cases todo with
      | nil => cases h
      | cons path todo =>
        cases h
        refine ⟨_, setPoller_setPoller _ _ _ _, rfl, ?_⟩
        simp only [Scan.finish, List.foldl_cons, visit, State.setPoller]
        cases known : s.files path with
        | none => simp
        | some file =>
          cases from_ : statBase marks path file.mtime file.content.length with
          | none => simp [from_]
          | some base => simp [from_, known]
  · rw [step, at_] at h
    cases opened with
    | none => cases h
    | some o =>
      cases h
      refine ⟨_, setPoller_setPoller _ _ _ _, rfl, ?_⟩
      simp only [Scan.finish, State.setPoller]
      cases known : s.files o.path with
      | none => simp [known]
      | some file => simp [known]

theorem own_steps {acts : List Act} (own : ∀ a ∈ acts, Own i a) {scan : Scan F G}
    (h : replay (step rules) (s.setPoller i (.scanning scan)) acts = some t) :
    ∃ scan', t = s.setPoller i (.scanning scan') ∧ scan'.backfilled = scan.backfilled ∧
      scan'.finish rules s.files = scan.finish rules s.files := by
  induction acts generalizing scan with
  | nil => exact ⟨scan, (Option.some.inj h).symm, rfl, rfl⟩
  | cons a rest ih =>
    obtain ⟨r, first, later⟩ := Option.bind_eq_some_iff.mp h
    obtain ⟨scan', rfl, backfilled, finish⟩ := own_step (own a List.mem_cons_self) first
    obtain ⟨scan'', rfl, backfilled', finish'⟩ :=
      ih (fun b mem => own b (List.mem_cons_of_mem a mem)) later
    exact ⟨scan'', rfl, backfilled'.trans backfilled, finish'.trans finish⟩

/-- An undisturbed poll of the poller `i` that finds these paths. -/
def pollActs (i : ℕ) (paths : List Str) (acts : List Act) : List Act :=
  .start i :: .readMarks i :: .list i paths :: (acts ++ [.commit i false])

theorem poll_eq {paths : List Str} {acts : List Act} (own : ∀ a ∈ acts, Own i a)
    (h : replay (step rules) s (pollActs i paths acts) = some t) :
    t = (if BatchBinds (collect rules s.files s.marks paths)
      then s.commit (collect rules s.files s.marks paths) s.backfillDone
      else s).setPoller i .idle := by
  obtain ⟨s₁, start, h⟩ := Option.bind_eq_some_iff.mp h
  obtain ⟨s₂, readMarks, h⟩ := Option.bind_eq_some_iff.mp h
  obtain ⟨s₃, list, h⟩ := Option.bind_eq_some_iff.mp h
  rw [step] at start
  split at start
  · cases start
    have at₁ : (s.setPoller i (.started s.backfillDone)).pollers i = .started s.backfillDone :=
      if_pos rfl
    rw [step, at₁] at readMarks
    cases readMarks
    rw [setPoller_setPoller] at list
    have at₂ : (s.setPoller i (.marked s.backfillDone s.marks)).pollers i =
      .marked s.backfillDone s.marks := if_pos rfl
    rw [show (s.setPoller i (.started s.backfillDone)).marks = s.marks from rfl, step, at₂] at list
    cases list
    rw [setPoller_setPoller, replay_append] at h
    obtain ⟨r, scanned, last⟩ := Option.bind_eq_some_iff.mp h
    obtain ⟨scan, rfl, backfilled, finish⟩ := own_steps own scanned
    obtain ⟨backfilled', marks, todo, opened, batch⟩ := scan
    cases backfilled
    obtain ⟨r, committed, last⟩ := Option.bind_eq_some_iff.mp last
    cases last
    have at₃ : (s.setPoller i (.scanning ⟨s.backfillDone, marks, todo, opened, batch⟩)).pollers i =
      .scanning ⟨s.backfillDone, marks, todo, opened, batch⟩ := if_pos rfl
    rw [step, at₃] at committed
    cases todo with
    | cons path todo => cases opened <;> cases committed
    | nil =>
      cases opened with
      | some o => cases committed
      | none =>
        have whole : batch = collect rules s.files s.marks paths := finish
        subst whole
        cases committed
        rw [commit_setPoller, commitBatch_eq]
        by_cases binds : BatchBinds (collect rules s.files s.marks paths)
        · simp [binds, setPoller_setPoller]
        · simp [binds, setPoller_setPoller]
  · cases start

/-- An update that the loop appends for a path. -/
def Visited (rules : QuotaRules F G Cost) (files : Str → Option File)
    (marks : Str → Option Watermark) (path : Str) (update : Update) : Prop :=
  ∃ file base, files path = some file ∧
    statBase marks path file.mtime file.content.length = some base ∧
    update = ⟨path, ⟨file.mtime, file.content.length,
      base + (rules.snapshotsFromBytes (file.content.drop base)).2⟩⟩

theorem mem_visit_updates {files : Str → Option File} {marks : Str → Option Watermark}
    {batch : Batch F G} {path : Str} {update : Update} :
    update ∈ (visit rules files marks batch path).updates ↔
      update ∈ batch.updates ∨ Visited rules files marks path update := by
  rw [visit, Visited]
  cases known : files path with
  | none => simp
  | some file =>
    cases from_ : statBase marks path file.mtime file.content.length with
    | none => simp [from_]
    | some base => simp [from_, readInto]

theorem mem_collect_updates {files : Str → Option File} {marks : Str → Option Watermark}
    {paths : List Str} {update : Update} :
    update ∈ (collect rules files marks paths).updates ↔
      ∃ path ∈ paths, Visited rules files marks path update := by
  have from_ : ∀ batch : Batch F G, update ∈ (paths.foldl (visit rules files marks) batch).updates ↔
      update ∈ batch.updates ∨ ∃ path ∈ paths, Visited rules files marks path update := by
    induction paths with
    | nil => simp
    | cons path rest ih =>
      intro batch
      rw [List.foldl_cons, ih, mem_visit_updates]
      simp [or_assoc]
  simpa [collect] using from_ ⟨[], []⟩

theorem nil_of_line_ends {before rest : Bytes} (ends : AtLineStart (before ++ rest)
    (before ++ rest).length) (plain : newline ∉ rest) : rest = [] := by
  obtain rfl | ⟨first, b, rfl⟩ := List.eq_nil_or_concat rest
  · rfl
  · obtain empty | ⟨start, same⟩ := ends.eq_append
    · simp at empty
    · rw [List.concat_eq_append, ← List.append_assoc] at same
      have last := (List.append_inj' same rfl).2
      simp at last
      simp [last] at plain

/-- An offset with no newline behind it, in a file that ends with one, is its end. -/
theorem offset_eq_length {content : Bytes} {offset : ℕ} (start : AtLineStart content offset)
    (ends : AtLineStart content content.length) (plain : newline ∉ content.drop offset) :
    offset = content.length := by
  have whole := List.take_append_drop offset content
  rw [← whole] at ends
  have none_ := nil_of_line_ends ends plain
  have := List.drop_eq_nil_iff.mp none_
  have := start.le_length
  omega

variable {path : Str} {file : File} {paths : List Str}

theorem Visited.offset {update : Update} (sound : Sound rules s)
    (known : s.files path = some file) (ends : AtLineStart file.content file.content.length)
    (visited : Visited rules s.files s.marks path update) :
    update.mark.safeOffset = file.content.length := by
  obtain ⟨file', base, known', from_, rfl⟩ := visited
  cases known.symm.trans known'
  obtain ⟨_, known', start, _⟩ := statBase_readTo sound.marks known from_
  cases known.symm.trans known'
  obtain ⟨read, rest, same, _, plain, spec⟩ :=
    snapshotsFromBytes_spec rules (file.content.drop base)
  have whole := List.take_append_drop base file.content
  rw [same, ← List.append_assoc] at whole
  rw [← whole] at ends
  have none_ := nil_of_line_ends ends plain
  subst none_
  have length := congrArg List.length same
  rw [List.append_nil, List.length_drop] at length
  have := start.le_length
  simp only [spec]
  omega

theorem unchanged_offset {w : Watermark} (sound : Sound rules s)
    (known : s.files path = some file) (ends : AtLineStart file.content file.content.length)
    (marked : s.marks path = some w) (same : w.size = file.content.length) :
    w.safeOffset = file.content.length := by
  obtain ⟨⟨_, known', start, _⟩, _, known'', _, plain⟩ := sound.marks path w marked
  cases known.symm.trans known'
  cases known.symm.trans known''
  refine offset_eq_length start ends fun there => ?_
  obtain ⟨n, found⟩ := List.mem_iff_getElem?.mp there
  rw [List.getElem?_drop] at found
  have bound := (List.getElem?_eq_some_iff.mp found).1
  exact plain _ (Nat.le_add_right _ _) (by omega) found

/-- A commit of all that a poll finds moves every offset to the end of its file. -/
theorem commit_offset (sound : Sound rules s) (listed : path ∈ paths)
    (known : s.files path = some file) (ends : AtLineStart file.content file.content.length)
    (backfilled : Bool) :
    safeOffset (s.commit (collect rules s.files s.marks paths) backfilled) path =
      file.content.length := by
  have moved : ∀ update ∈ (collect rules s.files s.marks paths).updates, update.path = path →
      update.mark.safeOffset = file.content.length := by
    intro update mem own
    obtain ⟨other, _, visited⟩ := mem_collect_updates.mp mem
    have same : other = path := by
      obtain ⟨_, _, _, _, rfl⟩ := visited
      exact own
    subst same
    exact visited.offset sound known ends
  rw [safeOffset, commit_marks]
  obtain ⟨old, others⟩ | ⟨update, mem, own, new⟩ :=
    upsertAll_cases s.marks (collect rules s.files s.marks paths).updates path
  · have skipped : statBase s.marks path file.mtime file.content.length = none := by
      cases from_ : statBase s.marks path file.mtime file.content.length with
      | none => rfl
      | some base =>
        exact absurd rfl (others _ (mem_collect_updates.mpr
          ⟨path, listed, file, base, known, from_, rfl⟩))
    rw [old]
    cases marked : s.marks path with
    | none =>
      rw [statBase, marked] at skipped
      cases skipped
    | some w =>
      simp only [statBase, marked] at skipped
      split at skipped
      · rename_i same
        exact unchanged_offset sound known ends marked same.2
      · split at skipped <;> cases skipped
  · rw [new]
    exact moved update mem own

theorem linesStored {w : Watermark} (sound : Sound rules s) (marked : s.marks path = some w) :
    ∃ file, s.files path = some file ∧ AtLineStart file.content w.safeOffset ∧
      LinesStored rules s file.content w.safeOffset := by
  obtain ⟨⟨file, known, start, each⟩, _⟩ := sound.marks path w marked
  refine ⟨file, known, start, fun line before snap mem => each snap ?_⟩
  exact List.mem_flatMap.mpr ⟨line, before.mem_split, mem⟩

/-- Files that end with a newline are covered once their offsets are their lengths. -/
theorem everyLineCovered_iff (sound : Sound rules s) : EveryLineCovered rules s ↔
    ∀ path file, s.files path = some file → safeOffset s path = file.content.length := by
  refine ⟨fun covered path file known => (covered path file known).1,
    fun offsets path file known => ⟨offsets path file known, ?_⟩⟩
  have offset := offsets path file known
  cases marked : s.marks path with
  | none =>
    rw [safeOffset, marked] at offset
    rintro line ⟨_, _, _, _, _, ends⟩
    rw [← offset] at ends
    cases ends
  | some w =>
    obtain ⟨_, known', _, stored⟩ := linesStored sound marked
    cases known.symm.trans known'
    rw [safeOffset, marked] at offset
    rwa [← offset]

end Undisturbed

/-! ## Every run -/

section Runs

variable {rules : QuotaRules F G Cost} {s t : State F G}

/-- Any files and rows, no watermarks yet, nobody polling. -/
structure Initial (s : State F G) : Prop where
  marks : ∀ path, s.marks path = none
  pollers : ∀ i, s.pollers i = .idle

theorem sound_of_reachable (run : Reachable (step rules) Any Initial s) : Sound rules s := by
  refine run.invariant (fun s start => ⟨fun path w known => ?_, fun i => ?_⟩)
    fun s a t sound _ h => sound_step sound h
  · rw [start.marks] at known
    cases known
  · rw [start.pollers]
    trivial

/-- In every state of every run the offsets are at line starts and the lines before them stored.
An undisturbed poll of files that end with newlines covers every line exactly if every line was
covered before or SQLite takes all that the poll would write. -/
theorem watermarks_never_outrun (run : Reachable (step rules) Any Initial s) :
    (∀ path w, s.marks path = some w → ∃ file, s.files path = some file ∧
      AtLineStart file.content w.safeOffset ∧ LinesStored rules s file.content w.safeOffset) ∧
    ∀ i paths acts t,
      (∀ path file, s.files path = some file →
        path ∈ paths ∧ AtLineStart file.content file.content.length) →
      (∀ a ∈ acts, Own i a) →
      replay (step rules) s (pollActs i paths acts) = some t →
      (EveryLineCovered rules t ↔
        EveryLineCovered rules s ∨ BatchBinds (collect rules s.files s.marks paths)) := by
  have sound := sound_of_reachable run
  refine ⟨fun path w marked => linesStored sound marked, fun i paths acts t ended own poll => ?_⟩
  have soundAfter : Sound rules t := by
    obtain ⟨s₀, start, steps⟩ := run
    exact sound_of_reachable
      ⟨s₀, start, steps.trans (steps_of_replay _ (fun _ _ _ => trivial) poll)⟩
  have after := poll_eq own poll
  by_cases binds : BatchBinds (collect rules s.files s.marks paths)
  · rw [if_pos binds] at after
    refine ⟨fun _ => .inr binds, fun _ => (everyLineCovered_iff soundAfter).mpr ?_⟩
    subst after
    intro path file known
    obtain ⟨listed, ends⟩ := ended path file known
    exact commit_offset sound listed known ends s.backfillDone
  · rw [if_neg binds] at after
    subst after
    exact ⟨fun covered => .inl covered, fun before => before.resolve_right binds⟩

theorem own_steps_done (rules : QuotaRules F G Cost) (i : ℕ) (todo : List Str) (s : State F G)
    (backfilled : Bool) (marks : Str → Option Watermark) (batch : Batch F G) :
    ∃ acts batch', (∀ a ∈ acts, Own i a) ∧
      replay (step rules) (s.setPoller i (.scanning ⟨backfilled, marks, todo, none, batch⟩)) acts =
        some (s.setPoller i (.scanning ⟨backfilled, marks, [], none, batch'⟩)) := by
  induction todo generalizing batch with
  | nil => exact ⟨[], batch, fun _ mem => (List.not_mem_nil mem).elim, rfl⟩
  | cons path rest ih =>
    obtain ⟨opened, stat⟩ : ∃ opened, step rules
        (s.setPoller i (.scanning ⟨backfilled, marks, path :: rest, none, batch⟩))
        (.stat i false) =
          some (s.setPoller i (.scanning ⟨backfilled, marks, rest, opened, batch⟩)) := by
      rw [step, show (s.setPoller i (.scanning ⟨backfilled, marks, path :: rest, none, batch⟩)).pollers
        i = .scanning ⟨backfilled, marks, path :: rest, none, batch⟩ from if_pos rfl]
      exact ⟨_, congrArg some (setPoller_setPoller _ _ _ _)⟩
    cases opened with
    | none =>
      obtain ⟨acts, batch', own, later⟩ := ih batch
      refine ⟨.stat i false :: acts, batch', List.forall_mem_cons.mpr ⟨.inl rfl, own⟩, ?_⟩
      rw [replay, stat]
      exact later
    | some o =>
      obtain ⟨batch₁, read⟩ : ∃ batch₁, step rules
          (s.setPoller i (.scanning ⟨backfilled, marks, rest, some o, batch⟩)) (.read i false) =
            some (s.setPoller i (.scanning ⟨backfilled, marks, rest, none, batch₁⟩)) := by
        rw [step, show (s.setPoller i (.scanning ⟨backfilled, marks, rest, some o, batch⟩)).pollers
          i = .scanning ⟨backfilled, marks, rest, some o, batch⟩ from if_pos rfl]
        exact ⟨_, congrArg some (setPoller_setPoller _ _ _ _)⟩
      obtain ⟨acts, batch', own, later⟩ := ih batch₁
      refine ⟨.stat i false :: .read i false :: acts, batch', ?_, ?_⟩
      · exact List.forall_mem_cons.mpr ⟨.inl rfl, List.forall_mem_cons.mpr ⟨.inr rfl, own⟩⟩
      · rw [replay, stat, Option.bind_some, replay, read]
        exact later

/-- An undisturbed poll runs to its end. -/
theorem poll_completes (i : ℕ) (paths : List Str) (idle : s.pollers i = .idle) :
    ∃ acts t, (∀ a ∈ acts, Own i a) ∧
      replay (step rules) s (pollActs i paths acts) = some t := by
  obtain ⟨acts, batch, own, scanned⟩ :=
    own_steps_done rules i paths s s.backfillDone s.marks ⟨[], []⟩
  have start : step rules s (.start i) = some (s.setPoller i (.started s.backfillDone)) := by
    rw [step, idle]
  have readMarks : step rules (s.setPoller i (.started s.backfillDone)) (.readMarks i) =
      some (s.setPoller i (.marked s.backfillDone s.marks)) := by
    rw [step, show (s.setPoller i (.started s.backfillDone)).pollers i = .started s.backfillDone from
      if_pos rfl]
    exact congrArg some (setPoller_setPoller _ _ _ _)
  have list : step rules (s.setPoller i (.marked s.backfillDone s.marks)) (.list i paths) =
      some (s.setPoller i (.scanning ⟨s.backfillDone, s.marks, paths, none, ⟨[], []⟩⟩)) := by
    rw [step, show (s.setPoller i (.marked s.backfillDone s.marks)).pollers i =
      .marked s.backfillDone s.marks from if_pos rfl]
    exact congrArg some (setPoller_setPoller _ _ _ _)
  obtain ⟨t, commit⟩ : ∃ t, step rules
      (s.setPoller i (.scanning ⟨s.backfillDone, s.marks, [], none, batch⟩)) (.commit i false) =
        some t := by
    rw [step, show (s.setPoller i (.scanning ⟨s.backfillDone, s.marks, [], none, batch⟩)).pollers
      i = .scanning ⟨s.backfillDone, s.marks, [], none, batch⟩ from if_pos rfl]
    exact ⟨_, rfl⟩
  refine ⟨acts, t, own, ?_⟩
  rw [pollActs, replay, start, Option.bind_some, replay, readMarks, Option.bind_some, replay, list,
    Option.bind_some, replay_append, scanned, Option.bind_some, replay, commit]
  rfl

end Runs

/-! ## Two rollout files -/

section Examples

/-- Whole numbers for floats. -/
def wholeNumbers : QuotaRules Empty ℤ Unit where
  toRules := { JsonlUsage.wholeSeconds with repr := fun _ => text "?" }
  repr_ne _ := List.cons_ne_nil _ _
  toFloat
    | .int n => some (.finite n)
    | _ => none
  isNegative n := decide (n < 0)
  isNull n := decide (n = 0)
  overTenBillion n := decide (10000000000 < n)
  thousandth n := n / 1000
  truncate n := n
  round4 n := n
  digits _ := none
  isoSeconds _ := none

/-- A `token_count` line. -/
def tokenCountLine (timestamp resetsAt : String) : Bytes :=
  (text "\x7b\"type\":\"event_msg\",\"timestamp\":" ++ text timestamp ++
    text ",\"payload\":\x7b\"type\":\"token_count\"," ++
    text "\"rate_limits\":\x7b\"primary\":\x7b\"used_percent\":5,\"resets_at\":" ++ text resetsAt ++
    text "\x7d\x7d\x7d\x7d\n").map UInt8.ofNat

/-- Nothing but files. -/
def unread (files : List (Str × Bytes)) : State Empty ℤ where
  files path := (Dict.lookup path files).map fun content => ⟨content, 0⟩
  rows := []
  marks _ := none
  backfillDone := false
  pollers _ := .idle

/-- Every file ends with a newline. -/
theorem unread_ends {files : List (Str × Bytes)}
    (ends : ∀ f ∈ files, AtLineStart f.2 f.2.length) :
    ∀ path file, (unread files).files path = some file →
      path ∈ files.map Prod.fst ∧ AtLineStart file.content file.content.length := by
  intro path file known
  obtain ⟨content, found, rfl⟩ := Option.map_eq_some_iff.mp known
  have mem := Dict.mem_of_lookup found
  exact ⟨List.mem_map_of_mem mem, ends _ mem⟩

def rollout (n : String) : Str := text ("rollout-" ++ n ++ ".jsonl")

/-- Two lines of one hour and one of the next hour in a file, and a line of that hour in another. -/
def twoFiles : List (Str × Bytes) :=
  [(rollout "1", tokenCountLine "1" "7200" ++ tokenCountLine "2" "7200" ++
      tokenCountLine "3600" "7200"),
    (rollout "2", tokenCountLine "3601" "7300")]

def readBoth : List Act := [.stat 0 false, .read 0 false, .stat 0 false, .read 0 false]

theorem watermarks_never_outrun_two_files : ∃ t,
    replay (step wholeNumbers) (unread twoFiles)
        (pollActs 0 [rollout "1", rollout "2"] readBoth) = some t ∧
      EveryLineCovered wholeNumbers t ∧ t.rows.map (·.resetsAt) = [some 7200, some 7200] := by
  have poll := @replay_eq_getD _ _ (step wholeNumbers) (unread twoFiles)
    (pollActs 0 [rollout "1", rollout "2"] readBoth) (by decide +kernel) (unread twoFiles)
  refine ⟨_, poll, ?_, by decide +kernel⟩
  refine ((@watermarks_never_outrun _ _ _ wholeNumbers (unread twoFiles)
    ⟨_, ⟨fun _ => rfl, fun _ => rfl⟩, .refl _⟩).2 0 [rollout "1", rollout "2"] readBoth _
    (unread_ends ?_) (by simp [readBoth, Own]) poll).mpr (.inr (by decide +kernel))
  exact List.forall_mem_cons.mpr ⟨.inr (by decide +kernel),
    List.forall_mem_singleton.mpr (.inr (by decide +kernel))⟩

def hugeReset : List (Str × Bytes) :=
  [(rollout "1", tokenCountLine "1" "1180591620717411303424000")]

def readOne : List Act := [.stat 0 false, .read 0 false]

/-- A reset time of more than 64 bits makes the commit raise: the poll stores nothing. -/
theorem huge_reset_blocks_polls : ∃ t,
    replay (step wholeNumbers) (unread hugeReset) (pollActs 0 [rollout "1"] readOne) = some t ∧
      ¬ EveryLineCovered wholeNumbers t ∧ t.rows.length = 0 := by
  have poll := @replay_eq_getD _ _ (step wholeNumbers) (unread hugeReset)
    (pollActs 0 [rollout "1"] readOne) (by decide +kernel) (unread hugeReset)
  refine ⟨_, poll, fun covered => ?_, by decide +kernel⟩
  have content : (((replay (step wholeNumbers) (unread hugeReset)
      (pollActs 0 [rollout "1"] readOne)).getD (unread hugeReset)).files (rollout "1")).map
        (fun file => decide (0 < file.content.length)) = some true := by
    decide +kernel
  have offset : safeOffset ((replay (step wholeNumbers) (unread hugeReset)
      (pollActs 0 [rollout "1"] readOne)).getD (unread hugeReset)) (rollout "1") = 0 := by
    decide +kernel
  obtain ⟨file, known, length⟩ := Option.map_eq_some_iff.mp content
  have covers := (covered (rollout "1") file known).1
  have positive := of_decide_eq_true length
  omega

end Examples
end QuotaWatermarks
