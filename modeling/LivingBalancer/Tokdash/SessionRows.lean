import Mathlib.Data.List.Pairwise
import Mathlib.Data.List.Sort
import LivingBalancer.Lib.JsonText
import LivingBalancer.Tokdash.FileSync

/-!
# One pass over all files, and a pass for each file

The parsers of session files read row by row and drop a message id that they have seen; Claude
also keeps the latest of the snapshots that share an id. `collect()` reads all files in one pass.
The store reads each file in a pass of its own and keeps the row that was written last under an
entry key. `Agrees` says which rows make the two the same.
-/

namespace Sessions

open PyJson UsageStore

variable {Id Data : Type}

/-- What a line or message is to a parser. The entry of a usage row is under its entry key. -/
inductive Row (Id Data : Type) where
  /-- An exception, whatever was seen before: the file is not read on. -/
  | stop
  /-- An exception unless the id was seen; `marks` if the id is seen from then on. -/
  | raises (id : Id) (marks : Bool)
  | usage (id : Option Id) (entry : Option (Str × Data))
  | snapshot (id : Id) (entry : Str × Data)

/-! ## The pass -/

structure Pass (Id Data : Type) where
  seen : List Id
  out : List (Str × Data)
  snapshots : Dict Id (Str × Data)

namespace Pass

variable [DecidableEq Id] (time : Data → ℤ)

def empty : Pass Id Data := ⟨[], [], .empty⟩

def knows (p : Pass Id Data) (id : Option Id) : Bool := id.any fun i => decide (i ∈ p.seen)

def add (p : Pass Id Data) (id : Option Id) (entry : Option (Str × Data)) : Pass Id Data :=
  { p with seen := id.toList ++ p.seen, out := p.out ++ entry.toList }

/-- The later of what is kept for an id, the new one at the same time. -/
def later (old : Option (Str × Data)) (entry : Str × Data) : Str × Data :=
  match old with
  | none => entry
  | some kept => if time kept.2 ≤ time entry.2 then entry else kept

def keepSnapshot (p : Pass Id Data) (id : Id) (entry : Str × Data) : Pass Id Data :=
  { p with snapshots := p.snapshots.set id (later time (p.snapshots.get id) entry) }

/-- The rows of one file. -/
def file : Pass Id Data → List (Row Id Data) → Pass Id Data
  | p, [] => p
  | p, .stop :: _ => p
  | p, .raises id marks :: rest =>
    if p.knows (some id) then file p rest else if marks then p.add (some id) none else p
  | p, .usage id entry :: rest => if p.knows id then file p rest else file (p.add id entry) rest
  | p, .snapshot id entry :: rest => file (p.keepSnapshot time id entry) rest

/-- What a parser returns; Claude sorts by time. -/
def entries (sorts : Bool) (p : Pass Id Data) : List (Str × Data) :=
  let all := p.out ++
    (p.snapshots.items.filter fun item => decide (item.1 ∉ p.seen)).map Prod.snd
  if sorts then all.insertionSort fun a b => time a.2 ≤ time b.2 else all

end Pass

section Collect

variable [DecidableEq Id] (time : Data → ℤ) (sorts : Bool)

/-- `collect()` of files whose rows are given. -/
def collect (files : List (List (Row Id Data))) : List (Str × Data) :=
  (files.foldl (Pass.file time) .empty).entries time sorts

/-- Entries that `_entry_for_storage` keeps. -/
def dated (entries : List (Str × Data)) : List (Str × Data) :=
  entries.filter fun entry => decide (0 < time entry.2)

/-- The entries of one file that are stored. -/
def parseFile (rows : List (Row Id Data)) : List (Str × Data) :=
  dated time (collect time sorts [rows])

variable {Path Config : Type} [DecidableEq Path] [DecidableEq Config]

/-- What `query_entries` gives after `sync_files` on an empty store; `none` if a parameter of an
`INSERT` raises, which rolls the sync back. -/
def storedEntries (binds : Path → List (Str × Data) → Bool)
    (rows : FileSig Path → List (Row Id Data)) (config : Config) (durable : Bool)
    (files : List (FileSig Path)) : Option (List Data) :=
  let parse file := parseFile time sorts (rows file)
  if files.all fun file => binds file.path (parse file) then
    let store := (Store.empty.syncFiles config ⟨parse, none⟩ durable files).1
    some ((store.rows.values.map UsageRow.data).insertionSort fun a b => time a ≤ time b)
  else none

end Collect

/-! ## Rows that count -/

/-- A row that a pass does not drop. -/
inductive Item (Id Data : Type) where
  | usage (id : Option Id) (entry : Option (Str × Data))
  | snapshot (id : Id) (entry : Str × Data)

namespace Item

/-- What is seen after the item. -/
def id : Item Id Data → Option Id
  | .usage id _ => id
  | .snapshot _ _ => none

def ident : Item Id Data → Option Id
  | .usage id _ => id
  | .snapshot id _ => some id

def entry : Item Id Data → Option (Str × Data)
  | .usage _ entry => entry
  | .snapshot _ entry => some entry

end Item

section Taken

variable [DecidableEq Id]

/-- The rows of a file that a pass takes, given what it has seen. -/
def taken : List Id → List (Row Id Data) → List (Item Id Data)
  | _, [] => []
  | _, .stop :: _ => []
  | seen, .raises id marks :: rest =>
    if id ∈ seen then taken seen rest else if marks then [.usage (some id) none] else []
  | seen, .usage id entry :: rest =>
    if id.any fun i => decide (i ∈ seen) then taken seen rest
    else .usage id entry :: taken (id.toList ++ seen) rest
  | seen, .snapshot id entry :: rest => .snapshot id entry :: taken seen rest

/-- Where a pass raises: at the row of an id, with the ids seen before it and the rows left unread. -/
structure Raised (Id Data : Type) where
  id : Id
  seen : List Id
  unread : List (Row Id Data)

def raisedAt : List Id → List (Row Id Data) → Option (Raised Id Data)
  | _, [] => none
  | _, .stop :: _ => none
  | seen, .raises id _ :: rest => if id ∈ seen then raisedAt seen rest else some ⟨id, seen, rest⟩
  | seen, .usage id _ :: rest =>
    if id.any fun i => decide (i ∈ seen) then raisedAt seen rest
    else raisedAt (id.toList ++ seen) rest
  | seen, .snapshot _ _ :: rest => raisedAt seen rest

/-- A pass that has seen the ids takes no row of a file that a pass of its own would not read, though
it reads on where that one raises. -/
def ReadsAlike : List Id → List (List (Row Id Data)) → Prop
  | _, [] => True
  | seen, rows :: later =>
    (∀ r ∈ raisedAt [] rows, r.id ∈ seen → (taken (r.seen ++ seen) r.unread).isEmpty = true) ∧
      ReadsAlike ((taken [] rows).filterMap Item.id ++ seen) later

instance ReadsAlike.decidable :
    (seen : List Id) → (files : List (List (Row Id Data))) → Decidable (ReadsAlike seen files)
  | _, [] => isTrue trivial
  | seen, rows :: later =>
    have := ReadsAlike.decidable ((taken [] rows).filterMap Item.id ++ seen) later
    inferInstanceAs (Decidable (_ ∧ _))

/-- The latest snapshot of an id. -/
def latest (time : Data → ℤ) (i : Id) (items : List (Item Id Data)) : Option (Str × Data) :=
  items.foldl (fun kept item => match item with
    | .usage _ _ => kept
    | .snapshot id entry => if id = i then some (Pass.later time kept entry) else kept) none

/-- What a pass keeps of an id: what its first usage row gives, or else its latest snapshot. -/
def pick (time : Data → ℤ) (i : Id) (items : List (Item Id Data)) : Option (Str × Data) :=
  match items.find? fun item => decide (item.id = some i) with
  | some item => item.entry
  | none => latest time i items

/-- What the last file keeps of an id that keeps a dated entry of it. -/
def lastPick (time : Data → ℤ) (i : Id) (files : List (List (Item Id Data))) :
    Option (Str × Data) :=
  (files.filterMap fun items =>
    (pick time i items).filter fun entry => decide (0 < time entry.2)).getLast?

/-- The dated entries with their ids. -/
def keyed (time : Data → ℤ) (items : List (Item Id Data)) : List (Option Id × Str × Data) :=
  items.filterMap fun item =>
    (item.entry.filter fun entry => decide (0 < time entry.2)).map fun entry => (item.ident, entry)

/-- The rows that count in each file agree with those that count in one pass. -/
structure Agrees {Shown : Type} (time : Data → ℤ) (shown : Data → Shown)
    (files : List (List (Row Id Data))) : Prop where
  /-- No row is read in one pass that is left unread in its file. -/
  raises : ReadsAlike [] files
  /-- Two dated entries have one key exactly if they have one id. -/
  keys : (keyed time (files.flatMap (taken []))).Pairwise fun x y =>
    x.2.1 = y.2.1 ↔ x.1 = y.1 ∧ x.1 ≠ none
  /-- What the first file has of an id shows what the last one has. -/
  picks : ∀ i, ((pick time i (files.flatMap (taken []))).filter fun entry =>
      decide (0 < time entry.2)).map (fun entry => shown entry.2) =
    (lastPick time i (files.map (taken []))).map fun entry => shown entry.2

end Taken

/-! ## A pass as a fold over the rows that count -/

section Items

variable [DecidableEq Id] {time : Data → ℤ} {p : Pass Id Data} {items : List (Item Id Data)} {i : Id}

/-- What an item does to a pass. -/
def Pass.item (time : Data → ℤ) (p : Pass Id Data) : Item Id Data → Pass Id Data
  | .usage id entry => p.add id entry
  | .snapshot id entry => p.keepSnapshot time id entry

theorem Pass.file_eq (rows : List (Row Id Data)) :
    p.file time rows = (taken p.seen rows).foldl (Pass.item time) p := by
  induction rows generalizing p with
  | nil => rfl
  | cons row rest ih =>
    cases row with
    | stop => rfl
    | raises id marks =>
      by_cases known : id ∈ p.seen
      · have knows : p.knows (some id) = true := decide_eq_true known
        rw [Pass.file, if_pos knows, taken, if_pos known]
        exact ih
      · have knows : ¬ p.knows (some id) = true := fun h => known (of_decide_eq_true h)
        rw [Pass.file, if_neg knows, taken, if_neg known]
        cases marks <;> rfl
    | usage id entry =>
      rw [Pass.file, taken]
      change _ = (if p.knows id = true then taken p.seen rest
        else .usage id entry :: taken (p.add id entry).seen rest).foldl (Pass.item time) p
      by_cases known : p.knows id = true
      · rw [if_pos known, if_pos known]
        exact ih
      · rw [if_neg known, if_neg known]
        exact ih
    | snapshot id entry =>
      rw [Pass.file, taken]
      exact ih

theorem foldl_seen : i ∈ (items.foldl (Pass.item time) p).seen ↔
    i ∈ p.seen ∨ ∃ item ∈ items, item.id = some i := by
  induction items generalizing p with
  | nil => simp
  | cons item rest ih =>
    rw [List.foldl_cons, ih]
    cases item with
    | usage id entry =>
      cases id with
      | none => simp [Pass.item, Pass.add, Item.id]
      | some j => simp [Pass.item, Pass.add, Item.id, or_assoc, or_left_comm, eq_comm (a := i)]
    | snapshot id entry => simp [Pass.item, Pass.keepSnapshot, Item.id]

theorem foldl_out : (items.foldl (Pass.item time) p).out = p.out ++ items.filterMap fun item =>
    match item with
    | .usage _ entry => entry
    | .snapshot _ _ => none := by
  induction items generalizing p with
  | nil => simp
  | cons item rest ih =>
    rw [List.foldl_cons, ih]
    cases item with
    | usage id entry => cases entry <;> simp [Pass.item, Pass.add]
    | snapshot id entry => simp [Pass.item, Pass.keepSnapshot]

theorem foldl_snapshots : (items.foldl (Pass.item time) p).snapshots.get i =
    items.foldl (fun kept item => match item with
      | .usage _ _ => kept
      | .snapshot id entry => if id = i then some (Pass.later time kept entry) else kept)
      (p.snapshots.get i) := by
  induction items generalizing p with
  | nil => rfl
  | cons item rest ih =>
    rw [List.foldl_cons, ih]
    cases item with
    | usage id entry => rfl
    | snapshot id entry =>
      rw [List.foldl_cons]
      simp only [Pass.item, Pass.keepSnapshot, Dict.get_set]
      by_cases own : i = id
      · rw [if_pos own, if_pos own.symm, own]
      · rw [if_neg own, if_neg (Ne.symm own)]

/-- The latest snapshot is one of the snapshots. -/
theorem latest_mem {entry : Str × Data} (h : latest time i items = some entry) :
    .snapshot i entry ∈ items := by
  have from_ : ∀ kept : Option (Str × Data), items.foldl (fun kept item => match item with
      | .usage _ _ => kept
      | .snapshot id entry => if id = i then some (Pass.later time kept entry) else kept) kept =
      some entry → .snapshot i entry ∈ items ∨ kept = some entry := by
    clear h
    induction items with
    | nil => exact fun kept h => .inr h
    | cons item rest ih =>
      intro kept h
      rw [List.foldl_cons] at h
      rcases ih _ h with mem | same
      · exact .inl (List.mem_cons_of_mem _ mem)
      · cases item with
        | usage id _ => exact .inr same
        | snapshot id new =>
          simp only at same
          split at same
          · rename_i own
            rw [Option.some.injEq] at same
            unfold Pass.later at same
            split at same
            · subst own same
              exact .inl List.mem_cons_self
            · split at same
              · subst own same
                exact .inl List.mem_cons_self
              · exact .inr (congrArg some same)
          · exact .inr same
  rcases from_ none h with mem | none_
  · exact mem
  · cases none_

/-- Usage rows with an id come once. -/
def OnceEach (items : List (Item Id Data)) : Prop :=
  items.Pairwise fun x y => x.id ≠ none → x.id ≠ y.id

omit [DecidableEq Id] in
theorem OnceEach.same (once : OnceEach items) {x y : Item Id Data} (hx : x ∈ items)
    (hy : y ∈ items) (named : x.id ≠ none) (same : x.id = y.id) : x = y := by
  by_contra other
  have both : items.Pairwise fun x y => x.id = y.id → x.id = none :=
    once.imp fun h eq => by_contra fun named => h named eq
  have sym : Std.Symm fun x y : Item Id Data => x.id = y.id → x.id = none :=
    ⟨fun a b h eq => eq.trans (h eq.symm)⟩
  exact named (both.forall hx hy other same)

theorem pick_eq_some (once : OnceEach items) {entry : Str × Data} :
    pick time i items = some entry ↔ .usage (some i) (some entry) ∈ items ∨
      (latest time i items = some entry ∧ ∀ item ∈ items, item.id ≠ some i) := by
  unfold pick
  cases found : items.find? fun item => decide (item.id = some i) with
  | none =>
    have absent : ∀ item ∈ items, item.id ≠ some i := fun item mem same =>
      List.find?_eq_none.mp found item mem (decide_eq_true same)
    constructor
    · exact fun h => .inr ⟨h, absent⟩
    · rintro (mem | ⟨h, _⟩)
      · exact absurd rfl (absent _ mem)
      · exact h
  | some item =>
    have named := of_decide_eq_true (List.find?_some found :)
    have mem := List.mem_of_find?_eq_some found
    cases item with
    | snapshot id _ => cases named
    | usage id kept =>
      cases (named : id = some i)
      constructor
      · rintro (rfl : kept = some entry)
        exact .inl mem
      · rintro (other | ⟨_, absent⟩)
        · have same := once.same mem other (Option.some_ne_none i) rfl
          cases same
          rfl
        · exact absurd rfl (absent _ mem)

/-- Of an id that no item has, nothing is kept. -/
theorem pick_absent (absent : i ∉ items.filterMap Item.ident) : pick time i items = none := by
  have differs : ∀ item ∈ items, item.ident ≠ some i := fun item mem same =>
    absent (List.mem_filterMap.mpr ⟨item, mem, same⟩)
  have unnamed : items.find? (fun item => decide (item.id = some i)) = none :=
    List.find?_eq_none.mpr fun item mem same => by
      have named := of_decide_eq_true same
      cases item with
      | usage id entry => exact differs _ mem named
      | snapshot id entry => cases named
  cases none_ : latest time i items with
  | none => rw [pick, unnamed, none_]
  | some entry => exact absurd rfl (differs _ (latest_mem none_))

/-- The last pick of an id that no item of the files has is none either. -/
theorem lastPick_absent {files : List (List (Item Id Data))}
    (absent : i ∉ files.flatten.filterMap Item.ident) : lastPick time i files = none := by
  have nothing : (files.filterMap fun items =>
      (pick time i items).filter fun entry => decide (0 < time entry.2)) = [] :=
    List.filterMap_eq_nil_iff.mpr fun items mem => by
      have own : i ∉ items.filterMap Item.ident := fun h =>
        absent (List.mem_filterMap.mpr (by
          obtain ⟨item, inItems, same⟩ := List.mem_filterMap.mp h
          exact ⟨item, List.mem_flatten_of_mem mem inItems, same⟩))
      rw [pick_absent own, Option.filter_none]
  rw [lastPick, nothing, List.getLast?_nil]

/-- Only the ids of the items matter to whether files agree. -/
theorem agrees_iff {Shown : Type} {shown : Data → Shown} {files : List (List (Row Id Data))} :
    Agrees time shown files ↔ ReadsAlike [] files ∧
      ((keyed time (files.flatMap (taken []))).Pairwise fun x y =>
        x.2.1 = y.2.1 ↔ x.1 = y.1 ∧ x.1 ≠ none) ∧
      ∀ i ∈ (files.flatMap (taken [])).filterMap Item.ident,
        ((pick time i (files.flatMap (taken []))).filter fun entry =>
          decide (0 < time entry.2)).map (fun entry => shown entry.2) =
        (lastPick time i (files.map (taken []))).map fun entry => shown entry.2 := by
  refine ⟨fun agrees => ⟨agrees.raises, agrees.keys, fun i _ => agrees.picks i⟩,
    fun ⟨raises, keys, picks⟩ => ⟨raises, keys, fun i => ?_⟩⟩
  by_cases occurs : i ∈ (files.flatMap (taken [])).filterMap Item.ident
  · exact picks i occurs
  · have absent : i ∉ (files.map (taken [])).flatten.filterMap Item.ident := by
      rwa [← List.flatMap_def]
    rw [pick_absent occurs, lastPick_absent absent, Option.filter_none]

instance {Shown : Type} [DecidableEq Shown] {shown : Data → Shown}
    {files : List (List (Row Id Data))} : Decidable (Agrees time shown files) :=
  decidable_of_iff _ agrees_iff.symm

end Items

/-! ## What a pass returns -/

section Results

variable [DecidableEq Id] {time : Data → ℤ} {items : List (Item Id Data)} {sorts : Bool}

/-- What a pass over these items returns. -/
def results (time : Data → ℤ) (sorts : Bool) (items : List (Item Id Data)) : List (Str × Data) :=
  (items.foldl (Pass.item time) .empty).entries time sorts

/-- The entries of a pass with their ids, before they are sorted. -/
def unsorted (time : Data → ℤ) (items : List (Item Id Data)) : List (Option Id × Str × Data) :=
  let p := items.foldl (Pass.item time) .empty
  (items.filterMap fun item => match item with
    | .usage id entry => entry.map fun e => (id, e)
    | .snapshot _ _ => none) ++
  (p.snapshots.items.filter fun item => decide (item.1 ∉ p.seen)).map fun item =>
    (some item.1, item.2)

theorem results_perm : (results time sorts items).Perm ((unsorted time items).map Prod.snd) := by
  have all : ((unsorted time items).map Prod.snd) = (items.foldl (Pass.item time) .empty).out ++
      (((items.foldl (Pass.item time) .empty).snapshots.items.filter fun item =>
        decide (item.1 ∉ (items.foldl (Pass.item time) .empty).seen)).map Prod.snd) := by
    rw [unsorted, List.map_append, foldl_out, List.map_filterMap, List.map_map]
    refine congrArg₂ _ ?_ rfl
    refine (List.filterMap_congr fun item _ => ?_).trans (List.nil_append _).symm
    cases item with
    | usage id entry => cases entry <;> rfl
    | snapshot id entry => rfl
  rw [all, results, Pass.entries]
  cases sorts with
  | false => exact List.Perm.refl _
  | true => exact List.perm_insertionSort _ _

theorem mem_unsorted (once : OnceEach items) {id : Option Id} {entry : Str × Data} :
    (id, entry) ∈ unsorted time items ↔
      (id = none ∧ .usage none (some entry) ∈ items) ∨ ∃ i, id = some i ∧
        pick time i items = some entry := by
  have kept : ∀ i, (items.foldl (Pass.item time) .empty).snapshots.get i = latest time i items :=
    fun i => foldl_snapshots
  have usages : (id, entry) ∈ (items.filterMap fun item => match item with
      | .usage id entry => entry.map fun e => (id, e)
      | .snapshot _ _ => none) ↔ .usage id (some entry) ∈ items := by
    rw [List.mem_filterMap]
    constructor
    · rintro ⟨item, mem, given⟩
      cases item with
      | snapshot _ _ => cases given
      | usage id' entry' =>
        obtain ⟨e, rfl, same⟩ := Option.map_eq_some_iff.mp given
        cases same
        exact mem
    · exact fun mem => ⟨_, mem, rfl⟩
  have snapshots : (id, entry) ∈ ((items.foldl (Pass.item time) .empty).snapshots.items.filter
      fun item => decide (item.1 ∉ (items.foldl (Pass.item time) .empty).seen)).map (fun item =>
        (some item.1, item.2)) ↔ ∃ i, id = some i ∧ latest time i items = some entry ∧
          ∀ item ∈ items, item.id ≠ some i := by
    rw [List.mem_map]
    constructor
    · rintro ⟨⟨i, e⟩, mem, same⟩
      cases same
      obtain ⟨mem, unseen⟩ := List.mem_filter.mp mem
      refine ⟨i, rfl, (kept i).symm.trans (Dict.get_of_mem mem), fun item there named => ?_⟩
      exact of_decide_eq_true unseen (foldl_seen.mpr (.inr ⟨item, there, named⟩))
    · rintro ⟨i, rfl, last, unseen⟩
      refine ⟨(i, entry), List.mem_filter.mpr ⟨Dict.mem_of_get ((kept i).trans last), ?_⟩, rfl⟩
      refine decide_eq_true fun seen => ?_
      rcases foldl_seen.mp seen with none_ | ⟨item, there, named⟩
      · exact absurd none_ List.not_mem_nil
      · exact unseen item there named
  rw [unsorted, List.mem_append, usages, snapshots]
  simp only [pick_eq_some once]
  constructor
  · rintro (mem | ⟨i, rfl, last⟩)
    · cases id with
      | none => exact .inl ⟨rfl, mem⟩
      | some i => exact .inr ⟨i, rfl, .inl mem⟩
    · exact .inr ⟨i, rfl, .inr last⟩
  · rintro (⟨rfl, mem⟩ | ⟨i, rfl, mem | last⟩)
    · exact .inl mem
    · exact .inl mem
    · exact .inr ⟨i, rfl, last⟩

/-- Two dated entries have one key exactly if they have one id. -/
def OwnKeys (time : Data → ℤ) (items : List (Item Id Data)) : Prop :=
  (keyed time items).Pairwise fun x y => x.2.1 = y.2.1 ↔ x.1 = y.1 ∧ x.1 ≠ none

omit [DecidableEq Id] in
theorem OwnKeys.iff (own : OwnKeys time items) {x y : Option Id × Str × Data}
    (hx : x ∈ keyed time items) (hy : y ∈ keyed time items) (other : x ≠ y) :
    x.2.1 = y.2.1 ↔ x.1 = y.1 ∧ x.1 ≠ none := by
  have sym : Std.Symm fun x y : Option Id × Str × Data =>
      (x.2.1 = y.2.1 ↔ x.1 = y.1 ∧ x.1 ≠ none) := by
    refine ⟨fun a b h => ⟨fun same => ?_, fun same => ?_⟩⟩
    · obtain ⟨ids, named⟩ := h.mp same.symm
      exact ⟨ids.symm, fun none_ => named (ids.trans none_)⟩
    · exact (h.mpr ⟨same.1.symm, fun none_ => same.2 (same.1.trans none_)⟩).symm
  exact List.Pairwise.forall own hx hy other

theorem unsorted_keyed (once : OnceEach items) {x : Option Id × Str × Data}
    (hx : x ∈ unsorted time items) (later : 0 < time x.2.2) : x ∈ keyed time items := by
  obtain ⟨id, entry⟩ := x
  have gives : ∀ item ∈ items, item.ident = id → item.entry = some entry →
      (id, entry) ∈ keyed time items := by
    rintro item mem rfl given
    refine List.mem_filterMap.mpr ⟨item, mem, ?_⟩
    rw [given, Option.filter_some, if_pos (decide_eq_true later)]
    rfl
  rcases (mem_unsorted once).mp hx with ⟨rfl, mem⟩ | ⟨i, rfl, picked⟩
  · exact gives _ mem rfl rfl
  · rcases (pick_eq_some once).mp picked with mem | ⟨last, _⟩
    · exact gives _ mem rfl rfl
    · exact gives _ (latest_mem last) rfl rfl

/-- The entries of one id, or the same entry at two places. -/
theorem unsorted_pairwise (once : OnceEach items) (own : OwnKeys time items) :
    (unsorted time items).Pairwise fun x y => 0 < time x.2.2 → 0 < time y.2.2 →
      x.2.1 ≠ y.2.1 := by
  have apart : ∀ x ∈ unsorted time items, ∀ y ∈ unsorted time items, x.1 ≠ y.1 →
      0 < time x.2.2 → 0 < time y.2.2 → x.2.1 ≠ y.2.1 := by
    intro x hx y hy ids laterx latery same
    have other : x ≠ y := fun eq => ids (congrArg Prod.fst eq)
    exact ids ((own.iff (unsorted_keyed once hx laterx) (unsorted_keyed once hy latery) other).mp
      same).1
  refine List.pairwise_append.mpr ⟨?_, ?_, ?_⟩
  · have both := List.pairwise_filterMap.mp own
    rw [List.pairwise_filterMap]
    refine (once.and both).imp ?_
    rintro (⟨id, entry⟩ | ⟨id, entry⟩) (⟨id', entry'⟩ | ⟨id', entry'⟩) ⟨apart, keys⟩ x hx y hy laterx
      latery
    · obtain ⟨e, rfl, rfl⟩ := Option.map_eq_some_iff.mp hx
      obtain ⟨e', rfl, rfl⟩ := Option.map_eq_some_iff.mp hy
      have here : ∀ (i : Option Id) (e : Str × Data), 0 < time e.2 →
          (((Item.usage i (some e)).entry.filter fun entry => decide (0 < time entry.2)).map
            fun entry => ((Item.usage i (some e)).ident, entry)) = some (i, e) := by
        intro i e later
        simp only [Item.entry, Option.filter_some, decide_eq_true later, if_true]
        rfl
      have same := keys _ (here id e laterx) _ (here id' e' latery)
      exact fun eq => apart (same.mp eq).2 (same.mp eq).1
    · cases hy
    · cases hx
    · cases hx
  · rw [List.pairwise_map]
    refine ((Dict.nodup _ |> List.pairwise_map.mp).filter _).imp_of_mem ?_
    intro a b ha hb ids
    refine apart _ ?_ _ ?_ fun same => ids (Option.some.inj same)
    · exact List.mem_append_right _ (List.mem_map_of_mem ha)
    · exact List.mem_append_right _ (List.mem_map_of_mem hb)
  · intro x hx y hy
    refine apart x (List.mem_append_left _ hx) y (List.mem_append_right _ hy) ?_
    obtain ⟨item, mem, rfl⟩ := List.mem_map.mp hy
    obtain ⟨usage, there, given⟩ := List.mem_filterMap.mp hx
    have unseen := of_decide_eq_true (List.mem_filter.mp mem).2
    rintro same
    cases usage with
    | snapshot _ _ => cases given
    | usage id entry =>
      obtain ⟨e, rfl, rfl⟩ := Option.map_eq_some_iff.mp given
      exact unseen (foldl_seen.mpr (.inr ⟨_, there, same⟩))

theorem results_keys (once : OnceEach items) (own : OwnKeys time items) :
    ((dated time (results time sorts items)).map Prod.fst).Nodup := by
  have perm : (dated time (results time sorts items)).Perm
      (dated time ((unsorted time items).map Prod.snd)) := results_perm.filter _
  rw [(perm.map Prod.fst).nodup_iff, dated, List.filter_map, List.map_map,
    List.nodup_iff_pairwise_ne, List.pairwise_map]
  refine ((unsorted_pairwise once own).filter _).imp_of_mem ?_
  intro x y hx hy apart
  exact apart (of_decide_eq_true (List.mem_filter.mp hx).2)
    (of_decide_eq_true (List.mem_filter.mp hy).2)

theorem mem_results (once : OnceEach items) {entry : Str × Data} :
    entry ∈ dated time (results time sorts items) ↔ 0 < time entry.2 ∧
      (.usage none (some entry) ∈ items ∨ ∃ i, pick time i items = some entry) := by
  rw [dated, List.mem_filter, results_perm.mem_iff, List.mem_map, and_comm, decide_eq_true_iff]
  refine and_congr_right fun _ => ?_
  constructor
  · rintro ⟨⟨id, e⟩, mem, rfl⟩
    rcases (mem_unsorted once).mp mem with ⟨_, mem⟩ | ⟨i, _, picked⟩
    · exact .inl mem
    · exact .inr ⟨i, picked⟩
  · rintro (mem | ⟨i, picked⟩)
    · exact ⟨(none, entry), (mem_unsorted once).mpr (.inl ⟨rfl, mem⟩), rfl⟩
    · exact ⟨(some i, entry), (mem_unsorted once).mpr (.inr ⟨i, rfl, picked⟩), rfl⟩

end Results

/-! ## One pass over all files -/

section Live

variable [DecidableEq Id] {time : Data → ℤ} {seen : List Id} {items : List (Item Id Data)}

/-- The items whose id was not seen. -/
def firsts : List Id → List (Item Id Data) → List (Item Id Data)
  | _, [] => []
  | seen, item :: rest =>
    if item.id.any fun i => decide (i ∈ seen) then firsts seen rest
    else item :: firsts (item.id.toList ++ seen) rest

theorem taken_unseen {rows : List (Row Id Data)} {item : Item Id Data}
    (mem : item ∈ taken seen rows) : ∀ i ∈ item.id, i ∉ seen := by
  induction rows generalizing seen with
  | nil => exact absurd mem List.not_mem_nil
  | cons row rest ih =>
    cases row with
    | stop => exact absurd mem List.not_mem_nil
    | raises id marks =>
      rw [taken] at mem
      split at mem
      · exact ih mem
      · rename_i new
        split at mem
        · rw [List.mem_singleton.mp mem]
          rintro i ⟨⟩
          exact new
        · exact absurd mem List.not_mem_nil
    | usage id entry =>
      rw [taken] at mem
      split at mem
      · exact ih mem
      · rename_i new
        rcases List.mem_cons.mp mem with rfl | mem
        · rintro i (named : id = some i)
          rw [named] at new
          exact fun known => new (decide_eq_true known)
        · exact fun i hi known => ih mem i hi (List.mem_append_right _ known)
    | snapshot id entry =>
      rcases List.mem_cons.mp mem with rfl | mem
      · rintro i ⟨⟩
      · exact ih mem

theorem taken_once (rows : List (Row Id Data)) : OnceEach (taken seen rows) := by
  induction rows generalizing seen with
  | nil => exact List.Pairwise.nil
  | cons row rest ih =>
    cases row with
    | stop => exact List.Pairwise.nil
    | raises id marks =>
      rw [taken]
      split
      · exact ih
      · split
        · exact List.pairwise_singleton _ _
        · exact List.Pairwise.nil
    | usage id entry =>
      rw [taken]
      split
      · exact ih
      · refine List.Pairwise.cons ?_ ih
        intro item mem named same
        obtain ⟨i, rfl⟩ := Option.ne_none_iff_exists'.mp (show id ≠ none from named)
        exact taken_unseen mem i same.symm List.mem_cons_self
    | snapshot id entry =>
      exact List.Pairwise.cons (fun item _ named => absurd rfl named) ih

theorem taken_congr {rows : List (Row Id Data)} {seen' : List Id}
    (same : ∀ i, i ∈ seen ↔ i ∈ seen') : taken seen rows = taken seen' rows := by
  induction rows generalizing seen seen' with
  | nil => rfl
  | cons row rest ih =>
    cases row with
    | stop => rfl
    | raises id marks =>
      rw [taken, taken]
      simp only [same]
      split
      · exact ih same
      · rfl
    | usage id entry =>
      rw [taken, taken]
      simp only [same]
      split
      · exact ih same
      · refine congrArg _ (ih fun i => ?_)
        rw [List.mem_append, List.mem_append, same]
    | snapshot id entry =>
      rw [taken, taken]
      exact congrArg _ (ih same)

/-- A pass that has seen more drops the items of what it has seen, if it takes nothing where it reads
on. -/
theorem taken_more {rows : List (Row Id Data)} {more all : List Id}
    (known : ∀ i, i ∈ all ↔ i ∈ seen ∨ i ∈ more)
    (raises : ∀ r ∈ raisedAt seen rows, r.id ∈ more →
      (taken (r.seen ++ more) r.unread).isEmpty = true) :
    taken all rows = (taken seen rows).filter fun item => !item.id.any fun i => decide (i ∈ more) := by
  induction rows generalizing seen all with
  | nil => rfl
  | cons row rest ih =>
    cases row with
    | stop => rfl
    | raises id marks =>
      rw [taken, taken]
      by_cases old : id ∈ seen
      · rw [if_pos old, if_pos ((known id).mpr (.inl old))]
        refine ih known ?_
        rwa [raisedAt, if_pos old] at raises
      · rw [if_neg old]
        by_cases given : id ∈ more
        · have unread := raises ⟨id, seen, rest⟩ (by rw [raisedAt, if_neg old]; rfl) given
          have none_ : taken all rest = [] := by
            rw [taken_congr fun i => (known i).trans List.mem_append.symm]
            exact List.isEmpty_iff.mp unread
          rw [if_pos ((known id).mpr (.inr given)), none_]
          cases marks with
          | false => rfl
          | true =>
            rw [if_pos rfl, List.filter_cons_of_neg (by simp [Item.id, given]), List.filter_nil]
        · rw [if_neg fun h => ((known id).mp h).elim old given]
          cases marks with
          | false => rfl
          | true =>
            rw [if_pos rfl, List.filter_cons_of_pos (by simp [Item.id, given]), List.filter_nil]
    | usage id entry =>
      rw [taken, taken]
      rw [raisedAt] at raises
      cases id with
      | none =>
        rw [if_neg (by simp), if_neg (by simp)]
        rw [if_neg (by simp)] at raises
        rw [List.filter_cons_of_pos (by simp [Item.id])]
        exact congrArg _ (ih known raises)
      | some i =>
        simp only [Option.any_some, decide_eq_true_eq] at raises ⊢
        by_cases old : i ∈ seen
        · rw [if_pos old] at raises
          rw [if_pos old, if_pos ((known i).mpr (.inl old))]
          exact ih known raises
        · rw [if_neg old] at raises
          rw [if_neg old]
          by_cases given : i ∈ more
          · rw [if_pos ((known i).mpr (.inr given)),
              List.filter_cons_of_neg (by simp [Item.id, given])]
            refine ih (fun j => (known j).trans ?_) raises
            rw [Option.toList_some, List.singleton_append, List.mem_cons]
            constructor
            · exact Or.imp_left .inr
            · rintro ((rfl | old) | new)
              · exact .inr given
              · exact .inl old
              · exact .inr new
          · rw [if_neg fun h => ((known i).mp h).elim old given,
              List.filter_cons_of_pos (by simp [Item.id, given])]
            refine congrArg _ (ih (fun j => ?_) raises)
            simp only [Option.toList_some, List.singleton_append, List.mem_cons, known, or_assoc]
    | snapshot id entry =>
      rw [taken, taken, List.filter_cons_of_pos (by simp [Item.id])]
      exact congrArg _ (ih known raises)

theorem firsts_eq_filter (once : OnceEach items) :
    firsts seen items = items.filter fun item => !item.id.any fun i => decide (i ∈ seen) := by
  induction items generalizing seen with
  | nil => rfl
  | cons item rest ih =>
    obtain ⟨apart, onceRest⟩ := List.pairwise_cons.mp once
    rw [firsts]
    by_cases known : (item.id.any fun i => decide (i ∈ seen)) = true
    · rw [if_pos known, List.filter_cons_of_neg (by simpa using known)]
      exact ih onceRest
    · rw [if_neg known, List.filter_cons_of_pos (by simpa using known), ih onceRest]
      refine congrArg _ (List.filter_congr fun other mem => ?_)
      cases hid : other.id with
      | none => rfl
      | some j =>
        have new : j ∉ item.id.toList := by
          intro hj
          have named := Option.mem_toList.mp hj
          exact apart other mem (fun none_ => by rw [none_] at named; cases named)
            (named.trans hid.symm)
        simp only [Option.any_some, List.mem_append, new, false_or]

theorem firsts_append {more : List (Item Id Data)} :
    ∃ all, (∀ i, i ∈ all ↔ i ∈ seen ∨ ∃ item ∈ items, item.id = some i) ∧
      firsts seen (items ++ more) = firsts seen items ++ firsts all more := by
  induction items generalizing seen with
  | nil => exact ⟨seen, by simp, rfl⟩
  | cons item rest ih =>
    rw [List.cons_append, firsts, firsts]
    by_cases known : (item.id.any fun i => decide (i ∈ seen)) = true
    · obtain ⟨all, mem, split_⟩ := @ih seen
      refine ⟨all, fun i => (mem i).trans ?_, ?_⟩
      · constructor
        · rintro (old | ⟨other, there, named⟩)
          · exact .inl old
          · exact .inr ⟨other, List.mem_cons_of_mem _ there, named⟩
        · rintro (old | ⟨other, there, named⟩)
          · exact .inl old
          · rcases List.mem_cons.mp there with rfl | there
            · rw [named] at known
              exact .inl (of_decide_eq_true known)
            · exact .inr ⟨other, there, named⟩
      · rw [if_pos known, if_pos known]
        exact split_
    · obtain ⟨all, mem, split_⟩ := @ih (item.id.toList ++ seen)
      refine ⟨all, fun i => (mem i).trans ?_, ?_⟩
      · rw [List.mem_append, Option.mem_toList]
        constructor
        · rintro ((named | old) | ⟨other, there, named⟩)
          · exact .inr ⟨item, List.mem_cons_self, named⟩
          · exact .inl old
          · exact .inr ⟨other, List.mem_cons_of_mem _ there, named⟩
        · rintro (old | ⟨other, there, named⟩)
          · exact .inl (.inr old)
          · rcases List.mem_cons.mp there with rfl | there
            · exact .inl (.inl named)
            · exact .inr ⟨other, there, named⟩
      · rw [if_neg known, if_neg known, split_]
        rfl

theorem firsts_congr {seen' : List Id} (same : ∀ i, i ∈ seen ↔ i ∈ seen') :
    firsts seen items = firsts seen' items := by
  induction items generalizing seen seen' with
  | nil => rfl
  | cons item rest ih =>
    rw [firsts, firsts]
    simp only [same]
    split
    · exact ih same
    · refine congrArg _ (ih fun i => ?_)
      rw [List.mem_append, List.mem_append, same]

/-- The pass over all files takes the rows that count in their files and whose id is new. -/
theorem collect_eq (sorts : Bool) {files : List (List (Row Id Data))}
    (raises : ReadsAlike [] files) :
    collect time sorts files = results time sorts (firsts [] (files.flatMap (taken []))) := by
  have from_ : ∀ p : Pass Id Data, ∀ before, (∀ i, i ∈ p.seen ↔ i ∈ before) →
      ReadsAlike before files → files.foldl (Pass.file time) p =
        (firsts p.seen (files.flatMap (taken []))).foldl (Pass.item time) p := by
    clear raises
    induction files with
    | nil => exact fun p _ _ _ => rfl
    | cons rows rest ih =>
      intro p before same raises
      obtain ⟨here, raisesRest⟩ := raises
      have first : taken p.seen rows = firsts p.seen (taken [] rows) := by
        rw [firsts_eq_filter (taken_once rows)]
        refine taken_more (fun i => by simp) fun r hr seen => ?_
        have alike : ∀ i, i ∈ r.seen ++ p.seen ↔ i ∈ r.seen ++ before := fun i => by
          rw [List.mem_append, List.mem_append, same]
        rw [taken_congr alike]
        exact here r hr ((same _).mp seen)
      obtain ⟨all, mem, split_⟩ := @firsts_append _ _ _ p.seen (taken [] rows)
        (rest.flatMap (taken []))
      have after : ∀ i, i ∈ ((taken p.seen rows).foldl (Pass.item time) p).seen ↔ i ∈ all := by
        intro i
        rw [foldl_seen, mem, first, firsts_eq_filter (taken_once rows)]
        constructor
        · rintro (old | ⟨item, there, named⟩)
          · exact .inl old
          · exact .inr ⟨item, (List.mem_filter.mp there).1, named⟩
        · rintro (old | ⟨item, there, named⟩)
          · exact .inl old
          · by_cases old : i ∈ p.seen
            · exact .inl old
            · exact .inr ⟨item, List.mem_filter.mpr ⟨there, by simp [named, old]⟩, named⟩
      have next : ∀ i, i ∈ ((taken p.seen rows).foldl (Pass.item time) p).seen ↔
          i ∈ (taken [] rows).filterMap Item.id ++ before := by
        intro i
        rw [after, mem, List.mem_append, List.mem_filterMap, same, or_comm]
      rw [List.foldl_cons, Pass.file_eq, ih _ _ next raisesRest, List.flatMap_cons, split_,
        List.foldl_append, ← first, firsts_congr after]
  rw [collect, from_ .empty [] (fun _ => Iff.rfl) raises]
  rfl

end Live

/-! ## The store -/

section Stored

variable {Path Key Config : Type} [DecidableEq Path] [DecidableEq Key] {k : Key}

/-- What is stored under a key after the files were written, none of which had rows before. -/
theorem writeAll_data {config : Config} {parsed : List (Parsed Path Key Data)}
    {s : Store Path Key Data Config} (distinct : (parsed.map (·.file.path)).Nodup)
    (fresh : ∀ k row, s.rows.get k = some row → ∀ p ∈ parsed, p.file.path ≠ row.filePath) :
    ((parsed.foldl (Store.write config) s).rows.get k).map UsageRow.data =
      (lastEntry k (parsed.flatMap (·.entries))).or ((s.rows.get k).map UsageRow.data) := by
  induction parsed generalizing s with
  | nil => rfl
  | cons p rest ih =>
    obtain ⟨other, distinctRest⟩ := List.nodup_cons.mp distinct
    have kept : ∀ k, (s.write config p).rows.get k =
        ((lastEntry k p.entries).map (UsageRow.mk p.file.path)).or (s.rows.get k) := by
      intro k
      rw [Store.write_get]
      refine congrArg _ ?_
      cases old : s.rows.get k with
      | none => rfl
      | some row =>
        have elsewhere := Ne.symm (fresh k row old p List.mem_cons_self)
        rw [Option.filter_some, if_pos (by simp [elsewhere])]
    have freshRest : ∀ k row, (s.write config p).rows.get k = some row →
        ∀ q ∈ rest, q.file.path ≠ row.filePath := by
      intro k row stored q hq
      rw [kept, Option.or_eq_some_iff] at stored
      rcases stored with new | ⟨_, old⟩
      · obtain ⟨data, _, rfl⟩ := Option.map_eq_some_iff.mp new
        exact fun same => other (List.mem_map.mpr ⟨q, hq, same⟩)
      · exact fresh k row old q (List.mem_cons_of_mem p hq)
    rw [List.foldl_cons, ih distinctRest freshRest, kept, List.flatMap_cons, lastEntry_append,
      Option.or_assoc]
    cases lastEntry k p.entries <;> rfl

variable [DecidableEq Config]

/-- A sync on an empty store writes every file. -/
theorem syncFiles_empty {config : Config} {parse : FileSig Path → List (Key × Data)}
    {durable : Bool} {files : List (FileSig Path)} (distinct : (files.map (·.path)).Nodup) :
    (((Store.empty : Store Path Key Data Config).syncFiles config ⟨parse, none⟩ durable
      files).1.rows.get k).map UsageRow.data = lastEntry k (files.flatMap parse) := by
  have removed : (Store.empty : Store Path Key Data Config).removedPaths durable files = [] := rfl
  have changed : files.filter ((Store.empty : Store Path Key Data Config).changed config) = files :=
    List.filter_eq_self.mpr fun _ _ => rfl
  have parsed : files.map ((Store.empty : Store Path Key Data Config).parse config ⟨parse, none⟩) =
      files.map fun file => ⟨file, parse file, file.size, false⟩ := rfl
  rw [History.syncFiles_eq, removed, changed, parsed, List.foldl_nil, writeAll_data]
  · rw [List.flatMap_map]
    exact Option.or_none
  · rw [List.map_map]
    exact distinct
  · rintro k row ⟨⟩

end Stored

/-! ## The two agree -/

section Owner

variable [DecidableEq Id] {time : Data → ℤ} {sorts : Bool} {items : List (Item Id Data)} {k : Str}
  {i : Id}

/-- The key is that of the id. -/
def Owns (time : Data → ℤ) (items : List (Item Id Data)) (k : Str) (i : Id) : Prop :=
  ∀ x ∈ keyed time items, x.2.1 = k ↔ x.1 = some i

omit [DecidableEq Id] in
theorem mem_keyed {item : Item Id Data} (mem : item ∈ items) {entry : Str × Data}
    (given : item.entry = some entry) (later : 0 < time entry.2) :
    (item.ident, entry) ∈ keyed time items := by
  refine List.mem_filterMap.mpr ⟨item, mem, ?_⟩
  rw [given, Option.filter_some, if_pos (decide_eq_true later)]
  rfl

theorem pick_keyed (once : OnceEach items) {entry : Str × Data}
    (picked : pick time i items = some entry) (later : 0 < time entry.2) :
    (some i, entry) ∈ keyed time items := by
  rcases (pick_eq_some once).mp picked with mem | ⟨last, _⟩
  · exact mem_keyed mem rfl later
  · exact mem_keyed (latest_mem last) rfl later

/-- Under the key of an id a pass returns what it keeps of the id. -/
theorem results_owned (once : OnceEach items) (owns : Owns time items k i) {data : Data} :
    (k, data) ∈ dated time (results time sorts items) ↔
      ((pick time i items).filter fun entry => decide (0 < time entry.2)).map Prod.snd =
        some data := by
  rw [mem_results once, Option.map_eq_some_iff]
  simp only [Option.filter_eq_some_iff, decide_eq_true_eq]
  constructor
  · rintro ⟨later, mem | ⟨j, picked⟩⟩
    · cases (owns _ (mem_keyed mem rfl later)).mp rfl
    · cases (owns _ (pick_keyed once picked later)).mp rfl
      exact ⟨_, ⟨picked, later⟩, rfl⟩
  · rintro ⟨⟨k', data'⟩, ⟨picked, later⟩, rfl⟩
    refine ⟨later, .inr ⟨i, ?_⟩⟩
    rw [picked, ← (owns _ (pick_keyed once picked later)).mpr rfl]

end Owner

section Firsts

variable [DecidableEq Id] {time : Data → ℤ} {seen : List Id} {items : List (Item Id Data)} {i : Id}

theorem firsts_sublist : (firsts seen items).Sublist items := by
  induction items generalizing seen with
  | nil => exact List.Sublist.slnil
  | cons item rest ih =>
    rw [firsts]
    split
    · exact ih.cons _
    · exact ih.cons_cons _

theorem firsts_unseen {item : Item Id Data} (mem : item ∈ firsts seen items) :
    ∀ i ∈ item.id, i ∉ seen := by
  induction items generalizing seen with
  | nil => exact absurd mem List.not_mem_nil
  | cons first rest ih =>
    rw [firsts] at mem
    split at mem
    · exact ih mem
    · rename_i new
      rcases List.mem_cons.mp mem with rfl | mem
      · intro i named known
        rw [Option.mem_def.mp named] at new
        exact new (decide_eq_true known)
      · exact fun i hi known => ih mem i hi (List.mem_append_right _ known)

theorem firsts_once : OnceEach (firsts seen items) := by
  induction items generalizing seen with
  | nil => exact List.Pairwise.nil
  | cons first rest ih =>
    rw [firsts]
    split
    · exact ih
    · refine List.Pairwise.cons ?_ ih
      intro item mem named same
      obtain ⟨i, hi⟩ := Option.ne_none_iff_exists'.mp named
      refine firsts_unseen mem i (same.symm.trans hi) (List.mem_append_left _ ?_)
      rw [hi]
      exact List.mem_cons_self

theorem firsts_unnamed {item : Item Id Data} (mem : item ∈ items) (unnamed : item.id = none) :
    item ∈ firsts seen items := by
  induction items generalizing seen with
  | nil => exact absurd mem List.not_mem_nil
  | cons first rest ih =>
    rw [firsts]
    rcases List.mem_cons.mp mem with rfl | mem
    · rw [unnamed, if_neg (by simp)]
      exact List.mem_cons_self
    · split
      · exact ih mem
      · exact List.mem_cons_of_mem _ (ih mem)

/-- An id that was not seen keeps its first usage row and all its snapshots. -/
theorem firsts_pick (new : i ∉ seen) : pick time i (firsts seen items) = pick time i items := by
  have rows : (firsts seen items).find? (fun item => decide (item.id = some i)) =
      items.find? fun item => decide (item.id = some i) := by
    induction items generalizing seen with
    | nil => rfl
    | cons first rest ih =>
      rw [firsts, List.find?_cons]
      by_cases named : first.id = some i
      · rw [if_neg (by simp [named, new]), List.find?_cons]
        simp [named]
      · rw [decide_eq_false named]
        split
        · exact ih new
        · rw [List.find?_cons, decide_eq_false named]
          refine ih ?_
          rw [List.mem_append, Option.mem_toList]
          exact fun h => h.elim named new
  have snapshots : ∀ kept, (firsts seen items).foldl (fun kept item => match item with
      | .usage _ _ => kept
      | .snapshot id entry => if id = i then some (Pass.later time kept entry) else kept) kept =
      items.foldl (fun kept item => match item with
      | .usage _ _ => kept
      | .snapshot id entry => if id = i then some (Pass.later time kept entry) else kept) kept := by
    clear rows new
    induction items generalizing seen with
    | nil => exact fun _ => rfl
    | cons first rest ih =>
      intro kept
      rw [firsts, List.foldl_cons]
      cases first with
      | snapshot id entry =>
        rw [if_neg (by simp [Item.id]), List.foldl_cons]
        exact ih _
      | usage id entry =>
        split
        · exact ih kept
        · exact ih kept
  rw [pick, pick, rows]
  cases items.find? fun item => decide (item.id = some i) with
  | some item => rfl
  | none => exact snapshots none

end Firsts

section Agreement

variable [DecidableEq Id] {time : Data → ℤ} {sorts : Bool}

theorem parseFile_eq (rows : List (Row Id Data)) :
    parseFile time sorts rows = dated time (results time sorts (taken [] rows)) := by
  rw [parseFile, collect, List.foldl_cons, List.foldl_nil, Pass.file_eq]
  rfl

omit [DecidableEq Id] in
theorem keyed_sublist {few many : List (Item Id Data)} (sub : few.Sublist many) :
    (keyed time few).Sublist (keyed time many) := sub.filterMap _

theorem taken_sublist {rows : List (Row Id Data)} {files : List (List (Row Id Data))}
    (mem : rows ∈ files) : (taken [] rows).Sublist (files.flatMap (taken [])) :=
  List.sublist_flatten_of_mem (List.mem_map_of_mem mem)

/-- The last entry under the key of an id is what the last file keeps of it. -/
theorem lastEntry_owned {files : List (List (Row Id Data))} {k : Str} {i : Id}
    (own : ∀ rows ∈ files, OwnKeys time (taken [] rows))
    (owns : ∀ rows ∈ files, Owns time (taken [] rows) k i) :
    lastEntry k (files.flatMap (parseFile time sorts)) =
      (lastPick time i (files.map (taken []))).map Prod.snd := by
  induction files with
  | nil => rfl
  | cons rows rest ih =>
    have later := ih (fun r hr => own r (List.mem_cons_of_mem rows hr))
      fun r hr => owns r (List.mem_cons_of_mem rows hr)
    have here : lastEntry k (parseFile time sorts rows) =
        ((pick time i (taken [] rows)).filter fun entry => decide (0 < time entry.2)).map
          Prod.snd := by
      ext data
      rw [parseFile_eq, lastEntry_eq_some (results_keys (taken_once rows)
        (own rows List.mem_cons_self)), results_owned (taken_once rows)
        (owns rows List.mem_cons_self)]
    rw [List.flatMap_cons, lastEntry_append, later, here, List.map_cons, lastPick, lastPick,
      List.filterMap_cons]
    cases (pick time i (taken [] rows)).filter fun entry => decide (0 < time entry.2) with
    | none => exact Option.or_none
    | some entry =>
      rw [List.getLast?_cons]
      cases ((rest.map (taken [])).filterMap fun items =>
        (pick time i items).filter fun entry => decide (0 < time entry.2)).getLast? <;> rfl

theorem mem_parseFile_keyed {rows : List (Row Id Data)} {entry : Str × Data}
    (mem : entry ∈ parseFile time sorts rows) : ∃ id, (id, entry) ∈ keyed time (taken [] rows) := by
  rw [parseFile_eq, mem_results (taken_once rows)] at mem
  obtain ⟨later, mem | ⟨i, picked⟩⟩ := mem
  · exact ⟨none, mem_keyed mem rfl later⟩
  · exact ⟨some i, pick_keyed (taken_once rows) picked later⟩

/-- What is stored under a key shows what one pass has under it. -/
theorem stored_shows {Shown : Type} {shown : Data → Shown} {files : List (List (Row Id Data))}
    (agrees : Agrees time shown files)
    (live : ((dated time (results time sorts (firsts [] (files.flatMap (taken []))))).map
      Prod.fst).Nodup) (k : Str) :
    (lastEntry k (files.flatMap (parseFile time sorts))).map shown =
      ((⟨_, live⟩ : Dict Str Data).get k).map shown := by
  have keys : OwnKeys time (files.flatMap (taken [])) := agrees.keys
  have ownFiles : ∀ rows ∈ files, OwnKeys time (taken [] rows) := fun rows mem =>
    List.Pairwise.sublist (keyed_sublist (taken_sublist mem)) keys
  have liveKeyed : ∀ data, (⟨_, live⟩ : Dict Str Data).get k = some data →
      ∃ id, (id, k, data) ∈ keyed time (files.flatMap (taken [])) := by
    intro data found
    obtain ⟨later, mem | ⟨i, picked⟩⟩ := (mem_results firsts_once).mp (Dict.mem_of_get found)
    · exact ⟨none, (keyed_sublist firsts_sublist).subset (mem_keyed mem rfl later)⟩
    · exact ⟨some i, (keyed_sublist firsts_sublist).subset (pick_keyed firsts_once picked later)⟩
  have storedKeyed : ∀ entry ∈ files.flatMap (parseFile time sorts),
      ∃ id, (id, entry) ∈ keyed time (files.flatMap (taken [])) := by
    intro entry mem
    obtain ⟨rows, there, mem⟩ := List.mem_flatMap.mp mem
    obtain ⟨id, given⟩ := mem_parseFile_keyed mem
    exact ⟨id, (keyed_sublist (taken_sublist there)).subset given⟩
  by_cases known : ∃ x ∈ keyed time (files.flatMap (taken [])), x.2.1 = k
  · obtain ⟨⟨id, k, data⟩, mem, rfl⟩ := known
    cases id with
    | some i =>
      have owns : Owns time (files.flatMap (taken [])) k i := by
        intro y hy
        by_cases same : y = (some i, k, data)
        · rw [same]
          exact ⟨fun _ => rfl, fun _ => rfl⟩
        · refine (keys.iff hy mem same).trans ⟨And.left, fun ids => ⟨ids, ?_⟩⟩
          rw [show y.1 = some i from ids]
          exact Option.some_ne_none i
      have found : (⟨_, live⟩ : Dict Str Data).get k =
          ((pick time i (files.flatMap (taken []))).filter
            fun entry => decide (0 < time entry.2)).map Prod.snd := by
        ext data
        rw [Dict.get_eq_some_iff, results_owned firsts_once fun x hx =>
          owns x ((keyed_sublist firsts_sublist).subset hx), firsts_pick List.not_mem_nil]
      rw [lastEntry_owned ownFiles fun rows there x hx =>
        owns x ((keyed_sublist (taken_sublist there)).subset hx), found, Option.map_map,
        Option.map_map]
      exact (agrees.picks i).symm
    | none =>
      -- An entry without an id is the only one under its key.
      have only : ∀ id data', (id, k, data') ∈ keyed time (files.flatMap (taken [])) →
          data' = data := by
        intro id data' there
        by_contra other
        have apart : (none, k, data) ≠ (id, k, data') := fun eq =>
          other (congrArg (fun x => x.2.2) eq).symm
        exact ((keys.iff mem there apart).mp rfl).2 rfl
      obtain ⟨item, there, given⟩ := List.mem_filterMap.mp mem
      obtain ⟨entry, filtered, eq⟩ := Option.map_eq_some_iff.mp given
      obtain ⟨given, later⟩ := Option.filter_eq_some_iff.mp filtered
      cases item with
      | snapshot _ _ => cases eq
      | usage id e =>
        cases eq
        cases given
        have inLive : (⟨_, live⟩ : Dict Str Data).get k = some data :=
          Dict.get_of_mem ((mem_results firsts_once).mpr
            ⟨of_decide_eq_true later, .inl (firsts_unnamed there rfl)⟩)
        obtain ⟨rows, hrows, there⟩ := List.mem_flatMap.mp there
        have inFile : (k, data) ∈ parseFile time sorts rows := by
          rw [parseFile_eq, mem_results (taken_once rows)]
          exact ⟨of_decide_eq_true later, .inl there⟩
        obtain ⟨data', last⟩ := Option.isSome_iff_exists.mp (lastEntry_isSome.mpr
          (List.mem_map_of_mem (List.mem_flatMap.mpr ⟨rows, hrows, inFile⟩)))
        obtain ⟨id, stored⟩ := storedKeyed _ (lastEntry_mem last)
        rw [last, inLive, only id data' stored]
  · have noLive : (⟨_, live⟩ : Dict Str Data).get k = none := by
      rw [Option.eq_none_iff_forall_ne_some]
      intro data found
      obtain ⟨id, mem⟩ := liveKeyed data found
      exact known ⟨_, mem, rfl⟩
    have noStored : lastEntry k (files.flatMap (parseFile time sorts)) = none := by
      rw [lastEntry_eq_none]
      intro mem
      obtain ⟨entry, there, rfl⟩ := List.mem_map.mp mem
      obtain ⟨id, stored⟩ := storedKeyed entry there
      exact known ⟨_, stored, rfl⟩
    rw [noLive, noStored]

/-- Where the rows agree, the store gives what one pass over the files gives. -/
theorem stored_agrees {Path Config Shown : Type} [DecidableEq Path] [DecidableEq Config]
    {shown : Data → Shown} {binds : Path → List (Str × Data) → Bool}
    {rows : FileSig Path → List (Row Id Data)} {config : Config} {durable : Bool}
    {files : List (FileSig Path)} (distinct : (files.map (·.path)).Nodup)
    (bound : ∀ file ∈ files, binds file.path (parseFile time sorts (rows file)) = true)
    (agrees : Agrees time shown (files.map rows)) :
    ∃ out, storedEntries time sorts binds rows config durable files = some out ∧
      (out.map shown).Perm
        ((dated time (collect time sorts (files.map rows))).map fun entry => shown entry.2) := by
  have live : ((dated time (results time sorts
      (firsts [] ((files.map rows).flatMap (taken []))))).map Prod.fst).Nodup :=
    results_keys firsts_once (List.Pairwise.sublist (keyed_sublist firsts_sublist) agrees.keys)
  refine ⟨_, if_pos (List.all_eq_true.mpr bound), ?_⟩
  refine ((List.perm_insertionSort _ _).map shown).trans ?_
  rw [collect_eq sorts agrees.raises, List.map_map]
  refine (Dict.values_perm (e := ⟨_, live⟩) fun k => ?_).trans (List.Perm.of_eq List.map_map)
  rw [← Option.map_map, syncFiles_empty distinct, ← stored_shows agrees live, List.flatMap_map]

end Agreement

end Sessions
