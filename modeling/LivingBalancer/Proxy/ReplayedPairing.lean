import LivingBalancer.Proxy.ReplayedDedupe
import LivingBalancer.Proxy.ToolCallIdentity

/-!
# Calls and outputs stay paired

What the dedupe of replayed tool calls returns: the items in order, less side-effect calls that
repeat a kept one of their segment, with some calls and outputs as assistant messages. When no
prefix of the input has more outputs than calls of a call id, no prefix of the result has. The
dedupe fails on an item whose type is a list or a dict, on a side-effect call whose arguments
have an integer with too many digits, and beside a side-effect call on an item whose role is a
list or a dict. The items themselves are what `json.loads` made of a request, so that each of
their integers can be written.
-/

namespace ToolCallDedupe

open PyJson

variable {F : Type} {fmt : FloatText F}

/-! ## What an item is -/

def callKey (fmt : FloatText F) (item : JsonValue F) : Option ReplayedKey :=
  (asObj item).bind (replayedSideEffectToolCallKey fmt)

/-- A user, developer or system message. -/
def SegmentBoundary (item : JsonValue F) : Prop :=
  (asObj item).bind replayedInputSegmentBoundary = some true

/-- The call id of a tool call. -/
def toolCallId (item : JsonValue F) : Option Str :=
  (asObj item).bind fun d =>
    if replayedToolCallSegmentBoundary d = some true then callIdOf d else none

def IsToolOutput (d : Obj F) : Prop := memberOf toolOutputTypes false (d.get "type") = some true

/-- The call id of a tool output. -/
def toolOutputId (item : JsonValue F) : Option Str :=
  ((asObj item).bind replayedToolOutputCallId).join

/-- What the dedupe makes of the item at an index. -/
inductive Treated (fmt : FloatText F) (items : List (JsonValue F))
    (outcome : ℕ → Option (JsonValue F)) (i : ℕ) : JsonValue F → Option (JsonValue F) → Prop where
  | same {item : JsonValue F} : Treated fmt items outcome i item (some item)
  | call {d : Obj F} : callKey fmt (.dict d) ≠ none →
      Treated fmt items outcome i (.dict d)
        (some (replayedToolCallWithoutOutputAsAssistantMessage d))
  | output {d : Obj F} : IsToolOutput d →
      Treated fmt items outcome i (.dict d) (some (replayedToolOutputAsAssistantMessage fmt d))
  | removed {item first : JsonValue F} {key : ReplayedKey} {j : ℕ} :
      callKey fmt item = some key → j < i → items[j]? = some first →
      callKey fmt first = some key → outcome j ≠ none →
      (∀ b x, j < b → b ≤ i → items[b]? = some x → ¬ SegmentBoundary x) →
      Treated fmt items outcome i item none

/-- Every call id has at least as many tool calls as tool outputs. -/
def Covered (xs : List (JsonValue F)) : Prop :=
  ∀ c, xs.countP (fun x => decide (toolOutputId x = some c)) ≤
    xs.countP fun x => decide (toolCallId x = some c)

/-- A result of the dedupe: what became of each item, and that calls and outputs stay paired. -/
structure Deduped (fmt : FloatText F) (items : List (JsonValue F))
    (outcome : ℕ → Option (JsonValue F)) (result : List (JsonValue F)) : Prop where
  result_eq : result = (List.range items.length).filterMap outcome
  treated : ∀ i item, items[i]? = some item → Treated fmt items outcome i item (outcome i)
  texts : ∀ i d, items[i]? = some (.dict d) → IsToolOutput d →
    outcome i = some (.dict d) ∨ outcome i = some (replayedToolOutputAsAssistantMessage fmt d)
  covered : (∀ front, front <+: items → Covered front) → ∀ front, front <+: result → Covered front

/-! ## Types of calls and of outputs -/

theorem memberOf_true {names : List Str} {v : JsonValue F}
    (h : memberOf names false v = some true) : ∃ t, v = .str t ∧ t ∈ names := by
  cases v <;> simp [memberOf, unhashable] at h ⊢
  exact h

theorem toolCallTypes_apart : ∀ t ∈ toolCallTypes, t ∉ toolOutputTypes := by decide

theorem callKey_type {d : Obj F} {key : ReplayedKey}
    (h : callKey fmt (.dict d) = some key) :
    ∃ t, d.get "type" = .str t ∧ t ∈ toolCallTypes := by
  simp only [callKey, asObj, Option.bind_some, replayedSideEffectToolCallKey] at h
  cases ht : asStr (d.get "type") with
  | none =>
    rw [ht] at h
    cases h
  | some t =>
    rw [ht] at h
    refine ⟨t, asStr_eq_some ht, ?_⟩
    obtain ⟨parts, found, _⟩ := Option.map_eq_some_iff.mp h
    rw [replayedCallParts] at found
    split at found
    next same => simp [same, toolCallTypes]
    split at found
    next same => simp [same, toolCallTypes]
    split at found
    next mem => exact List.mem_append_right _ mem
    · cases found

theorem IsToolOutput.not_call {d : Obj F} (h : IsToolOutput d) :
    callKey fmt (.dict d) = none := by
  cases found : callKey fmt (.dict d) with
  | none => rfl
  | some key =>
    obtain ⟨t, same, call⟩ := callKey_type found
    obtain ⟨u, same', output⟩ := memberOf_true h
    rw [same] at same'
    cases same'
    exact absurd output (toolCallTypes_apart t call)

theorem toolOutputId_some {item : JsonValue F} {c : Str} (h : toolOutputId item = some c) :
    ∃ d, item = .dict d ∧ IsToolOutput d ∧ callIdOf d = some c := by
  cases hd : asObj item with
  | none => simp [toolOutputId, hd] at h
  | some d =>
    rw [toolOutputId, hd, Option.bind_some, replayedToolOutputCallId] at h
    cases known : memberOf toolOutputTypes false (d.get "type") with
    | none => simp [known] at h
    | some known_ =>
      cases known_ with
      | false => simp [known] at h
      | true => exact ⟨d, asObj_eq_some hd, known, by simpa [known] using h⟩

theorem toolCallId_some {item : JsonValue F} {c : Str} (h : toolCallId item = some c) :
    ∃ d, item = .dict d ∧ replayedToolCallSegmentBoundary d = some true := by
  cases hd : asObj item with
  | none => simp [toolCallId, hd] at h
  | some d =>
    rw [toolCallId, hd, Option.bind_some] at h
    split at h
    next call => exact ⟨d, asObj_eq_some hd, call⟩
    · cases h

theorem toolCallId_not_output {d : Obj F} {c : Str} (h : toolCallId (.dict d) = some c) :
    ¬ IsToolOutput d := by
  obtain ⟨_, same, call⟩ := toolCallId_some h
  cases same
  intro output
  obtain ⟨t, same, mem⟩ := memberOf_true call
  obtain ⟨u, same', mem'⟩ := memberOf_true output
  rw [same] at same'
  cases same'
  exact toolCallTypes_apart t mem mem'

theorem toolCallId_call {d : Obj F} {key : ReplayedKey} (h : callKey fmt (.dict d) = some key) :
    toolCallId (.dict d) = callIdOf d := by
  obtain ⟨t, same, call⟩ := callKey_type h
  have known : replayedToolCallSegmentBoundary d = some true := by
    rw [replayedToolCallSegmentBoundary, same]
    simp [memberOf, unhashable, call]
  rw [toolCallId, asObj, Option.bind_some, if_pos known]

theorem toolOutputId_message (content : Str) :
    toolOutputId (assistantMessage content : JsonValue F) = none := rfl

/-! ## The first pass -/

theorem scanItem_some {item : JsonValue F} {e : Scanned F} (h : scanItem fmt item = some e) :
    e.item = item ∧ e.key = callKey fmt item ∧ e.outputCallId = toolOutputId item ∧
      (e.key.isSome → e.callId = toolCallId item) ∧ (e.key = none → e.callId = none) := by
  cases item with
  | dict d =>
    rw [scanItem, asObj] at h
    dsimp only at h
    split_ifs at h
    cases hkey : replayedSideEffectToolCallKey fmt d with
    | some key =>
      rw [hkey] at h
      cases h
      have call : callKey fmt (.dict d) = some key := hkey
      refine ⟨rfl, call.symm, ?_, fun _ => (toolCallId_call call).symm, nofun⟩
      cases output : toolOutputId (.dict d) with
      | none => rfl
      | some c =>
        obtain ⟨_, same, known, _⟩ := toolOutputId_some output
        cases same
        rw [known.not_call] at call
        cases call
    | none =>
      rw [hkey] at h
      obtain ⟨outputCallId, found, rfl⟩ := Option.map_eq_some_iff.mp h
      refine ⟨rfl, hkey.symm, ?_, nofun, fun _ => rfl⟩
      simp [toolOutputId, asObj, found]
  | _ =>
    cases h
    exact ⟨rfl, rfl, rfl, nofun, fun _ => rfl⟩

/-- The first pass fails on an item whose key is refused or whose type is a list or a dict. -/
theorem scanItem_none {item : JsonValue F} :
    scanItem fmt item = none ↔ ∃ d : Obj F, item = .dict d ∧
      (keyRefused fmt d = true ∨ unhashable (d.get "type") = true) := by
  cases item with
  | dict d =>
    rw [scanItem, asObj]
    dsimp only
    constructor
    · intro failed
      refine ⟨d, rfl, ?_⟩
      split_ifs at failed with refused
      · exact .inl refused
      cases hkey : replayedSideEffectToolCallKey fmt d with
      | some key =>
        rw [hkey] at failed
        cases failed
      | none =>
        rw [hkey] at failed
        right
        by_contra fine
        simp [replayedToolOutputCallId, memberOf, fine] at failed
    · rintro ⟨_, same, bad⟩
      cases same
      rcases bad with refused | bad
      · exact if_pos refused
      split_ifs
      · rfl
      cases hkey : replayedSideEffectToolCallKey fmt d with
      | some key =>
        obtain ⟨t, plain, _⟩ := callKey_type (show callKey fmt (.dict d) = some key from hkey)
        rw [plain] at bad
        cases bad
      | none => simp [replayedToolOutputCallId, memberOf, bad]
  | _ => simp [scanItem, asObj]

theorem scan_get {items : List (JsonValue F)} {scanned : List (Scanned F)}
    (h : items.mapM (scanItem fmt) = some scanned) :
    scanned.length = items.length ∧ ∀ (i : ℕ) item, items[i]? = some item →
      ∃ e, scanned[i]? = some e ∧ scanItem fmt item = some e := by
  induction items generalizing scanned with
  | nil =>
    rw [List.mapM_nil] at h
    cases h
    exact ⟨rfl, nofun⟩
  | cons item items ih =>
    rw [List.mapM_cons] at h
    obtain ⟨e, first, h⟩ := Option.bind_eq_some_iff.mp h
    obtain ⟨rest, later, h⟩ := Option.bind_eq_some_iff.mp h
    cases h
    obtain ⟨length, get⟩ := ih later
    refine ⟨by rw [List.length_cons, List.length_cons, length], fun i x hx => ?_⟩
    cases i with
    | zero =>
      cases hx
      exact ⟨e, rfl, first⟩
    | succ i => exact get i x hx

theorem scan_none {items : List (JsonValue F)} :
    items.mapM (scanItem fmt) = none ↔ ∃ item ∈ items, scanItem fmt item = none := by
  induction items with
  | nil => exact ⟨nofun, nofun⟩
  | cons item items ih =>
    rw [List.mapM_cons]
    cases first : scanItem fmt item with
    | none => simp [first]
    | some e =>
      cases later : items.mapM (scanItem fmt) with
      | none =>
        obtain ⟨x, hx, failed⟩ := ih.mp later
        simp only [Option.bind_eq_bind, Option.bind_some, Option.bind_none, true_iff]
        exact ⟨x, List.mem_cons_of_mem _ hx, failed⟩
      | some rest =>
        constructor
        · nofun
        · rintro ⟨x, hx, failed⟩
          rcases List.mem_cons.mp hx with rfl | hx
          · rw [first] at failed
            cases failed
          · rw [ih.mpr ⟨x, hx, failed⟩] at later
            cases later

/-! ## The second pass -/

/-- The requests of a call id: its side-effect calls. -/
def requests (scanned : List (Scanned F)) (c : Str) (i : ℕ) : Bool :=
  (scanned[i]?).any fun e => e.key.isSome && decide (e.callId = some c)

theorem mem_outputIndices {scanned : List (Scanned F)} {c : Str} {o : ℕ} :
    o ∈ outputIndices scanned c ↔ ∃ e, scanned[o]? = some e ∧ e.outputCallId = some c := by
  rw [outputIndices, List.mem_filter, List.mem_range, decide_eq_true_eq]
  constructor
  · rintro ⟨_, found⟩
    exact Option.bind_eq_some_iff.mp found
  · rintro ⟨e, found, output⟩
    exact ⟨(List.getElem?_eq_some_iff.mp found).1, by rw [found, Option.bind_some, output]⟩

theorem outputIndices_sorted (scanned : List (Scanned F)) (c : Str) :
    (outputIndices scanned c).Pairwise (· < ·) :=
  List.Pairwise.filter _ List.pairwise_lt_range

/-- What holds behind the first `n` items of the second pass. -/
structure Pass.Inv (fmt : FloatText F) (items : List (JsonValue F)) (scanned : List (Scanned F))
    (n : ℕ) (s : Pass F) : Prop where
  later : ∀ i, n ≤ i → s.kept i = true ∧ s.outputIndexByCallIndex i = none
  first : ∀ key j, s.firstCallIndexByKey key = some j → j < n ∧ s.kept j = true ∧
    (∃ x, items[j]? = some x ∧ callKey fmt x = some key) ∧
    ∀ b x, j < b → b < n → items[b]? = some x → ¬ SegmentBoundary x
  known : ∀ key, (s.firstCallIdByKey key).isSome → (s.firstCallIndexByKey key).isSome
  removed : ∀ i, s.kept i = false → ∃ key j, j < i ∧ s.kept j = true ∧
    (∃ x, items[i]? = some x ∧ callKey fmt x = some key) ∧
    (∃ x, items[j]? = some x ∧ callKey fmt x = some key) ∧
    ∀ b x, j < b → b ≤ i → items[b]? = some x → ¬ SegmentBoundary x
  rewritten : ∀ i v, s.rewritten i = some v →
    (∃ d, items[i]? = some (.dict d) ∧ callKey fmt (.dict d) ≠ none ∧ i < n ∧
      s.outputIndexByCallIndex i = none ∧
      v = replayedToolCallWithoutOutputAsAssistantMessage d) ∨
    ∃ d, items[i]? = some (.dict d) ∧ IsToolOutput d ∧
      v = replayedToolOutputAsAssistantMessage fmt d
  outputs : ∀ j o, s.kept j = false → s.outputIndexByCallIndex j = some o →
    ∃ d, items[o]? = some (.dict d) ∧ IsToolOutput d ∧
      s.rewritten o = some (replayedToolOutputAsAssistantMessage fmt d)
  matched : ∀ c, s.nextOutputCursorByCallId c =
      (GreedyMatching.run (requests scanned c) (outputIndices scanned c) n).1 ∧
    ∀ i, requests scanned c i = true → s.outputIndexByCallIndex i =
      (GreedyMatching.run (requests scanned c) (outputIndices scanned c) n).2 i

section Pass

variable {items : List (JsonValue F)} {scanned : List (Scanned F)} {n : ℕ} {s : Pass F}
  {e : Scanned F} {item : JsonValue F}

theorem Pass.Inv.init : Pass.Inv fmt items scanned 0 Pass.initial :=
  ⟨fun _ _ => ⟨rfl, rfl⟩, nofun, nofun, nofun, nofun, nofun, fun _ => ⟨rfl, fun _ _ => rfl⟩⟩

/-- No first call is known when the item at an index begins a segment. -/
def Pass.Open (items : List (JsonValue F)) (n : ℕ) (s : Pass F) : Prop :=
  ∀ key j, s.firstCallIndexByKey key = some j → ∀ x, items[n]? = some x → ¬ SegmentBoundary x

theorem Pass.Inv.newSegment (h : Pass.Inv fmt items scanned n s) :
    Pass.Inv fmt items scanned n s.newSegment :=
  ⟨h.later, nofun, nofun, h.removed, h.rewritten, h.outputs, h.matched⟩

theorem Pass.Inv.clearLegacy (h : Pass.Inv fmt items scanned n s) :
    Pass.Inv fmt items scanned n s.clearLegacy := by
  refine ⟨h.later, fun key j found => ?_, fun key found => ?_, h.removed, h.rewritten, h.outputs,
    h.matched⟩
  · simp only [Pass.clearLegacy] at found
    split at found
    · exact h.first key j found
    · cases found
  · simp only [Pass.clearLegacy] at found ⊢
    split at found
    next stable =>
      rw [if_pos stable]
      exact h.known key found
    · cases found

theorem Pass.Open.clearLegacy (h : Pass.Open items n s) : Pass.Open items n s.clearLegacy := by
  intro key j found
  simp only [Pass.clearLegacy] at found
  split at found
  · exact h key j found
  · cases found

/-- An item without a request leaves the matching as it is. -/
theorem Pass.Inv.advance (h : Pass.Inv fmt items scanned n s) (opened : Pass.Open items n s)
    (none_ : ∀ c, requests scanned c n = false) : Pass.Inv fmt items scanned (n + 1) s := by
  refine ⟨fun i hi => h.later i (Nat.le_of_succ_le hi), ?_, h.known, h.removed, ?_, h.outputs, ?_⟩
  · intro key j found
    obtain ⟨before, kept, named, clear⟩ := h.first key j found
    refine ⟨Nat.lt_succ_of_lt before, kept, named, fun b x after_ before_ hx => ?_⟩
    rcases Nat.lt_succ_iff_lt_or_eq.mp before_ with less | rfl
    · exact clear b x after_ less hx
    · exact opened key j found x hx
  · intro i v found
    rcases h.rewritten i v found with ⟨d, hd, call, before, rest⟩ | output
    · exact Or.inl ⟨d, hd, call, Nat.lt_succ_of_lt before, rest⟩
    · exact Or.inr output
  · intro c
    rw [GreedyMatching.run, if_neg (by rw [none_ c]; exact Bool.false_ne_true)]
    exact h.matched c

/-- A side-effect call takes its output. -/
theorem Pass.Inv.takeOutput (h : Pass.Inv fmt items scanned n s) (opened : Pass.Open items n s)
    {key : ReplayedKey} (at_ : scanned[n]? = some e) (call : e.key = some key) :
    Pass.Inv fmt items scanned (n + 1) (s.takeOutput (outputIndices scanned) n e.callId) := by
  have asks (c : Str) : requests scanned c n = decide (e.callId = some c) := by
    simp [requests, at_, call]
  have keeps : (s.takeOutput (outputIndices scanned) n e.callId).kept = s.kept ∧
      (s.takeOutput (outputIndices scanned) n e.callId).rewritten = s.rewritten ∧
      (s.takeOutput (outputIndices scanned) n e.callId).firstCallIdByKey = s.firstCallIdByKey ∧
      (s.takeOutput (outputIndices scanned) n e.callId).firstCallIndexByKey =
        s.firstCallIndexByKey := by
    cases e.callId <;> exact ⟨rfl, rfl, rfl, rfl⟩
  have old (i : ℕ) (hi : i ≠ n) :
      (s.takeOutput (outputIndices scanned) n e.callId).outputIndexByCallIndex i =
        s.outputIndexByCallIndex i := by
    cases e.callId <;> exact if_neg hi
  obtain ⟨kept, rewritten, firstId, firstIndex⟩ := keeps
  refine ⟨fun i hi => ?_, ?_, ?_, ?_, ?_, ?_, ?_⟩
  · rw [kept, old i (by omega)]
    exact h.later i (Nat.le_of_succ_le hi)
  · intro key j found
    rw [firstIndex] at found
    obtain ⟨before, stays, named, clear⟩ := h.first key j found
    refine ⟨Nat.lt_succ_of_lt before, kept ▸ stays, named, fun b x after_ before_ hx => ?_⟩
    rcases Nat.lt_succ_iff_lt_or_eq.mp before_ with less | rfl
    · exact clear b x after_ less hx
    · exact opened key j found x hx
  · rw [firstId, firstIndex]
    exact h.known
  · rw [kept]
    exact h.removed
  · intro i v found
    rw [rewritten] at found
    rcases h.rewritten i v found with ⟨d, hd, callee, before, free, same⟩ | output
    · exact Or.inl ⟨d, hd, callee, Nat.lt_succ_of_lt before, by rw [old i (by omega), free], same⟩
    · exact Or.inr output
  · intro j o gone found
    rw [kept] at gone
    have before : j ≠ n := by
      rintro rfl
      rw [(h.later j (le_refl _)).1] at gone
      cases gone
    rw [old j before] at found
    rw [rewritten]
    exact h.outputs j o gone found
  · intro c
    obtain ⟨cursor, taken⟩ := h.matched c
    rw [GreedyMatching.run]
    by_cases mine : e.callId = some c
    · have asked : requests scanned c n = true := by rw [asks, mine]; exact decide_eq_true rfl
      rw [if_pos asked]
      simp only [Pass.takeOutput, mine, if_true, cursor, true_and]
      intro i hi
      split
      · rfl
      · exact taken i hi
    · have other : requests scanned c n = false := by rw [asks]; exact decide_eq_false mine
      rw [if_neg (by rw [other]; exact Bool.false_ne_true)]
      refine ⟨?_, fun i hi => ?_⟩
      · rw [← cursor]
        cases hc : e.callId with
        | none => rfl
        | some c' => exact if_neg fun same => mine (by rw [hc, same])
      · have hin : i ≠ n := by
          rintro rfl
          rw [other] at hi
          cases hi
        rw [old i hin]
        exact taken i hi

theorem requests_output_apart (h : items.mapM (scanItem fmt) = some scanned) (c : Str) (i : ℕ)
    (asked : requests scanned c i = true) : i ∉ outputIndices scanned c := by
  intro output
  obtain ⟨e, at_, given⟩ := mem_outputIndices.mp output
  obtain ⟨length, get⟩ := scan_get h
  have inside := (List.getElem?_eq_some_iff.mp at_).1
  obtain ⟨e', at_', scan⟩ := get i items[i] (List.getElem?_eq_getElem (length ▸ inside))
  rw [at_] at at_'
  cases at_'
  obtain ⟨_, key, outputId, _, _⟩ := scanItem_some scan
  simp only [requests, at_, Option.any_some, Bool.and_eq_true, decide_eq_true_eq] at asked
  rw [given] at outputId
  obtain ⟨d, same, known, _⟩ := toolOutputId_some outputId.symm
  rw [key, same, known.not_call] at asked
  cases asked.1

/-- The output that a call takes is a tool output. -/
theorem Pass.Inv.output_at (h : items.mapM (scanItem fmt) = some scanned)
    (inv : Pass.Inv fmt items scanned n s) {i o : ℕ} {c : Str}
    (asked : requests scanned c i = true) (before : i < n)
    (found : s.outputIndexByCallIndex i = some o) :
    ∃ d, items[o]? = some (.dict d) ∧ IsToolOutput d ∧ callIdOf d = some c := by
  rw [(inv.matched c).2 i asked] at found
  obtain ⟨passed, ahead, progress⟩ := GreedyMatching.run_progress
    (outputIndices_sorted scanned c) (requests_output_apart h c) n
  have mem : o ∈ outputIndices scanned c :=
    progress.split ▸ List.mem_append_left _ (progress.behind i o before asked found).1
  obtain ⟨e, at_, given⟩ := mem_outputIndices.mp mem
  obtain ⟨length, get⟩ := scan_get h
  have inside := (List.getElem?_eq_some_iff.mp at_).1
  have item_at := List.getElem?_eq_getElem (l := items) (length ▸ inside)
  obtain ⟨e', at_', scan⟩ := get o _ item_at
  rw [at_] at at_'
  cases at_'
  obtain ⟨_, _, outputId, _, _⟩ := scanItem_some scan
  rw [given] at outputId
  obtain ⟨d, same, known, callId⟩ := toolOutputId_some outputId.symm
  exact ⟨d, by rw [item_at, same], known, callId⟩

/-- Rewriting a call that took no output keeps the invariant. -/
theorem Pass.Inv.rewriteCall (h : Pass.Inv fmt items scanned n s) {i : ℕ} {d : Obj F}
    (hd : items[i]? = some (.dict d)) (call : callKey fmt (.dict d) ≠ none) (before : i < n)
    (free : s.outputIndexByCallIndex i = none) :
    Pass.Inv fmt items scanned n
      (s.rewrite i (replayedToolCallWithoutOutputAsAssistantMessage d)) := by
  refine ⟨h.later, h.first, h.known, h.removed, fun j v found => ?_, fun j o gone found => ?_,
    h.matched⟩
  · simp only [Pass.rewrite] at found
    split at found
    next same =>
      cases found
      exact Or.inl ⟨d, same ▸ hd, call, same ▸ before, same ▸ free, rfl⟩
    · exact h.rewritten j v found
  · obtain ⟨d', hd', output, message⟩ := h.outputs j o gone found
    refine ⟨d', hd', output, ?_⟩
    rw [Pass.rewrite]
    dsimp only
    rw [if_neg, message]
    rintro rfl
    rw [hd] at hd'
    cases hd'
    exact call output.not_call

theorem Pass.Inv.rewriteFirst (h : Pass.Inv fmt items scanned n s) (key : ReplayedKey) :
    Pass.Inv fmt items scanned n (s.rewriteFirst items key) := by
  rw [Pass.rewriteFirst]
  split
  · exact h
  next first found =>
    split
    next d free hd =>
      obtain ⟨before, _, ⟨x, hx, named⟩, _⟩ := h.first key first found
      rw [hx, Option.bind_some] at hd
      have same := asObj_eq_some hd
      rw [same] at hx named
      exact h.rewriteCall hx (by rw [named]; exact Option.some_ne_none _) before free
    · exact h

theorem Pass.rewriteFirst_fields (s : Pass F) (items : List (JsonValue F))
    (key : ReplayedKey) :
    (s.rewriteFirst items key).firstCallIndexByKey = s.firstCallIndexByKey ∧
      (s.rewriteFirst items key).kept = s.kept ∧
      (s.rewriteFirst items key).outputIndexByCallIndex = s.outputIndexByCallIndex := by
  rw [Pass.rewriteFirst]
  split
  · exact ⟨rfl, rfl, rfl⟩
  · split <;> exact ⟨rfl, rfl, rfl⟩

/-- A call that repeats a known one goes, and its output becomes a message. -/
theorem Pass.Inv.removeCall (h : items.mapM (scanItem fmt) = some scanned)
    (inv : Pass.Inv fmt items scanned (n + 1) s) {key : ReplayedKey} {j : ℕ}
    (hitem : items[n]? = some item) (call : callKey fmt item = some key)
    (at_ : scanned[n]? = some e) (earlier : s.firstCallIndexByKey key = some j) (order : j < n)
    (fresh : ∀ k i, s.firstCallIndexByKey k = some i → i < n)
    (noId : e.callId = none → s.outputIndexByCallIndex n = none) (hkey : e.key = some key)
    {s' : Pass F} (ran : (s.removeCall n).rewriteOutput fmt items n = some s') :
    Pass.Inv fmt items scanned (n + 1) s' := by
  obtain ⟨_, stays, named, clear⟩ := inv.first key j earlier
  have gone {i : ℕ} (hi : (s.removeCall n).kept i = false) : i = n ∨ s.kept i = false := by
    simp only [Pass.removeCall] at hi
    split at hi
    next same => exact Or.inl same
    · exact Or.inr hi
  have held {i : ℕ} (hi : i < n) (kept : s.kept i = true) : (s.removeCall n).kept i = true := by
    simp only [Pass.removeCall]
    rw [if_neg (Nat.ne_of_lt hi), kept]
  have later : ∀ i, n + 1 ≤ i → (s.removeCall n).kept i = true ∧
      s.outputIndexByCallIndex i = none := by
    intro i hi
    simp only [Pass.removeCall]
    rw [if_neg (by omega)]
    exact inv.later i hi
  have first : ∀ k i, s.firstCallIndexByKey k = some i → i < n + 1 ∧
      (s.removeCall n).kept i = true ∧ (∃ x, items[i]? = some x ∧ callKey fmt x = some k) ∧
      ∀ b x, i < b → b < n + 1 → items[b]? = some x → ¬ SegmentBoundary x := by
    intro k i found
    obtain ⟨before, kept, rest⟩ := inv.first k i found
    exact ⟨before, held (fresh k i found) kept, rest⟩
  have removed : ∀ i, (s.removeCall n).kept i = false → ∃ key j, j < i ∧
      (s.removeCall n).kept j = true ∧ (∃ x, items[i]? = some x ∧ callKey fmt x = some key) ∧
      (∃ x, items[j]? = some x ∧ callKey fmt x = some key) ∧
      ∀ b x, j < b → b ≤ i → items[b]? = some x → ¬ SegmentBoundary x := by
    intro i hi
    rcases gone hi with rfl | hi
    · exact ⟨key, j, order, held order stays, ⟨item, hitem, call⟩, named,
        fun b x after_ before_ => clear b x after_ (Nat.lt_succ_of_le before_)⟩
    · obtain ⟨k, j', before, kept, rest⟩ := inv.removed i hi
      have bound : i < n + 1 := by
        by_contra late
        rw [(inv.later i (Nat.not_lt.mp late)).1] at hi
        cases hi
      exact ⟨k, j', before, held (by omega) kept, rest⟩
  cases taken : s.outputIndexByCallIndex n with
  | none =>
    have same : s' = s.removeCall n := by
      rw [Pass.rewriteOutput] at ran
      simp only [Pass.removeCall, taken] at ran
      exact (Option.some.inj ran).symm
    rw [same]
    refine ⟨later, first, inv.known, removed, inv.rewritten, fun i o hi found => ?_, inv.matched⟩
    rcases gone hi with rfl | hi
    · rw [Pass.removeCall] at found
      rw [taken] at found
      cases found
    · exact inv.outputs i o hi found
  | some o =>
    obtain ⟨c, hc⟩ : ∃ c, e.callId = some c := by
      cases hc : e.callId with
      | none =>
        rw [noId hc] at taken
        cases taken
      | some c => exact ⟨c, rfl⟩
    have asked : requests scanned c n = true := by simp [requests, at_, hkey, hc]
    obtain ⟨d, hd, output, _⟩ := inv.output_at h asked (Nat.lt_succ_self n) taken
    have same : s' = (s.removeCall n).rewrite o (replayedToolOutputAsAssistantMessage fmt d) := by
      rw [Pass.rewriteOutput] at ran
      simp only [Pass.removeCall, taken, hd, Option.bind_some, asObj] at ran
      split_ifs at ran
      exact (Option.some.inj ran).symm
    rw [same]
    refine ⟨later, first, inv.known, removed, fun i v found => ?_, fun i o' hi found => ?_,
      inv.matched⟩
    · simp only [Pass.rewrite] at found
      split at found
      next same =>
        cases found
        exact Or.inr ⟨d, same ▸ hd, output, rfl⟩
      · exact inv.rewritten i v found
    · simp only [Pass.rewrite]
      by_cases mine : o' = o
      · subst mine
        exact ⟨d, hd, output, if_pos rfl⟩
      · rcases gone hi with rfl | hi
        · exact absurd (Option.some.inj (found.symm.trans taken)) mine
        · obtain ⟨d', hd', output', message⟩ := inv.outputs i o' hi found
          exact ⟨d', hd', output', by rw [if_neg mine]; exact message⟩

theorem Pass.takeOutput_first (s : Pass F) (outputs : Str → List ℕ) (n : ℕ)
    (callId : Option Str) :
    (s.takeOutput outputs n callId).firstCallIndexByKey = s.firstCallIndexByKey ∧
      (callId = none → (s.takeOutput outputs n callId).outputIndexByCallIndex n = none) := by
  cases callId with
  | none => exact ⟨rfl, fun _ => if_pos rfl⟩
  | some c => exact ⟨rfl, nofun⟩

theorem Pass.Inv.addFirst (inv : Pass.Inv fmt items scanned (n + 1) s) {key : ReplayedKey}
    (hitem : items[n]? = some item) (call : callKey fmt item = some key)
    (kept : s.kept n = true) (callId : Option Str) :
    Pass.Inv fmt items scanned (n + 1)
      { s with
        firstCallIdByKey := fun k => if k = key then some callId else s.firstCallIdByKey k
        firstCallIndexByKey := fun k => if k = key then some n else s.firstCallIndexByKey k } := by
  refine ⟨inv.later, fun k j found => ?_, fun k found => ?_, inv.removed, inv.rewritten,
    inv.outputs, inv.matched⟩
  · dsimp only at found
    split at found
    next same =>
      cases found
      exact ⟨Nat.lt_succ_self n, kept, ⟨item, hitem, same ▸ call⟩, fun b x after_ before_ => by omega⟩
    · exact inv.first k j found
  · dsimp only at found ⊢
    split
    · rfl
    next other =>
      rw [if_neg other] at found
      exact inv.known k found

theorem Pass.Inv.call (h : items.mapM (scanItem fmt) = some scanned)
    (inv : Pass.Inv fmt items scanned n s) (opened : Pass.Open items n s) {key : ReplayedKey}
    (hitem : items[n]? = some item) (named : callKey fmt item = some key)
    (at_ : scanned[n]? = some e) (hkey : e.key = some key) {s' : Pass F}
    (ran : s.call fmt items (outputIndices scanned) n key e.callId = some s') :
    Pass.Inv fmt items scanned (n + 1) s' := by
  -- the state once legacy keys are cleared, before the call takes its output
  obtain ⟨t, ht, cleared, opened'⟩ : ∃ t, (if s.lastSideEffectKey.any fun last =>
      decide (key ≠ last) then s.clearLegacy else s) = t ∧
      Pass.Inv fmt items scanned n t ∧ Pass.Open items n t := by
    refine ⟨_, rfl, ?_, ?_⟩
    · split
      · exact inv.clearLegacy
      · exact inv
    · split
      · exact opened.clearLegacy
      · exact opened
  have noted : Pass.Inv fmt items scanned n { t with lastSideEffectKey := some key } :=
    ⟨cleared.later, cleared.first, cleared.known, cleared.removed, cleared.rewritten,
      cleared.outputs, cleared.matched⟩
  have taken := noted.takeOutput opened' at_ hkey
  obtain ⟨firsts, noId⟩ := Pass.takeOutput_first { t with lastSideEffectKey := some key }
    (outputIndices scanned) n e.callId
  simp only [Pass.call, ht] at ran
  generalize hu : Pass.takeOutput { t with lastSideEffectKey := some key } (outputIndices scanned) n
    e.callId = u at taken firsts noId ran
  have kept : u.kept n = true := by
    cases hk : u.kept n with
    | true => rfl
    | false =>
      obtain ⟨_, _, _, _, _⟩ := taken.removed n hk
      have same : u.kept = t.kept := by
        rw [← hu]
        cases e.callId <;> rfl
      rw [same, (cleared.later n (le_refl _)).1] at hk
      cases hk
  split at ran
  · cases ran
    exact taken.addFirst hitem named kept e.callId
  next repeated =>
    have some_ : (u.firstCallIdByKey key).isSome := by
      cases hf : u.firstCallIdByKey key with
      | none => exact absurd (by rw [hf]; rfl) repeated
      | some _ => rfl
    obtain ⟨j, earlier⟩ := Option.isSome_iff_exists.mp (taken.known key some_)
    obtain ⟨index, _, output⟩ := u.rewriteFirst_fields items key
    refine (taken.rewriteFirst key).removeCall h hitem named at_ (index ▸ earlier) ?_ ?_ ?_ hkey ran
    · rw [firsts] at earlier
      exact (cleared.first key j earlier).1
    · intro k i found
      rw [index, firsts] at found
      exact (cleared.first k i found).1
    · intro none_
      rw [output]
      exact noId none_

theorem Pass.other_cases (item : JsonValue F) {s' : Pass F} (h : s.other item = some s') :
    s' = s ∨ s' = s.clearLegacy := by
  rw [Pass.other] at h
  obtain ⟨outputCallId, _, h⟩ := Option.bind_eq_some_iff.mp h
  split at h
  · exact Or.inl (Option.some.inj h).symm
  · obtain ⟨toolCall, _, h⟩ := Option.bind_eq_some_iff.mp h
    split at h
    · exact Or.inr (Option.some.inj h).symm
    · split at h
      · exact Or.inr (Option.some.inj h).symm
      · exact Or.inl (Option.some.inj h).symm

theorem Pass.Inv.step (h : items.mapM (scanItem fmt) = some scanned)
    (inv : Pass.Inv fmt items scanned n s) (hitem : items[n]? = some item)
    (at_ : scanned[n]? = some e) (scan : scanItem fmt item = some e) {s' : Pass F}
    (stepped : s.step fmt items (outputIndices scanned) n e = some s') :
    Pass.Inv fmt items scanned (n + 1) s' := by
  obtain ⟨same, hkey, _, _, noId⟩ := scanItem_some scan
  rw [Pass.step] at stepped
  obtain ⟨boundary, hboundary, stepped⟩ := Option.bind_eq_some_iff.mp stepped
  obtain ⟨t, ht, inv', opened⟩ : ∃ t, (if boundary then s.newSegment else s) = t ∧
      Pass.Inv fmt items scanned n t ∧ Pass.Open items n t := by
    refine ⟨_, rfl, ?_⟩
    cases boundary with
    | true => exact ⟨inv.newSegment, nofun⟩
    | false =>
      refine ⟨inv, fun key j _ x hx boundary => ?_⟩
      rw [hitem] at hx
      cases hx
      rw [SegmentBoundary] at boundary
      rw [same] at hboundary
      cases hd : asObj item with
      | none =>
        rw [hd] at boundary
        cases boundary
      | some d =>
        rw [hd] at boundary hboundary
        exact Bool.false_ne_true (Option.some.inj (hboundary.symm.trans boundary))
  rw [ht] at stepped
  cases key : e.key with
  | none =>
    rw [key] at stepped
    have quiet (c : Str) : requests scanned c n = false := by simp [requests, at_, key]
    rcases Pass.other_cases _ stepped with rfl | rfl
    · exact inv'.advance opened quiet
    · exact inv'.clearLegacy.advance opened.clearLegacy quiet
  | some key_ =>
    rw [key] at stepped
    exact inv'.call h opened hitem (hkey ▸ key) at_ key stepped

theorem Pass.Inv.steps (h : items.mapM (scanItem fmt) = some scanned) (n : ℕ)
    (inside : n ≤ items.length) {s : Pass F} (ran : Pass.steps fmt items scanned n = some s) :
    Pass.Inv fmt items scanned n s := by
  induction n generalizing s with
  | zero =>
    cases ran
    exact Pass.Inv.init
  | succ n ih =>
    obtain ⟨-, get⟩ := scan_get h
    have item_at := List.getElem?_eq_getElem (l := items) inside
    obtain ⟨e, at_, scan⟩ := get n _ item_at
    rw [Pass.steps, at_] at ran
    cases before : Pass.steps fmt items scanned n with
    | none =>
      rw [before] at ran
      cases ran
    | some t =>
      rw [before] at ran
      exact (ih (Nat.le_of_succ_le inside) before).step h item_at at_ scan ran

/-! ## Where the dedupe fails -/

theorem memberOf_none {names : List Str} {orNone : Bool} {v : JsonValue F}
    (bad : unhashable v = true) : memberOf names orNone v = none := if_pos bad

theorem memberOf_some (names : List Str) (orNone : Bool) {v : JsonValue F}
    (fine : unhashable v = false) : ∃ found, memberOf names orNone v = some found :=
  ⟨_, if_neg (by rw [fine]; exact Bool.false_ne_true)⟩

theorem Pass.other_isSome (s : Pass F)
    (fine : ∀ d : Obj F, item = .dict d → unhashable (d.get "type") = false) :
    s.other item ≠ none := by
  obtain ⟨outputCallId, houtput⟩ : ∃ found,
      (asObj item).elim (some none) replayedToolOutputCallId = some found := by
    cases hd : asObj item with
    | none => exact ⟨none, rfl⟩
    | some d =>
      obtain ⟨known, hknown⟩ := memberOf_some toolOutputTypes false (fine d (asObj_eq_some hd))
      exact ⟨_, by rw [Option.elim_some, replayedToolOutputCallId, hknown]; rfl⟩
  obtain ⟨toolCall, hcall⟩ : ∃ found,
      (asObj item).elim (some false) replayedToolCallSegmentBoundary = some found := by
    cases hd : asObj item with
    | none => exact ⟨false, rfl⟩
    | some d => exact memberOf_some toolCallTypes false (fine d (asObj_eq_some hd))
  rw [Pass.other, houtput, hcall]
  simp only [Option.bind_eq_bind, Option.bind_some]
  split
  · exact Option.some_ne_none _
  · split
    · exact Option.some_ne_none _
    · split <;> exact Option.some_ne_none _

theorem get_writable {d : Obj F} (h : (JsonValue.dict d).writable = true) (k : String) :
    (d.get k).writable = true := by
  have each := itemsWritable_iff.mp h
  rw [Obj.get]
  cases found : Dict.lookup (text k) d with
  | none => rfl
  | some v => exact each _ (Dict.mem_of_lookup found)

/-- Of items that can be written, only the arguments of a call are refused. -/
theorem keyRefused_eq {d : Obj F} (h : (JsonValue.dict d).writable = true) :
    keyRefused fmt d = (loadedArgument d).any (loadsRefused fmt) := by
  rw [keyRefused, get_writable h "operation"]
  cases asStr (d.get "type") <;> simp

theorem Pass.rewriteOutput_isSome (s : Pass F) (written : ∀ x ∈ items, x.writable = true)
    (index : ℕ) : s.rewriteOutput fmt items index ≠ none := by
  rw [Pass.rewriteOutput]
  split
  · exact Option.some_ne_none _
  next output _ =>
    split
    next d found =>
      obtain ⟨x, at_, dict⟩ := Option.bind_eq_some_iff.mp found
      have fine := get_writable (asObj_eq_some dict ▸ written x (List.mem_of_getElem? at_)) "output"
      rw [outputRefused, fine, Bool.not_true, Bool.and_false]
      exact Option.some_ne_none _
    · exact Option.some_ne_none _

theorem Pass.call_isSome (s : Pass F) (written : ∀ x ∈ items, x.writable = true)
    (outputs : Str → List ℕ) (index : ℕ) (key : ReplayedKey) (callId : Option Str) :
    s.call fmt items outputs index key callId ≠ none := by
  simp only [Pass.call]
  generalize Pass.takeOutput _ outputs index callId = taken
  split
  · exact Option.some_ne_none _
  · exact Pass.rewriteOutput_isSome _ written index

theorem Pass.step_none (s : Pass F) (written : ∀ x ∈ items, x.writable = true)
    (scan : scanItem fmt item = some e) :
    s.step fmt items (outputIndices scanned) n e = none ↔
      ∃ d : Obj F, item = .dict d ∧ unhashable (d.get "role") = true := by
  have fine : ∀ d : Obj F, item = .dict d → unhashable (d.get "type") = false := by
    intro d same
    by_contra bad
    rw [scanItem_none.mpr ⟨d, same, .inr (eq_true_of_ne_false bad)⟩] at scan
    cases scan
  obtain ⟨same, _⟩ := scanItem_some scan
  rw [Pass.step, same]
  cases hd : asObj item with
  | none =>
    have plain : ∀ d : Obj F, item ≠ .dict d := by
      rintro d rfl
      cases hd
    simp only [Option.elim_none, Option.bind_eq_bind, Option.bind_some]
    constructor
    · intro failed
      split at failed
      · exact absurd failed (Pass.other_isSome _ fine)
      · exact absurd failed (Pass.call_isSome _ written _ _ _ _)
    · rintro ⟨d, dict, _⟩
      exact absurd dict (plain d)
  | some d =>
    have dict := asObj_eq_some hd
    rw [Option.elim_some]
    constructor
    · intro failed
      refine ⟨d, dict, ?_⟩
      by_contra hashable
      obtain ⟨boundary, hboundary⟩ : ∃ found, replayedInputSegmentBoundary d = some found := by
        obtain ⟨known, hknown⟩ := memberOf_some segmentRoles false
          (Bool.eq_false_of_not_eq_true hashable)
        obtain ⟨typed, htyped⟩ := memberOf_some [text "message"] true (fine d dict)
        rw [replayedInputSegmentBoundary, hknown, htyped]
        cases known <;> exact ⟨_, rfl⟩
      rw [hboundary, Option.bind_eq_bind, Option.bind_some] at failed
      dsimp only at failed
      split at failed
      · exact Pass.other_isSome _ fine failed
      · exact Pass.call_isSome _ written _ _ _ _ failed
    · rintro ⟨_, same, bad⟩
      rw [dict] at same
      cases same
      rw [replayedInputSegmentBoundary, memberOf_none bad]
      rfl

theorem Pass.steps_none (h : items.mapM (scanItem fmt) = some scanned)
    (written : ∀ x ∈ items, x.writable = true) (n : ℕ) (inside : n ≤ items.length) :
    Pass.steps fmt items scanned n = none ↔
      ∃ i d, i < n ∧ items[i]? = some (.dict d) ∧ unhashable (Obj.get d "role") = true := by
  induction n with
  | zero => exact ⟨nofun, fun ⟨_, _, before, _⟩ => absurd before (Nat.not_lt_zero _)⟩
  | succ n ih =>
    obtain ⟨-, get⟩ := scan_get h
    have item_at := List.getElem?_eq_getElem (l := items) inside
    obtain ⟨e, at_, scan⟩ := get n _ item_at
    rw [Pass.steps, at_]
    have ih := ih (Nat.le_of_succ_le inside)
    cases before : Pass.steps fmt items scanned n with
    | none =>
      obtain ⟨i, d, less, found⟩ := ih.mp before
      exact ⟨fun _ => ⟨i, d, Nat.lt_succ_of_lt less, found⟩, fun _ => rfl⟩
    | some s =>
      dsimp only
      rw [Pass.step_none s written scan]
      constructor
      · rintro ⟨d, same, bad⟩
        exact ⟨n, d, Nat.lt_succ_self n, same ▸ item_at, bad⟩
      · rintro ⟨i, d, less, found, bad⟩
        rcases Nat.lt_succ_iff_lt_or_eq.mp less with less | rfl
        · rw [ih.mpr ⟨i, d, less, found, bad⟩] at before
          cases before
        · rw [item_at] at found
          exact ⟨d, Option.some.inj found, bad⟩

/-! ## The result -/

theorem Pass.Inv.sanitize (h : items.mapM (scanItem fmt) = some scanned)
    (inv : Pass.Inv fmt items scanned items.length s) :
    Pass.Inv fmt items scanned items.length (s.sanitize scanned) := by
  have missing {i : ℕ} {d : Obj F} (found : s.missing scanned i = some d) :
      items[i]? = some (.dict d) ∧ callKey fmt (.dict d) ≠ none ∧ i < items.length ∧
        s.outputIndexByCallIndex i = none ∧ s.rewritten i = none := by
    rw [Pass.missing] at found
    cases at_ : scanned[i]? with
    | none =>
      rw [at_] at found
      cases found
    | some e =>
      rw [at_] at found
      dsimp only at found
      split at found
      next open_ =>
        simp only [Bool.and_eq_true, Option.isNone_iff_eq_none] at open_
        obtain ⟨length, get⟩ := scan_get h
        have inside := length ▸ (List.getElem?_eq_some_iff.mp at_).1
        have item_at := List.getElem?_eq_getElem inside
        obtain ⟨e', at_', scan⟩ := get i _ item_at
        rw [at_] at at_'
        cases at_'
        obtain ⟨same, key, _⟩ := scanItem_some scan
        rw [same] at found
        rw [asObj_eq_some found] at item_at key
        refine ⟨item_at, ?_, inside, open_.2, open_.1.2⟩
        rw [← key]
        exact Option.isSome_iff_ne_none.mp open_.1.1.1
      · cases found
  refine ⟨inv.later, inv.first, inv.known, inv.removed, fun i v found => ?_,
    fun j o gone found => ?_, inv.matched⟩
  · simp only [Pass.sanitize] at found
    split at found
    next d rewrites =>
      obtain ⟨item_at, call, inside, free, _⟩ := missing rewrites
      cases found
      exact Or.inl ⟨d, item_at, call, inside, free, rfl⟩
    · exact inv.rewritten i v found
  · obtain ⟨d, item_at, output, message⟩ := inv.outputs j o gone found
    refine ⟨d, item_at, output, ?_⟩
    simp only [Pass.sanitize]
    split
    next d' rewrites =>
      rw [(missing rewrites).2.2.2.2] at message
      cases message
    · exact message

theorem Pass.outcome_kept (s : Pass F) {i : ℕ} {x : JsonValue F} (hx : items[i]? = some x)
    (kept : s.kept i = true) : s.outcome items i = some ((s.rewritten i).getD x) := by
  rw [Pass.outcome, if_pos kept, hx]
  cases s.rewritten i <;> rfl

theorem Pass.outcome_gone (s : Pass F) {i : ℕ} (gone : s.kept i = false) :
    s.outcome items i = none := by
  rw [Pass.outcome, gone]
  rfl

theorem Pass.Inv.treated (inv : Pass.Inv fmt items scanned n s) (i : ℕ) (x : JsonValue F)
    (hx : items[i]? = some x) : Treated fmt items (s.outcome items) i x (s.outcome items i) := by
  cases kept : s.kept i with
  | false =>
    obtain ⟨key, j, before, stays, ⟨y, hy, named⟩, ⟨z, hz, first⟩, clear⟩ := inv.removed i kept
    rw [hx] at hy
    cases hy
    rw [s.outcome_gone kept]
    refine .removed named before hz first ?_ clear
    rw [s.outcome_kept hz stays]
    exact Option.some_ne_none _
  | true =>
    rw [s.outcome_kept hx kept]
    cases found : s.rewritten i with
    | none => exact .same
    | some v =>
      rcases inv.rewritten i v found with ⟨d, hd, call, _, _, rfl⟩ | ⟨d, hd, output, rfl⟩
      · rw [hx] at hd
        cases hd
        exact .call call
      · rw [hx] at hd
        cases hd
        exact .output output

theorem Pass.Inv.texts (inv : Pass.Inv fmt items scanned n s) (i : ℕ) (d : Obj F)
    (hd : items[i]? = some (.dict d)) (output : IsToolOutput d) :
    s.outcome items i = some (.dict d) ∨
      s.outcome items i = some (replayedToolOutputAsAssistantMessage fmt d) := by
  have kept : s.kept i = true := by
    cases kept : s.kept i with
    | true => rfl
    | false =>
      obtain ⟨key, _, _, _, ⟨x, hx, named⟩, _⟩ := inv.removed i kept
      rw [hd] at hx
      cases hx
      rw [output.not_call] at named
      cases named
  rw [s.outcome_kept hd kept]
  cases found : s.rewritten i with
  | none => exact Or.inl rfl
  | some v =>
    rcases inv.rewritten i v found with ⟨d', hd', call, _⟩ | ⟨d', hd', _, rfl⟩
    · rw [hd] at hd'
      cases hd'
      exact absurd output.not_call call
    · rw [hd] at hd'
      cases hd'
      exact Or.inr rfl

theorem scan_of (h : items.mapM (scanItem fmt) = some scanned) {i : ℕ} {e : Scanned F}
    (at_ : scanned[i]? = some e) : ∃ x, items[i]? = some x ∧ scanItem fmt x = some e := by
  obtain ⟨length, get⟩ := scan_get h
  have item_at := List.getElem?_eq_getElem (l := items)
    (length ▸ (List.getElem?_eq_some_iff.mp at_).1)
  obtain ⟨e', at_', scan⟩ := get i _ item_at
  rw [at_] at at_'
  cases at_'
  exact ⟨_, item_at, scan⟩

theorem mem_outputIndices_iff (h : items.mapM (scanItem fmt) = some scanned) (c : Str) (i : ℕ) :
    i ∈ outputIndices scanned c ↔ ∃ x, items[i]? = some x ∧ toolOutputId x = some c := by
  obtain ⟨-, get⟩ := scan_get h
  rw [mem_outputIndices]
  constructor
  · rintro ⟨e, at_, output⟩
    obtain ⟨x, item_at, scan⟩ := scan_of h at_
    exact ⟨_, item_at, by rw [← (scanItem_some scan).2.2.1, output]⟩
  · rintro ⟨x, hx, output⟩
    obtain ⟨e, at_, scan⟩ := get i x hx
    exact ⟨e, at_, by rw [(scanItem_some scan).2.2.1, output]⟩

theorem requests_iff (h : items.mapM (scanItem fmt) = some scanned) (c : Str) (i : ℕ) :
    requests scanned c i = true ↔
      ∃ x, items[i]? = some x ∧ callKey fmt x ≠ none ∧ toolCallId x = some c := by
  obtain ⟨-, get⟩ := scan_get h
  constructor
  · intro asked
    rw [requests, Option.any_eq_true] at asked
    obtain ⟨e, at_, asked⟩ := asked
    rw [Bool.and_eq_true, decide_eq_true_eq] at asked
    obtain ⟨x, item_at, scan⟩ := scan_of h at_
    obtain ⟨_, key, _, callId, _⟩ := scanItem_some scan
    refine ⟨_, item_at, ?_, by rw [← callId asked.1, asked.2]⟩
    rw [← key]
    exact Option.isSome_iff_ne_none.mp asked.1
  · rintro ⟨x, hx, call, id_⟩
    obtain ⟨e, at_, scan⟩ := get i x hx
    obtain ⟨_, key, _, callId, _⟩ := scanItem_some scan
    have some_ : e.key.isSome = true := by
      rw [key]
      exact Option.isSome_iff_ne_none.mpr call
    simp [requests, at_, some_, callId some_, id_]

/-- A result that is still a tool output is the item itself. -/
theorem Pass.Inv.outcome_output (inv : Pass.Inv fmt items scanned n s) {i : ℕ} {v : JsonValue F}
    {c : Str} (found : s.outcome items i = some v) (output : toolOutputId v = some c) :
    items[i]? = some v ∧ s.rewritten i = none := by
  have kept : s.kept i = true := by
    cases kept : s.kept i with
    | true => rfl
    | false =>
      rw [s.outcome_gone kept] at found
      cases found
  rw [Pass.outcome, if_pos kept] at found
  cases rewritten : s.rewritten i with
  | none =>
    rw [rewritten] at found
    exact ⟨found, rfl⟩
  | some w =>
    rw [rewritten] at found
    cases found
    rcases inv.rewritten i _ rewritten with ⟨_, _, _, _, _, rfl⟩ | ⟨_, _, _, rfl⟩
    · rw [replayedToolCallWithoutOutputAsAssistantMessage, toolOutputId_message] at output
      cases output
    · rw [replayedToolOutputAsAssistantMessage, toolOutputId_message] at output
      cases output

/-- A tool call that is no side-effect call stays. -/
theorem Pass.Inv.outcome_other (inv : Pass.Inv fmt items scanned n s) {i : ℕ} {x : JsonValue F}
    {c : Str} (hx : items[i]? = some x) (named : toolCallId x = some c)
    (plain : callKey fmt x = none) : s.outcome items i = some x := by
  have kept : s.kept i = true := by
    cases kept : s.kept i with
    | true => rfl
    | false =>
      obtain ⟨key, _, _, _, ⟨y, hy, call⟩, _⟩ := inv.removed i kept
      rw [hx] at hy
      cases hy
      rw [plain] at call
      cases call
  rw [s.outcome_kept hx kept]
  cases found : s.rewritten i with
  | none => rfl
  | some v =>
    rcases inv.rewritten i v found with ⟨d, hd, call, _⟩ | ⟨d, hd, output, _⟩
    · rw [hx] at hd
      cases hd
      exact absurd plain call
    · rw [hx] at hd
      cases hd
      exact absurd output (toolCallId_not_output named)

/-- A call whose output is left as it is stays too. -/
theorem Pass.Inv.outcome_paired (inv : Pass.Inv fmt items scanned n s) {i o : ℕ}
    {x : JsonValue F} (hx : items[i]? = some x) (call : callKey fmt x ≠ none)
    (taken : s.outputIndexByCallIndex i = some o) (plain : s.rewritten o = none) :
    s.outcome items i = some x := by
  have kept : s.kept i = true := by
    cases kept : s.kept i with
    | true => rfl
    | false =>
      obtain ⟨_, _, _, message⟩ := inv.outputs i o kept taken
      rw [plain] at message
      cases message
  rw [s.outcome_kept hx kept]
  cases found : s.rewritten i with
  | none => rfl
  | some v =>
    rcases inv.rewritten i v found with ⟨_, _, _, _, free, _⟩ | ⟨d, hd, output, _⟩
    · rw [taken] at free
      cases free
    · rw [hx] at hd
      cases hd
      exact absurd output.not_call call

open GreedyMatching in
/-- Outputs stay covered by calls. -/
theorem Pass.Inv.covered (h : items.mapM (scanItem fmt) = some scanned)
    (inv : Pass.Inv fmt items scanned items.length s)
    (balanced : ∀ front, front <+: items → Covered front) (front : List (JsonValue F))
    (hfront : front <+: (List.range items.length).filterMap (s.outcome items)) :
    Covered front := by
  intro c
  obtain ⟨l, hl, rfl⟩ := List.prefix_filterMap_iff.mp hfront
  obtain ⟨m, rfl⟩ := prefix_range hl
  have greedy := run_greedy (outputIndices_sorted scanned c) (requests_output_apart h c)
    (n := items.length) fun i asked => by
      obtain ⟨x, hx, _⟩ := (requests_iff h c i).mp asked
      exact (List.getElem?_eq_some_iff.mp hx).1
  have taken := fun i asked => (inv.matched c).2 i asked
  have apart := requests_output_apart h c
  generalize (run (requests scanned c) (outputIndices scanned c) items.length).2 = answers
    at greedy taken
  -- what the input and the result hold at a position, as predicates
  obtain ⟨request, hrequest⟩ : ∃ p : ℕ → Prop, p = fun i => requests scanned c i = true :=
    ⟨_, rfl⟩
  obtain ⟨given, hgiven⟩ : ∃ p : ℕ → Prop, p = fun i => i ∈ outputIndices scanned c := ⟨_, rfl⟩
  have request_iff (i : ℕ) : request i ↔
      ∃ x, items[i]? = some x ∧ callKey fmt x ≠ none ∧ toolCallId x = some c := by
    rw [hrequest]
    exact requests_iff h c i
  have given_iff (i : ℕ) : given i ↔ ∃ x, items[i]? = some x ∧ toolOutputId x = some c := by
    rw [hgiven]
    exact mem_outputIndices_iff h c i
  rw [← hrequest, ← hgiven] at greedy
  obtain ⟨calls, hcalls⟩ : ∃ p : ℕ → Prop, ∀ i, p i ↔
      ∃ x, items[i]? = some x ∧ decide (toolCallId x = some c) = true := ⟨_, fun _ => Iff.rfl⟩
  obtain ⟨called, hcalled⟩ : ∃ p : ℕ → Prop, ∀ i, p i ↔
      ∃ x, s.outcome items i = some x ∧ decide (toolCallId x = some c) = true :=
    ⟨_, fun _ => Iff.rfl⟩
  obtain ⟨shown, hshown⟩ : ∃ p : ℕ → Prop, ∀ i, p i ↔
      ∃ x, s.outcome items i = some x ∧ decide (toolOutputId x = some c) = true :=
    ⟨_, fun _ => Iff.rfl⟩
  rw [countP_filterMap_range _ _ hshown, countP_filterMap_range _ _ hcalled]
  obtain ⟨other, hother⟩ : ∃ p : ℕ → Prop, ∀ i, p i ↔ calls i ∧ ¬ request i :=
    ⟨_, fun _ => Iff.rfl⟩
  obtain ⟨remaining, hremaining⟩ : ∃ p : ℕ → Prop, ∀ i, p i ↔ called i ∧ request i :=
    ⟨_, fun _ => Iff.rfl⟩
  have apart : ∀ i, request i → ¬ given i := by
    intro i asked given_
    rw [hrequest] at asked
    rw [hgiven] at given_
    exact apart i asked given_
  refine le_trans (@Greedy.covered request given other answers greedy apart ?_ remaining shown
    ?_ ?_ m) (count_add_le ?_ ?_ ?_ m)
  · intro n
    have input := balanced (items.take n) (List.take_prefix n items) c
    rw [← filterMap_range_getElem?, countP_filterMap_range _ _ hcalls,
      countP_filterMap_range (p := given) _ _ fun i => by simpa using given_iff i] at input
    refine input.trans (count_le_add (fun i hi => ?_) n)
    by_cases asked : request i
    · exact Or.inr asked
    · exact Or.inl ((hother i).mpr ⟨hi, asked⟩)
  · intro u hu
    obtain ⟨v, found, output⟩ := (hshown u).mp hu
    have output := of_decide_eq_true output
    exact (given_iff u).mpr ⟨v, (inv.outcome_output found output).1, output⟩
  · intro u i hu asked found
    obtain ⟨v, shown_, output⟩ := (hshown u).mp hu
    obtain ⟨x, hx, call, named⟩ := (request_iff i).mp asked
    have plain := (inv.outcome_output shown_ (of_decide_eq_true output)).2
    have index := (taken i ((requests_iff h c i).mpr ⟨x, hx, call, named⟩)).trans found
    exact (hremaining i).mpr
      ⟨(hcalled i).mpr ⟨x, inv.outcome_paired hx call index plain, decide_eq_true named⟩, asked⟩
  · intro i hi
    obtain ⟨isCall, noRequest⟩ := (hother i).mp hi
    obtain ⟨x, hx, named⟩ := (hcalls i).mp isCall
    have plain : callKey fmt x = none := by
      by_contra call
      exact noRequest ((request_iff i).mpr ⟨x, hx, call, of_decide_eq_true named⟩)
    exact (hcalled i).mpr
      ⟨x, inv.outcome_other hx (of_decide_eq_true named) plain, named⟩
  · exact fun i hi => ((hremaining i).mp hi).1
  · exact fun i hi remains => ((hother i).mp hi).2 ((hremaining i).mp remains).2

end Pass

theorem Pass.Inv.deduped {items : List (JsonValue F)} {scanned : List (Scanned F)} {s : Pass F}
    (h : items.mapM (scanItem fmt) = some scanned)
    (inv : Pass.Inv fmt items scanned items.length s) :
    Deduped fmt items (s.outcome items)
      ((List.range items.length).filterMap (s.outcome items)) :=
  ⟨rfl, inv.treated, inv.texts, inv.covered h⟩

/-- Items that are returned as they came. -/
theorem deduped_same (fmt : FloatText F) (items : List (JsonValue F)) :
    Deduped fmt items (fun i => items[i]?) items := by
  refine ⟨?_, fun i item hi => ?_, fun i d hd _ => Or.inl hd, id⟩
  · rw [GreedyMatching.filterMap_range_getElem?, List.take_length]
  · rw [hi]
    exact .same

/-- No type is a list or a dict, no role is one when the items hold a side-effect call, and no
call's arguments are refused. -/
structure Accepted (fmt : FloatText F) (items : List (JsonValue F)) : Prop where
  types : ∀ d : Obj F, .dict d ∈ items → unhashable (d.get "type") = false
  roles : (∃ x ∈ items, callKey fmt x ≠ none) →
    ∀ d : Obj F, .dict d ∈ items → unhashable (d.get "role") = false
  arguments : ∀ d : Obj F, .dict d ∈ items →
    (loadedArgument d).any (loadsRefused fmt) = false

theorem scan_none_iff {items : List (JsonValue F)} (written : ∀ x ∈ items, x.writable = true) :
    items.mapM (scanItem fmt) = none ↔ ∃ d : Obj F, .dict d ∈ items ∧
      ((loadedArgument d).any (loadsRefused fmt) = true ∨ unhashable (d.get "type") = true) := by
  rw [scan_none]
  constructor
  · rintro ⟨item, mem, failed⟩
    obtain ⟨d, rfl, bad⟩ := scanItem_none.mp failed
    exact ⟨d, mem, keyRefused_eq (written _ mem) ▸ bad⟩
  · rintro ⟨d, mem, bad⟩
    rw [← keyRefused_eq (written _ mem)] at bad
    exact ⟨_, mem, scanItem_none.mpr ⟨d, rfl, bad⟩⟩

theorem all_keyless_iff {items : List (JsonValue F)} {scanned : List (Scanned F)}
    (h : items.mapM (scanItem fmt) = some scanned) :
    (scanned.all fun e => e.key.isNone) = true ↔ ¬ ∃ x ∈ items, callKey fmt x ≠ none := by
  obtain ⟨-, get⟩ := scan_get h
  rw [List.all_eq_true]
  constructor
  · rintro keyless ⟨x, mem, call⟩
    obtain ⟨i, hi⟩ := List.mem_iff_getElem?.mp mem
    obtain ⟨e, at_, scan⟩ := get i x hi
    have none_ := keyless e (List.mem_of_getElem? at_)
    rw [(scanItem_some scan).2.1, Option.isNone_iff_eq_none] at none_
    exact call none_
  · intro keyless e mem
    obtain ⟨i, at_⟩ := List.mem_iff_getElem?.mp mem
    obtain ⟨x, item_at, scan⟩ := scan_of h at_
    rw [(scanItem_some scan).2.1, Option.isNone_iff_eq_none]
    by_contra call
    exact keyless ⟨_, List.mem_of_getElem? item_at, call⟩

/-- The dedupe returns a paired result exactly on items whose types, and roles where they are
looked at, can be looked up in a set, and whose arguments can be loaded. -/
theorem dedupe_replayed_iff (fmt : FloatText F) (items : List (JsonValue F))
    (written : ∀ x ∈ items, x.writable = true) (sanitizeMissingOutputs : Bool) :
    (∃ result count outcome,
      dedupeReplayedSideEffectInputItems fmt items sanitizeMissingOutputs =
        some (result, count) ∧ Deduped fmt items outcome result) ↔ Accepted fmt items := by
  rw [dedupeReplayedSideEffectInputItems]
  cases h : items.mapM (scanItem fmt) with
  | none =>
    obtain ⟨d, mem, bad⟩ := (scan_none_iff written).mp h
    constructor
    · rintro ⟨_, _, _, failed, _⟩
      cases failed
    · intro fine
      rw [fine.arguments d mem, fine.types d mem] at bad
      simp at bad
  | some scanned =>
    have fine : ∀ d : Obj F, .dict d ∈ items → ¬ ((loadedArgument d).any (loadsRefused fmt) = true ∨
        unhashable (d.get "type") = true) := by
      intro d mem bad
      rw [(scan_none_iff written).mpr ⟨d, mem, bad⟩] at h
      cases h
    have types : ∀ d : Obj F, .dict d ∈ items → unhashable (d.get "type") = false :=
      fun d mem => Bool.eq_false_of_not_eq_true fun bad => fine d mem (.inr bad)
    have arguments : ∀ d : Obj F, .dict d ∈ items →
        (loadedArgument d).any (loadsRefused fmt) = false :=
      fun d mem => Bool.eq_false_of_not_eq_true fun bad => fine d mem (.inl bad)
    simp only [Option.bind_eq_bind, Option.bind_some]
    by_cases keyless : (scanned.all fun e => e.key.isNone) = true
    · rw [if_pos keyless]
      have noCalls := (all_keyless_iff h).mp keyless
      exact ⟨fun _ => ⟨types, fun calls => absurd calls noCalls, arguments⟩,
        fun _ => ⟨items, 0, _, rfl, deduped_same fmt items⟩⟩
    rw [if_neg keyless]
    have failure := Pass.steps_none h written items.length (le_refl _)
    cases ran : Pass.steps fmt items scanned items.length with
    | none =>
      obtain ⟨i, d, _, found, bad⟩ := failure.mp ran
      constructor
      · rintro ⟨_, _, _, failed, _⟩
        cases failed
      · intro fine
        have calls : ∃ x ∈ items, callKey fmt x ≠ none := by
          by_contra noCalls
          exact keyless ((all_keyless_iff h).mpr noCalls)
        rw [fine.roles calls d (List.mem_of_getElem? found)] at bad
        cases bad
    | some s =>
      have inv := Pass.Inv.steps h items.length (le_refl _) ran
      constructor
      · intro _
        refine ⟨types, fun _ d mem => ?_, arguments⟩
        by_contra bad
        obtain ⟨i, hi⟩ := List.mem_iff_getElem?.mp mem
        rw [failure.mpr ⟨i, d, (List.getElem?_eq_some_iff.mp hi).1, hi,
          eq_true_of_ne_false bad⟩] at ran
        cases ran
      · intro _
        simp only [Option.bind_some]
        cases sanitizeMissingOutputs with
        | false =>
          simp only [Bool.false_eq_true, if_false]
          split
          · exact ⟨items, 0, _, rfl, deduped_same fmt items⟩
          · exact ⟨_, _, _, rfl, inv.deduped h⟩
        | true =>
          simp only [if_true]
          split
          · exact ⟨items, 0, _, rfl, deduped_same fmt items⟩
          · exact ⟨_, _, _, rfl, (inv.sanitize h).deduped h⟩

/-- A replayed `exec_command`, its call id and its arguments. -/
def execCall (callId arguments : String) : Obj {t : Str // isFloatLiteral t = true} :=
  [(text "type", .str (text "function_call")), (text "name", .str (text "exec_command")),
    (text "call_id", .str (text callId)), (text "arguments", .str (text arguments))]

def execOutput (callId : String) (output : JsonValue {t : Str // isFloatLiteral t = true}) :
    Obj {t : Str // isFloatLiteral t = true} :=
  [(text "type", .str (text "function_call_output")), (text "call_id", .str (text callId)),
    (text "output", output)]

/-- A call and a copy of it that differs in a volatile argument, their outputs in the other
order. -/
def repeatedCalls : List (Obj {t : Str // isFloatLiteral t = true}) :=
  [execCall "a" "\x7b\"cmd\":\"ls\"\x7d",
    execCall "b" "\x7b\"timeout_ms\":5,\"cmd\":\"ls\"\x7d",
    execOutput "b" (.int 7), execOutput "a" (.str (text "done"))]

theorem dedupe_replayed_iff_repeated : ∃ result count outcome,
    dedupeReplayedSideEffectInputItems literalFloats (repeatedCalls.map .dict) false =
        some (result, count) ∧
      Deduped literalFloats (repeatedCalls.map .dict) outcome result := by
  have listed {p : Obj {t : Str // isFloatLiteral t = true} → Prop} (h : ∀ d ∈ repeatedCalls, p d) :
      ∀ d, .dict d ∈ repeatedCalls.map JsonValue.dict → p d := by
    intro d mem
    obtain ⟨d', mem', same⟩ := List.mem_map.mp mem
    cases same
    exact h d mem'
  have written : ∀ x ∈ repeatedCalls.map JsonValue.dict, x.writable = true := by
    decide +kernel
  exact (dedupe_replayed_iff literalFloats _ written false).mpr
    ⟨listed (by decide), fun _ => listed (by decide), listed (by decide +kernel)⟩

/-- An item whose type is a list. -/
def listTypeItem : JsonValue {t : Str // isFloatLiteral t = true} :=
  .dict [(text "type", .list [])]

/-- The membership test of the item's type is a `TypeError`. -/
theorem list_type_fails :
    ¬ ∃ result count outcome,
      dedupeReplayedSideEffectInputItems literalFloats [listTypeItem] false =
        some (result, count) ∧ Deduped literalFloats [listTypeItem] outcome result := by
  rintro ⟨result, count, outcome, returned, _⟩
  cases returned

section

variable {F : Type} (fmt : FloatText F)

def patchCall (callId : String) : JsonValue F :=
  .dict [(text "type", .str (text "apply_patch_call")), (text "call_id", .str (text callId)),
    (text "operation", .null)]

def patchOutput (callId output : String) : JsonValue F :=
  .dict [(text "type", .str (text "apply_patch_call_output")),
    (text "call_id", .str (text callId)), (text "output", .str (text output))]

example : dedupeReplayedSideEffectInputItems fmt
    [patchCall "a", patchOutput "a" "done", patchCall "b", patchOutput "b" "done again"] false =
      some ([patchCall "a", patchOutput "a" "done", assistantMessage (text "done again")], 1) := by
  rfl

end

end ToolCallDedupe
