import LivingBalancer.Bridge.StreamBlocks
import LivingBalancer.Lib.Separators
import LivingBalancer.Proxy.SseEvents

/-!
# Events of an upstream stream

`_iter_sse_events` reads a response in chunks, with a limit on the size of an event and a
cursor behind which it does not search again. `_pop_sse_event` is the plain way: it searches
from the start. Cut into whatever chunks, a stream yields what popping its events one by one
does, up to the first that is too large, and an event that is too large is refused before it
is complete or when it is.
-/

namespace UpstreamEvents

open Separators Utf8
open ForwardStream (strip)

def separators : List (List UInt8) := [[13, 10, 13, 10], [10, 10], [13, 13]]

theorem separators_apart : Apart separators := by
  constructor
  · decide
  · intro a ha b hb k short
    have small : k < 4 := by
      have bound : ∀ sep ∈ separators, sep.length ≤ 4 := by decide
      have := bound b hb
      omega
    have all : ∀ a ∈ separators, ∀ b ∈ separators, ∀ k < 4,
        k + a.length < b.length → ¬ a <+: b.drop k := by decide
    exact all a ha b hb k small short

/-- `_find_sse_separator`. -/
def findSseSeparator (buffer : List UInt8) (start : ℕ) : Option (ℕ × ℕ) :=
  first separators buffer start

/-- `_pop_sse_event`: the event, and the buffer behind it. -/
def popSseEvent (buffer : List UInt8) : Option (List UInt8 × List UInt8) :=
  (findSseSeparator buffer 0).map fun place =>
    (buffer.take (place.1 + place.2), buffer.drop (place.1 + place.2))

/-- `_SSE_SEPARATOR_OVERLAP`: a separator may straddle two chunks. -/
def separatorOverlap : ℕ := 3

inductive Ending where
  | exhausted
  | streamIdleTimeoutError
  | cancelledError
  | streamEventTooLargeError (sizeBytes limitBytes : ℕ)
  deriving DecidableEq

/-- What the wait for the next chunk comes to, after the last one. -/
inductive Stop where
  | exhausted
  | silence
  | cancelled
  deriving DecidableEq

/-- An event is yielded before the later ones, unless it is blank. -/
def yieldEvent (rawEvent : List UInt8) (later : List Text) : List Text :=
  if strip rawEvent = [] then later else decodeReplace rawEvent :: later

theorem findSseSeparator_shorter {buffer : List UInt8} {start : ℕ} {place : ℕ × ℕ}
    (h : findSseSeparator buffer start = some place) :
    (buffer.drop (place.1 + place.2)).length < buffer.length := by
  obtain ⟨-, ⟨sep, mem, long, here⟩, -⟩ := (first_eq_some separators_apart).mp h
  have inside := end_le (separators_apart.filled sep mem) here
  have sep_pos := List.length_pos_of_ne_nil (separators_apart.filled sep mem)
  rw [List.length_drop]
  omega

/-- The loop over a chunk: what it yields, and the buffer it leaves, all of it scanned. -/
def drain (maxEventBytes : ℕ) (buffer : List UInt8) (scanned : ℕ) :
    List Text × Except Ending (List UInt8) :=
  match _found : findSseSeparator buffer (scanned - separatorOverlap) with
  | none =>
    if maxEventBytes < buffer.length then
      ([], .error (.streamEventTooLargeError buffer.length maxEventBytes))
    else ([], .ok buffer)
  | some place =>
    let rawEvent := buffer.take (place.1 + place.2)
    if maxEventBytes < rawEvent.length then
      ([], .error (.streamEventTooLargeError rawEvent.length maxEventBytes))
    else
      let (yielded, left) := drain maxEventBytes (buffer.drop (place.1 + place.2)) 0
      (yieldEvent rawEvent yielded, left)
termination_by buffer.length
decreasing_by exact findSseSeparator_shorter _found

/-- `_iter_sse_events`, from a buffer of which a part is scanned. -/
def iterSseEvents (maxEventBytes : ℕ) (stop : Stop) :
    List (List UInt8) → List UInt8 → ℕ → List Text × Ending
  | [], buffer, _ =>
    match stop with
    | .silence => ([], .streamIdleTimeoutError)
    | .cancelled => ([], .cancelledError)
    | .exhausted =>
      if buffer = [] then ([], .exhausted)
      else if maxEventBytes < buffer.length then
        ([], .streamEventTooLargeError buffer.length maxEventBytes)
      else ([decodeReplace buffer], .exhausted)
  | chunk :: chunks, buffer, scanned =>
    if chunk = [] then iterSseEvents maxEventBytes stop chunks buffer scanned
    else
      match drain maxEventBytes (buffer ++ chunk) scanned with
      | (yielded, .error ending) => (yielded, ending)
      | (yielded, .ok left) =>
        let (later, ending) := iterSseEvents maxEventBytes stop chunks left left.length
        (yielded ++ later, ending)

/-! ## The cursor -/

/-- Where nothing was found, nothing stands in what was scanned. -/
def Scanned (buffer : List UInt8) (scanned : ℕ) : Prop :=
  popSseEvent (buffer.take scanned) = none

theorem scanned_zero (buffer : List UInt8) : Scanned buffer 0 := by
  rw [Scanned, List.take_zero]
  decide

theorem scanned_all {buffer : List UInt8} (h : popSseEvent buffer = none) (chunk : List UInt8) :
    Scanned (buffer ++ chunk) buffer.length := by
  rwa [Scanned, List.take_left]

/-- A search from the cursor finds what a search from the start finds. -/
theorem findSseSeparator_cursor {buffer : List UInt8} {scanned : ℕ} (h : Scanned buffer scanned) :
    findSseSeparator buffer (scanned - separatorOverlap) = findSseSeparator buffer 0 := by
  have quiet := (first_eq_none separators_apart).mp (pop_eq_none.mp h)
  refine first_resume separators_apart.filled (by decide) fun sep mem j => ?_
  exact quiet sep mem j (Nat.zero_le j)

theorem drain_open {maxEventBytes scanned : ℕ} {buffer : List UInt8} (cursor : Scanned buffer scanned)
    (h : popSseEvent buffer = none) :
    drain maxEventBytes buffer scanned =
      if maxEventBytes < buffer.length then
        ([], .error (.streamEventTooLargeError buffer.length maxEventBytes))
      else ([], .ok buffer) := by
  have missing : findSseSeparator buffer (scanned - separatorOverlap) = none := by
    rw [findSseSeparator_cursor cursor]
    exact pop_eq_none.mp h
  rw [drain]
  split
  · rfl
  · rename_i found
    cases missing.symm.trans found

theorem drain_event {maxEventBytes scanned : ℕ} {buffer event tail : List UInt8}
    (cursor : Scanned buffer scanned) (h : popSseEvent buffer = some (event, tail)) :
    drain maxEventBytes buffer scanned =
      if maxEventBytes < event.length then
        ([], .error (.streamEventTooLargeError event.length maxEventBytes))
      else (yieldEvent event (drain maxEventBytes tail 0).1, (drain maxEventBytes tail 0).2) := by
  obtain ⟨place, at_start, parts⟩ := Option.map_eq_some_iff.mp h
  cases parts
  have here : findSseSeparator buffer (scanned - separatorOverlap) = some place := by
    rw [findSseSeparator_cursor cursor]
    exact at_start
  rw [drain]
  split
  · rename_i missing
    cases here.symm.trans missing
  · rename_i found
    cases here.symm.trans found
    rfl

/-! ## One pass -/

/-- What is left when the stream stops, in the way it stops. -/
def finish (maxEventBytes : ℕ) (stop : Stop) (rest : List UInt8) : List Text × Ending :=
  if maxEventBytes < rest.length then
    ([], .streamEventTooLargeError rest.length maxEventBytes)
  else iterSseEvents maxEventBytes stop [] rest rest.length

/-- What the events of a stream yield, one after another. -/
def frames (maxEventBytes : ℕ) (stop : Stop) : List (List UInt8) → List UInt8 → List Text × Ending
  | [], rest => finish maxEventBytes stop rest
  | event :: events, rest =>
    if maxEventBytes < event.length then
      ([], .streamEventTooLargeError event.length maxEventBytes)
    else
      (yieldEvent event (frames maxEventBytes stop events rest).1,
        (frames maxEventBytes stop events rest).2)

/-- The endings are the same, or both refuse an event, of which the first has seen less. -/
def Sooner (maxEventBytes : ℕ) (ending ending' : Ending) : Prop :=
  ending = ending' ∨ ∃ size size', maxEventBytes < size ∧ size ≤ size' ∧
    ending = .streamEventTooLargeError size maxEventBytes ∧
    ending' = .streamEventTooLargeError size' maxEventBytes

theorem yieldEvent_append (event : List UInt8) (later after : List Text) :
    yieldEvent event (later ++ after) = yieldEvent event later ++ after := by
  unfold yieldEvent
  split <;> rfl

/-- A buffer with no event in it but too many bytes is the start of an event too large. -/
theorem frames_open {maxEventBytes : ℕ} (stop : Stop) {s t rest : List UInt8}
    {events : List (List UInt8)} (open_ : popSseEvent s = none) (large : maxEventBytes < s.length)
    (popped : Popped separators (s ++ t) events rest) :
    ∃ size, s.length ≤ size ∧ frames maxEventBytes stop events rest =
      ([], .streamEventTooLargeError size maxEventBytes) := by
  cases popped with
  | rest =>
    have longer : s.length ≤ (s ++ t).length := by
      rw [List.length_append]
      exact Nat.le_add_right _ _
    exact ⟨(s ++ t).length, longer, if_pos (large.trans_le longer)⟩
  | @event _ event tail events rest found _ =>
    have longer := pop_longer separators_apart open_ found
    exact ⟨event.length, longer.le, if_pos (large.trans longer)⟩

/-- Draining the first part of a stream leaves the events that are still to come. -/
theorem drain_popped {maxEventBytes scanned : ℕ} (stop : Stop) {s t rest : List UInt8}
    {events : List (List UInt8)} (cursor : Scanned s scanned)
    (popped : Popped separators (s ++ t) events rest) :
    (∃ yielded ending ending', drain maxEventBytes s scanned = (yielded, .error ending) ∧
      frames maxEventBytes stop events rest = (yielded, ending') ∧
      Sooner maxEventBytes ending ending') ∨
    ∃ yielded left later, drain maxEventBytes s scanned = (yielded, .ok left) ∧
      popSseEvent left = none ∧ left.length ≤ maxEventBytes ∧
      Popped separators (left ++ t) later rest ∧
      frames maxEventBytes stop events rest =
        (yielded ++ (frames maxEventBytes stop later rest).1,
          (frames maxEventBytes stop later rest).2) := by
  induction size : s.length using Nat.strongRecOn generalizing s scanned events with
  | ind n ih =>
    cases h : popSseEvent s with
    | none =>
      rw [drain_open cursor h]
      by_cases large : maxEventBytes < s.length
      · obtain ⟨size', more, refused⟩ := frames_open stop h large popped
        rw [if_pos large]
        exact Or.inl ⟨[], _, _, rfl, refused, Or.inr ⟨s.length, size', large, more, rfl, rfl⟩⟩
      · rw [if_neg large]
        exact Or.inr ⟨[], s, events, rfl, h, Nat.le_of_not_lt large, popped, rfl⟩
    | some found =>
      obtain ⟨event, tail⟩ := found
      have whole := pop_append separators_apart h t
      cases popped with
      | rest none_left => cases none_left.symm.trans whole
      | event found' popped =>
        cases whole.symm.trans found'
        rw [drain_event cursor h, frames]
        by_cases large : maxEventBytes < event.length
        · rw [if_pos large, if_pos large]
          exact Or.inl ⟨[], _, _, rfl, rfl, Or.inl rfl⟩
        · rw [if_neg large, if_neg large]
          rcases ih tail.length (size ▸ pop_shorter separators_apart h) (scanned_zero tail)
              popped rfl with
            ⟨yielded, ending, ending', drained, refused, sooner⟩ |
            ⟨yielded, left, later, drained, open_, small, popped, after⟩
          · rw [drained, refused]
            exact Or.inl ⟨_, _, _, rfl, rfl, sooner⟩
          · rw [drained, after]
            refine Or.inr ⟨_, left, later, rfl, open_, small, popped, ?_⟩
            rw [yieldEvent_append]

/-- However a stream is cut into chunks, it yields what its events yield one by one. -/
theorem iterSseEvents_frames {maxEventBytes scanned : ℕ} {stop : Stop}
    {chunks : List (List UInt8)} {buffer rest : List UInt8} {events : List (List UInt8)}
    (open_ : popSseEvent buffer = none) (small : buffer.length ≤ maxEventBytes)
    (at_end : scanned = buffer.length)
    (popped : Popped separators (buffer ++ chunks.flatten) events rest) :
    (iterSseEvents maxEventBytes stop chunks buffer scanned).1 =
        (frames maxEventBytes stop events rest).1 ∧
      Sooner maxEventBytes (iterSseEvents maxEventBytes stop chunks buffer scanned).2
        (frames maxEventBytes stop events rest).2 := by
  induction chunks generalizing buffer scanned events with
  | nil =>
    rw [List.flatten_nil, List.append_nil] at popped
    cases popped with
    | rest =>
      rw [frames, finish, if_neg (Nat.not_lt_of_le small), at_end]
      exact ⟨rfl, Or.inl rfl⟩
    | event found => cases found.symm.trans open_
  | cons chunk chunks ih =>
    rw [List.flatten_cons, ← List.append_assoc] at popped
    rw [iterSseEvents]
    by_cases empty : chunk = []
    · subst empty
      rw [List.append_nil] at popped
      rw [if_pos rfl]
      exact ih open_ small at_end popped
    · rw [if_neg empty]
      have cursor : Scanned (buffer ++ chunk) scanned := at_end ▸ scanned_all open_ chunk
      rcases drain_popped stop cursor popped with
        ⟨yielded, ending, ending', drained, refused, sooner⟩ |
        ⟨yielded, left, later, drained, open_, small, popped, after⟩
      · rw [drained, refused]
        exact ⟨rfl, sooner⟩
      · obtain ⟨same, sooner⟩ := ih open_ small rfl popped
        rw [drained, after]
        exact ⟨congrArg (yielded ++ ·) same, sooner⟩

/-! ## What a stream yields -/

/-- The events that are shown: all that are not blank. -/
def shown (events : List (List UInt8)) : List Text :=
  (events.filter fun event => strip event ≠ []).map decodeReplace

theorem yieldEvent_shown (event : List UInt8) (events : List (List UInt8)) (later : List Text) :
    yieldEvent event (shown events ++ later) = shown (event :: events) ++ later := by
  rw [yieldEvent, shown, shown]
  by_cases blank : strip event = []
  · rw [if_pos blank, List.filter_cons_of_neg (by simp [blank])]
  · rw [if_neg blank, List.filter_cons_of_pos (by simp [blank]), List.map_cons, List.cons_append]

/-- The events before one that is too large are shown, and it is refused. -/
theorem frames_refused {maxEventBytes : ℕ} {stop : Stop} {rest large : List UInt8}
    {events done later : List (List UInt8)} (split : events ++ [rest] = done ++ large :: later)
    (fit : ∀ event ∈ done, event.length ≤ maxEventBytes) (exceeds : maxEventBytes < large.length) :
    frames maxEventBytes stop events rest =
      (shown done, .streamEventTooLargeError large.length maxEventBytes) := by
  induction done generalizing events with
  | nil =>
    cases events with
    | nil =>
      cases split
      exact if_pos exceeds
    | cons event events =>
      cases split
      exact if_pos exceeds
  | cons event done ih =>
    obtain ⟨first, others⟩ := List.forall_mem_cons.mp fit
    cases events with
    | nil =>
      have lengths := congrArg List.length split
      simp at lengths
    | cons event' events =>
      obtain ⟨rfl, behind⟩ := List.cons.inj split
      rw [frames, if_neg (Nat.not_lt_of_le first), ih behind others]
      have yields := yieldEvent_shown event' done []
      rw [List.append_nil, List.append_nil] at yields
      rw [yields]

theorem frames_fit {maxEventBytes : ℕ} {stop : Stop} {rest : List UInt8}
    {events : List (List UInt8)} (fit : ∀ event ∈ events ++ [rest], event.length ≤ maxEventBytes) :
    frames maxEventBytes stop events rest =
      (shown events ++ (finish maxEventBytes stop rest).1, (finish maxEventBytes stop rest).2) := by
  induction events with
  | nil => rfl
  | cons event events ih =>
    obtain ⟨first, others⟩ := List.forall_mem_cons.mp fit
    rw [frames, if_neg (Nat.not_lt_of_le first), ih others]
    dsimp only
    rw [yieldEvent_shown]

/-- `_iter_sse_events` of a whole response. -/
def readEvents (maxEventBytes : ℕ) (stop : Stop) (chunks : List (List UInt8)) :
    List Text × Ending :=
  iterSseEvents maxEventBytes stop chunks [] 0

theorem readEvents_frames (maxEventBytes : ℕ) (stop : Stop) {chunks events : List (List UInt8)}
    {rest : List UInt8} (popped : Popped separators chunks.flatten events rest) :
    (readEvents maxEventBytes stop chunks).1 = (frames maxEventBytes stop events rest).1 ∧
      Sooner maxEventBytes (readEvents maxEventBytes stop chunks).2
        (frames maxEventBytes stop events rest).2 :=
  iterSseEvents_frames (by decide) (Nat.zero_le _) rfl popped

theorem finish_fit {maxEventBytes : ℕ} {rest : List UInt8} (small : rest.length ≤ maxEventBytes)
    (stop : Stop) :
    finish maxEventBytes stop rest =
      match stop with
      | .exhausted => (if rest = [] then [] else [decodeReplace rest], .exhausted)
      | .silence => ([], .streamIdleTimeoutError)
      | .cancelled => ([], .cancelledError) := by
  have not_large : ¬ maxEventBytes < rest.length := Nat.not_lt_of_le small
  rw [finish, if_neg not_large]
  cases stop with
  | exhausted =>
    simp only [iterSseEvents, if_neg not_large]
    split <;> rfl
  | silence => rfl
  | cancelled => rfl

/-- A stream that keeps to the limit is read to its end. -/
theorem readEvents_fit {maxEventBytes : ℕ} {stop : Stop} {chunks events : List (List UInt8)}
    {rest : List UInt8} (popped : Popped separators chunks.flatten events rest)
    (fit : ∀ event ∈ events ++ [rest], event.length ≤ maxEventBytes) :
    readEvents maxEventBytes stop chunks =
      (shown events ++ (finish maxEventBytes stop rest).1, (finish maxEventBytes stop rest).2) := by
  obtain ⟨same, sooner⟩ := readEvents_frames maxEventBytes stop popped
  rw [frames_fit fit] at same sooner
  refine Prod.ext same (sooner.resolve_right ?_)
  rintro ⟨size, size', -, -, -, refused⟩
  rw [finish_fit (fit rest (by simp))] at refused
  cases stop with
  | exhausted => cases refused
  | silence => cases refused
  | cancelled => cases refused

/-- A stream that keeps to the limit is yielded event by event, whatever its chunks, and ends as
the connection does: a silence drops the unfinished rest, the end yields it. The first event
over the limit ends it instead, by an error that names what was received of that event. -/
theorem readEvents_exact (maxEventBytes : ℕ) (stop : Stop) (chunks : List (List UInt8)) :
    ∃ events rest, Popped separators chunks.flatten events rest ∧
      events.flatten ++ rest = chunks.flatten ∧
      ((∀ event ∈ events ++ [rest], event.length ≤ maxEventBytes) →
        (stop = .exhausted → readEvents maxEventBytes stop chunks =
          (shown events ++ if rest = [] then [] else [decodeReplace rest], .exhausted)) ∧
        (stop = .silence → readEvents maxEventBytes stop chunks =
          (shown events, .streamIdleTimeoutError)) ∧
        (stop = .cancelled → readEvents maxEventBytes stop chunks =
          (shown events, .cancelledError))) ∧
      ∀ done large later, events ++ [rest] = done ++ large :: later →
        (∀ event ∈ done, event.length ≤ maxEventBytes) → maxEventBytes < large.length →
        ∃ size, maxEventBytes < size ∧ size ≤ large.length ∧
          readEvents maxEventBytes stop chunks =
            (shown done, .streamEventTooLargeError size maxEventBytes) := by
  obtain ⟨events, rest, popped⟩ := Popped.exists separators_apart chunks.flatten
  refine ⟨events, rest, popped, popped.join, ?_, ?_⟩
  · intro fit
    rw [readEvents_fit popped fit, finish_fit (fit rest (by simp))]
    refine ⟨?_, ?_, ?_⟩
    · rintro rfl
      rfl
    · rintro rfl
      exact Prod.ext (List.append_nil _) rfl
    · rintro rfl
      exact Prod.ext (List.append_nil _) rfl
  · intro done large later split fit exceeds
    obtain ⟨same, sooner⟩ := readEvents_frames maxEventBytes stop popped
    rw [frames_refused split fit exceeds] at same sooner
    rcases sooner with equal | ⟨size, size', low, high, ending, refused⟩
    · exact ⟨large.length, exceeds, le_rfl, Prod.ext same equal⟩
    · cases refused
      exact ⟨size, low, high, Prod.ext same ending⟩

/-! ## The blocks of `format_sse_event` -/

open PyJson Sse

/-- There is no byte of a separator. -/
def Clean (b : List UInt8) : Prop := ∀ x ∈ b, x ≠ 10 ∧ x ≠ 13

theorem clean_encode {t : Text} (h : Unbroken (t.map code)) : Clean (encode t) := by
  have other : ∀ {c : Char} (d : Char), d.toNat < 128 → c ≠ d →
      UInt8.ofNat d.toNat ∉ String.utf8EncodeChar c := by
    intro c d ascii differ mem
    have one : encode [d] = [UInt8.ofNat d.toNat] := encode_eq_map (by simpa using ascii)
    have small : UInt8.ofNat d.toNat < 128 := by
      rw [UInt8.lt_iff_toNat_lt, UInt8.toNat_ofNat', Nat.mod_eq_of_lt (by omega)]
      exact ascii
    have whole : encode [c] = encode [d] := by
      rw [one, ← eq_of_mem_utf8EncodeChar small mem, encode, List.flatMap_singleton]
    have same := congrArg decode whole
    rw [decode_encode, decode_encode] at same
    cases same
    exact differ rfl
  intro x mem
  obtain ⟨c, inside, among⟩ := List.mem_flatMap.mp mem
  obtain ⟨feed, carriage⟩ := h (code c) (List.mem_map_of_mem inside)
  constructor
  · rintro rfl
    exact other '\n' (by decide) (fun same => feed (same ▸ rfl)) among
  · rintro rfl
    exact other '\r' (by decide) (fun same => carriage (same ▸ rfl)) among

theorem popSseEvent_cons {x : UInt8} {s : List UInt8}
    (none_here : ∀ sep ∈ separators, ¬ sep <+: x :: s) :
    popSseEvent (x :: s) = (popSseEvent s).map fun parts => (x :: parts.1, parts.2) :=
  pop_cons separators_apart none_here

theorem popSseEvent_clean {b : List UInt8} (clean : Clean b) (s : List UInt8) :
    popSseEvent (b ++ s) = (popSseEvent s).map fun parts => (b ++ parts.1, parts.2) := by
  induction b with
  | nil => simp
  | cons x b ih =>
    obtain ⟨⟨feed, carriage⟩, others⟩ := List.forall_mem_cons.mp clean
    have none_here : ∀ sep ∈ separators, ¬ sep <+: x :: (b ++ s) := by
      simp [separators, feed.symm, carriage.symm]
    rw [List.cons_append, popSseEvent_cons none_here, ih others, Option.map_map]
    rfl

/-- A line feed in front of another byte than these two ends no event. -/
theorem popSseEvent_line {x : UInt8} (feed : x ≠ 10) (s : List UInt8) :
    popSseEvent (10 :: x :: s) = (popSseEvent (x :: s)).map fun parts => (10 :: parts.1, parts.2) := by
  refine popSseEvent_cons ?_
  simp [separators, feed.symm]

theorem popSseEvent_data {d : List UInt8} (clean : Clean d) :
    popSseEvent (d ++ [10, 10]) = some (d ++ [10, 10], []) := by
  have last : popSseEvent [10, 10] = some ([10, 10], []) := by decide
  rw [popSseEvent_clean clean, last]
  rfl

section Blocks

variable {F : Type} {fmt : FloatText F} {payload : List (Str × JsonValue F)} {block : Text}

/-- The type of a payload, if it has one, stands on one line. -/
def TypeOnOneLine (payload : List (Str × JsonValue F)) : Prop :=
  ∀ eventType, payload.lookup (text "type") = some (.str eventType) → Unbroken eventType

/-- The lines of a block: at most one with the type, and one with the data. -/
theorem block_lines (written : block.map code = formatSseEvent fmt payload)
    (one_line : TypeOnOneLine payload) :
    ∃ data : Text, data.map code = text "data: " ++ dumpsAscii fmt (.dict payload) ∧
      (block = data ++ ['\n', '\n'] ∨
        ∃ event : Text, Unbroken (event.map code) ∧ (∃ t, event.map code = text "event: " ++ t) ∧
          block = event ++ '\n' :: (data ++ ['\n', '\n'])) := by
  have code_inj : Function.Injective code := fun c d same => Char.toNat_inj.mp same
  have terminator : text "\n\n" = ['\n', '\n'].map code := rfl
  rw [formatSseEvent] at written
  split at written
  · rename_i c rest named
    obtain ⟨event, behind, rfl, typed, others⟩ := List.map_eq_append_iff.mp written
    obtain ⟨feed, lines, rfl, is_feed, rest_eq⟩ := List.map_eq_cons_iff.mp others
    obtain rfl := code_inj is_feed
    rw [terminator] at rest_eq
    obtain ⟨data, ends, rfl, shown, last⟩ := List.map_eq_append_iff.mp rest_eq
    obtain rfl := List.map_injective_iff.mpr code_inj last
    refine ⟨data, shown, Or.inr ⟨event, ?_, ⟨c :: rest, typed⟩, rfl⟩⟩
    have field : Unbroken (text "event: ") := by
      unfold Unbroken
      decide
    rw [typed]
    exact fun d mem => (List.mem_append.mp mem).elim (field d) (one_line _ named d)
  · rw [terminator] at written
    obtain ⟨data, ends, rfl, shown, last⟩ := List.map_eq_append_iff.mp written
    obtain rfl := List.map_injective_iff.mpr code_inj last
    exact ⟨data, shown, Or.inl rfl⟩

theorem data_unbroken {data : Text}
    (h : data.map code = text "data: " ++ dumpsAscii fmt (.dict payload)) :
    Unbroken (data.map code) := by
  have field : Unbroken (text "data: ") := by
    unfold Unbroken
    decide
  rw [h]
  exact fun d mem => (List.mem_append.mp mem).elim (field d) (dumpsAscii_unbroken fmt _ d)

/-- A block is one event. -/
theorem popSseEvent_block (written : block.map code = formatSseEvent fmt payload)
    (one_line : TypeOnOneLine payload) :
    popSseEvent (encode block) = some (encode block, []) := by
  obtain ⟨data, shown, rfl | ⟨event, unbroken, -, rfl⟩⟩ := block_lines written one_line
  · rw [encode_append]
    exact popSseEvent_data (clean_encode (data_unbroken shown))
  · obtain ⟨first, rest, rfl, is_first, -⟩ := List.map_eq_cons_iff.mp shown
    obtain rfl : first = 'd' := Char.toNat_inj.mp is_first
    have ends := popSseEvent_data (clean_encode (data_unbroken shown))
    have lines : encode (event ++ '\n' :: ('d' :: rest ++ ['\n', '\n'])) =
        encode event ++ 10 :: (encode ('d' :: rest) ++ [10, 10]) := by
      rw [encode_append, ← List.singleton_append, encode_append, encode_append]
      rfl
    have head : encode ('d' :: rest) = 100 :: encode rest := rfl
    rw [head] at ends
    rw [lines, popSseEvent_clean (clean_encode unbroken), head, List.cons_append,
      popSseEvent_line (by decide), ← List.cons_append, ends]
    rfl

theorem block_shown (written : block.map code = formatSseEvent fmt payload)
    (one_line : TypeOnOneLine payload) : strip (encode block) ≠ [] := by
  have inked : ∀ (x : UInt8) (b : List UInt8), ForwardStream.isSpace x = false → strip (x :: b) ≠ [] := by
    intro x b ink blank
    rw [ForwardStream.strip, List.dropWhile_cons_of_neg (by simp [ink]), List.rdropWhile_eq_nil_iff] at blank
    have space := blank x List.mem_cons_self
    rw [ink] at space
    cases space
  obtain ⟨data, shown, rfl | ⟨event, -, ⟨t, typed⟩, rfl⟩⟩ := block_lines written one_line
  · obtain ⟨first, rest, rfl, is_first, -⟩ := List.map_eq_cons_iff.mp shown
    obtain rfl : first = 'd' := Char.toNat_inj.mp is_first
    exact inked 100 _ (by decide)
  · obtain ⟨first, rest, rfl, is_first, -⟩ := List.map_eq_cons_iff.mp typed
    obtain rfl : first = 'e' := Char.toNat_inj.mp is_first
    exact inked 101 _ (by decide)

/-- A block is read as its payload. -/
theorem parse_block (written : block.map code = formatSseEvent fmt payload)
    (one_line : TypeOnOneLine payload)
    (inverts : loads fmt (dumpsAscii fmt (.dict payload)) = some (.dict payload)) :
    parseSseDataJson fmt (block.map code) = some payload := by
  have data_lines := sseLines_data (dumpsAscii_unbroken fmt (.dict payload))
  have head := dumpsAscii_head fmt payload
  obtain ⟨data, shown, rfl | ⟨event, unbroken, ⟨t, typed⟩, rfl⟩⟩ := block_lines written one_line
  · have lines : sseLines ((data ++ ['\n', '\n']).map code) =
        [] ++ [text "data: " ++ dumpsAscii fmt (.dict payload), [], []] := by
      rw [List.map_append, shown]
      exact data_lines
    exact (parseSseDataJson_iff lines head inverts).mpr (by simp)
  · have lines : sseLines ((event ++ '\n' :: (data ++ ['\n', '\n'])).map code) =
        [text "event: " ++ t] ++ [text "data: " ++ dumpsAscii fmt (.dict payload), [], []] := by
      rw [List.map_append, sseLines_unbroken unbroken, List.map_cons, List.map_append, shown,
        sseLines_lf]
      refine (congrArg (List.modifyHead _) (congrArg (List.cons []) data_lines)).trans ?_
      rw [typed]
      simp
    refine (parseSseDataJson_iff lines head inverts).mpr ?_
    intro line mem value found
    rw [List.mem_singleton.mp mem, dataValue_event] at found
    cases found

/-- What `format_sse_event` writes for a run of payloads is yielded block by block, whatever the
chunks, and each block is read as its payload. -/
theorem formatted_events_delivered (fmt : FloatText F) (maxEventBytes : ℕ)
    (written : List (List (Str × JsonValue F) × Text))
    (formatted : ∀ w ∈ written, w.2.map code = formatSseEvent fmt w.1)
    (one_line : ∀ w ∈ written, TypeOnOneLine w.1)
    (inverts : ∀ w ∈ written, loads fmt (dumpsAscii fmt (.dict w.1)) = some (.dict w.1))
    (fit : ∀ w ∈ written, (encode w.2).length ≤ maxEventBytes)
    (chunks : List (List UInt8)) (sent : chunks.flatten = encode (written.map Prod.snd).flatten) :
    readEvents maxEventBytes .exhausted chunks = (written.map Prod.snd, .exhausted) ∧
      (readEvents maxEventBytes .exhausted chunks).1.map (fun block =>
        parseSseDataJson fmt (block.map code)) = written.map fun w => some w.1 := by
  have complete : ∀ block ∈ written.map fun w => encode w.2,
      pop separators block = some (block, []) := by
    intro block mem
    obtain ⟨w, among, rfl⟩ := List.mem_map.mp mem
    exact popSseEvent_block (formatted w among) (one_line w among)
  have bytes : (written.map fun w => encode w.2).flatten ++ [] = chunks.flatten := by
    rw [sent, ForwardStream.encode_flatten, List.map_map, List.append_nil]
    rfl
  have popped := Popped.concat separators_apart complete (.rest (s := []) (by decide))
  rw [bytes, List.append_nil] at popped
  have small : ∀ event ∈ (written.map fun w => encode w.2) ++ [[]],
      event.length ≤ maxEventBytes := by
    intro event mem
    rcases List.mem_append.mp mem with block | last
    · obtain ⟨w, among, rfl⟩ := List.mem_map.mp block
      exact fit w among
    · rw [List.mem_singleton.mp last]
      exact Nat.zero_le _
  have all_shown : shown (written.map fun w => encode w.2) = written.map Prod.snd := by
    rw [shown, List.filter_eq_self.mpr, List.map_map]
    · exact List.map_congr_left fun w _ => decodeReplace_encode w.2
    · intro event mem
      obtain ⟨w, among, rfl⟩ := List.mem_map.mp mem
      exact decide_eq_true (block_shown (formatted w among) (one_line w among))
  have delivered : readEvents maxEventBytes .exhausted chunks =
      (written.map Prod.snd, .exhausted) := by
    rw [readEvents_fit popped small, all_shown, finish_fit (Nat.zero_le _)]
    exact Prod.ext (List.append_nil _) rfl
  rw [delivered]
  refine ⟨rfl, ?_⟩
  rw [List.map_map]
  exact List.map_congr_left fun w among =>
    parse_block (formatted w among) (one_line w among) (inverts w among)

def typedBlock (t : String) : Text :=
  ("event: " ++ t ++ "\ndata: \x7b\"type\":\"" ++ t ++ "\"\x7d\n\n").toList

/-- Two blocks, cut inside the terminator of the first and before the data of the second. -/
def cutBlocks : List (List UInt8) :=
  [(encode (["a.b", "c.d"].map typedBlock).flatten).take 32,
    ((encode (["a.b", "c.d"].map typedBlock).flatten).drop 32).take 12,
    ((encode (["a.b", "c.d"].map typedBlock).flatten).drop 32).drop 12]

theorem formatted_events_delivered_two :
    readEvents 1024 .exhausted cutBlocks = (["a.b", "c.d"].map typedBlock, .exhausted) ∧
    (readEvents 1024 .exhausted cutBlocks).1.map (fun block =>
        parseSseDataJson literalFloats (block.map code)) =
      ["a.b", "c.d"].map fun t => some [(text "type", .str (text t))] := by
  have ascii : ∀ t ∈ ["a.b", "c.d"], (typedBlock t).all (fun c => decide (c.toNat < 128)) = true ∧
      (typedBlock t).length ≤ 1024 := by decide
  have one_line : ∀ t ∈ ["a.b", "c.d"], TypeOnOneLine
      (F := {t : Str // isFloatLiteral t = true}) [(text "type", .str (text t))] := by
    have unbroken : ∀ t ∈ ["a.b", "c.d"], Unbroken (text t) := by
      unfold Unbroken
      decide
    rintro t mem eventType ⟨⟩
    exact unbroken t mem
  have inverts : ∀ t ∈ ["a.b", "c.d"],
      loads literalFloats (dumpsAscii literalFloats (.dict [(text "type", .str (text t))])) =
        some (.dict [(text "type", .str (text t))]) := by
    have plain : ∀ t ∈ ["a.b", "c.d"],
        dumpsAscii literalFloats (.dict [(text "type", .str (text t))]) =
          dumps literalFloats (.dict [(text "type", .str (text t))]) := by decide +kernel
    exact fun t mem => loads_typed (plain t mem)
  have short : ∀ t ∈ ["a.b", "c.d"], (encode (typedBlock t)).length ≤ 1024 := by
    intro t mem
    obtain ⟨small, length⟩ := ascii t mem
    rwa [length_encode fun c mem => of_decide_eq_true (List.all_eq_true.mp small c mem)]
  refine formatted_events_delivered literalFloats 1024
    (["a.b", "c.d"].map fun t => ([(text "type", .str (text t))], typedBlock t))
    (List.forall_mem_map.mpr (by decide +kernel)) (List.forall_mem_map.mpr one_line)
    (List.forall_mem_map.mpr inverts) (List.forall_mem_map.mpr short) _ ?_
  rw [cutBlocks, List.flatten_cons, List.flatten_cons, List.flatten_cons, List.flatten_nil,
    List.append_nil, List.take_append_drop, List.take_append_drop, List.map_map]
  rfl

end Blocks

end UpstreamEvents
