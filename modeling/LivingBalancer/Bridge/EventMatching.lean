import Mathlib.Data.List.Basic
import Mathlib.Data.List.Dedup
import Mathlib.Data.Nat.Notation

/-!
# Which request an upstream event belongs to

The helpers of `websocket/helpers.py` that look an event's request up in the list of pending
requests, and the matching part of `_process_http_bridge_upstream_text`.
-/

namespace EventMatching

/-- What the matching reads of a `_WebSocketRequestState`; `attached` says that its event queue
is still there. -/
structure Request where
  requestId : ℕ
  responseId : Option String := none
  previousResponseId : Option String := none
  awaitingResponseCreated : Bool := true
  drainingUntilTerminal : Bool := false
  attached : Bool := true
  deriving DecidableEq

inductive EventType where
  | created
  | completed
  | failed
  | incomplete
  | error
  | other
  deriving DecidableEq

def EventType.terminal : EventType → Bool
  | .completed | .failed | .incomplete | .error => true
  | _ => false

/-- An upstream event. `mentions` is what its error message says about previous response ids,
`hint` the id of a not-found message. -/
structure Event where
  eventType : EventType
  responseId : Option String := none
  previousResponseNotFound : Bool := false
  missingToolOutput : Bool := false
  typeless : Bool := false
  hint : Option String := none
  mentions : Option (String → Bool) := none

/-- Only these events have an error. -/
def Event.carriesError (e : Event) : Bool :=
  match e.eventType with
  | .error | .failed => true
  | _ => false

/-- An error that is about the previous response. -/
def Event.aboutPrevious (e : Event) : Bool :=
  e.carriesError && (e.previousResponseNotFound || e.missingToolOutput)

/-- `_http_bridge_request_counts_against_queue`. -/
def Request.visible (q : Request) : Bool := !q.drainingUntilTerminal

def Request.unresolved (q : Request) : Bool := q.responseId.isNone

/-- The element of a list of length one. -/
def single {α : Type*} : List α → Option α
  | [a] => some a
  | _ => none

/-- `_find_websocket_request_state_by_response_id`. -/
def findByResponseId (pending : List Request) (responseId : String) : Option Request :=
  pending.find? fun q => decide (q.responseId = some responseId)

/-- The request that `_assign_websocket_response_id` picks. -/
def assignee (pending : List Request) (responseId : String) : Option Request :=
  findByResponseId pending responseId <|>
    (pending.find? fun q => q.unresolved && q.visible) <|>
    (pending.find? fun q => q.unresolved && q.drainingUntilTerminal) <|>
    pending.find? Request.unresolved

def Request.sameAs (p q : Request) : Bool := decide (p.requestId = q.requestId)

def setResponseId (pending : List Request) (target : Request) (responseId : String) :
    List Request :=
  pending.map fun q => if q.sameAs target then { q with responseId := some responseId } else q

def removeRequest (pending : List Request) (target : Request) : List Request :=
  pending.eraseP fun q => q.sameAs target

/-- `len({...}) == 1` for the previous response ids that are not empty. -/
def oneAnchor (requests : List Request) : Bool :=
  decide (((requests.filterMap Request.previousResponseId).filter fun id => decide (id ≠ "")).dedup.length
    = 1)

/-- `_matching_websocket_request_states_for_previous_response_error`. -/
def matchingForPreviousResponseError (pending : List Request) (e : Event) : List Request :=
  let followups := pending.filter fun q => q.previousResponseId.isSome
  if followups = [] then
    if e.previousResponseNotFound then (single pending).toList else []
  else
    let hinted := followups.filter fun q =>
      e.hint.isSome && decide (q.previousResponseId = e.hint)
    let mentioned := followups.filter fun q =>
      e.mentions.any fun mentions => q.previousResponseId.any mentions
    let unresolved := followups.filter Request.unresolved
    if hinted ≠ [] then hinted
    else if mentioned ≠ [] then mentioned
    else if unresolved.length = 1 then unresolved
    else if 1 < unresolved.length ∧ oneAnchor unresolved = true then unresolved
    else []

/-- `_matching_websocket_request_states_for_missing_tool_output_error`. -/
def matchingForMissingToolOutput (pending : List Request) : List Request :=
  let unresolved := pending.filter fun q => q.unresolved && q.previousResponseId.isSome
  if unresolved.length ≤ 1 then unresolved
  else if oneAnchor unresolved then unresolved
  else []

def Event.prefersDraining (e : Event) : Bool :=
  match e.eventType with
  | .failed | .incomplete | .error => false
  | _ => true

/-- `_match_websocket_request_state_for_anonymous_event`. -/
def matchAnonymous (pending : List Request) (e : Event) : Option Request :=
  if e.aboutPrevious then single (matchingForPreviousResponseError pending e)
  else
    let visible := pending.filter Request.visible
    let draining := pending.filter Request.drainingUntilTerminal
    let unresolvedVisible := visible.filter Request.unresolved
    let unresolvedDraining := draining.filter Request.unresolved
    if e.prefersDraining = true ∧ unresolvedDraining.length = 1 then unresolvedDraining.head?
    else if e.prefersDraining = true ∧ draining ≠ [] ∧ visible = [] then draining.head?
    else if visible.length = 1 then visible.head?
    else if unresolvedVisible.length = 1 then unresolvedVisible.head?
    else if visible = [] ∧ draining ≠ [] then
      if unresolvedDraining.length = 1 then unresolvedDraining.head? else draining.head?
    else none

/-- `_match_websocket_request_state_for_precreated_terminal_event`. -/
def matchPrecreatedTerminal (pending : List Request) : Option Request :=
  single (pending.filter fun q => q.unresolved && q.awaitingResponseCreated)

/-- The request that `_pop_terminal_websocket_request_state` takes off. -/
def terminalRequest (pending : List Request) (e : Event) (fallback : Option Request) :
    Option Request :=
  match e.responseId with
  | some responseId =>
    findByResponseId pending responseId <|>
      (fallback.filter fun q => pending.any q.sameAs) <|>
      matchPrecreatedTerminal pending <|>
      if e.aboutPrevious then single (matchingForPreviousResponseError pending e) else none
  | none => (fallback.filter fun q => pending.any q.sameAs) <|> matchAnonymous pending e

/-- The request that an event is matched with before it is asked whether it ends a response. -/
def matchedRequest (pending : List Request) (e : Event) : Option Request :=
  match e.eventType, e.responseId with
  | .created, some responseId => assignee pending responseId
  | .created, none => none
  | _, some responseId => findByResponseId pending responseId
  | _, none => matchAnonymous pending e

/-- What an event does to the list: the list after it, the request that it is matched with, the
one that it ends, and those that a grouped error ends. -/
structure Outcome where
  pending : List Request
  matched : Option Request := none
  terminal : Option Request := none
  grouped : List Request := []

def removeAll (pending targets : List Request) : List Request :=
  pending.filter fun q => !targets.any q.sameAs

/-- The requests that a grouped error takes off the rest of the list. -/
def groupedRequests (pending : List Request) (e : Event) : List Request :=
  let matching := matchingForPreviousResponseError pending e
  if matching = [] ∧ e.missingToolOutput = true then matchingForMissingToolOutput pending
  else matching

/-- The list once a `response.created` has given the matched request its response id. -/
def afterAssignment (pending : List Request) (e : Event) (matched : Option Request) :
    List Request :=
  match e.eventType, matched, e.responseId with
  | .created, some q, some responseId => setResponseId pending q responseId
  | _, _, _ => pending

/-- The section of `_process_http_bridge_upstream_text` under `pending_lock`. -/
def process (pending : List Request) (e : Event) : Outcome :=
  let matched := matchedRequest pending e
  let pending := afterAssignment pending e matched
  if !e.eventType.terminal then { pending := pending, matched := matched }
  else
    let terminal := terminalRequest pending e matched
    let rest := (terminal.map (removeRequest pending)).getD pending
    let matched :=
      if matched.isNone && e.responseId.isSome && decide (e.eventType = .completed) &&
          terminal.any Request.unresolved then
        terminal
      else matched
    if terminal.any Request.visible then
      { pending := rest, matched := matched, terminal := terminal }
    else
      let grouped := if e.aboutPrevious then groupedRequests rest e else []
      if terminal.isNone && decide (e.eventType = .error) && e.typeless && grouped.isEmpty then
        { pending := [], matched := matched, terminal := none, grouped := rest }
      else
        { pending := removeAll rest grouped, matched := matched, terminal := terminal,
          grouped := grouped }

/-- The requests whose event queues an event is put on. -/
def Outcome.recipients (o : Outcome) : List Request :=
  let chosen :=
    if 1 < o.grouped.length then o.grouped
    else
      let terminal := o.terminal <|> o.grouped.head?
      if terminal.any fun t => o.matched.any t.sameAs then o.matched.toList
      else o.matched.toList ++ terminal.toList
  chosen.filter Request.attached

/-! ## Matching by elimination -/

theorem single_eq_some {α : Type*} {l : List α} {a : α} (h : single l = some a) : l = [a] := by
  match l with
  | [b] =>
    cases h
    rfl
  | [] => cases h
  | _ :: _ :: _ => cases h

theorem sameAs_self (q : Request) : q.sameAs q = true := by simp [Request.sameAs]

theorem any_sameAs {pending : List Request} {q : Request} (member : q ∈ pending) :
    pending.any q.sameAs = true :=
  List.any_eq_true.mpr ⟨q, member, sameAs_self q⟩

theorem findByResponseId_eq {pending : List Request} {q : Request} {responseId : String}
    (member : q ∈ pending) (mine : q.responseId = some responseId)
    (only : ∀ p ∈ pending, p.responseId = some responseId → p = q) :
    findByResponseId pending responseId = some q := by
  have found : (findByResponseId pending responseId).isSome = true := by
    rw [findByResponseId, List.find?_isSome]
    exact ⟨q, member, by simpa using mine⟩
  obtain ⟨p, hp⟩ := Option.isSome_iff_exists.mp found
  have named : p.responseId = some responseId := by simpa using List.find?_some hp
  rw [hp, only p (List.mem_of_find?_eq_some hp) named]

/-- Where every request has its response id and one is visible, or none is, an event without a
response id is matched with that one, or with the first. -/
theorem matchAnonymous_resolved {pending : List Request} {e : Event} {q : Request}
    (regular : e.aboutPrevious = false) (resolved : ∀ p ∈ pending, p.unresolved = false)
    (only : pending.filter Request.visible = [q] ∨
      pending.filter Request.visible = [] ∧ pending.head? = some q) :
    matchAnonymous pending e = some q := by
  have none_visible : (pending.filter Request.visible).filter Request.unresolved = [] := by
    rw [List.filter_eq_nil_iff]
    intro p hp
    simp [resolved p (List.mem_of_mem_filter hp)]
  have none_draining :
      (pending.filter Request.drainingUntilTerminal).filter Request.unresolved = [] := by
    rw [List.filter_eq_nil_iff]
    intro p hp
    simp [resolved p (List.mem_of_mem_filter hp)]
  unfold matchAnonymous
  rw [if_neg (by simp [regular])]
  simp only [none_visible, none_draining]
  rcases only with one | ⟨none_left, first⟩
  · simp [one]
  · have draining : pending.filter Request.drainingUntilTerminal = pending := by
      rw [List.filter_eq_self]
      intro p hp
      have hidden := List.filter_eq_nil_iff.mp none_left p hp
      simpa [Request.visible] using hidden
    have some_left : pending ≠ [] := by
      rintro rfl
      cases first
    simp [none_left, draining, some_left, first]

theorem matching_subset (pending : List Request) (e : Event) :
    ∀ p ∈ matchingForPreviousResponseError pending e, p ∈ pending := by
  intro p hp
  unfold matchingForPreviousResponseError at hp
  simp only at hp
  split at hp
  · split at hp
    · cases one : single pending with
      | none =>
        rw [one] at hp
        cases hp
      | some q =>
        rw [one] at hp
        rw [single_eq_some one]
        simpa using hp
    · cases hp
  · split at hp
    · exact List.mem_of_mem_filter (List.mem_of_mem_filter hp)
    · split at hp
      · exact List.mem_of_mem_filter (List.mem_of_mem_filter hp)
      · split at hp
        · exact List.mem_of_mem_filter (List.mem_of_mem_filter hp)
        · split at hp
          · exact List.mem_of_mem_filter (List.mem_of_mem_filter hp)
          · cases hp

theorem groupedRequests_subset (pending : List Request) (e : Event) :
    ∀ p ∈ groupedRequests pending e, p ∈ pending := by
  intro p hp
  unfold groupedRequests at hp
  simp only at hp
  split at hp
  · unfold matchingForMissingToolOutput at hp
    simp only at hp
    split at hp
    · exact List.mem_of_mem_filter hp
    · split at hp
      · exact List.mem_of_mem_filter hp
      · cases hp
  · exact matching_subset pending e p hp

/-! ## Outcomes -/

/-- The event ends nothing but the request `q` and goes to no other queue. -/
structure Outcome.Only (o : Outcome) (pending : List Request) (e : Event) (q : Request) : Prop where
  recipients : ∀ p ∈ o.recipients, p = q
  sublist : o.pending.Sublist pending
  unresolved : o.pending.filter Request.unresolved = pending.filter Request.unresolved
  running : e.eventType.terminal = false → o.pending = pending

theorem filter_removeRequest {pending : List Request} {q : Request}
    (resolved : ∀ p ∈ pending, p.sameAs q = true → p.unresolved = false) :
    (removeRequest pending q).filter Request.unresolved = pending.filter Request.unresolved := by
  unfold removeRequest
  induction pending with
  | nil => rfl
  | cons x rest ih =>
    rw [List.eraseP_cons]
    cases same : x.sameAs q with
    | true =>
      rw [List.filter_cons_of_neg (by simp [resolved x List.mem_cons_self same])]
      rfl
    | false =>
      have later := ih fun p hp => resolved p (List.mem_cons_of_mem x hp)
      simp only [cond_false, List.filter_cons, later]

theorem afterAssignment_eq {pending : List Request} {e : Event} {matched : Option Request}
    (notCreated : e.eventType ≠ .created) : afterAssignment pending e matched = pending := by
  unfold afterAssignment
  cases kind : e.eventType <;> first | exact absurd kind notCreated | rfl

theorem matchedRequest_anonymous {pending : List Request} {e : Event}
    (notCreated : e.eventType ≠ .created) (anonymous : e.responseId = none) :
    matchedRequest pending e = matchAnonymous pending e := by
  unfold matchedRequest
  rw [anonymous]
  cases kind : e.eventType <;> first | exact absurd kind notCreated | rfl

theorem matchedRequest_named {pending : List Request} {e : Event} {responseId : String}
    (notCreated : e.eventType ≠ .created) (named : e.responseId = some responseId) :
    matchedRequest pending e = findByResponseId pending responseId := by
  unfold matchedRequest
  rw [named]
  cases kind : e.eventType <;> first | exact absurd kind notCreated | rfl

/-- An event that is matched with `q`, and ends `q` if it is terminal. -/
theorem process_only {pending : List Request} {e : Event} {q : Request}
    (notCreated : e.eventType ≠ .created) (matched : matchedRequest pending e = some q)
    (terminal : terminalRequest pending e (some q) = some q)
    (resolved : ∀ p ∈ pending, p.sameAs q = true → p.unresolved = false)
    (alone : e.aboutPrevious = true → q.visible = false → pending.length = 1) (member : q ∈ pending) :
    (process pending e).Only pending e q := by
  unfold process
  simp only [matched, afterAssignment_eq notCreated]
  split
  · rename_i running
    exact ⟨fun p hp => by simpa [Outcome.recipients] using (List.mem_of_mem_filter hp),
      List.Sublist.refl _, rfl, fun _ => rfl⟩
  rename_i ends
  have ends : e.eventType.terminal = true := by simpa using ends
  have rest_sublist : (removeRequest pending q).Sublist pending := List.eraseP_sublist
  have rest_unresolved := filter_removeRequest resolved
  simp only [terminal, Option.map_some, Option.getD_some, Option.isNone_some, Bool.false_and]
  have to_q : ∀ o : Outcome, o.matched = some q → o.terminal = some q → o.grouped.length ≤ 1 →
      ∀ p ∈ o.recipients, p = q := by
    intro o hm ht hg p hp
    have hp := List.mem_of_mem_filter hp
    rw [if_neg (by omega)] at hp
    simpa [hm, ht, sameAs_self] using hp
  split
  · exact ⟨to_q _ rfl rfl (Nat.zero_le 1), rest_sublist, rest_unresolved,
      fun h => absurd (ends.symm.trans h) (by decide)⟩
  · rename_i hidden
    have hidden : q.visible = false := by simpa using hidden
    have no_group : (if e.aboutPrevious = true then groupedRequests (removeRequest pending q) e
        else []) = [] := by
      split
      · rename_i about
        have one := alone about hidden
        obtain ⟨p, hp⟩ := List.length_eq_one_iff.mp one
        subst hp
        have : q = p := List.mem_singleton.mp member
        subst this
        have nothing : removeRequest [q] q = [] := by simp [removeRequest, sameAs_self]
        rw [nothing]
        exact List.eq_nil_iff_forall_not_mem.mpr fun x hx =>
          List.not_mem_nil (groupedRequests_subset [] e x hx)
      · rfl
    simp only [no_group]
    have kept : removeAll (removeRequest pending q) [] = removeRequest pending q := by
      simp [removeAll]
    refine ⟨to_q _ rfl rfl (Nat.zero_le 1), ?_, ?_, fun h => absurd (ends.symm.trans h) (by decide)⟩
    · rw [kept]
      exact rest_sublist
    · rw [kept]
      exact rest_unresolved

/-- An error about a previous response that names no response, while one request is pending. -/
theorem process_alone {e : Event} {q : Request} (notCreated : e.eventType ≠ .created)
    (anonymous : e.responseId = none) (about : e.aboutPrevious = true)
    (resolved : q.unresolved = false) : (process [q] e).Only [q] e q := by
  have matching : matchedRequest [q] e = matchAnonymous [q] e :=
    matchedRequest_anonymous notCreated anonymous
  cases found : matchAnonymous [q] e with
  | some p =>
    have member : p = q := by
      unfold matchAnonymous at found
      rw [if_pos about] at found
      have : p ∈ matchingForPreviousResponseError [q] e := by
        rw [single_eq_some found]
        exact List.mem_singleton_self p
      simpa using matching_subset [q] e p this
    subst member
    refine process_only notCreated (matching.trans found) ?_ (fun x hx _ => ?_) (fun _ _ => rfl)
      (List.mem_singleton_self p)
    · simp [terminalRequest, anonymous, sameAs_self]
    · rw [List.mem_singleton.mp hx]
      exact resolved
  | none =>
    have no_terminal : terminalRequest [q] e none = none := by
      simp [terminalRequest, anonymous, found]
    have nothing_unresolved : ∀ l : List Request, l.Sublist [q] →
        l.filter Request.unresolved = [] := by
      intro l hl
      rw [List.filter_eq_nil_iff]
      intro x hx
      rw [List.mem_singleton.mp (hl.subset hx)]
      simp [resolved]
    have from_group : ∀ o : Outcome, o.matched = none → o.terminal = none →
        (∀ x ∈ o.grouped, x = q) → ∀ x ∈ o.recipients, x = q := by
      intro o hm ht hg x hx
      have hx := List.mem_of_mem_filter hx
      split at hx
      · exact hg x hx
      · cases first : o.grouped.head? with
        | none => simp [hm, ht, first] at hx
        | some y =>
          have : x = y := by simpa [hm, ht, first] using hx
          rw [this]
          exact hg y (List.mem_of_head? first)
    unfold process
    simp only [matching, found, afterAssignment_eq notCreated, no_terminal]
    split
    · exact ⟨from_group _ rfl rfl (fun x hx => absurd hx List.not_mem_nil), List.Sublist.refl _, rfl,
        fun _ => rfl⟩
    rename_i ends
    have ends : e.eventType.terminal = true := by simpa using ends
    have ended : ∀ {P : Prop}, e.eventType.terminal = false → P := fun h =>
      absurd (ends.symm.trans h) (by decide)
    simp only [anonymous, Option.map_none, Option.getD_none, Option.any_none,
      Option.isSome_none, Bool.and_false, Bool.false_and, if_false, Bool.false_eq_true]
    split
    · exact ⟨from_group _ rfl rfl fun x hx => List.mem_singleton.mp hx, List.nil_sublist _,
        (nothing_unresolved [q] (List.Sublist.refl _)).symm, ended⟩
    · refine ⟨from_group _ rfl rfl fun x hx => ?_, List.filter_sublist, ?_, ended⟩
      · exact List.mem_singleton.mp (groupedRequests_subset [q] e x hx)
      · have removed : (removeAll [q] (groupedRequests [q] e)).Sublist [q] := List.filter_sublist
        exact (nothing_unresolved _ removed).trans
          (nothing_unresolved [q] (List.Sublist.refl _)).symm

theorem find_both {pending : List Request} {u : Request} (p : Request → Bool)
    (one : pending.filter Request.unresolved = [u]) :
    (pending.find? fun q => q.unresolved && p q) = if p u then some u else none := by
  have split : (pending.filter fun q => q.unresolved && p q) = [u].filter p := by
    rw [← one, List.filter_filter]
    simp only [Bool.and_comm]
  rw [← List.head?_filter, split]
  cases hp : p u <;> simp [hp]

/-- With one request that waits for it, a new response id goes to that request. -/
theorem process_created {pending : List Request} {u : Request} {responseId : String}
    (one : pending.filter Request.unresolved = [u])
    (fresh : ∀ p ∈ pending, p.responseId ≠ some responseId) :
    process pending { eventType := .created, responseId := some responseId } =
      { pending := setResponseId pending u responseId, matched := some u } := by
  have unknown : findByResponseId pending responseId = none := by
    rw [findByResponseId, List.find?_eq_none]
    intro p hp
    simpa using fresh p hp
  have chosen : assignee pending responseId = some u := by
    rw [assignee, unknown, find_both Request.visible one,
      find_both Request.drainingUntilTerminal one]
    cases draining : u.drainingUntilTerminal <;> simp [Request.visible, draining]
  have matched : matchedRequest pending { eventType := .created, responseId := some responseId } =
      some u := chosen
  unfold process
  simp [matched, afterAssignment, EventType.terminal]

end EventMatching
