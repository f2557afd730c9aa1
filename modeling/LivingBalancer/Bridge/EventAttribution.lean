import LivingBalancer.Bridge.EventMatching
import LivingBalancer.Lib.Runs

/-!
# Events and their requests on a shared upstream

One bridge session: submissions that wait for the response-create gate, detachments, and an
upstream that answers the creates one after another in the order they were sent. `owner` is the
request that the upstream answers. Where the code would send a request again, the run ends. The
bridge's own prewarm request is left out: cancelled or failed after it was sent, it leaves the list
while the upstream may still answer it.
-/

namespace EventMatching

/-- An event on a request's queue. -/
structure Delivery where
  recipient : ℕ
  owner : ℕ
  deriving DecidableEq

/-- `unanswered` holds the sent creates that have no response yet, `current` the request whose
response is under way and its id, `answered` every response that was begun. `assigned` and
`delivered` record which request got a response id or an event, and whose it was. -/
structure World where
  pending : List Request := []
  waiting : List (ℕ × Option String) := []
  gate : Option ℕ := none
  retireAfterDrain : Bool := false
  closed : Bool := false
  seen : List ℕ := []
  unanswered : List ℕ := []
  current : Option (ℕ × String) := none
  answered : List (ℕ × String) := []
  assigned : List Delivery := []
  delivered : List Delivery := []

inductive Act where
  | submit (id : ℕ) (previousResponseId : Option String)
  | acquireGate (id : ℕ)
  | append (id : ℕ)
  | abandon (id : ℕ)
  | detach (id : ℕ)
  | retire
  | created (responseId : String)
  | event (e : Event)

def World.release (w : World) (id : ℕ) : World :=
  if w.gate = some id then { w with gate := none } else w

/-- `_detach_http_bridge_request`: the gate is released also before the response was created. -/
def World.detach (w : World) (id : ℕ) : World :=
  if w.pending.any fun q => decide (q.requestId = id) && q.visible then
    { w with
      pending := w.pending.map fun q : Request =>
        if q.requestId = id then
          { q with
            drainingUntilTerminal := true
            attached := false
            awaitingResponseCreated := false }
        else q
      retireAfterDrain := true }.release id
  else w.release id

/-- The requests that an upstream event is put on the queues of, and the list behind it. -/
def World.deliver (w : World) (owner : ℕ) (o : Outcome) : World :=
  { w with
    pending := o.pending
    delivered := (o.recipients.map fun q => ⟨q.requestId, owner⟩) ++ w.delivered }

/-- An error of a request that has no response id yet may be answered by sending it again. -/
def Outcome.mayRetry (o : Outcome) (e : Event) : Bool :=
  e.carriesError && (o.terminal <|> o.matched).any Request.unresolved

/-- `response.created`: the gate that the request holds is released. -/
def World.created (w : World) (owner : ℕ) (responseId : String) : World :=
  let e : Event := { eventType := .created, responseId := some responseId }
  let o := process w.pending e
  let w := w.deliver owner o
  match o.matched with
  | some q =>
    { w with
      pending := w.pending.map fun p : Request =>
        if p.sameAs q then { p with awaitingResponseCreated := false } else p
      assigned := ⟨q.requestId, owner⟩ :: w.assigned }.release q.requestId
  | none => w

def World.act (w : World) : Act → Option World
  | .submit id previousResponseId =>
    if w.seen.contains id then none
    else if w.retireAfterDrain then some { w with seen := id :: w.seen }
    else some { w with seen := id :: w.seen, waiting := w.waiting ++ [(id, previousResponseId)] }
  | .acquireGate id =>
    if w.gate = none ∧ w.waiting.any (fun p => decide (p.1 = id)) = true then
      some { w with gate := some id }
    else none
  | .append id =>
    if w.gate = some id then
      (w.waiting.find? fun p => decide (p.1 = id)).map fun p =>
        { w with
          pending := w.pending ++ [{ requestId := id, previousResponseId := p.2 }]
          waiting := w.waiting.filter fun p => decide (p.1 ≠ id)
          unanswered := w.unanswered ++ [id] }
    else none
  | .abandon id =>
    if w.waiting.any fun p => decide (p.1 = id) then
      some ({ w with waiting := w.waiting.filter fun p => decide (p.1 ≠ id) }.release id)
    else none
  | .detach id => some (w.detach id)
  | .retire =>
    if w.retireAfterDrain && !w.pending.any Request.visible && w.waiting.isEmpty then
      some { w with pending := [], closed := true }
    else some w
  | .created responseId =>
    match w.current, w.unanswered with
    | none, owner :: rest =>
      if w.answered.any fun p => decide (p.2 = responseId) then none
      else
        some ({ w with
          unanswered := rest
          current := some (owner, responseId)
          answered := (owner, responseId) :: w.answered }.created owner responseId)
    | _, _ => none
  | .event e =>
    match w.current with
    | some (owner, responseId) =>
      let o := process w.pending e
      if e.eventType = .created ∨ (e.responseId.isSome = true ∧ e.responseId ≠ some responseId) ∨
          o.mayRetry e = true then none
      else
        some { w.deliver owner o with
          current := if e.eventType.terminal then none else w.current }
    | none => none

def World.step (w : World) (a : Act) : Option World := if w.closed then none else w.act a

def World.Fresh (w : World) : Prop := w = {}

/-- An event without a response id can only belong to one request: none waits for its
`response.created`, and the request that is answered is the only visible one, or none is visible
and it is the first. -/
def Determined (pending : List Request) (owner : ℕ) : Prop :=
  (∀ q ∈ pending, q.unresolved = false) ∧
    ((pending.filter Request.visible).map Request.requestId = [owner] ∨
      pending.filter Request.visible = [] ∧ pending.head?.map Request.requestId = some owner)

/-- A create is sent only when every pending request has its response id; an event without an id
comes only where it can belong to one request; and an error about a previous response, unless it
names the response of a visible request, comes only when one request is pending. -/
def Clean (w : World) : Act → Prop
  | .append _ => ∀ q ∈ w.pending, q.unresolved = false
  | .event e => ∀ owner responseId, w.current = some (owner, responseId) →
    if e.aboutPrevious && (e.responseId.isNone || w.pending.any fun q =>
          decide (q.responseId = e.responseId) && q.drainingUntilTerminal) then
      w.pending.length = 1
    else e.responseId = none → Determined w.pending owner
  | _ => True

/-! ## The invariant -/

/-- What holds of the list and of the upstream's side as long as the session is open. -/
structure Aligned (w : World) : Prop where
  ids : (w.pending.map Request.requestId).Nodup
  known : ∀ q ∈ w.pending, q.requestId ∈ w.seen
  waitingKnown : ∀ p ∈ w.waiting, p.1 ∈ w.seen
  apart : ∀ p ∈ w.waiting, ∀ q ∈ w.pending, q.requestId ≠ p.1
  own : ∀ q ∈ w.pending, ∀ r, q.responseId = some r → (q.requestId, r) ∈ w.answered
  distinct : ∀ a b r, (a, r) ∈ w.answered → (b, r) ∈ w.answered → a = b
  unanswered : (w.pending.filter Request.unresolved).map Request.requestId = w.unanswered
  atMostOne : w.unanswered.length ≤ 1
  current : ∀ owner r, w.current = some (owner, r) →
    ∃ q ∈ w.pending, q.requestId = owner ∧ q.responseId = some r

structure Sound (w : World) : Prop where
  aligned : w.closed = false → Aligned w
  assigned : ∀ d ∈ w.assigned, d.recipient = d.owner
  delivered : ∀ d ∈ w.delivered, d.recipient = d.owner

section Updates

variable {l : List Request} {f : Request → Request}

/-- An update that leaves the two ids of every request alone. -/
structure KeepsIds (f : Request → Request) : Prop where
  request : ∀ q, (f q).requestId = q.requestId
  response : ∀ q, (f q).responseId = q.responseId

theorem KeepsIds.map_ids (keeps : KeepsIds f) :
    (l.map f).map Request.requestId = l.map Request.requestId := by
  rw [List.map_map]
  exact List.map_congr_left fun q _ => keeps.request q

theorem KeepsIds.unresolved (keeps : KeepsIds f) :
    ((l.map f).filter Request.unresolved).map Request.requestId =
      (l.filter Request.unresolved).map Request.requestId := by
  have same : Request.unresolved ∘ f = Request.unresolved := by
    funext q
    simp [Request.unresolved, keeps.response q]
  rw [List.filter_map, same]
  exact keeps.map_ids

/-- An update that leaves the ids alone keeps the alignment. -/
theorem Aligned.update {w : World} (aligned : Aligned w) (keeps : KeepsIds f) :
    Aligned { w with pending := w.pending.map f } where
  ids := by
    show ((w.pending.map f).map Request.requestId).Nodup
    rw [keeps.map_ids]
    exact aligned.ids
  known := fun q hq => by
    obtain ⟨p, hp, rfl⟩ := List.mem_map.mp hq
    rw [keeps.request]
    exact aligned.known p hp
  waitingKnown := aligned.waitingKnown
  apart := fun x hx q hq => by
    obtain ⟨p, hp, rfl⟩ := List.mem_map.mp hq
    rw [keeps.request]
    exact aligned.apart x hx p hp
  own := fun q hq r hr => by
    obtain ⟨p, hp, rfl⟩ := List.mem_map.mp hq
    rw [keeps.request]
    rw [keeps.response] at hr
    exact aligned.own p hp r hr
  distinct := aligned.distinct
  unanswered := keeps.unresolved.trans aligned.unanswered
  atMostOne := aligned.atMostOne
  current := fun owner r h => by
    obtain ⟨q, hq, id, mine⟩ := aligned.current owner r h
    exact ⟨f q, List.mem_map_of_mem hq, (keeps.request q).trans id, (keeps.response q).trans mine⟩

end Updates

theorem Aligned.gate {w : World} (aligned : Aligned w) (gate : Option ℕ) :
    Aligned { w with gate := gate } :=
  ⟨aligned.ids, aligned.known, aligned.waitingKnown, aligned.apart, aligned.own, aligned.distinct,
    aligned.unanswered, aligned.atMostOne, aligned.current⟩

theorem Aligned.release {w : World} (aligned : Aligned w) (id : ℕ) : Aligned (w.release id) := by
  unfold World.release
  split
  · exact aligned.gate none
  · exact aligned

theorem Aligned.retiring {w : World} (aligned : Aligned w) :
    Aligned { w with retireAfterDrain := true } :=
  ⟨aligned.ids, aligned.known, aligned.waitingKnown, aligned.apart, aligned.own, aligned.distinct,
    aligned.unanswered, aligned.atMostOne, aligned.current⟩

theorem World.release_records (w : World) (id : ℕ) :
    (w.release id).assigned = w.assigned ∧ (w.release id).delivered = w.delivered ∧
      (w.release id).closed = w.closed := by
  unfold World.release
  split <;> exact ⟨rfl, rfl, rfl⟩

theorem Sound.release {w : World} (sound : Sound w) (id : ℕ) : Sound (w.release id) := by
  obtain ⟨assigned, delivered, closed⟩ := w.release_records id
  exact ⟨fun h => (sound.aligned (closed ▸ h)).release id, assigned ▸ sound.assigned,
    delivered ▸ sound.delivered⟩

/-- Request ids tell the pending requests apart. -/
theorem Aligned.eq_of_id {w : World} (aligned : Aligned w) {p q : Request} (hp : p ∈ w.pending)
    (hq : q ∈ w.pending) (same : p.requestId = q.requestId) : p = q :=
  List.inj_on_of_nodup_map aligned.ids hp hq same

theorem Aligned.eq_of_response {w : World} (aligned : Aligned w) {p q : Request} {r : String}
    (hp : p ∈ w.pending) (hq : q ∈ w.pending) (mine : p.responseId = some r)
    (yours : q.responseId = some r) : p = q :=
  aligned.eq_of_id hp hq
    (aligned.distinct _ _ r (aligned.own p hp r mine) (aligned.own q hq r yours))

/-- What a clean event is to the request that is answered. -/
theorem Aligned.event_only {w : World} {e : Event} {owner : ℕ} {r : String} (aligned : Aligned w)
    (current : w.current = some (owner, r)) (clean : Clean w (.event e))
    (notCreated : e.eventType ≠ .created) (named : ∀ r', e.responseId = some r' → r' = r) :
    ∃ q ∈ w.pending, q.requestId = owner ∧ q.responseId = some r ∧
      (process w.pending e).Only w.pending e q := by
  obtain ⟨q, member, id, mine⟩ := aligned.current owner r current
  refine ⟨q, member, id, mine, ?_⟩
  have clean := clean owner r current
  have resolved : q.unresolved = false := by simp [Request.unresolved, mine]
  have same_resolved : ∀ p ∈ w.pending, p.sameAs q = true → p.unresolved = false := by
    intro p hp same
    have same : p.requestId = q.requestId := by simpa [Request.sameAs] using same
    rw [aligned.eq_of_id hp member same]
    exact resolved
  have in_list : (some q).filter (fun q => w.pending.any q.sameAs) = some q := by
    rw [Option.filter_some, if_pos (any_sameAs member)]
  cases response : e.responseId with
  | some r' =>
    have := named r' response
    subst this
    have found : findByResponseId w.pending r' = some q :=
      findByResponseId_eq member mine fun p hp h => aligned.eq_of_response hp member h mine
    have matched : matchedRequest w.pending e = some q :=
      (matchedRequest_named notCreated response).trans found
    have terminal : terminalRequest w.pending e (some q) = some q := by
      simp [terminalRequest, response, found]
    refine process_only notCreated matched terminal same_resolved (fun about hidden => ?_) member
    have draining : (w.pending.any fun p => decide (p.responseId = e.responseId) &&
        p.drainingUntilTerminal) = true := by
      rw [List.any_eq_true]
      refine ⟨q, member, ?_⟩
      simpa [response, mine, Request.visible] using hidden
    rw [if_pos (by rw [about, draining, Bool.or_true]; rfl)] at clean
    exact clean
  | none =>
    by_cases about : e.aboutPrevious = true
    · rw [if_pos (by rw [about, response]; rfl)] at clean
      obtain ⟨p, one⟩ := List.length_eq_one_iff.mp clean
      rw [one] at member ⊢
      rw [← List.mem_singleton.mp member]
      exact process_alone notCreated response about resolved
    · have about : e.aboutPrevious = false := Bool.eq_false_iff.mpr about
      rw [if_neg (by simp [about])] at clean
      obtain ⟨all_resolved, only⟩ := clean response
      have determined : w.pending.filter Request.visible = [q] ∨
          w.pending.filter Request.visible = [] ∧ w.pending.head? = some q := by
        rcases only with one | ⟨none_visible, first⟩
        · left
          obtain ⟨p, rest, hvisible, hid, hrest⟩ := List.map_eq_cons_iff.mp one
          have no_more : rest = [] := List.map_eq_nil_iff.mp hrest
          subst no_more
          have hp : p ∈ w.pending := List.mem_of_mem_filter (hvisible ▸ List.mem_singleton_self p)
          rw [hvisible, aligned.eq_of_id hp member (hid.trans id.symm)]
        · right
          obtain ⟨p, hp, hid⟩ := Option.map_eq_some_iff.mp first
          refine ⟨none_visible, hp.trans ?_⟩
          rw [aligned.eq_of_id (List.mem_of_head? hp) member (hid.trans id.symm)]
      have found := matchAnonymous_resolved about all_resolved determined
      have matched := (matchedRequest_anonymous notCreated response).trans found
      refine process_only notCreated matched ?_ same_resolved
        (fun h => absurd (h.symm.trans about) (by decide)) member
      rw [terminalRequest, response]
      simp only [in_list]
      rfl

/-! ## Steps -/

theorem Sound.event {w w' : World} {e : Event} (sound : Sound w) (open_ : w.closed = false)
    (clean : Clean w (.event e)) (h : w.act (.event e) = some w') : Sound w' := by
  have aligned := sound.aligned open_
  simp only [World.act] at h
  split at h
  swap
  · cases h
  rename_i owner r current
  split at h
  · cases h
  rename_i allowed
  cases h
  have notCreated : e.eventType ≠ .created := fun created => allowed (.inl created)
  have named : ∀ r', e.responseId = some r' → r' = r := fun r' response => by
    by_contra other
    refine allowed (.inr (.inl ⟨by rw [response]; rfl, ?_⟩))
    rw [response]
    exact fun same => other (Option.some.inj same)
  obtain ⟨q, member, id, mine, only⟩ := aligned.event_only current clean notCreated named
  refine ⟨fun _ => ?_, sound.assigned, fun d hd => ?_⟩
  · refine ⟨aligned.ids.sublist (only.sublist.map _),
      fun p hp => aligned.known p (only.sublist.subset hp), aligned.waitingKnown,
      fun x hx p hp => aligned.apart x hx p (only.sublist.subset hp),
      fun p hp => aligned.own p (only.sublist.subset hp), aligned.distinct,
      (congrArg _ only.unresolved).trans aligned.unanswered, aligned.atMostOne, ?_⟩
    intro owner' r' h
    cases ends : e.eventType.terminal with
    | true =>
      rw [ends, if_pos rfl] at h
      cases h
    | false =>
      rw [ends, if_neg Bool.false_ne_true] at h
      show ∃ q ∈ (process w.pending e).pending, _
      rw [only.running ends]
      exact aligned.current owner' r' h
  · rcases List.mem_append.mp hd with new | old
    · obtain ⟨p, hp, rfl⟩ := List.mem_map.mp new
      rw [only.recipients p hp]
      exact id
    · exact sound.delivered d old

/-- The response id of the request that is answered next goes to that request. -/
theorem Aligned.assign {w : World} (aligned : Aligned w) {u : Request} {rest : List ℕ} {r : String}
    (one : w.pending.filter Request.unresolved = [u])
    (next : w.unanswered = u.requestId :: rest)
    (fresh : (w.answered.any fun p => decide (p.2 = r)) = false) :
    Aligned { w with
      pending := setResponseId w.pending u r
      unanswered := rest
      current := some (u.requestId, r)
      answered := (u.requestId, r) :: w.answered } := by
  have member : u ∈ w.pending := List.mem_of_mem_filter (one ▸ List.mem_singleton_self u)
  have no_rest : rest = [] := by
    have := aligned.atMostOne
    rw [next, List.length_cons] at this
    exact List.eq_nil_of_length_eq_zero (by omega)
  have unused : ∀ a, (a, r) ∉ w.answered := fun a ha => by
    simpa using List.any_eq_false.mp fresh (a, r) ha
  have keeps_id : ∀ q : Request,
      (if q.sameAs u then { q with responseId := some r } else q).requestId = q.requestId := by
    intro q
    split <;> rfl
  refine ⟨?_, ?_, aligned.waitingKnown, ?_, ?_, ?_, ?_, ?_, ?_⟩
  · have same : (setResponseId w.pending u r).map Request.requestId =
        w.pending.map Request.requestId := by
      rw [setResponseId, List.map_map]
      exact List.map_congr_left fun q _ => keeps_id q
    show ((setResponseId w.pending u r).map Request.requestId).Nodup
    rw [same]
    exact aligned.ids
  · intro q hq
    obtain ⟨p, hp, rfl⟩ := List.mem_map.mp hq
    rw [keeps_id]
    exact aligned.known p hp
  · intro x hx q hq
    obtain ⟨p, hp, rfl⟩ := List.mem_map.mp hq
    rw [keeps_id]
    exact aligned.apart x hx p hp
  · intro q hq r' hr'
    obtain ⟨p, hp, rfl⟩ := List.mem_map.mp hq
    by_cases same : p.sameAs u = true
    · rw [if_pos same] at hr' ⊢
      cases hr'
      have : p.requestId = u.requestId := by simpa [Request.sameAs] using same
      exact List.mem_cons.mpr (.inl (by rw [this]))
    · rw [if_neg same] at hr' ⊢
      exact List.mem_cons_of_mem _ (aligned.own p hp r' hr')
  · intro a b r' ha hb
    rcases List.mem_cons.mp ha with newA | oldA <;> rcases List.mem_cons.mp hb with newB | oldB
    · rw [(Prod.mk.inj newA).1, (Prod.mk.inj newB).1]
    · rw [(Prod.mk.inj newA).2] at oldB
      exact absurd oldB (unused b)
    · rw [(Prod.mk.inj newB).2] at oldA
      exact absurd oldA (unused a)
    · exact aligned.distinct a b r' oldA oldB
  · have none_left : (setResponseId w.pending u r).filter Request.unresolved = [] := by
      rw [List.filter_eq_nil_iff]
      intro q hq unresolved
      obtain ⟨p, hp, rfl⟩ := List.mem_map.mp hq
      by_cases same : p.sameAs u = true
      · rw [if_pos same] at unresolved
        cases unresolved
      · rw [if_neg same] at unresolved
        have : p ∈ [u] := one ▸ List.mem_filter.mpr ⟨hp, unresolved⟩
        rw [List.mem_singleton.mp this] at same
        exact same (sameAs_self u)
    show ((setResponseId w.pending u r).filter Request.unresolved).map Request.requestId = rest
    rw [none_left, no_rest]
    rfl
  · show rest.length ≤ 1
    rw [no_rest]
    exact Nat.zero_le 1
  · intro owner r' h
    cases h
    refine ⟨{ u with responseId := some r }, ?_, rfl, rfl⟩
    refine List.mem_map.mpr ⟨u, member, ?_⟩
    rw [if_pos (sameAs_self u)]

theorem Sound.created {w w' : World} {r : String} (sound : Sound w) (open_ : w.closed = false)
    (h : w.act (.created r) = some w') : Sound w' := by
  have aligned := sound.aligned open_
  simp only [World.act] at h
  split at h
  swap
  · cases h
  rename_i owner rest _ next
  split at h
  · cases h
  rename_i fresh
  have fresh := Bool.eq_false_iff.mpr fresh
  cases h
  obtain ⟨u, us, one, id, none_more⟩ := List.map_eq_cons_iff.mp (aligned.unanswered.trans next)
  have single_ : w.pending.filter Request.unresolved = [u] := by
    have short := aligned.atMostOne
    rw [next, List.length_cons, ← none_more, List.length_map] at short
    have no_more : us = [] := List.eq_nil_of_length_eq_zero (by omega)
    rw [one, no_more]
  subst id
  have unused : ∀ p ∈ w.pending, p.responseId ≠ some r := fun p hp mine => by
    have := List.any_eq_false.mp fresh _ (aligned.own p hp r mine)
    simp at this
  have outcome := process_created single_ unused
  unfold World.created
  simp only [outcome]
  refine Sound.release ⟨fun _ => ?_, fun d hd => ?_, fun d hd => ?_⟩ _
  · have assigned := aligned.assign single_ next fresh
    have updated := assigned.update (f := fun p : Request =>
      if p.sameAs u then { p with awaitingResponseCreated := false } else p)
      ⟨fun q => by split <;> rfl, fun q => by split <;> rfl⟩
    exact ⟨updated.ids, updated.known, updated.waitingKnown, updated.apart, updated.own,
      updated.distinct, updated.unanswered, updated.atMostOne, updated.current⟩
  · rcases List.mem_cons.mp hd with rfl | old
    · rfl
    · exact sound.assigned d old
  · rcases List.mem_append.mp hd with new | old
    · obtain ⟨p, hp, rfl⟩ := List.mem_map.mp new
      have hp := List.mem_of_mem_filter hp
      have : p = u := by simpa using hp
      rw [this]
    · exact sound.delivered d old

theorem Sound.append {w w' : World} {id : ℕ} (sound : Sound w) (open_ : w.closed = false)
    (clean : Clean w (.append id)) (h : w.act (.append id) = some w') : Sound w' := by
  have aligned := sound.aligned open_
  simp only [World.act] at h
  split at h
  swap
  · cases h
  obtain ⟨p, found, rfl⟩ := Option.map_eq_some_iff.mp h
  have waits : p ∈ w.waiting := List.mem_of_find?_eq_some found
  have same : p.1 = id := by simpa using List.find?_some found
  subst same
  have none_left : w.pending.filter Request.unresolved = [] := by
    rw [List.filter_eq_nil_iff]
    intro q hq
    simp [clean q hq]
  have none_unanswered : w.unanswered = [] := by
    rw [← aligned.unanswered, none_left]
    rfl
  refine ⟨fun _ => ?_, sound.assigned, sound.delivered⟩
  refine ⟨?_, ?_, ?_, ?_, ?_, aligned.distinct, ?_, ?_, ?_⟩
  · show ((w.pending ++ [_]).map Request.requestId).Nodup
    rw [List.map_append, List.nodup_append]
    refine ⟨aligned.ids, List.nodup_singleton _, fun a ha b hb => ?_⟩
    obtain ⟨q, hq, rfl⟩ := List.mem_map.mp ha
    rw [List.mem_singleton.mp hb]
    exact aligned.apart p waits q hq
  · intro q hq
    rcases List.mem_append.mp hq with old | new
    · exact aligned.known q old
    · rw [List.mem_singleton.mp new]
      exact aligned.waitingKnown p waits
  · exact fun x hx => aligned.waitingKnown x (List.mem_of_mem_filter hx)
  · intro x hx q hq
    obtain ⟨hx, other⟩ := List.mem_filter.mp hx
    rcases List.mem_append.mp hq with old | new
    · exact aligned.apart x hx q old
    · rw [List.mem_singleton.mp new]
      exact fun same => of_decide_eq_true other same.symm
  · intro q hq r hr
    rcases List.mem_append.mp hq with old | new
    · exact aligned.own q old r hr
    · rw [List.mem_singleton.mp new] at hr
      cases hr
  · show ((w.pending ++ [_]).filter Request.unresolved).map Request.requestId = w.unanswered ++ [p.1]
    rw [List.filter_append, none_left, none_unanswered]
    rfl
  · show (w.unanswered ++ [p.1]).length ≤ 1
    rw [none_unanswered]
    exact Nat.le_refl 1
  · intro owner r h
    obtain ⟨q, hq, rest⟩ := aligned.current owner r h
    exact ⟨q, List.mem_append_left _ hq, rest⟩

theorem Sound.detach {w : World} (sound : Sound w) (id : ℕ) : Sound (w.detach id) := by
  unfold World.detach
  split
  · apply Sound.release
    refine ⟨fun h => ?_, sound.assigned, sound.delivered⟩
    have aligned := sound.aligned h
    exact (aligned.update ⟨fun q => by split <;> rfl, fun q => by split <;> rfl⟩).retiring
  · exact sound.release id

/-- A wait that ends without an append. -/
theorem Sound.leave {w : World} (sound : Sound w) (keep : ℕ × Option String → Bool) :
    Sound { w with waiting := w.waiting.filter keep } := by
  refine ⟨fun h => ?_, sound.assigned, sound.delivered⟩
  have aligned := sound.aligned h
  exact ⟨aligned.ids, aligned.known,
    fun x hx => aligned.waitingKnown x (List.mem_of_mem_filter hx),
    fun x hx => aligned.apart x (List.mem_of_mem_filter hx), aligned.own, aligned.distinct,
    aligned.unanswered, aligned.atMostOne, aligned.current⟩

theorem Sound.submit {w w' : World} {id : ℕ} {anchor : Option String} (sound : Sound w)
    (h : w.act (.submit id anchor) = some w') : Sound w' := by
  simp only [World.act] at h
  split at h
  · cases h
  rename_i unseen
  have unseen : id ∉ w.seen := by simpa using unseen
  have more : ∀ x ∈ w.seen, x ∈ id :: w.seen := fun x hx => List.mem_cons_of_mem id hx
  split at h
  · cases h
    refine ⟨fun open_ => ?_, sound.assigned, sound.delivered⟩
    have aligned := sound.aligned open_
    exact ⟨aligned.ids, fun q hq => more _ (aligned.known q hq),
      fun x hx => more _ (aligned.waitingKnown x hx), aligned.apart, aligned.own,
      aligned.distinct, aligned.unanswered, aligned.atMostOne, aligned.current⟩
  · cases h
    refine ⟨fun open_ => ?_, sound.assigned, sound.delivered⟩
    have aligned := sound.aligned open_
    refine ⟨aligned.ids, fun q hq => more _ (aligned.known q hq), fun x hx => ?_,
      fun x hx q hq => ?_, aligned.own, aligned.distinct, aligned.unanswered, aligned.atMostOne,
      aligned.current⟩
    · rcases List.mem_append.mp hx with old | new
      · exact more _ (aligned.waitingKnown x old)
      · rw [List.mem_singleton.mp new]
        exact List.mem_cons_self
    · rcases List.mem_append.mp hx with old | new
      · exact aligned.apart x old q hq
      · rw [List.mem_singleton.mp new]
        rintro rfl
        exact unseen (aligned.known q hq)

theorem Sound.step {w w' : World} {a : Act} (sound : Sound w) (clean : Clean w a)
    (h : w.step a = some w') : Sound w' := by
  unfold World.step at h
  split at h
  · cases h
  rename_i open_
  have open_ := Bool.eq_false_iff.mpr open_
  cases a with
  | submit id anchor => exact sound.submit h
  | acquireGate id =>
    simp only [World.act] at h
    split at h
    · cases h
      exact ⟨fun open_ => (sound.aligned open_).gate _, sound.assigned, sound.delivered⟩
    · cases h
  | append id => exact sound.append open_ clean h
  | abandon id =>
    simp only [World.act] at h
    split at h
    · cases h
      exact (sound.leave _).release id
    · cases h
  | detach id =>
    cases h
    exact sound.detach id
  | retire =>
    simp only [World.act] at h
    split at h
    · cases h
      exact ⟨fun h => absurd h.symm Bool.false_ne_true, sound.assigned, sound.delivered⟩
    · cases h
      exact sound
  | created r => exact sound.created open_ h
  | event e => exact sound.event open_ clean h

theorem sound_fresh {w : World} (h : w.Fresh) : Sound w := by
  subst h
  refine ⟨fun _ => ⟨List.nodup_nil, ?_, ?_, ?_, ?_, ?_, rfl, Nat.zero_le 1, ?_⟩, ?_, ?_⟩ <;>
    simp

/-- In a run of clean steps an event goes only to the request whose response it belongs to, and a
response id only to the request that it answers. -/
theorem events_stay_with_owner {w : World} (run : Runs.Reachable World.step Clean World.Fresh w) :
    (∀ d ∈ w.delivered, d.recipient = d.owner) ∧ ∀ d ∈ w.assigned, d.recipient = d.owner := by
  have sound : Sound w := run.invariant (fun _ => sound_fresh)
    fun _ _ _ sound clean h => sound.step clean h
  exact ⟨sound.delivered, sound.assigned⟩

def runOf (acts : List Act) : World := (Runs.replay World.step {} acts).getD {}

/-- One request is answered with an event that names no response, a second one waits. -/
def answeredActs : List Act :=
  [.submit 1 none, .acquireGate 1, .append 1, .submit 2 none, .created "r1",
    .event { eventType := .other }]

theorem events_stay_with_owner_answered :
    (runOf answeredActs).delivered = [⟨1, 1⟩, ⟨1, 1⟩] ∧
      ∀ d ∈ (runOf answeredActs).delivered, d.recipient = d.owner := by
  have submitted : Runs.Reachable World.step Clean World.Fresh (runOf (answeredActs.take 2)) :=
    Runs.reachable_of_replay (answeredActs.take 2) rfl (by simp [answeredActs, Clean])
      (Runs.replay_eq_getD (by decide +kernel) {})
  have appended : Runs.Reachable World.step Clean World.Fresh (runOf (answeredActs.take 3)) :=
    submitted.tail (a := .append 1) (fun q hq => absurd hq List.not_mem_nil) rfl
  have created : Runs.Reachable World.step Clean World.Fresh (runOf (answeredActs.take 5)) :=
    (appended.tail (a := .submit 2 none) trivial rfl).tail (a := .created "r1") trivial rfl
  have event : Runs.Reachable World.step Clean World.Fresh (runOf answeredActs) := by
    refine created.tail (a := .event { eventType := .other }) (fun owner r h _ => ?_) rfl
    cases h
    exact ⟨by decide, .inl rfl⟩
  exact ⟨by decide +kernel, (events_stay_with_owner event).1⟩

/-- The first request is detached before its response was created, and a request that had passed
the retire check gets the gate. -/
def handoverActs : List Act :=
  [.submit 1 none, .acquireGate 1, .append 1, .submit 2 none, .detach 1, .acquireGate 2,
    .append 2, .created "r1", .event { eventType := .other, responseId := some "r1" }]

theorem detached_response_assigned_to_next :
    Runs.Reachable World.step Runs.Any World.Fresh (runOf handoverActs) ∧
      (runOf handoverActs).assigned = [⟨2, 1⟩] ∧
      (runOf handoverActs).delivered = [⟨2, 1⟩, ⟨2, 1⟩] :=
  ⟨Runs.reachable_of_replay handoverActs rfl (fun _ _ _ => trivial)
    (Runs.replay_eq_getD (by decide +kernel) {}), by decide +kernel, by decide +kernel⟩

end EventMatching
