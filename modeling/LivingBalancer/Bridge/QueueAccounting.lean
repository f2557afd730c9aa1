import Mathlib.Data.List.Basic
import Mathlib.Data.Nat.Notation
import LivingBalancer.Lib.Runs

/-!
# The queue of a bridge session

`queued_request_count` and `pending_requests`, one step for each section that runs under
`pending_lock`. Which requests an upstream event takes off the list is up to the event. The
session is followed until it is closed: by `_retire_http_bridge_after_drain_if_ready` here, and
the two paths that set the count to zero before they close it are left out.
-/

namespace BridgeQueue

structure Request where
  requestId : ℕ
  drainingUntilTerminal : Bool := false
  prewarm : Bool := false
  deriving DecidableEq

/-- The counters have their clamp at zero from `ℕ`; `clampFired` says that it was needed. -/
structure Session where
  pendingRequests : List Request := []
  queuedRequestCount : ℕ := 0
  admissionWaiterCount : ℕ := 0
  reconnectRequested : Bool := false
  retireAfterDrain : Bool := false
  clampFired : Bool := false

/-- `_http_bridge_request_counts_against_queue`. -/
def Request.countsAgainstQueue (r : Request) : Bool := !r.drainingUntilTerminal

/-- What the count is about: the requests that are neither draining nor prewarms. -/
def Request.counted (r : Request) : Bool := r.countsAgainstQueue && !r.prewarm

namespace Session

def find (s : Session) (id : ℕ) : Option Request :=
  s.pendingRequests.find? fun r => decide (r.requestId = id)

/-- `queued_request_count = max(0, queued_request_count - n)`. -/
def takeOff (s : Session) (n : ℕ) : Session :=
  { s with
    queuedRequestCount := s.queuedRequestCount - n
    clampFired := s.clampFired || decide (s.queuedRequestCount < n) }

def endAdmission (s : Session) : Session :=
  { s with
    admissionWaiterCount := s.admissionWaiterCount - 1
    clampFired := s.clampFired || decide (s.admissionWaiterCount < 1) }

def remove (s : Session) (id : ℕ) : Session :=
  { s with pendingRequests := s.pendingRequests.eraseP fun r => decide (r.requestId = id) }

def countsAgainstQueue (s : Session) : ℕ := s.pendingRequests.countP Request.countsAgainstQueue

/-! ## Submissions -/

/-- The queue-limit check of `_submit_http_bridge_request_with_handoff`. -/
def admitRequest (s : Session) (queueLimit : ℕ) : Option Session :=
  if queueLimit ≤ s.queuedRequestCount then none
  else some { s with
    queuedRequestCount := s.queuedRequestCount + 1
    admissionWaiterCount := s.admissionWaiterCount + 1 }

def append (s : Session) (request : Request) : Session :=
  { s with pendingRequests := s.pendingRequests ++ [request] }

/-- `_cleanup_http_bridge_submit_interruption`. -/
def cleanupSubmitInterruption (s : Session) (id : ℕ)
    (requestEnqueued countedInQueue admissionWaiterRegistered : Bool) : Session :=
  let s := if requestEnqueued then s.remove id else s
  let s := if countedInQueue then s.takeOff 1 else s
  if admissionWaiterRegistered then s.endAdmission else s

/-- The queue slot of a gate waiter that sleeps before its next attempt. -/
def occupySlot (s : Session) (queueLimit : ℕ) : Option Session :=
  if queueLimit ≤ s.queuedRequestCount then none
  else some { s with queuedRequestCount := s.queuedRequestCount + 1 }

/-! ## Detaching and retiring -/

def drainFirst (id : ℕ) : List Request → List Request
  | [] => []
  | r :: rest =>
    if r.requestId = id then { r with drainingUntilTerminal := true } :: rest
    else r :: drainFirst id rest

/-- The section of `_detach_http_bridge_request`. -/
def detach (s : Session) (id : ℕ) : Session :=
  if (s.find id).any Request.countsAgainstQueue then
    { (s.takeOff 1) with
      pendingRequests := drainFirst id s.pendingRequests
      reconnectRequested := true
      retireAfterDrain := true }
  else s

def drained (s : Session) : Bool :=
  s.reconnectRequested && s.retireAfterDrain && !s.pendingRequests.any Request.countsAgainstQueue &&
    decide (s.queuedRequestCount = 0)

/-! ## Upstream events -/

/-- A terminal event: its request goes, and counts if it is not draining. -/
def popTerminal (s : Session) (request : Request) : Session :=
  let s := s.remove request.requestId
  if request.countsAgainstQueue then s.takeOff 1 else s

/-- A grouped error: all requests that it matches go. -/
def popGrouped (s : Session) (ids : List ℕ) : Session :=
  let popped := s.pendingRequests.filter fun r => ids.contains r.requestId
  { s with pendingRequests := s.pendingRequests.filter fun r => !ids.contains r.requestId }.takeOff
    (popped.countP Request.countsAgainstQueue)

/-- An error without a type that no request is found for: the list is cleared. -/
def popAll (s : Session) : Session :=
  { s with pendingRequests := [] }.takeOff s.countsAgainstQueue

/-- A request that an event took off goes back to be sent again: in front for the precreated and
the auth retries, behind for the security-work retry. -/
def putBack (s : Session) (request : Request) (front : Bool) : Session :=
  if (s.find request.requestId).isSome then s
  else { s with
    pendingRequests :=
      if front then request :: s.pendingRequests else s.pendingRequests ++ [request]
    queuedRequestCount := s.queuedRequestCount + 1 }

/-- The retry has failed. -/
def takeBack (s : Session) (id : ℕ) : Session :=
  if (s.find id).isSome then (s.remove id).takeOff 1 else s

/-- The first section of `_fail_http_bridge_reader_and_maybe_retire`. -/
def discountPending (s : Session) : Session := s.takeOff s.countsAgainstQueue

/-- The section of `_fail_pending_websocket_requests`. -/
def clearPending (s : Session) : Session := { s with pendingRequests := [] }

end Session

/-! ## Runs -/

/-- Where the calls on the session are. `waiting`: behind the queue-limit check, neither appended
nor cleaned up. `sleeping`: the gate waiters between two attempts, which passed the check again.
`sending`: appended, the submit call has not returned. `held`: taken off by an event that the
reader works on, `retrying`: put back by it. `failing`: between the two sections of a reader
failure. `retired`: the session was drained. -/
structure World where
  session : Session := {}
  waiting : List ℕ := []
  sleeping : ℕ := 0
  sending : List ℕ := []
  held : List Request := []
  retrying : List ℕ := []
  failing : Bool := false
  retired : Bool := false

inductive Act where
  | submit (id queueLimit : ℕ)
  | append (id : ℕ)
  | sent (id : ℕ)
  | interrupt (id : ℕ)
  | sleep (queueLimit : ℕ)
  | wake
  | prewarm (id : ℕ)
  | endPrewarm (id : ℕ)
  | detach (id : ℕ)
  | retire
  | terminal (id : ℕ)
  | grouped (ids : List ℕ)
  | typeless
  | finish (id : ℕ)
  | putBack (id : ℕ) (front : Bool)
  | takeBack (id : ℕ)
  | retried (id : ℕ)
  | requestReconnect (retire : Bool)
  | failReader
  | failPending

/-- The reader is one task and fails under the lifecycle lock, which an append needs too: between
its two sections there is no event, no retry and no append. -/
def Act.excludedByFailure : Act → Bool
  | .append _ | .prewarm _ | .terminal _ | .grouped _ | .typeless | .finish _ | .putBack _ _
  | .takeBack _ | .retried _ | .failReader => true
  | _ => false

def World.fresh (w : World) (id : ℕ) : Bool :=
  !w.waiting.contains id && !w.sending.contains id && (w.session.find id).isNone &&
    w.held.all fun r => decide (r.requestId ≠ id)

def World.act (w : World) : Act → Option World
  | .submit id queueLimit =>
    if w.fresh id then
      match w.session.admitRequest queueLimit with
      | some s => some { w with session := s, waiting := id :: w.waiting }
      | none => some w
    else none
  | .append id =>
    if w.waiting.contains id then
      some { w with
        session := (w.session.append ⟨id, false, false⟩).endAdmission
        waiting := w.waiting.erase id
        sending := id :: w.sending }
    else none
  | .sent id => if w.sending.contains id then some { w with sending := w.sending.erase id } else none
  | .interrupt id =>
    if w.waiting.contains id then
      some { w with
        session := w.session.cleanupSubmitInterruption id false true true
        waiting := w.waiting.erase id }
    else if w.sending.contains id then
      some { w with
        session := w.session.cleanupSubmitInterruption id true true false
        sending := w.sending.erase id }
    else none
  | .sleep queueLimit =>
    match w.session.occupySlot queueLimit with
    | some s => some { w with session := s, sleeping := w.sleeping + 1 }
    | none => some w
  | .wake =>
    if 0 < w.sleeping then
      some { w with session := w.session.takeOff 1, sleeping := w.sleeping - 1 }
    else none
  | .prewarm id =>
    if w.fresh id then some { w with session := w.session.append ⟨id, false, true⟩ } else none
  | .endPrewarm id =>
    if (w.session.find id).all Request.prewarm then
      some { w with session := w.session.cleanupSubmitInterruption id true false false }
    else none
  | .detach id =>
    if (w.session.find id).all fun r => !r.prewarm then
      some { w with session := w.session.detach id }
    else none
  | .retire =>
    if w.session.drained then some { w with session := w.session.clearPending, retired := true }
    else some w
  | .terminal id =>
    (w.session.find id).map fun r =>
      { w with session := w.session.popTerminal r, held := r :: w.held }
  | .grouped ids =>
    some { w with
      session := w.session.popGrouped ids
      held := (w.session.pendingRequests.filter fun r => ids.contains r.requestId) ++ w.held }
  | .typeless =>
    some { w with
      session := w.session.popAll
      held := w.session.pendingRequests ++ w.held }
  | .finish id => some { w with held := w.held.filter fun r => decide (r.requestId ≠ id) }
  | .putBack id front =>
    (w.held.find? fun r => decide (r.requestId = id)).map fun r =>
      { w with
        session := w.session.putBack r front
        held := w.held.filter fun r => decide (r.requestId ≠ id)
        retrying := id :: w.retrying }
  | .takeBack id =>
    if w.retrying.contains id then
      some { w with
        session := w.session.takeBack id
        held := (w.session.find id).toList ++ w.held
        retrying := w.retrying.erase id }
    else none
  | .retried id =>
    if w.retrying.contains id then some { w with retrying := w.retrying.erase id } else none
  | .requestReconnect retire =>
    some { w with
      session := { w.session with
        reconnectRequested := true
        retireAfterDrain := w.session.retireAfterDrain || retire } }
  | .failReader => some { w with session := w.session.discountPending, failing := true }
  | .failPending =>
    if w.failing then some { w with session := w.session.clearPending, failing := false } else none

/-- Nothing happens on a session that was retired. -/
def World.step (w : World) (a : Act) : Option World :=
  if w.retired || (w.failing && a.excludedByFailure) then none else w.act a

def World.Fresh (w : World) : Prop := w = {}

/-- The submissions behind the queue-limit check that are neither appended nor cleaned up, and
the pending requests that are neither draining nor prewarms. -/
def World.demand (w : World) : ℕ :=
  w.waiting.length + w.sleeping + w.session.pendingRequests.countP Request.counted

/-- The request is pending and counted. -/
def Session.Counts (s : Session) (id : ℕ) : Prop := ∃ r, s.find id = some r ∧ r.counted = true

/-- No prewarm is taken off as a request, a request that is put back or taken back counts, the
cleanup of a sent request finds it, and nothing is taken off between the sections of a reader
failure. -/
def Clean (w : World) : Act → Prop
  | .interrupt id => w.waiting.contains id = false → w.session.Counts id ∧ w.failing = false
  | .detach id => (w.session.find id).any Request.countsAgainstQueue = true → w.failing = false
  | .terminal id => ∀ r, w.session.find id = some r → r.prewarm = false
  | .grouped ids => ∀ r ∈ w.session.pendingRequests, r.requestId ∈ ids → r.prewarm = false
  | .typeless | .failReader => ∀ r ∈ w.session.pendingRequests, r.prewarm = false
  | .putBack id _ => ∀ r ∈ w.held, r.requestId = id → r.counted = true
  | .takeBack id => (w.session.find id).isSome = true → w.session.Counts id
  | _ => True

/-! ## Counting -/

theorem countP_eraseP {p q : Request → Bool} {l : List Request} {r : Request}
    (h : l.find? q = some r) : (l.eraseP q).countP p + (if p r then 1 else 0) = l.countP p := by
  induction l with
  | nil => cases h
  | cons x rest ih =>
    by_cases hx : q x = true
    · rw [List.find?_cons_of_pos hx] at h
      cases h
      rw [List.eraseP_cons_of_pos hx, List.countP_cons]
    · rw [List.find?_cons_of_neg hx] at h
      rw [List.eraseP_cons_of_neg hx, List.countP_cons, List.countP_cons, ← ih h]
      omega

theorem countP_drainFirst {id : ℕ} {l : List Request} {r : Request}
    (h : l.find? (fun r => decide (r.requestId = id)) = some r) :
    (Session.drainFirst id l).countP Request.counted + (if r.counted then 1 else 0) =
      l.countP Request.counted := by
  induction l with
  | nil => cases h
  | cons x rest ih =>
    by_cases hx : x.requestId = id
    · rw [List.find?_cons_of_pos (by simpa using hx)] at h
      cases h
      rw [Session.drainFirst, if_pos hx, List.countP_cons, List.countP_cons]
      simp [Request.counted, Request.countsAgainstQueue]
    · rw [List.find?_cons_of_neg (by simpa using hx)] at h
      rw [Session.drainFirst, if_neg hx, List.countP_cons, List.countP_cons, ← ih h]
      omega

/-- Among requests that are no prewarms the queue counts what it is about. -/
theorem countP_of_no_prewarm {l : List Request} (h : ∀ r ∈ l, r.prewarm = false) :
    l.countP Request.countsAgainstQueue = l.countP Request.counted := by
  apply List.countP_congr
  intro r hr
  simp [Request.counted, h r hr]

theorem counted_of_no_prewarm {r : Request} (h : r.prewarm = false) :
    r.counted = r.countsAgainstQueue := by
  simp [Request.counted, h]

/-! ## The invariant -/

/-- The count, the waiters and the clamp, for `n` submissions that wait, `m` gate waiters that
sleep and `k` counted requests. -/
structure Tally (s : Session) (n m k : ℕ) : Prop where
  count : s.queuedRequestCount = n + m + k
  admission : s.admissionWaiterCount = n
  clamp : s.clampFired = false

/-- Between its two sections a reader failure has discounted the requests that are still there. -/
def World.Booked (w : World) : Prop :=
  Tally w.session w.waiting.length w.sleeping
    (if w.failing then 0 else w.session.pendingRequests.countP Request.counted)

theorem Tally.takeOff {s : Session} {n m k k' : ℕ} (t : Tally s n m k) {off : ℕ}
    (h : k' + off = k) : Tally (s.takeOff off) n m k' where
  count := by
    have := t.count
    simp only [Session.takeOff]
    omega
  admission := t.admission
  clamp := by
    have := t.count
    simp only [Session.takeOff, t.clamp, Bool.false_or, decide_eq_false_iff_not]
    omega

theorem Tally.leaveWaiting {s : Session} {n m k : ℕ} (t : Tally s (n + 1) m k) :
    Tally ((s.takeOff 1).endAdmission) n m k where
  count := by
    have := t.count
    simp only [Session.takeOff, Session.endAdmission]
    omega
  admission := by
    have := t.admission
    simp only [Session.takeOff, Session.endAdmission]
    omega
  clamp := by
    have hcount := t.count
    have hadmission := t.admission
    simp only [Session.takeOff, Session.endAdmission, t.clamp, Bool.false_or,
      Bool.or_eq_false_iff, decide_eq_false_iff_not]
    omega

theorem Tally.startSending {s : Session} {n m k : ℕ} (t : Tally s (n + 1) m k) (r : Request) :
    Tally (s.append r).endAdmission n m (k + 1) where
  count := by
    have := t.count
    simp only [Session.append, Session.endAdmission]
    omega
  admission := by
    have := t.admission
    simp only [Session.append, Session.endAdmission]
    omega
  clamp := by
    have := t.admission
    simp only [Session.append, Session.endAdmission, t.clamp, Bool.false_or,
      decide_eq_false_iff_not]
    omega

theorem Tally.wake {s : Session} {n m k : ℕ} (t : Tally s n (m + 1) k) :
    Tally (s.takeOff 1) n m k where
  count := by
    have := t.count
    simp only [Session.takeOff]
    omega
  admission := t.admission
  clamp := by
    have := t.count
    simp only [Session.takeOff, t.clamp, Bool.false_or, decide_eq_false_iff_not]
    omega

/-- The list and the two flags of the upstream do not matter to the tally. -/
theorem Tally.of_counters {s s' : Session} {n m k : ℕ} (t : Tally s n m k)
    (count : s'.queuedRequestCount = s.queuedRequestCount)
    (admission : s'.admissionWaiterCount = s.admissionWaiterCount)
    (clamp : s'.clampFired = s.clampFired) : Tally s' n m k :=
  ⟨count ▸ t.count, admission ▸ t.admission, clamp ▸ t.clamp⟩

theorem World.booked_fresh {w : World} (h : w.Fresh) : w.Booked := by
  subst h
  exact ⟨rfl, rfl, rfl⟩

theorem length_erase_contains {l : List ℕ} {id : ℕ} (h : l.contains id = true) :
    l.length = (l.erase id).length + 1 := by
  have member : id ∈ l := by simpa using h
  have := List.length_pos_of_mem member
  rw [List.length_erase_of_mem member]
  omega

/-! ## What each section keeps -/

section Sections

variable {s : Session} {n m : ℕ}

/-- The tally of a session outside a reader failure. -/
def Session.Tallied (s : Session) (n m : ℕ) : Prop :=
  Tally s n m (s.pendingRequests.countP Request.counted)

theorem Session.Tallied.remove_uncounted (t : s.Tallied n m) {id : ℕ}
    (h : ∀ r, s.find id = some r → r.counted = false) : (s.remove id).Tallied n m := by
  cases found : s.find id with
  | none =>
    have same : (s.remove id).pendingRequests = s.pendingRequests :=
      List.eraseP_of_forall_not fun r hr => List.find?_eq_none.mp found r hr
    unfold Session.Tallied
    rw [same]
    exact Tally.of_counters t rfl rfl rfl
  | some r =>
    have off := countP_eraseP (p := Request.counted) found
    rw [h r found] at off
    unfold Session.Tallied
    have same : (s.remove id).pendingRequests.countP Request.counted =
        s.pendingRequests.countP Request.counted := by simpa [Session.remove] using off
    rw [same]
    exact Tally.of_counters t rfl rfl rfl

theorem Session.Tallied.remove_counted (t : s.Tallied n m) {id : ℕ} (h : s.Counts id) :
    ((s.remove id).takeOff 1).Tallied n m := by
  obtain ⟨r, found, counted⟩ := h
  have off := countP_eraseP (p := Request.counted) found
  rw [if_pos counted] at off
  have removed : Tally (s.remove id) n m _ := Tally.of_counters t rfl rfl rfl
  exact removed.takeOff off

theorem Session.Tallied.popTerminal (t : s.Tallied n m) {r : Request} {id : ℕ}
    (found : s.find id = some r) (regular : r.prewarm = false) :
    (s.popTerminal r).Tallied n m := by
  have same : r.requestId = id := by simpa using List.find?_some found
  subst same
  unfold Session.popTerminal
  by_cases counts : r.countsAgainstQueue = true
  · rw [if_pos counts]
    exact t.remove_counted ⟨r, found, (counted_of_no_prewarm regular).trans counts⟩
  · rw [if_neg counts]
    refine t.remove_uncounted fun r' found' => ?_
    rw [found] at found'
    cases found'
    rw [counted_of_no_prewarm regular]
    exact Bool.eq_false_iff.mpr counts

theorem Session.Tallied.popGrouped (t : s.Tallied n m) {ids : List ℕ}
    (regular : ∀ r ∈ s.pendingRequests, r.requestId ∈ ids → r.prewarm = false) :
    (s.popGrouped ids).Tallied n m := by
  have popped : (s.pendingRequests.filter fun r => ids.contains r.requestId).countP
      Request.countsAgainstQueue =
      (s.pendingRequests.filter fun r => ids.contains r.requestId).countP Request.counted :=
    countP_of_no_prewarm fun r hr => by
      obtain ⟨pending, named⟩ := List.mem_filter.mp hr
      exact regular r pending (by simpa using named)
  have split := List.countP_eq_countP_filter_add s.pendingRequests Request.counted
    fun r => ids.contains r.requestId
  have removed : Tally { s with
      pendingRequests := s.pendingRequests.filter fun r => !ids.contains r.requestId } n m _ :=
    Tally.of_counters t rfl rfl rfl
  refine removed.takeOff ?_
  rw [popped, split, Nat.add_comm]
  rfl

theorem Session.Tallied.popAll (t : s.Tallied n m)
    (regular : ∀ r ∈ s.pendingRequests, r.prewarm = false) : s.popAll.Tallied n m := by
  have removed : Tally { s with pendingRequests := [] } n m _ :=
    Tally.of_counters t rfl rfl rfl
  refine removed.takeOff ?_
  rw [Session.countsAgainstQueue, countP_of_no_prewarm regular]
  exact Nat.zero_add _

theorem Session.Tallied.putBack (t : s.Tallied n m) {r : Request} (counted : r.counted = true)
    (front : Bool) : (s.putBack r front).Tallied n m := by
  unfold Session.putBack
  split
  · exact t
  · have count := t.count
    refine ⟨?_, t.admission, t.clamp⟩
    cases front <;> simp [counted, count] <;> omega

theorem Session.Tallied.takeBack (t : s.Tallied n m) {id : ℕ}
    (h : (s.find id).isSome = true → s.Counts id) : (s.takeBack id).Tallied n m := by
  unfold Session.takeBack
  split
  · rename_i found
    exact t.remove_counted (h found)
  · exact t

theorem Session.Tallied.detach (t : s.Tallied n m) {id : ℕ}
    (regular : (s.find id).all (fun r => !r.prewarm) = true) : (s.detach id).Tallied n m := by
  unfold Session.detach
  split
  · rename_i counts
    cases found : s.find id with
    | none =>
      rw [found] at counts
      exact absurd counts Bool.false_ne_true
    | some r =>
      rw [found] at counts regular
      have counted : r.counted = true := by
        rw [counted_of_no_prewarm (by simpa using regular)]
        exact counts
      have off := countP_drainFirst found
      rw [if_pos counted] at off
      exact Tally.of_counters (Tally.takeOff t off) rfl rfl rfl
  · exact t

end Sections

theorem World.booked_open {w : World} (open_ : w.failing = false) :
    w.Booked ↔ w.session.Tallied w.waiting.length w.sleeping := by
  simp [World.Booked, Session.Tallied, open_]

theorem World.Booked.of_tallied {w : World} (open_ : w.failing = false)
    (t : w.session.Tallied w.waiting.length w.sleeping) : w.Booked :=
  (World.booked_open open_).mpr t

/-- A step that touches neither the counters nor the requests that count. -/
theorem World.Booked.of_session {w : World} {s : Session} (booked : w.Booked)
    (count : s.queuedRequestCount = w.session.queuedRequestCount)
    (admission : s.admissionWaiterCount = w.session.admissionWaiterCount)
    (clamp : s.clampFired = w.session.clampFired)
    (counted : s.pendingRequests.countP Request.counted =
      w.session.pendingRequests.countP Request.counted) :
    Tally s w.waiting.length w.sleeping
      (if w.failing then 0 else s.pendingRequests.countP Request.counted) := by
  rw [counted]
  exact Tally.of_counters booked count admission clamp

attribute [local simp] World.act

theorem World.Booked.interrupt {w w' : World} {id : ℕ} (booked : w.Booked)
    (clean : Clean w (.interrupt id)) (h : w.act (.interrupt id) = some w') : w'.Booked := by
  simp only [World.act] at h
  split at h
  · rename_i waits
    cases h
    unfold World.Booked at booked ⊢
    rw [length_erase_contains waits] at booked
    exact booked.leaveWaiting
  · rename_i out
    obtain ⟨counts, open_⟩ := clean (Bool.eq_false_iff.mpr out)
    split at h
    swap
    · cases h
    cases h
    rw [World.booked_open open_] at booked
    refine World.Booked.of_tallied open_ ?_
    exact booked.remove_counted counts

theorem World.Booked.detach {w w' : World} {id : ℕ} (booked : w.Booked)
    (clean : Clean w (.detach id)) (h : w.act (.detach id) = some w') : w'.Booked := by
  simp only [World.act] at h
  split at h
  swap
  · cases h
  rename_i regular
  cases h
  by_cases counts : (w.session.find id).any Request.countsAgainstQueue = true
  · have open_ := clean counts
    rw [World.booked_open open_] at booked
    refine World.Booked.of_tallied open_ ?_
    exact booked.detach regular
  · have same : w.session.detach id = w.session := by rw [Session.detach, if_neg counts]
    rw [World.Booked, same]
    exact booked

theorem World.Booked.retire {w w' : World} (booked : w.Booked)
    (h : w.act .retire = some w') : w'.Booked := by
  simp only [World.act] at h
  split at h
  · rename_i drained
    cases h
    simp only [Session.drained, Bool.and_eq_true, Bool.not_eq_true', decide_eq_true_eq] at drained
    have none_counts := drained.1.2
    refine booked.of_session rfl rfl rfl ?_
    rw [Session.clearPending, List.countP_nil, eq_comm, List.countP_eq_zero]
    intro r hr counted
    have := List.any_eq_false.mp none_counts r hr
    simp [Request.counted] at counted
    exact this counted.1
  · cases h
    exact booked

theorem World.Booked.failPending {w w' : World} (booked : w.Booked)
    (h : w.act .failPending = some w') : w'.Booked := by
  simp only [World.act] at h
  split at h
  swap
  · cases h
  rename_i failing
  cases h
  unfold World.Booked at booked ⊢
  rw [if_pos failing] at booked
  exact Tally.of_counters booked rfl rfl rfl

theorem World.Booked.failReader {w w' : World} (booked : w.Booked) (open_ : w.failing = false)
    (clean : Clean w .failReader) (h : w.act .failReader = some w') : w'.Booked := by
  cases h
  rw [World.booked_open open_] at booked
  refine Tally.takeOff booked ?_
  rw [Session.countsAgainstQueue, countP_of_no_prewarm clean]
  exact Nat.zero_add _

/-- The sections of the submit calls and of the gate waiters that go in. -/
theorem World.Booked.enter {w : World} {s : Session} (booked : w.Booked) {n m : ℕ}
    (count : s.queuedRequestCount = w.session.queuedRequestCount + 1)
    (admission : s.admissionWaiterCount = n)
    (clamp : s.clampFired = w.session.clampFired)
    (pending : s.pendingRequests = w.session.pendingRequests)
    (more : n + m = w.waiting.length + w.sleeping + 1) :
    Tally s n m (if w.failing then 0 else s.pendingRequests.countP Request.counted) where
  count := by
    have := booked.count
    rw [pending]
    omega
  admission := admission
  clamp := clamp.trans booked.clamp

theorem World.Booked.submit {w w' : World} {id queueLimit : ℕ} (booked : w.Booked)
    (h : w.act (.submit id queueLimit) = some w') : w'.Booked := by
  simp only [World.act, Session.admitRequest] at h
  split at h
  swap
  · cases h
  split at h
  · rename_i s admitted
    split at admitted
    · cases admitted
    cases admitted
    cases h
    exact booked.enter rfl (congrArg (· + 1) booked.admission) rfl rfl (by simp; omega)
  · cases h
    exact booked

theorem World.Booked.sleep {w w' : World} {queueLimit : ℕ} (booked : w.Booked)
    (h : w.act (.sleep queueLimit) = some w') : w'.Booked := by
  simp only [World.act, Session.occupySlot] at h
  split at h
  · rename_i s admitted
    split at admitted
    · cases admitted
    cases admitted
    cases h
    exact booked.enter rfl booked.admission rfl rfl rfl
  · cases h
    exact booked

theorem World.Booked.append {w w' : World} {id : ℕ} (booked : w.Booked) (open_ : w.failing = false)
    (h : w.act (.append id) = some w') : w'.Booked := by
  simp only [World.act] at h
  split at h
  swap
  · cases h
  rename_i waits
  cases h
  rw [World.booked_open open_, length_erase_contains waits] at booked
  refine World.Booked.of_tallied open_ ?_
  have appended : (w.session.append ⟨id, false, false⟩).endAdmission.pendingRequests.countP
      Request.counted = w.session.pendingRequests.countP Request.counted + 1 := by
    simp [Session.append, Session.endAdmission, Request.counted, Request.countsAgainstQueue]
  unfold Session.Tallied
  rw [appended]
  exact Tally.startSending booked _

theorem World.Booked.step {w w' : World} {a : Act} (booked : w.Booked) (clean : Clean w a)
    (h : w.step a = some w') : w'.Booked := by
  unfold World.step at h
  split at h
  · cases h
  rename_i going
  have open_ : a.excludedByFailure = true → w.failing = false := fun excluded => by
    cases failing : w.failing with
    | false => rfl
    | true => simp [failing, excluded] at going
  cases a with
  | submit id queueLimit => exact booked.submit h
  | append id => exact booked.append (open_ rfl) h
  | sent id =>
    simp only [World.act] at h
    split at h
    · cases h
      exact booked
    · cases h
  | interrupt id => exact booked.interrupt clean h
  | sleep queueLimit => exact booked.sleep h
  | wake =>
    simp only [World.act] at h
    split at h
    swap
    · cases h
    rename_i awake
    cases h
    have one_more : w.sleeping = w.sleeping - 1 + 1 := by omega
    unfold World.Booked at booked ⊢
    rw [one_more] at booked
    exact booked.wake
  | prewarm id =>
    simp only [World.act] at h
    split at h
    swap
    · cases h
    cases h
    exact booked.of_session rfl rfl rfl
      (by simp [Session.append, Request.counted, Request.countsAgainstQueue])
  | endPrewarm id =>
    simp only [World.act] at h
    split at h
    swap
    · cases h
    rename_i regular
    cases h
    have uncounted : ∀ r, w.session.find id = some r → r.counted = false := fun r found => by
      rw [found] at regular
      simp [Request.counted, show r.prewarm = true from regular]
    cases failing : w.failing with
    | true =>
      unfold World.Booked at booked ⊢
      rw [if_pos failing] at booked
      exact Tally.of_counters booked rfl rfl rfl
    | false =>
      rw [World.booked_open failing] at booked
      exact booked.remove_uncounted uncounted
  | detach id => exact booked.detach clean h
  | retire => exact booked.retire h
  | terminal id =>
    obtain ⟨r, found, rfl⟩ := Option.map_eq_some_iff.mp h
    rw [World.booked_open (open_ rfl)] at booked
    refine World.Booked.of_tallied (open_ rfl) ?_
    exact booked.popTerminal found (clean r found)
  | grouped ids =>
    cases h
    rw [World.booked_open (open_ rfl)] at booked
    refine World.Booked.of_tallied (open_ rfl) ?_
    exact booked.popGrouped clean
  | typeless =>
    cases h
    rw [World.booked_open (open_ rfl)] at booked
    refine World.Booked.of_tallied (open_ rfl) ?_
    exact booked.popAll clean
  | finish id =>
    cases h
    exact booked
  | putBack id front =>
    obtain ⟨r, found, rfl⟩ := Option.map_eq_some_iff.mp h
    rw [World.booked_open (open_ rfl)] at booked
    refine World.Booked.of_tallied (open_ rfl) ?_
    exact booked.putBack
      (clean r (List.mem_of_find?_eq_some found) (by simpa using List.find?_some found)) front
  | takeBack id =>
    simp only [World.act] at h
    split at h
    swap
    · cases h
    cases h
    rw [World.booked_open (open_ rfl)] at booked
    refine World.Booked.of_tallied (open_ rfl) ?_
    exact booked.takeBack clean
  | retried id =>
    simp only [World.act] at h
    split at h
    · cases h
      exact booked
    · cases h
  | requestReconnect retire =>
    cases h
    exact booked.of_session rfl rfl rfl rfl
  | failReader => exact booked.failReader (open_ rfl) clean h
  | failPending => exact booked.failPending h

/-- In a run of clean steps the count is what it is about, so a submission is refused exactly
when the queue is full, no clamp fires, and a session with a waiting submission is not drained.
Between the two sections of a reader failure the count lacks the requests that are being failed. -/
theorem queue_accounting {w : World} (run : Runs.Reachable World.step Clean World.Fresh w) :
    w.session.clampFired = false ∧
      (w.failing = false → w.session.queuedRequestCount = w.demand ∧
        ∀ queueLimit, w.session.admitRequest queueLimit = none ↔ queueLimit ≤ w.demand) ∧
      (w.failing = true → w.session.queuedRequestCount = w.waiting.length + w.sleeping) ∧
      (w.session.drained = true → w.waiting = []) := by
  have booked : w.Booked := run.invariant (fun _ => World.booked_fresh)
    fun _ _ _ booked clean h => booked.step clean h
  have count := booked.count
  refine ⟨booked.clamp, fun open_ => ?_, fun failing => ?_, fun drained => ?_⟩
  · have exact_ : w.session.queuedRequestCount = w.demand := by simpa [World.demand, open_] using count
    refine ⟨exact_, fun queueLimit => ?_⟩
    unfold Session.admitRequest
    rw [exact_]
    split <;> simp_all
  · simpa [failing] using count
  · simp only [Session.drained, Bool.and_eq_true, decide_eq_true_eq] at drained
    apply List.eq_nil_of_length_eq_zero
    omega

def runOf (acts : List Act) : World := (Runs.replay World.step {} acts).getD {}

/-- Two requests are sent; then one is detached, the other answered, and a third one waits. -/
def sentActs : List Act := [.submit 1 8, .append 1, .sent 1, .submit 2 8, .append 2, .sent 2]

theorem queue_accounting_detached :
    (runOf (sentActs ++ [.detach 2, .terminal 1, .submit 3 8])).session.queuedRequestCount = 1 ∧
      (runOf (sentActs ++ [.detach 2, .terminal 1, .submit 3 8])).demand = 1 := by
  have clean : ∀ w, ∀ a ∈ sentActs, Clean w a := by simp [sentActs, Clean]
  have sent : Runs.Reachable World.step Clean World.Fresh (runOf sentActs) :=
    Runs.reachable_of_replay sentActs rfl clean rfl
  have detached : Runs.Reachable World.step Clean World.Fresh (runOf (sentActs ++ [.detach 2])) :=
    sent.tail (a := .detach 2) (fun _ => rfl) rfl
  have answered : Runs.Reachable World.step Clean World.Fresh
      (runOf (sentActs ++ [.detach 2, .terminal 1])) := by
    refine detached.tail (a := .terminal 1) (fun r found => ?_) rfl
    cases found
    rfl
  have waits : Runs.Reachable World.step Clean World.Fresh
      (runOf (sentActs ++ [.detach 2, .terminal 1, .submit 3 8])) :=
    answered.tail (a := .submit 3 8) trivial rfl
  have count := ((queue_accounting waits).2.1 rfl).1
  exact ⟨count, rfl⟩

/-- A prewarm that is answered takes the slot of another request. -/
def prewarmActs : List Act := [.submit 1 8, .append 1, .sent 1, .prewarm 2, .terminal 2]

theorem prewarm_takes_a_slot :
    Runs.Reachable World.step Runs.Any World.Fresh (runOf prewarmActs) ∧
      (runOf prewarmActs).failing = false ∧
      (runOf prewarmActs).session.queuedRequestCount = 0 ∧ (runOf prewarmActs).demand = 1 :=
  ⟨Runs.reachable_of_replay prewarmActs rfl (fun _ _ _ => trivial) rfl, rfl, rfl, rfl⟩

end BridgeQueue
