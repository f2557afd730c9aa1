import Mathlib.Algebra.Order.Ring.Rat
import Mathlib.Data.List.Nodup
import Mathlib.Logic.Function.Basic
import LivingBalancer.Lib.Runs

/-!
# Generations of the HTTP client

The process shares one HTTP client, replaces it when the network changes, and leases it to the
requests that use it. What a function does under `_http_client_lock` is one step; building a
client holds the lock and changes nothing when it fails. A lease that is closed waits for the
lock before it is released, and its task may be cancelled there. A close task is any number of
steps apart from the callback that takes its client off the list.
-/

namespace HttpClients

open Runs

/-- A session of a client, which is told by its generation. -/
structure Session where
  generation : ℕ
  websocket : Bool
  deriving DecidableEq

/-- `_ManagedHttpClient`. -/
structure ManagedHttpClient where
  activeLeases : ℤ := 0
  closeRequested : Bool := false
  /-- `close_task is not None`. -/
  closeTask : Bool := false
  /-- The event `closed`. -/
  closed : Bool := false

/-- A lease is `closing` while it waits for the lock, and `dropped` when it is cancelled there. -/
inductive LeaseStage where
  | «open»
  | closing
  | released
  | dropped
  deriving DecidableEq

structure HttpClientLease where
  managedClient : ℕ
  stage : LeaseStage
  deriving DecidableEq

/-- Clients are numbered as they are built. `tasks` lists the clients of the close tasks. -/
structure Pool where
  clients : ℕ → ManagedHttpClient
  built : ℕ
  httpClient : Option ℕ
  retired : List ℕ
  closing : List ℕ
  tasks : List ℕ
  leases : List HttpClientLease
  lastGenerationlessRotationAt : Option ℚ
  clock : ℚ

/-- `_GENERATIONLESS_NETWORK_ROTATION_COOLDOWN_SECONDS`. -/
def generationlessRotationCooldownSeconds : ℚ := 1

namespace Pool

def setClient (p : Pool) (c : ℕ) (m : ManagedHttpClient) : Pool :=
  { p with clients := Function.update p.clients c m }

def startClientCloseLocked (p : Pool) (c : ℕ) : Pool :=
  if (p.clients c).closeTask then p
  else
    { p.setClient c { p.clients c with closeTask := true } with
      retired := p.retired.erase c
      closing := p.closing ++ [c]
      tasks := p.tasks ++ [c] }

def requestClientCloseLocked (p : Pool) (c : ℕ) (force : Bool) : Pool :=
  let p := p.setClient c { p.clients c with closeRequested := true }
  if 0 < (p.clients c).activeLeases ∧ force = false then
    if c ∈ p.retired then p else { p with retired := p.retired ++ [c] }
  else p.startClientCloseLocked c

/-- `_release_http_client`, and whether it raises that there was no lease. -/
def releaseHttpClient (p : Pool) (c : ℕ) : Pool × Bool :=
  let p := p.setClient c { p.clients c with activeLeases := (p.clients c).activeLeases - 1 }
  if (p.clients c).activeLeases < 0 then (p, true)
  else if (p.clients c).closeRequested ∧ (p.clients c).activeLeases = 0 then
    (p.startClientCloseLocked c, false)
  else (p, false)

/-- `acquire_http_client`; `none` when there is no client. -/
def acquireHttpClient (p : Pool) : Option Pool :=
  p.httpClient.map fun c =>
    { p.setClient c { p.clients c with activeLeases := (p.clients c).activeLeases + 1 } with
      leases := p.leases ++ [⟨c, .open⟩] }

/-- A client that was built becomes the current one. -/
def install (p : Pool) : Pool :=
  { p with httpClient := some p.built, built := p.built + 1 }

def initHttpClient (p : Pool) : Pool :=
  match p.httpClient with
  | some _ => p
  | none => p.install

def refreshHttpClient (p : Pool) : Pool :=
  match p.httpClient with
  | some previous => p.install.requestClientCloseLocked previous false
  | none => p.install

end Pool

/-- The answers of `refresh_http_client_after_network_failure`. -/
inductive Rotation where
  | notInitialized
  | alreadyRotated
  | coalesced
  | rotated
  deriving DecidableEq

namespace Pool

def refreshAfterNetworkFailure (p : Pool) (failedSession : Option Session) (now : ℚ) :
    Pool × Rotation :=
  match p.httpClient with
  | none => (p, .notInitialized)
  | some current =>
    if ∃ session ∈ failedSession, session ≠ ⟨current, false⟩ ∧ session ≠ ⟨current, true⟩ then
      (p, .alreadyRotated)
    else if failedSession = none ∧ ∃ last ∈ p.lastGenerationlessRotationAt,
        now - last < generationlessRotationCooldownSeconds then
      (p, .coalesced)
    else
      ({ p.install with lastGenerationlessRotationAt := some now }.requestClientCloseLocked
        current false, .rotated)

/-- `close_http_client`, and the clients that its caller waits for. -/
def closeHttpClient (p : Pool) : Pool × List ℕ :=
  let clients := p.httpClient.toList ++ p.retired ++ p.closing
  (clients.foldl (fun p c => p.requestClientCloseLocked c true)
    { p with httpClient := none, lastGenerationlessRotationAt := none }, clients)

def setLease (p : Pool) (l : ℕ) (lease : HttpClientLease) : Pool :=
  { p with leases := p.leases.set l lease }

end Pool

inductive Act where
  | initHttpClient
  | refreshHttpClient
  | refreshAfterNetworkFailure (failedSession : Option Session) (now : ℚ)
  | acquire
  | closeLease (l : ℕ)
  | release (l : ℕ)
  | cancelRelease (l : ℕ)
  | finishClose (c : ℕ)
  | completeClose (c : ℕ)
  | closeHttpClient

def step (p : Pool) : Act → Option Pool
  | .initHttpClient => some p.initHttpClient
  | .refreshHttpClient => some p.refreshHttpClient
  | .refreshAfterNetworkFailure failedSession now =>
    if p.clock ≤ now then
      some (({ p with clock := now }.refreshAfterNetworkFailure failedSession now).1)
    else none
  | .acquire => p.acquireHttpClient
  | .closeLease l =>
    match p.leases[l]? with
    | some ⟨c, .open⟩ => some (p.setLease l ⟨c, .closing⟩)
    | some _ => some p
    | none => none
  | .release l =>
    match p.leases[l]? with
    | some ⟨c, .closing⟩ => some ((p.setLease l ⟨c, .released⟩).releaseHttpClient c).1
    | _ => none
  | .cancelRelease l =>
    match p.leases[l]? with
    | some ⟨c, .closing⟩ => some (p.setLease l ⟨c, .dropped⟩)
    | _ => none
  | .finishClose c =>
    if c ∈ p.tasks then some (p.setClient c { p.clients c with closed := true }) else none
  | .completeClose c =>
    if (p.clients c).closed then some { p with closing := p.closing.erase c } else none
  | .closeHttpClient => some p.closeHttpClient.1

/-- Before the first client. -/
def Pool.empty (clock : ℚ) : Pool where
  clients _ := {}
  built := 0
  httpClient := none
  retired := []
  closing := []
  tasks := []
  leases := []
  lastGenerationlessRotationAt := none
  clock := clock

def Start (p : Pool) : Prop := ∃ clock, p = Pool.empty clock

/-! ## Where a client stands -/

/-- A lease of the client that is not released. -/
def Holds (c : ℕ) (lease : HttpClientLease) : Prop :=
  lease.managedClient = c ∧ lease.stage ≠ .released

instance (c : ℕ) (lease : HttpClientLease) : Decidable (Holds c lease) :=
  inferInstanceAs (Decidable (_ ∧ _))

namespace Pool

variable (p : Pool) (c : ℕ)

def unreleased : ℕ := p.leases.countP fun lease => decide (Holds c lease)

def Current : Prop :=
  p.httpClient = some c ∧ (p.clients c).closeRequested = false ∧
    (p.clients c).closeTask = false ∧ (p.clients c).closed = false ∧
    c ∉ p.retired ∧ c ∉ p.closing ∧ c ∉ p.tasks

def Retired : Prop :=
  p.httpClient ≠ some c ∧ (p.clients c).closeRequested = true ∧
    (p.clients c).closeTask = false ∧ (p.clients c).closed = false ∧
    c ∈ p.retired ∧ c ∉ p.closing ∧ c ∉ p.tasks ∧ 0 < p.unreleased c

def Closing : Prop :=
  p.httpClient ≠ some c ∧ (p.clients c).closeRequested = true ∧
    (p.clients c).closeTask = true ∧ c ∉ p.retired ∧ c ∈ p.tasks ∧
    (c ∈ p.closing ∨ (p.clients c).closed = true)

/-- A client stands in one place: it is the current one, waits for its leases, or is closed by
its task. -/
def Placed : Prop := p.Current c ∨ p.Retired c ∨ p.Closing c

end Pool

structure Books (p : Pool) : Prop where
  counted : ∀ c, (p.clients c).activeLeases = p.unreleased c
  known : ∀ lease ∈ p.leases, lease.managedClient < p.built
  current_built : ∀ c, p.httpClient = some c → c < p.built
  listed_built : ∀ c, c ∈ p.retired ∨ c ∈ p.closing ∨ c ∈ p.tasks → c < p.built
  unbuilt : ∀ c, p.built ≤ c → p.clients c = {}
  retired_once : p.retired.Nodup
  closing_once : p.closing.Nodup
  tasks_once : p.tasks.Nodup

structure Sound (p : Pool) : Prop extends Books p where
  placed : ∀ c < p.built, p.Placed c

/-! ## What the locked parts do -/

/-- What asking for a close never touches. -/
structure Untouched (p q : Pool) : Prop where
  built : q.built = p.built
  httpClient : q.httpClient = p.httpClient
  leases : q.leases = p.leases
  last : q.lastGenerationlessRotationAt = p.lastGenerationlessRotationAt
  clock : q.clock = p.clock
  closed : ∀ c, (q.clients c).closed = (p.clients c).closed

theorem Untouched.refl (p : Pool) : Untouched p p := ⟨rfl, rfl, rfl, rfl, rfl, fun _ => rfl⟩

theorem Untouched.trans {p q r : Pool} (first : Untouched p q) (second : Untouched q r) :
    Untouched p r where
  built := second.built.trans first.built
  httpClient := second.httpClient.trans first.httpClient
  leases := second.leases.trans first.leases
  last := second.last.trans first.last
  clock := second.clock.trans first.clock
  closed c := (second.closed c).trans (first.closed c)

theorem setClient_untouched (p : Pool) {c : ℕ} {m : ManagedHttpClient}
    (same : m.closed = (p.clients c).closed) : Untouched p (p.setClient c m) where
  built := rfl
  httpClient := rfl
  leases := rfl
  last := rfl
  clock := rfl
  closed c' := by
    by_cases here : c' = c
    · subst here
      simp only [Pool.setClient, Function.update_self, same]
    · simp only [Pool.setClient, Function.update_of_ne here]

theorem startClientCloseLocked_untouched (p : Pool) (c : ℕ) :
    Untouched p (p.startClientCloseLocked c) := by
  rw [Pool.startClientCloseLocked]
  split
  · exact .refl p
  · have marked := setClient_untouched p (c := c) (m := { p.clients c with closeTask := true }) rfl
    exact ⟨rfl, rfl, rfl, rfl, rfl, marked.closed⟩

theorem requestClientCloseLocked_untouched (p : Pool) (c : ℕ) (force : Bool) :
    Untouched p (p.requestClientCloseLocked c force) := by
  have asked := setClient_untouched p (c := c) (m := { p.clients c with closeRequested := true }) rfl
  simp only [Pool.requestClientCloseLocked]
  split
  · split
    · exact asked
    · exact ⟨rfl, rfl, rfl, rfl, rfl, asked.closed⟩
  · exact asked.trans (startClientCloseLocked_untouched _ c)

theorem releaseHttpClient_untouched (p : Pool) (c : ℕ) : Untouched p (p.releaseHttpClient c).1 := by
  have counted := setClient_untouched p (c := c)
    (m := { p.clients c with activeLeases := (p.clients c).activeLeases - 1 }) rfl
  simp only [Pool.releaseHttpClient]
  split
  · exact counted
  · split
    · exact counted.trans (startClientCloseLocked_untouched _ c)
    · exact counted

/-- Nothing that says where a client stands has changed. -/
structure SameAt (p q : Pool) (c : ℕ) : Prop where
  client : q.clients c = p.clients c
  current : q.httpClient = some c ↔ p.httpClient = some c
  retired : c ∈ q.retired ↔ c ∈ p.retired
  closing : c ∈ q.closing ↔ c ∈ p.closing
  tasks : c ∈ q.tasks ↔ c ∈ p.tasks
  unreleased : q.unreleased c = p.unreleased c

theorem SameAt.trans {p q r : Pool} {c : ℕ} (first : SameAt p q c) (second : SameAt q r c) :
    SameAt p r c where
  client := second.client.trans first.client
  current := second.current.trans first.current
  retired := second.retired.trans first.retired
  closing := second.closing.trans first.closing
  tasks := second.tasks.trans first.tasks
  unreleased := second.unreleased.trans first.unreleased

section Same

variable {p q : Pool} {c : ℕ}

theorem SameAt.placed (same : SameAt p q c) (h : p.Placed c) : q.Placed c := by
  simpa only [Pool.Placed, Pool.Current, Pool.Retired, Pool.Closing, ne_eq, same.client,
    same.current, same.retired, same.closing, same.tasks, same.unreleased] using h

theorem SameAt.closing_iff (same : SameAt p q c) : q.Closing c ↔ p.Closing c := by
  simp only [Pool.Closing, ne_eq, same.client, same.current, same.retired, same.closing, same.tasks]

end Same

section Locked

variable {p : Pool} {c : ℕ}

theorem Books.setClient (books : Books p) (hc : c < p.built) {m : ManagedHttpClient}
    (same : m.activeLeases = (p.clients c).activeLeases) : Books (p.setClient c m) where
  counted c' := by
    by_cases here : c' = c
    · subst here
      simp only [Pool.setClient, Function.update_self, same]
      exact books.counted c'
    · simp only [Pool.setClient, Function.update_of_ne here]
      exact books.counted c'
  known := books.known
  current_built := books.current_built
  listed_built := books.listed_built
  unbuilt c' high := by
    have other : c' ≠ c := fun same => absurd (same ▸ hc) (Nat.not_lt_of_le high)
    simp only [Pool.setClient, Function.update_of_ne other]
    exact books.unbuilt c' high
  retired_once := books.retired_once
  closing_once := books.closing_once
  tasks_once := books.tasks_once

theorem setClient_same {m : ManagedHttpClient} {c' : ℕ} (other : c' ≠ c) :
    SameAt p (p.setClient c m) c' where
  client := by simp only [Pool.setClient, Function.update_of_ne other]
  current := Iff.rfl
  retired := Iff.rfl
  closing := Iff.rfl
  tasks := Iff.rfl
  unreleased := rfl

/-- What a close task is started from: a client that is no longer handed out, and that either has
its task already or is on neither list of such clients. -/
def Closable (p : Pool) (c : ℕ) : Prop :=
  p.Closing c ∨ p.httpClient ≠ some c ∧ (p.clients c).closeTask = false ∧
    (p.clients c).closed = false ∧ c ∉ p.closing ∧ c ∉ p.tasks

/-- What the part of one client in a step leaves alone. -/
structure Frame (p q : Pool) (c : ℕ) : Prop extends Untouched p q where
  others : ∀ c', c' ≠ c → SameAt p q c'

theorem startClientCloseLocked_spec (books : Books p) (hc : c < p.built)
    (asked : (p.clients c).closeRequested = true) (closable : Closable p c) :
    Books (p.startClientCloseLocked c) ∧ (p.startClientCloseLocked c).Closing c ∧
      Frame p (p.startClientCloseLocked c) c := by
  have untouched := startClientCloseLocked_untouched p c
  rw [Pool.startClientCloseLocked] at untouched ⊢
  rcases closable with closing | ⟨old, unstarted, -, not_closing, no_task⟩
  · rw [if_pos closing.2.2.1]
    exact ⟨books, closing, ⟨.refl p, fun _ _ => ⟨rfl, Iff.rfl, Iff.rfl, Iff.rfl, Iff.rfl, rfl⟩⟩⟩
  · rw [if_neg (by simp [unstarted])] at untouched ⊢
    have marked := books.setClient (m := { p.clients c with closeTask := true }) hc rfl
    refine ⟨⟨marked.counted, marked.known, marked.current_built, ?_, marked.unbuilt,
      books.retired_once.erase c, ?_, ?_⟩, ?_, ⟨untouched, fun c' other => ?_⟩⟩
    · rintro c' (retired | closing | task)
      · exact books.listed_built c' (Or.inl (List.mem_of_mem_erase retired))
      · rcases List.mem_append.mp closing with earlier | new
        · exact books.listed_built c' (Or.inr (Or.inl earlier))
        · exact List.mem_singleton.mp new ▸ hc
      · rcases List.mem_append.mp task with earlier | new
        · exact books.listed_built c' (Or.inr (Or.inr earlier))
        · exact List.mem_singleton.mp new ▸ hc
    · exact books.closing_once.append (List.nodup_singleton c) (by simpa using not_closing)
    · exact books.tasks_once.append (List.nodup_singleton c) (by simpa using no_task)
    · refine ⟨old, ?_, ?_, books.retired_once.not_mem_erase, by simp, Or.inl (by simp)⟩
      · simp [Pool.setClient, asked]
      · simp [Pool.setClient]
    · refine ⟨Function.update_of_ne other _ p.clients, Iff.rfl, ?_, ?_, ?_, rfl⟩
      · exact List.mem_erase_of_ne other
      · simp [other]
      · simp [other]

theorem Frame.trans {q r : Pool} (first : Frame p q c) (second : Frame q r c) : Frame p r c where
  toUntouched := first.toUntouched.trans second.toUntouched
  others c' other := (first.others c' other).trans (second.others c' other)

/-- The client is asked to close. -/
def Pool.ask (p : Pool) (c : ℕ) : Pool :=
  p.setClient c { p.clients c with closeRequested := true }

theorem ask_frame : Frame p (p.ask c) c := ⟨setClient_untouched p rfl, fun _ => setClient_same⟩

theorem ask_closeRequested : ((p.ask c).clients c).closeRequested = true := by
  simp [Pool.ask, Pool.setClient]

theorem ask_activeLeases : ((p.ask c).clients c).activeLeases = (p.clients c).activeLeases := by
  simp [Pool.ask, Pool.setClient]

theorem Closable.ask (closable : Closable p c) : Closable (p.ask c) c := by
  rcases closable with ⟨old, -, started, lists⟩ | ⟨old, unstarted, unclosed, lists⟩
  · refine Or.inl ⟨old, ask_closeRequested, ?_, lists.1, lists.2.1, ?_⟩
    · simpa [Pool.ask, Pool.setClient] using started
    · simpa [Pool.ask, Pool.setClient] using lists.2.2
  · refine Or.inr ⟨old, ?_, ?_, lists⟩
    · simpa [Pool.ask, Pool.setClient] using unstarted
    · simpa [Pool.ask, Pool.setClient] using unclosed

/-- A client that must close does. -/
theorem requestClientCloseLocked_forced (books : Books p) (hc : c < p.built)
    (closable : Closable p c) :
    Books (p.requestClientCloseLocked c true) ∧ (p.requestClientCloseLocked c true).Closing c ∧
      Frame p (p.requestClientCloseLocked c true) c := by
  have starts : p.requestClientCloseLocked c true = (p.ask c).startClientCloseLocked c := by
    simp [Pool.requestClientCloseLocked, Pool.ask]
  obtain ⟨books', closing, frame⟩ := startClientCloseLocked_spec (p := p.ask c)
    (books.setClient hc rfl) hc ask_closeRequested closable.ask
  rw [starts]
  exact ⟨books', closing, ask_frame.trans frame⟩

/-- A client that is replaced waits for its leases, and closes at once when it has none. -/
theorem requestClientCloseLocked_replaced (books : Books p) (hc : c < p.built)
    (old : p.httpClient ≠ some c) (unstarted : (p.clients c).closeTask = false)
    (unclosed : (p.clients c).closed = false)
    (unlisted : c ∉ p.retired ∧ c ∉ p.closing ∧ c ∉ p.tasks) :
    Books (p.requestClientCloseLocked c false) ∧
      ((p.requestClientCloseLocked c false).Retired c ∨
        (p.requestClientCloseLocked c false).Closing c ∧ p.unreleased c = 0) ∧
      Frame p (p.requestClientCloseLocked c false) c := by
  have asked := books.setClient (m := { p.clients c with closeRequested := true }) hc rfl
  have counted := books.counted c
  by_cases leased : 0 < (p.clients c).activeLeases
  · have waits : p.requestClientCloseLocked c false =
        { p.ask c with retired := p.retired ++ [c] } := by
      rw [← ask_activeLeases] at leased
      exact (if_pos ⟨leased, rfl⟩).trans (if_neg unlisted.1)
    have untouched := requestClientCloseLocked_untouched p c false
    rw [waits] at untouched ⊢
    refine ⟨⟨asked.counted, asked.known, asked.current_built, ?_, asked.unbuilt, ?_,
      asked.closing_once, asked.tasks_once⟩, Or.inl ?_, ⟨untouched, fun c' other => ?_⟩⟩
    · rintro c' (retired | listed)
      · rcases List.mem_append.mp retired with earlier | new
        · exact books.listed_built c' (Or.inl earlier)
        · exact List.mem_singleton.mp new ▸ hc
      · exact books.listed_built c' (Or.inr listed)
    · exact books.retired_once.append (List.nodup_singleton c) (by simpa using unlisted.1)
    · refine ⟨old, ask_closeRequested, ?_, ?_, by simp, unlisted.2.1, unlisted.2.2, ?_⟩
      · simpa [Pool.ask, Pool.setClient] using unstarted
      · simpa [Pool.ask, Pool.setClient] using unclosed
      · change 0 < p.unreleased c
        omega
    · refine ⟨Function.update_of_ne other _ p.clients, Iff.rfl, ?_, Iff.rfl, Iff.rfl, rfl⟩
      simp [other]
  · have starts : p.requestClientCloseLocked c false = (p.ask c).startClientCloseLocked c := by
      rw [← ask_activeLeases] at leased
      exact if_neg fun both => leased both.1
    have closable : Closable p c := Or.inr ⟨old, unstarted, unclosed, unlisted.2⟩
    obtain ⟨books', closing, frame⟩ := startClientCloseLocked_spec (p := p.ask c)
      (books.setClient hc rfl) hc ask_closeRequested closable.ask
    rw [starts]
    exact ⟨books', Or.inr ⟨closing, by omega⟩, ask_frame.trans frame⟩

end Locked

/-! ## Every step keeps the books -/

/-- `q` is `p` with a client just built as the current one. -/
structure Installed (p q : Pool) : Prop where
  clients : q.clients = p.clients
  built : q.built = p.built + 1
  httpClient : q.httpClient = some p.built
  retired : q.retired = p.retired
  closing : q.closing = p.closing
  tasks : q.tasks = p.tasks
  leases : q.leases = p.leases

section Steps

variable {p q : Pool}

theorem Pool.unreleased_eq (same : q.leases = p.leases) (c : ℕ) : q.unreleased c = p.unreleased c := by
  rw [Pool.unreleased, Pool.unreleased, same]

theorem Installed.books (h : Installed p q) (books : Books p) : Books q where
  counted c := by
    rw [h.clients, Pool.unreleased_eq h.leases]
    exact books.counted c
  known := by
    rw [h.leases, h.built]
    exact fun lease mem => Nat.lt_succ_of_lt (books.known lease mem)
  current_built := by
    rw [h.httpClient, h.built]
    rintro _ ⟨⟩
    exact Nat.lt_succ_self _
  listed_built := by
    rw [h.retired, h.closing, h.tasks, h.built]
    exact fun c listed => Nat.lt_succ_of_lt (books.listed_built c listed)
  unbuilt := by
    rw [h.clients, h.built]
    exact fun c high => books.unbuilt c (Nat.le_of_succ_le high)
  retired_once := h.retired ▸ books.retired_once
  closing_once := h.closing ▸ books.closing_once
  tasks_once := h.tasks ▸ books.tasks_once

theorem Installed.current (h : Installed p q) (books : Books p) : q.Current p.built := by
  have unbuilt := books.unbuilt p.built le_rfl
  have unlisted : ∀ {l : List ℕ}, (∀ c ∈ l, c < p.built) → p.built ∉ l :=
    fun below mem => Nat.lt_irrefl _ (below _ mem)
  refine ⟨h.httpClient, ?_, ?_, ?_, ?_, ?_, ?_⟩
  · rw [h.clients, unbuilt]
  · rw [h.clients, unbuilt]
  · rw [h.clients, unbuilt]
  · rw [h.retired]
    exact unlisted fun c mem => books.listed_built c (Or.inl mem)
  · rw [h.closing]
    exact unlisted fun c mem => books.listed_built c (Or.inr (Or.inl mem))
  · rw [h.tasks]
    exact unlisted fun c mem => books.listed_built c (Or.inr (Or.inr mem))

theorem Installed.sameAt (h : Installed p q) {c : ℕ} (hc : c < p.built)
    (old : p.httpClient ≠ some c) : SameAt p q c where
  client := by rw [h.clients]
  current := by
    rw [h.httpClient]
    exact ⟨fun same => absurd (Option.some.inj same) hc.ne', fun same => absurd same old⟩
  retired := by rw [h.retired]
  closing := by rw [h.closing]
  tasks := by rw [h.tasks]
  unreleased := Pool.unreleased_eq h.leases c

theorem Installed.sound (h : Installed p q) (sound : Sound p) (first : p.httpClient = none) :
    Sound q where
  toBooks := h.books sound.toBooks
  placed c hc := by
    rw [h.built] at hc
    by_cases new : c = p.built
    · exact new ▸ Or.inl (h.current sound.toBooks)
    · have low : c < p.built := by omega
      exact (h.sameAt low (by simp [first])).placed (sound.placed c low)

/-- The client that is replaced is asked to close. -/
theorem Installed.replaced (h : Installed p q) (sound : Sound p) {c : ℕ}
    (current : p.httpClient = some c) :
    Sound (q.requestClientCloseLocked c false) ∧
      ((q.requestClientCloseLocked c false).Retired c ∨
        (q.requestClientCloseLocked c false).Closing c ∧ p.unreleased c = 0) ∧
      (q.requestClientCloseLocked c false).Current p.built ∧
      Frame q (q.requestClientCloseLocked c false) c := by
  have hc := sound.current_built c current
  have was : p.Current c := by
    rcases sound.placed c hc with now | ⟨old, -⟩ | ⟨old, -⟩
    · exact now
    · exact absurd current old
    · exact absurd current old
  obtain ⟨-, -, unstarted, unclosed, unlisted⟩ := was
  have old : q.httpClient ≠ some c := by
    rw [h.httpClient]
    exact fun same => absurd (Option.some.inj same) hc.ne'
  rw [← h.clients] at unstarted unclosed
  rw [← h.retired, ← h.closing, ← h.tasks] at unlisted
  have books := h.books sound.toBooks
  obtain ⟨books', there, frame⟩ := requestClientCloseLocked_replaced books
    (h.built ▸ Nat.lt_succ_of_lt hc) old unstarted unclosed unlisted
  rw [Pool.unreleased_eq h.leases] at there
  have newest : (q.requestClientCloseLocked c false).Current p.built := by
    have same := frame.others p.built hc.ne'
    obtain ⟨now, asked, started, closed, lists⟩ := h.current sound.toBooks
    refine ⟨same.current.mpr now, ?_, ?_, ?_, ?_, ?_, ?_⟩
    · rw [same.client, asked]
    · rw [same.client, started]
    · rw [same.client, closed]
    · rw [same.retired]
      exact lists.1
    · rw [same.closing]
      exact lists.2.1
    · rw [same.tasks]
      exact lists.2.2
  refine ⟨⟨books', fun c' hc' => ?_⟩, there, newest, frame⟩
  rw [frame.built, h.built] at hc'
  by_cases here : c' = c
  · rw [here]
    exact Or.inr (there.imp_right And.left)
  · by_cases new : c' = p.built
    · exact new ▸ Or.inl newest
    · have low : c' < p.built := by omega
      have stayed : p.httpClient ≠ some c' := by
        rw [current]
        exact fun same => here (Option.some.inj same).symm
      exact (frame.others c' here).placed ((h.sameAt low stayed).placed (sound.placed c' low))

/-- The times are no part of the books. -/
theorem Sound.atTime (sound : Sound p) (last : Option ℚ) (clock : ℚ) :
    Sound { p with lastGenerationlessRotationAt := last, clock := clock } :=
  ⟨⟨sound.counted, sound.known, sound.current_built, sound.listed_built, sound.unbuilt,
    sound.retired_once, sound.closing_once, sound.tasks_once⟩, sound.placed⟩

theorem Sound.initHttpClient (sound : Sound p) : Sound p.initHttpClient := by
  cases current : p.httpClient with
  | none =>
    rw [Pool.initHttpClient, current]
    exact (⟨rfl, rfl, rfl, rfl, rfl, rfl, rfl⟩ : Installed p p.install).sound sound current
  | some c =>
    rw [Pool.initHttpClient, current]
    exact sound

theorem Sound.refreshHttpClient (sound : Sound p) : Sound p.refreshHttpClient := by
  have installed : Installed p p.install := ⟨rfl, rfl, rfl, rfl, rfl, rfl, rfl⟩
  cases current : p.httpClient with
  | none =>
    rw [Pool.refreshHttpClient, current]
    exact installed.sound sound current
  | some c =>
    rw [Pool.refreshHttpClient, current]
    exact (installed.replaced sound current).1

/-- A reported failure rotates the current client, or changes nothing. -/
theorem refreshAfterNetworkFailure_cases (failedSession : Option Session) (now : ℚ) :
    ((p.refreshAfterNetworkFailure failedSession now).1 = p ∧
      (p.refreshAfterNetworkFailure failedSession now).2 ≠ .rotated) ∨
    ∃ c, p.httpClient = some c ∧ (∀ session ∈ failedSession, session.generation = c) ∧
      (failedSession = none → ∀ last ∈ p.lastGenerationlessRotationAt,
        generationlessRotationCooldownSeconds ≤ now - last) ∧
      p.refreshAfterNetworkFailure failedSession now =
        ({ p.install with lastGenerationlessRotationAt := some now }.requestClientCloseLocked
          c false, .rotated) := by
  unfold Pool.refreshAfterNetworkFailure
  cases current : p.httpClient with
  | none => exact Or.inl ⟨rfl, by simp⟩
  | some c =>
    dsimp only
    split_ifs with other early
    · exact Or.inl ⟨rfl, by simp⟩
    · exact Or.inl ⟨rfl, by simp⟩
    · refine Or.inr ⟨c, rfl, fun session given => ?_, fun blind last known => ?_, rfl⟩
      · by_contra differs
        refine other ⟨session, given, ?_, ?_⟩
        · rintro rfl
          exact differs rfl
        · rintro rfl
          exact differs rfl
      · by_contra soon
        exact early ⟨blind, last, known, lt_of_not_ge soon⟩

theorem Sound.refreshAfterNetworkFailure (sound : Sound p) (failedSession : Option Session)
    (now : ℚ) : Sound (p.refreshAfterNetworkFailure failedSession now).1 := by
  rcases refreshAfterNetworkFailure_cases failedSession now with ⟨same, -⟩ | ⟨c, current, -, -, same⟩
  · rw [same]
    exact sound
  · rw [same]
    have installed : Installed p { p.install with lastGenerationlessRotationAt := some now } :=
      ⟨rfl, rfl, rfl, rfl, rfl, rfl, rfl⟩
    exact (installed.replaced sound current).1

end Steps

/-! ## Leases -/

section Leases

variable {p : Pool} {l : ℕ} {old new : HttpClientLease}

/-- A lease that is written changes the count by what it held and what it holds. -/
theorem unreleased_setLease (found : p.leases[l]? = some old) (c : ℕ) :
    (p.setLease l new).unreleased c =
      p.unreleased c - (if Holds c old then 1 else 0) + if Holds c new then 1 else 0 := by
  obtain ⟨inside, rfl⟩ := List.getElem?_eq_some_iff.mp found
  simp only [Pool.unreleased, Pool.setLease, List.countP_set inside, decide_eq_true_eq]

theorem unreleased_pos {c : ℕ} (found : p.leases[l]? = some old) (holds : Holds c old) :
    0 < p.unreleased c :=
  List.countP_pos_iff.mpr ⟨old, List.mem_of_getElem? found, decide_eq_true holds⟩

theorem unreleased_kept (found : p.leases[l]? = some old) {c : ℕ}
    (same : Holds c new ↔ Holds c old) : (p.setLease l new).unreleased c = p.unreleased c := by
  rw [unreleased_setLease found]
  by_cases holds : Holds c old
  · have := unreleased_pos found holds
    rw [if_pos holds, if_pos (same.mpr holds)]
    omega
  · rw [if_neg holds, if_neg fun h => holds (same.mp h)]
    omega

theorem setLease_known (sound : Sound p) (found : p.leases[l]? = some old)
    (same : new.managedClient = old.managedClient) :
    ∀ lease ∈ (p.setLease l new).leases, lease.managedClient < p.built := by
  intro lease mem
  rcases List.mem_or_eq_of_mem_set mem with earlier | rfl
  · exact sound.known lease earlier
  · rw [same]
    exact sound.known old (List.mem_of_getElem? found)

/-- Writing a lease that stays unreleased changes nothing else. -/
theorem Sound.setLease (sound : Sound p) (found : p.leases[l]? = some old)
    (same : new.managedClient = old.managedClient) (held : old.stage ≠ .released)
    (holds : new.stage ≠ .released) : Sound (p.setLease l new) := by
  have kept : ∀ c, (p.setLease l new).unreleased c = p.unreleased c := fun c =>
    unreleased_kept found (by simp [Holds, same, held, holds])
  refine ⟨⟨fun c => ?_, setLease_known sound found same, sound.current_built, sound.listed_built,
    sound.unbuilt, sound.retired_once, sound.closing_once, sound.tasks_once⟩, fun c hc => ?_⟩
  · rw [kept]
    exact sound.counted c
  · have unchanged : SameAt p (p.setLease l new) c :=
      ⟨rfl, Iff.rfl, Iff.rfl, Iff.rfl, Iff.rfl, kept c⟩
    exact unchanged.placed (sound.placed c hc)

theorem Sound.acquireHttpClient (sound : Sound p) {q : Pool} (h : p.acquireHttpClient = some q) :
    Sound q := by
  obtain ⟨c, current, rfl⟩ := Option.map_eq_some_iff.mp h
  have hc := sound.current_built c current
  have added : ∀ c', ({ p.setClient c { p.clients c with
      activeLeases := (p.clients c).activeLeases + 1 } with
      leases := p.leases ++ [⟨c, .open⟩] } : Pool).unreleased c' =
        p.unreleased c' + if c = c' then 1 else 0 := by
    intro c'
    simp [Pool.unreleased, Holds]
  refine ⟨⟨fun c' => ?_, ?_, sound.current_built, sound.listed_built, fun c' high => ?_,
    sound.retired_once, sound.closing_once, sound.tasks_once⟩, fun c' hc' => ?_⟩
  · rw [added]
    by_cases here : c' = c
    · subst here
      simp [Pool.setClient, sound.counted]
    · simp [Pool.setClient, here, Ne.symm here, sound.counted]
  · intro lease mem
    rcases List.mem_append.mp mem with earlier | last
    · exact sound.known lease earlier
    · rw [List.mem_singleton.mp last]
      exact hc
  · have other : c' ≠ c := fun same => absurd (same ▸ hc) (Nat.not_lt_of_le high)
    simp only [Pool.setClient, Function.update_of_ne other]
    exact sound.unbuilt c' high
  · by_cases here : c' = c
    · subst here
      rcases sound.placed c' hc' with now | ⟨old, -⟩ | ⟨old, -⟩
      · refine Or.inl ?_
        simpa [Pool.Current, Pool.setClient] using now
      · exact absurd current old
      · exact absurd current old
    · have unchanged : SameAt p { p.setClient c { p.clients c with
          activeLeases := (p.clients c).activeLeases + 1 } with
          leases := p.leases ++ [⟨c, .open⟩] } c' := by
        refine ⟨?_, Iff.rfl, Iff.rfl, Iff.rfl, Iff.rfl, ?_⟩
        · simp only [Pool.setClient, Function.update_of_ne here]
        · rw [added, if_neg (Ne.symm here), Nat.add_zero]
      exact unchanged.placed (sound.placed c' hc')

end Leases

section Release

variable {p : Pool} {c : ℕ}

/-- A count of leases that includes one more than the leases there are: the state in which
`_release_http_client` runs, its lease written as released. -/
structure Releasing (p : Pool) (c : ℕ) : Prop where
  here : (p.clients c).activeLeases = p.unreleased c + 1
  others : ∀ c', c' ≠ c → (p.clients c').activeLeases = p.unreleased c'

theorem releasing_of_closing (sound : Sound p) {l : ℕ} (found : p.leases[l]? = some ⟨c, .closing⟩) :
    Releasing (p.setLease l ⟨c, .released⟩) c := by
  have held : Holds c ⟨c, .closing⟩ := ⟨rfl, by simp⟩
  have counted : ∀ c', ((p.setLease l ⟨c, .released⟩).clients c').activeLeases = p.unreleased c' :=
    sound.counted
  constructor
  · have some_lease := unreleased_pos found held
    rw [counted, unreleased_setLease found, if_pos held, if_neg (by simp [Holds])]
    omega
  · intro c' other
    rw [counted, unreleased_kept found (by simp [Holds, Ne.symm other])]

/-- A release never finds that there was no lease. -/
theorem releaseHttpClient_eq (releasing : Releasing p c) :
    p.releaseHttpClient c =
      (if (p.clients c).closeRequested ∧ p.unreleased c = 0 then
        (p.setClient c { p.clients c with activeLeases := p.unreleased c }).startClientCloseLocked c
      else p.setClient c { p.clients c with activeLeases := p.unreleased c }, false) := by
  have left : (p.clients c).activeLeases - 1 = p.unreleased c := by
    rw [releasing.here]
    omega
  have nonneg : ¬ ((p.unreleased c : ℤ) < 0) := by omega
  simp only [Pool.releaseHttpClient, Pool.setClient, Function.update_self, left, nonneg, if_false,
    Int.natCast_eq_zero]
  split <;> rfl

/-- The books with the lease taken off, before a close task is started. -/
def Pool.settle (p : Pool) (l c : ℕ) : Pool :=
  (p.setLease l ⟨c, .released⟩).setClient c
    { p.clients c with activeLeases := (p.setLease l ⟨c, .released⟩).unreleased c }

theorem settle_books (sound : Sound p) {l : ℕ} (found : p.leases[l]? = some ⟨c, .closing⟩) :
    Books (p.settle l c) where
  counted c' := by
    by_cases here : c' = c
    · subst here
      simp only [Pool.settle, Pool.setClient, Function.update_self]
      rfl
    · simp only [Pool.settle, Pool.setClient, Function.update_of_ne here]
      exact (releasing_of_closing sound found).others c' here
  known := setLease_known sound found rfl
  current_built := sound.current_built
  listed_built := sound.listed_built
  unbuilt c' high := by
    have hc : c < p.built := sound.known _ (List.mem_of_getElem? found)
    have other : c' ≠ c := fun same => absurd (same ▸ hc) (Nat.not_lt_of_le high)
    simp only [Pool.settle, Pool.setClient, Function.update_of_ne other]
    exact sound.unbuilt c' high
  retired_once := sound.retired_once
  closing_once := sound.closing_once
  tasks_once := sound.tasks_once

theorem settle_same {l c' : ℕ} (found : p.leases[l]? = some ⟨c, .closing⟩) (other : c' ≠ c) :
    SameAt p (p.settle l c) c' where
  client := by simp only [Pool.settle, Pool.setClient, Function.update_of_ne other]; rfl
  current := Iff.rfl
  retired := Iff.rfl
  closing := Iff.rfl
  tasks := Iff.rfl
  unreleased := unreleased_kept found (by simp [Holds, Ne.symm other])

/-- The last lease of a client that was replaced closes it. -/
theorem Sound.release (sound : Sound p) {l : ℕ} (found : p.leases[l]? = some ⟨c, .closing⟩) :
    Sound ((p.setLease l ⟨c, .released⟩).releaseHttpClient c).1 := by
  have hc : c < p.built := sound.known _ (List.mem_of_getElem? found)
  have books := settle_books sound found
  have flags : ((p.settle l c).clients c).closeRequested = (p.clients c).closeRequested ∧
      ((p.settle l c).clients c).closeTask = (p.clients c).closeTask ∧
      ((p.settle l c).clients c).closed = (p.clients c).closed := by
    simp [Pool.settle, Pool.setClient]
  have others : ∀ c' < p.built, c' ≠ c → (p.settle l c).Placed c' := fun c' hc' other =>
    (settle_same found other).placed (sound.placed c' hc')
  rw [releaseHttpClient_eq (releasing_of_closing sound found)]
  change Sound (if (p.clients c).closeRequested ∧ (p.settle l c).unreleased c = 0 then
    (p.settle l c).startClientCloseLocked c else p.settle l c)
  split_ifs with last
  · have closable : Closable (p.settle l c) c := by
      rcases sound.placed c hc with ⟨-, current, -⟩ | retired | closing
      · rw [last.1] at current
        cases current
      · obtain ⟨old, -, unstarted, unclosed, -, lists⟩ := retired
        exact Or.inr ⟨old, flags.2.1.trans unstarted, flags.2.2.trans unclosed, lists.1, lists.2.1⟩
      · refine Or.inl ?_
        simp only [Pool.Closing, flags]
        exact closing
    obtain ⟨books', closing, frame⟩ := startClientCloseLocked_spec books hc
      (flags.1.trans last.1) closable
    refine ⟨books', fun c' hc' => ?_⟩
    rw [frame.built] at hc'
    by_cases here : c' = c
    · rw [here]
      exact Or.inr (Or.inr closing)
    · exact (frame.others c' here).placed (others c' hc' here)
  · refine ⟨books, fun c' hc' => ?_⟩
    by_cases here : c' = c
    · subst here
      rcases sound.placed c' hc with current | retired | closing
      · refine Or.inl ?_
        simp only [Pool.Current, flags]
        exact current
      · have more : 0 < (p.settle l c').unreleased c' :=
          Nat.pos_of_ne_zero fun none_left => last ⟨retired.2.1, none_left⟩
        obtain ⟨old, asked, unstarted, unclosed, listed, lists⟩ := retired
        exact Or.inr (Or.inl ⟨old, flags.1.trans asked, flags.2.1.trans unstarted,
          flags.2.2.trans unclosed, listed, lists.1, lists.2.1, more⟩)
      · refine Or.inr (Or.inr ?_)
        simp only [Pool.Closing, flags]
        exact closing
    · exact others c' hc' here

end Release

/-! ## Closing -/

section Close

variable {p : Pool} {c : ℕ}

theorem Sound.closing_of_task (sound : Sound p) (task : c ∈ p.tasks) : p.Closing c := by
  rcases sound.placed c (sound.listed_built c (Or.inr (Or.inr task))) with current | retired | closing
  · exact absurd task current.2.2.2.2.2.2
  · exact absurd task retired.2.2.2.2.2.2.1
  · exact closing

theorem Sound.closing_of_closed (sound : Sound p) (closed : (p.clients c).closed = true) :
    p.Closing c := by
  have hc : c < p.built := by
    by_contra high
    rw [sound.unbuilt c (Nat.le_of_not_lt high)] at closed
    cases closed
  rcases sound.placed c hc with current | retired | closing
  · rw [current.2.2.2.1] at closed
    cases closed
  · rw [retired.2.2.2.1] at closed
    cases closed
  · exact closing

theorem Sound.finishClose (sound : Sound p) (task : c ∈ p.tasks) :
    Sound (p.setClient c { p.clients c with closed := true }) := by
  refine ⟨sound.setClient (sound.listed_built c (Or.inr (Or.inr task))) rfl, fun c' hc' => ?_⟩
  by_cases here : c' = c
  · subst here
    obtain ⟨old, asked, started, unlisted, -, -⟩ := sound.closing_of_task task
    refine Or.inr (Or.inr ⟨old, ?_, ?_, unlisted, task, Or.inr ?_⟩)
    · simpa [Pool.setClient] using asked
    · simpa [Pool.setClient] using started
    · simp [Pool.setClient]
  · exact (setClient_same here).placed (sound.placed c' hc')

theorem Sound.completeClose (sound : Sound p) (closed : (p.clients c).closed = true) :
    Sound { p with closing := p.closing.erase c } := by
  refine ⟨⟨sound.counted, sound.known, sound.current_built, ?_, sound.unbuilt, sound.retired_once,
    sound.closing_once.erase c, sound.tasks_once⟩, fun c' hc' => ?_⟩
  · rintro c' (retired | closing | task)
    · exact sound.listed_built c' (Or.inl retired)
    · exact sound.listed_built c' (Or.inr (Or.inl (List.mem_of_mem_erase closing)))
    · exact sound.listed_built c' (Or.inr (Or.inr task))
  · by_cases here : c' = c
    · subst here
      obtain ⟨old, asked, started, unlisted, task, -⟩ := sound.closing_of_closed closed
      exact Or.inr (Or.inr ⟨old, asked, started, unlisted, task, Or.inr closed⟩)
    · have unchanged : SameAt p { p with closing := p.closing.erase c } c' :=
        ⟨rfl, Iff.rfl, Iff.rfl, List.mem_erase_of_ne here, Iff.rfl, rfl⟩
      exact unchanged.placed (sound.placed c' hc')

/-- During a shutdown: a client that is not closing is still to be asked. -/
structure ShuttingDown (p : Pool) (todo : List ℕ) : Prop extends Books p where
  no_current : p.httpClient = none
  closable : ∀ c < p.built, Closable p c
  rest : ∀ c < p.built, p.Closing c ∨ c ∈ todo
  known_todo : ∀ c ∈ todo, c < p.built

theorem ShuttingDown.next {todo : List ℕ} (h : ShuttingDown p (c :: todo)) :
    ShuttingDown (p.requestClientCloseLocked c true) todo ∧
      Frame p (p.requestClientCloseLocked c true) c := by
  have hc := h.known_todo c List.mem_cons_self
  obtain ⟨books, closing, frame⟩ := requestClientCloseLocked_forced h.toBooks hc (h.closable c hc)
  refine ⟨⟨books, frame.httpClient.trans h.no_current, fun c' hc' => ?_, fun c' hc' => ?_,
    fun c' mem => ?_⟩, frame⟩
  · rw [frame.built] at hc'
    by_cases here : c' = c
    · exact Or.inl (here ▸ closing)
    · have same := frame.others c' here
      rcases h.closable c' hc' with closing | idle
      · exact Or.inl (same.closing_iff.mpr closing)
      · refine Or.inr ?_
        simpa only [ne_eq, same.client, same.current, same.closing, same.tasks] using idle
  · rw [frame.built] at hc'
    by_cases here : c' = c
    · exact Or.inl (here ▸ closing)
    · exact (h.rest c' hc').imp (frame.others c' here).closing_iff.mpr
        fun mem => (List.mem_cons.mp mem).resolve_left here
  · rw [frame.built]
    exact h.known_todo c' (List.mem_cons_of_mem c mem)

theorem ShuttingDown.fold {todo : List ℕ} (h : ShuttingDown p todo) :
    ShuttingDown (todo.foldl (fun p c => p.requestClientCloseLocked c true) p) [] ∧
      (todo.foldl (fun p c => p.requestClientCloseLocked c true) p).built = p.built ∧
      (todo.foldl (fun p c => p.requestClientCloseLocked c true) p).leases = p.leases := by
  induction todo generalizing p with
  | nil => exact ⟨h, rfl, rfl⟩
  | cons c todo ih =>
    obtain ⟨next, frame⟩ := h.next
    obtain ⟨done, built, leases⟩ := ih next
    exact ⟨done, built.trans frame.built, leases.trans frame.leases⟩

theorem Sound.shuttingDown (sound : Sound p) :
    ShuttingDown { p with httpClient := none, lastGenerationlessRotationAt := none }
      (p.httpClient.toList ++ p.retired ++ p.closing) := by
  have none_current : ∀ c, ¬ (none : Option ℕ) = some c := fun c h => by cases h
  refine ⟨⟨sound.counted, sound.known, fun c h => absurd h (none_current c), sound.listed_built,
    sound.unbuilt, sound.retired_once, sound.closing_once, sound.tasks_once⟩, rfl,
    fun c hc => ?_, fun c hc => ?_, fun c mem => ?_⟩
  · rcases sound.placed c hc with current | retired | closing
    · obtain ⟨-, -, unstarted, unclosed, -, lists⟩ := current
      exact Or.inr ⟨none_current c, unstarted, unclosed, lists⟩
    · obtain ⟨-, -, unstarted, unclosed, -, lists⟩ := retired
      exact Or.inr ⟨none_current c, unstarted, unclosed, lists.1, lists.2.1⟩
    · exact Or.inl ⟨none_current c, closing.2⟩
  · rcases sound.placed c hc with current | retired | closing
    · exact Or.inr (by simp [current.1])
    · exact Or.inr (by simp [retired.2.2.2.2.1])
    · exact Or.inl ⟨none_current c, closing.2⟩
  · rcases List.mem_append.mp mem with before | closing
    · rcases List.mem_append.mp before with current | retired
      · exact sound.current_built c (Option.mem_toList.mp current)
      · exact sound.listed_built c (Or.inl retired)
    · exact sound.listed_built c (Or.inr (Or.inl closing))

/-- A shutdown leaves every client closing. -/
theorem Sound.closeHttpClient (sound : Sound p) :
    Sound p.closeHttpClient.1 ∧ p.closeHttpClient.1.built = p.built ∧
      p.closeHttpClient.1.leases = p.leases ∧ p.closeHttpClient.1.httpClient = none ∧
      ∀ c < p.built, p.closeHttpClient.1.Closing c := by
  obtain ⟨done, built, leases⟩ := sound.shuttingDown.fold
  have all : ∀ c < p.built, p.closeHttpClient.1.Closing c := fun c hc =>
    (done.rest c (built.symm ▸ hc)).resolve_right (List.not_mem_nil)
  refine ⟨⟨done.toBooks, fun c hc => ?_⟩, built, leases, done.no_current, all⟩
  exact Or.inr (Or.inr (all c (built ▸ hc)))

end Close

theorem sound_of_start {p : Pool} (start : Start p) : Sound p := by
  obtain ⟨clock, rfl⟩ := start
  refine ⟨⟨fun _ => rfl, ?_, ?_, ?_, fun _ _ => rfl, .nil, .nil, .nil⟩, ?_⟩
  · exact fun lease mem => absurd mem List.not_mem_nil
  · exact fun c current => absurd current (Option.some_ne_none c).symm
  · rintro c (retired | closing | task)
    · exact absurd retired List.not_mem_nil
    · exact absurd closing List.not_mem_nil
    · exact absurd task List.not_mem_nil
  · exact fun c low => absurd low (Nat.not_lt_zero c)

theorem Sound.step {p q : Pool} (sound : Sound p) {a : Act} (h : step p a = some q) : Sound q := by
  cases a with
  | initHttpClient =>
    cases h
    exact sound.initHttpClient
  | refreshHttpClient =>
    cases h
    exact sound.refreshHttpClient
  | refreshAfterNetworkFailure failedSession now =>
    rw [HttpClients.step] at h
    split_ifs at h
    cases h
    exact (sound.atTime _ now).refreshAfterNetworkFailure failedSession now
  | acquire => exact sound.acquireHttpClient h
  | closeLease l =>
    rw [HttpClients.step] at h
    split at h
    · rename_i c found
      cases h
      exact sound.setLease found rfl (by simp) (by simp)
    · cases h
      exact sound
    · cases h
  | release l =>
    rw [HttpClients.step] at h
    split at h
    · rename_i c found
      cases h
      exact sound.release found
    · cases h
  | cancelRelease l =>
    rw [HttpClients.step] at h
    split at h
    · rename_i c found
      cases h
      exact sound.setLease found rfl (by simp) (by simp)
    · cases h
  | finishClose c =>
    rw [HttpClients.step] at h
    split_ifs at h with task
    cases h
    exact sound.finishClose task
  | completeClose c =>
    rw [HttpClients.step] at h
    split_ifs at h with closed
    cases h
    exact sound.completeClose closed
  | closeHttpClient =>
    cases h
    exact sound.closeHttpClient.1

theorem sound_of_reachable {ok : Pool → Act → Prop} {p : Pool} (h : Reachable step ok Start p) :
    Sound p :=
  h.invariant (fun _ => sound_of_start) fun _ _ _ sound _ stepped => sound.step stepped

end HttpClients
