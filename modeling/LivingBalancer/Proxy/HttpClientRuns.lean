import LivingBalancer.Proxy.HttpClients

/-!
# Runs of the HTTP client

Over a run: an unreleased lease keeps its client from being closed, short of a shutdown; every
client that was built is accounted for, and one whose lease was dropped leaks until a shutdown; a
shutdown waits for all of them; and a generation is rotated away once, however many of its
failures are reported.
-/

namespace HttpClients

open Runs

def NoShutdown (_ : Pool) (a : Act) : Prop := a ≠ .closeHttpClient

/-! ## What a step does -/

section Step

variable {p q : Pool} {a : Act}

theorem refresh_untouched (p : Pool) :
    p.refreshHttpClient.leases = p.leases ∧ p.refreshHttpClient.httpClient = some p.built ∧
      p.refreshHttpClient.built = p.built + 1 ∧
      p.refreshHttpClient.lastGenerationlessRotationAt = p.lastGenerationlessRotationAt ∧
      p.refreshHttpClient.clock = p.clock := by
  unfold Pool.refreshHttpClient
  cases p.httpClient with
  | none => exact ⟨rfl, rfl, rfl, rfl, rfl⟩
  | some c =>
    have same := requestClientCloseLocked_untouched p.install c false
    exact ⟨same.leases, same.httpClient, same.built, same.last, same.clock⟩

/-- Leases are added, or written while they are open or wait for the lock. -/
theorem step_leases (sound : Sound p) (h : step p a = some q) :
    q.leases = p.leases ∨ (∃ lease, q.leases = p.leases ++ [lease]) ∨
      ∃ l c old new, p.leases[l]? = some ⟨c, old⟩ ∧ (old = .open ∨ old = .closing) ∧
        q.leases = p.leases.set l ⟨c, new⟩ := by
  cases a with
  | initHttpClient =>
    cases h
    refine Or.inl ?_
    rw [Pool.initHttpClient]
    split <;> rfl
  | refreshHttpClient =>
    cases h
    exact Or.inl (refresh_untouched p).1
  | refreshAfterNetworkFailure failedSession now =>
    rw [step] at h
    split_ifs at h
    cases h
    refine Or.inl ?_
    rcases refreshAfterNetworkFailure_cases (p := { p with clock := now }) failedSession now with
      ⟨same, -⟩ | ⟨c, -, -, -, same⟩
    · rw [same]
    · rw [same]
      exact (requestClientCloseLocked_untouched _ c false).leases
  | acquire =>
    obtain ⟨c, -, rfl⟩ := Option.map_eq_some_iff.mp h
    exact Or.inr (Or.inl ⟨⟨c, .open⟩, rfl⟩)
  | closeLease l =>
    rw [step] at h
    split at h
    · rename_i c found
      cases h
      exact Or.inr (Or.inr ⟨l, c, .open, .closing, found, .inl rfl, rfl⟩)
    · cases h
      exact Or.inl rfl
    · cases h
  | release l =>
    rw [step] at h
    split at h
    · rename_i c found
      cases h
      refine Or.inr (Or.inr ⟨l, c, .closing, .released, found, .inr rfl, ?_⟩)
      exact (releaseHttpClient_untouched _ c).leases
    · cases h
  | cancelRelease l =>
    rw [step] at h
    split at h
    · rename_i c found
      cases h
      exact Or.inr (Or.inr ⟨l, c, .closing, .dropped, found, .inr rfl, rfl⟩)
    · cases h
  | finishClose c =>
    rw [step] at h
    split_ifs at h
    cases h
    exact Or.inl rfl
  | completeClose c =>
    rw [step] at h
    split_ifs at h
    cases h
    exact Or.inl rfl
  | closeHttpClient =>
    cases h
    exact Or.inl sound.closeHttpClient.2.2.1

/-- A lease stays with its client, and a released one stays so. -/
theorem step_lease (sound : Sound p) (h : step p a = some q) {l : ℕ} {lease : HttpClientLease}
    (found : p.leases[l]? = some lease) :
    ∃ lease', q.leases[l]? = some lease' ∧ lease'.managedClient = lease.managedClient ∧
      (lease'.stage ≠ .released → lease.stage ≠ .released) := by
  obtain ⟨inside, -⟩ := List.getElem?_eq_some_iff.mp found
  rcases step_leases sound h with same | ⟨new, same⟩ | ⟨l', c, old, new, there, held, same⟩
  · exact ⟨lease, same ▸ found, rfl, id⟩
  · refine ⟨lease, ?_, rfl, id⟩
    rw [same, List.getElem?_append_left inside, found]
  · by_cases here : l' = l
    · subst here
      cases there.symm.trans found
      refine ⟨⟨c, new⟩, by rw [same, List.getElem?_set_self inside], rfl, fun _ => ?_⟩
      rcases held with rfl | rfl <;> simp
    · exact ⟨lease, by rw [same, List.getElem?_set_ne here, found], rfl, id⟩

theorem step_dropped (sound : Sound p) (h : step p a = some q) {l c : ℕ}
    (found : p.leases[l]? = some ⟨c, .dropped⟩) : q.leases[l]? = some ⟨c, .dropped⟩ := by
  obtain ⟨inside, -⟩ := List.getElem?_eq_some_iff.mp found
  rcases step_leases sound h with same | ⟨new, same⟩ | ⟨l', c', old, new, there, held, same⟩
  · exact same ▸ found
  · rw [same, List.getElem?_append_left inside, found]
  · have here : l' ≠ l := by
      rintro rfl
      cases there.symm.trans found
      simp at held
    rw [same, List.getElem?_set_ne here, found]

/-- The current client stays, or is replaced by the next one built, or is given up. -/
theorem step_current (sound : Sound p) (h : step p a = some q) :
    (q.httpClient = p.httpClient ∧ q.built = p.built) ∨
      (q.httpClient = some p.built ∧ q.built = p.built + 1) ∨
      (q.httpClient = none ∧ q.built = p.built) := by
  cases a with
  | initHttpClient =>
    cases h
    rw [Pool.initHttpClient]
    split
    · exact Or.inl ⟨rfl, rfl⟩
    · exact Or.inr (Or.inl ⟨rfl, rfl⟩)
  | refreshHttpClient =>
    cases h
    obtain ⟨-, current, built, -⟩ := refresh_untouched p
    exact Or.inr (Or.inl ⟨current, built⟩)
  | refreshAfterNetworkFailure failedSession now =>
    rw [step] at h
    split_ifs at h
    cases h
    rcases refreshAfterNetworkFailure_cases (p := { p with clock := now }) failedSession now with
      ⟨same, -⟩ | ⟨c, -, -, -, same⟩
    · rw [same]
      exact Or.inl ⟨rfl, rfl⟩
    · rw [same]
      have untouched := requestClientCloseLocked_untouched ({ ({ p with clock := now } : Pool).install
        with lastGenerationlessRotationAt := some now }) c false
      exact Or.inr (Or.inl ⟨untouched.httpClient, untouched.built⟩)
  | acquire =>
    obtain ⟨c, -, rfl⟩ := Option.map_eq_some_iff.mp h
    exact Or.inl ⟨rfl, rfl⟩
  | closeLease l =>
    rw [step] at h
    split at h
    · cases h
      exact Or.inl ⟨rfl, rfl⟩
    · cases h
      exact Or.inl ⟨rfl, rfl⟩
    · cases h
  | release l =>
    rw [step] at h
    split at h
    · rename_i c found
      cases h
      have untouched := releaseHttpClient_untouched (p.setLease l ⟨c, .released⟩) c
      exact Or.inl ⟨untouched.httpClient, untouched.built⟩
    · cases h
  | cancelRelease l =>
    rw [step] at h
    split at h
    · cases h
      exact Or.inl ⟨rfl, rfl⟩
    · cases h
  | finishClose c =>
    rw [step] at h
    split_ifs at h
    cases h
    exact Or.inl ⟨rfl, rfl⟩
  | completeClose c =>
    rw [step] at h
    split_ifs at h
    cases h
    exact Or.inl ⟨rfl, rfl⟩
  | closeHttpClient =>
    cases h
    obtain ⟨-, built, -, current, -⟩ := sound.closeHttpClient
    exact Or.inr (Or.inr ⟨current, built⟩)

theorem Installed.unstarted (installed : Installed p q) (sound : Sound p) {c : ℕ}
    (current : p.httpClient = some c) {c' : ℕ} (before : (p.clients c').closeTask = false)
    (after : ((q.requestClientCloseLocked c false).clients c').closeTask = true) :
    (q.requestClientCloseLocked c false).unreleased c' = 0 := by
  obtain ⟨-, there, -, frame⟩ := installed.replaced sound current
  by_cases here : c' = c
  · subst here
    rcases there with retired | ⟨-, none_left⟩
    · rw [retired.2.2.1] at after
      cases after
    · rwa [Pool.unreleased_eq frame.leases, Pool.unreleased_eq installed.leases]
  · rw [(frame.others c' here).client, installed.clients, before] at after
    cases after

/-- Short of a shutdown, the close task of a client is started when no lease of it is left. -/
theorem started_unleased (sound : Sound p) (h : step p a = some q) (live : NoShutdown p a) {c : ℕ}
    (before : (p.clients c).closeTask = false) (after : (q.clients c).closeTask = true) :
    q.unreleased c = 0 := by
  have unchanged : q.clients c = p.clients c → q.unreleased c = 0 := by
    intro same
    rw [same, before] at after
    cases after
  cases a with
  | initHttpClient =>
    cases h
    refine unchanged ?_
    rw [Pool.initHttpClient]
    split <;> rfl
  | refreshHttpClient =>
    cases h
    have installed : Installed p p.install := ⟨rfl, rfl, rfl, rfl, rfl, rfl, rfl⟩
    cases current : p.httpClient with
    | none =>
      refine unchanged ?_
      rw [Pool.refreshHttpClient, current]
      rfl
    | some previous =>
      rw [Pool.refreshHttpClient, current] at after ⊢
      exact installed.unstarted sound current before after
  | refreshAfterNetworkFailure failedSession now =>
    rw [step] at h
    split_ifs at h
    cases h
    rcases refreshAfterNetworkFailure_cases (p := { p with clock := now }) failedSession now with
      ⟨same, -⟩ | ⟨previous, current, -, -, same⟩
    · rw [same] at after ⊢
      rw [before] at after
      cases after
    · rw [same] at after ⊢
      have installed : Installed p { ({ p with clock := now } : Pool).install with
          lastGenerationlessRotationAt := some now } := ⟨rfl, rfl, rfl, rfl, rfl, rfl, rfl⟩
      exact installed.unstarted sound current before after
  | acquire =>
    obtain ⟨current, -, rfl⟩ := Option.map_eq_some_iff.mp h
    by_cases here : c = current
    · subst here
      simp [Pool.setClient, before] at after
    · refine unchanged ?_
      simp only [Pool.setClient, Function.update_of_ne here]
  | closeLease l =>
    rw [step] at h
    split at h
    · cases h
      exact unchanged rfl
    · cases h
      exact unchanged rfl
    · cases h
  | release l =>
    rw [step] at h
    split at h
    · rename_i held found
      cases h
      rw [releaseHttpClient_eq (releasing_of_closing sound found)] at after ⊢
      change ((if (p.clients held).closeRequested ∧ (p.settle l held).unreleased held = 0 then
        (p.settle l held).startClientCloseLocked held else p.settle l held).clients c).closeTask =
          true at after
      change (if (p.clients held).closeRequested ∧ (p.settle l held).unreleased held = 0 then
        (p.settle l held).startClientCloseLocked held else p.settle l held).unreleased c = 0
      have settled : ((p.settle l held).clients c).closeTask = false := by
        by_cases here : c = held
        · subst here
          simpa [Pool.settle, Pool.setClient] using before
        · rw [(settle_same found here).client, before]
      split_ifs at after ⊢ with last
      · by_cases here : c = held
        · subst here
          rw [Pool.unreleased_eq (startClientCloseLocked_untouched _ c).leases]
          exact last.2
        · rw [Pool.startClientCloseLocked] at after
          split_ifs at after
          · rw [settled] at after
            cases after
          · simp only [Pool.setClient, Function.update_of_ne here] at after
            rw [settled] at after
            cases after
      · rw [settled] at after
        cases after
    · cases h
  | cancelRelease l =>
    rw [step] at h
    split at h
    · cases h
      exact unchanged rfl
    · cases h
  | finishClose c' =>
    rw [step] at h
    split_ifs at h
    cases h
    by_cases here : c = c'
    · subst here
      simp [Pool.setClient, before] at after
    · refine unchanged ?_
      simp only [Pool.setClient, Function.update_of_ne here]
  | completeClose c' =>
    rw [step] at h
    split_ifs at h
    cases h
    exact unchanged rfl
  | closeHttpClient => exact absurd rfl live

end Step

/-! ## A lease keeps its client -/

/-- The lease stands on its client, which has no close task before it is released. -/
structure Kept (l c : ℕ) (p : Pool) : Prop where
  sound : Sound p
  kept : ∃ lease, p.leases[l]? = some lease ∧ lease.managedClient = c ∧
    (lease.stage ≠ .released → (p.clients c).closeTask = false)

theorem Kept.step {l c : ℕ} {p q : Pool} {a : Act} (kept : Kept l c p) (live : NoShutdown p a)
    (h : HttpClients.step p a = some q) : Kept l c q := by
  obtain ⟨lease, found, on, unstarted⟩ := kept.kept
  obtain ⟨lease', found', same, still⟩ := step_lease kept.sound h found
  refine ⟨kept.sound.step h, lease', found', same.trans on, fun held => ?_⟩
  cases started : (q.clients c).closeTask with
  | false => rfl
  | true =>
    have none_left := started_unleased kept.sound h live (unstarted (still held)) started
    have some_left := unreleased_pos found' (c := c) ⟨same.trans on, held⟩
    omega

theorem acquired_on {p q : Pool} (sound : Sound p) (acquired : p.acquireHttpClient = some q) :
    ∃ c, p.Current c ∧ q.leases[p.leases.length]? = some ⟨c, .open⟩ ∧
      (q.clients c).closeTask = false := by
  obtain ⟨c, current, rfl⟩ := Option.map_eq_some_iff.mp acquired
  have now : p.Current c := by
    rcases sound.placed c (sound.current_built c current) with now | ⟨old, -⟩ | ⟨old, -⟩
    · exact now
    · exact absurd current old
    · exact absurd current old
  exact ⟨c, now, List.getElem?_concat_length, by simpa [Pool.setClient] using now.2.2.1⟩

/-- A lease is taken on a client that nobody has asked to close. Until it is released its client
is not closed, whatever is refreshed, rotated or released meanwhile, unless the process shuts
down. -/
theorem lease_keeps_client_open {p q r : Pool} (reachable : Reachable step Any Start p)
    (acquired : p.acquireHttpClient = some q) (run : Steps step NoShutdown q r) :
    ∃ c lease, p.httpClient = some c ∧ (p.clients c).closeRequested = false ∧
      q.leases[p.leases.length]? = some ⟨c, .open⟩ ∧ r.leases[p.leases.length]? = some lease ∧
      lease.managedClient = c ∧ (lease.stage ≠ .released →
        c ∉ r.tasks ∧ (r.clients c).closed = false ∧ 0 < (r.clients c).activeLeases) := by
  have sound := sound_of_reachable reachable
  obtain ⟨c, now, added, unstarted⟩ := acquired_on sound acquired
  have start : Kept p.leases.length c q :=
    ⟨sound.acquireHttpClient acquired, ⟨c, .open⟩, added, rfl, fun _ => unstarted⟩
  obtain ⟨end_sound, lease, found, on, kept⟩ :=
    run.invariant (fun s a t kept live h => kept.step live h) start
  refine ⟨c, lease, now.1, now.2.1, added, found, on, fun held => ?_⟩
  have low : c < r.built := on ▸ end_sound.known lease (List.mem_of_getElem? found)
  have some_left := unreleased_pos found (c := c) ⟨on, held⟩
  have counted := end_sound.counted c
  rcases end_sound.placed c low with now | retired | closing
  · exact ⟨now.2.2.2.2.2.2, now.2.2.2.1, by omega⟩
  · exact ⟨retired.2.2.2.2.2.2.1, retired.2.2.2.1, by omega⟩
  · have started := closing.2.2.1
    rw [kept held] at started
    cases started

/-- A request holds its lease over two refreshes. -/
theorem lease_keeps_client_open_refreshed : ∃ c lease,
    (Pool.empty 0).initHttpClient.httpClient = some c ∧
    ((Pool.empty 0).initHttpClient.clients c).closeRequested = false ∧
    (((Pool.empty 0).initHttpClient.acquireHttpClient.getD (Pool.empty 0)).leases[0]? =
      some ⟨c, .open⟩) ∧
    (((Pool.empty 0).initHttpClient.acquireHttpClient.getD
      (Pool.empty 0)).refreshHttpClient.refreshHttpClient.leases[0]? = some lease) ∧
    lease.managedClient = c ∧ (lease.stage ≠ .released →
      c ∉ ((Pool.empty 0).initHttpClient.acquireHttpClient.getD
        (Pool.empty 0)).refreshHttpClient.refreshHttpClient.tasks ∧
      (((Pool.empty 0).initHttpClient.acquireHttpClient.getD
        (Pool.empty 0)).refreshHttpClient.refreshHttpClient.clients c).closed = false ∧
      0 < (((Pool.empty 0).initHttpClient.acquireHttpClient.getD
        (Pool.empty 0)).refreshHttpClient.refreshHttpClient.clients c).activeLeases) :=
  lease_keeps_client_open (p := (Pool.empty 0).initHttpClient)
    (q := (Pool.empty 0).initHttpClient.acquireHttpClient.getD (Pool.empty 0))
    (reachable_of_replay [.initHttpClient] ⟨0, rfl⟩ (fun _ _ _ => trivial) rfl) rfl
    (steps_of_replay [.refreshHttpClient, .refreshHttpClient]
      (fun _ a mem => by
        rcases List.mem_cons.mp mem with rfl | later
        · exact fun same => by cases same
        · rw [List.mem_singleton.mp later]
          exact fun same => by cases same) rfl)

/-! ## Leases that are released, and leases that are dropped -/

/-- The release of a lease that waits for the lock. -/
theorem release_step {p : Pool} (sound : Sound p) {l c : ℕ}
    (found : p.leases[l]? = some ⟨c, .closing⟩) :
    ∃ q, step p (.release l) = some q ∧ Sound q ∧ q.httpClient = p.httpClient ∧
      q.built = p.built ∧ q.leases = p.leases.set l ⟨c, .released⟩ ∧
      q.unreleased c + 1 = p.unreleased c := by
  have untouched := releaseHttpClient_untouched (p.setLease l ⟨c, .released⟩) c
  have held : Holds c ⟨c, .closing⟩ := ⟨rfl, by simp⟩
  have some_left := unreleased_pos found held
  refine ⟨_, by rw [step, found], sound.release found, untouched.httpClient, untouched.built,
    untouched.leases, ?_⟩
  rw [Pool.unreleased_eq untouched.leases, unreleased_setLease found, if_pos held,
    if_neg (by simp [Holds])]
  omega

/-- When no lease of a client that was replaced is dropped, closing and releasing them one after
the other starts its close task. -/
theorem undropped_closes {p : Pool} (sound : Sound p) {c : ℕ} (hc : c < p.built)
    (replaced : p.httpClient ≠ some c)
    (undropped : ∀ lease ∈ p.leases, lease.managedClient = c → lease.stage ≠ .dropped) :
    ∃ q, Steps step NoShutdown p q ∧ c ∈ q.tasks := by
  -- by induction on the unreleased leases of the client
  induction left : p.unreleased c using Nat.strong_induction_on generalizing p with
  | _ n ih =>
    have releases {r : Pool} (sound : Sound r) (hc : c < r.built) (old : r.httpClient ≠ some c)
        (undropped : ∀ lease ∈ r.leases, lease.managedClient = c → lease.stage ≠ .dropped)
        (count : r.unreleased c = n) {l : ℕ} (found : r.leases[l]? = some ⟨c, .closing⟩) :
        ∃ q, Steps step NoShutdown r q ∧ c ∈ q.tasks := by
      obtain ⟨q, stepped, sound', current, built, leases, fewer⟩ := release_step sound found
      have undropped' : ∀ lease ∈ q.leases, lease.managedClient = c → lease.stage ≠ .dropped := by
        intro lease mem
        rw [leases] at mem
        rcases List.mem_or_eq_of_mem_set mem with earlier | rfl
        · exact undropped lease earlier
        · exact fun _ same => by cases same
      obtain ⟨q', run, task⟩ := ih (q.unreleased c) (by omega) sound' (built ▸ hc)
        (current ▸ old) undropped' rfl
      have first : Steps step NoShutdown r q := .tail _ (.refl r) (fun same => by cases same) stepped
      exact ⟨q', first.trans run, task⟩
    rcases sound.placed c hc with now | retired | closing
    · exact absurd now.1 replaced
    · obtain ⟨⟨c', stage⟩, mem, holds⟩ := List.countP_pos_iff.mp retired.2.2.2.2.2.2.2
      obtain ⟨on, unreleased⟩ := of_decide_eq_true holds
      obtain rfl : c = c' := on.symm
      obtain ⟨l, found⟩ := List.mem_iff_getElem?.mp mem
      cases stage with
      | «open» =>
        obtain ⟨r, hr⟩ : ∃ r, r = p.setLease l ⟨c, .closing⟩ := ⟨_, rfl⟩
        have first : Steps step NoShutdown p r :=
          .tail (.closeLease l) (.refl p) (fun same => by cases same) (by rw [step, found, hr])
        have sound' : Sound r := hr ▸ sound.setLease found rfl (by simp) (by simp)
        have kept : r.unreleased c = p.unreleased c := hr ▸ unreleased_kept found (by simp [Holds])
        have undropped' : ∀ lease ∈ r.leases, lease.managedClient = c → lease.stage ≠ .dropped := by
          intro lease mem
          rw [hr] at mem
          rcases List.mem_or_eq_of_mem_set mem with earlier | rfl
          · exact undropped lease earlier
          · exact fun _ same => by cases same
        have waiting : r.leases[l]? = some ⟨c, .closing⟩ :=
          hr ▸ List.getElem?_set_self (List.getElem?_eq_some_iff.mp found).1
        obtain ⟨q, run, task⟩ := releases sound' (by rw [hr]; exact hc) (by rw [hr]; exact replaced)
          undropped' (kept.trans left) waiting
        exact ⟨q, first.trans run, task⟩
      | closing => exact releases sound hc replaced undropped left found
      | released => exact absurd rfl unreleased
      | dropped => exact absurd rfl (undropped _ mem rfl)
    · exact ⟨p, .refl p, closing.2.2.2.2.1⟩

/-- A client that was replaced, and a lease of it that was dropped. -/
structure Leaking (l c : ℕ) (p : Pool) : Prop where
  sound : Sound p
  built : c < p.built
  replaced : p.httpClient ≠ some c
  dropped : p.leases[l]? = some ⟨c, .dropped⟩
  unstarted : (p.clients c).closeTask = false

theorem Leaking.step {l c : ℕ} {p q : Pool} {a : Act} (leaking : Leaking l c p)
    (live : NoShutdown p a) (h : HttpClients.step p a = some q) : Leaking l c q := by
  have dropped := step_dropped leaking.sound h leaking.dropped
  have low := leaking.built
  refine ⟨leaking.sound.step h, ?_, ?_, dropped, ?_⟩
  · rcases step_current leaking.sound h with ⟨-, built⟩ | ⟨-, built⟩ | ⟨-, built⟩ <;> omega
  · rcases step_current leaking.sound h with ⟨same, -⟩ | ⟨new, -⟩ | ⟨gone, -⟩
    · exact same ▸ leaking.replaced
    · rw [new]
      exact fun same => absurd (Option.some.inj same) low.ne'
    · rw [gone]
      exact fun same => by cases same
  · cases started : (q.clients c).closeTask with
    | false => rfl
    | true =>
      have none_left := started_unleased leaking.sound h live leaking.unstarted started
      have some_left := unreleased_pos dropped (c := c) ⟨rfl, by simp⟩
      omega

theorem Leaking.retired {l c : ℕ} {p : Pool} (leaking : Leaking l c p) : p.Retired c := by
  rcases leaking.sound.placed c leaking.built with now | retired | closing
  · exact absurd now.1 leaking.replaced
  · exact retired
  · have started := closing.2.2.1
    rw [leaking.unstarted] at started
    cases started

/-! ## Every client is accounted for -/

/-- It was replaced and has leases out, none of them dropped: some run without a shutdown closes
it. -/
structure Waits (p : Pool) (c : ℕ) : Prop where
  replaced : p.httpClient ≠ some c
  listed : c ∈ p.retired
  unstarted : c ∉ p.tasks
  leased : ∃ lease ∈ p.leases,
    lease.managedClient = c ∧ (lease.stage = .open ∨ lease.stage = .closing)
  undropped : ∀ lease ∈ p.leases, lease.managedClient = c → lease.stage ≠ .dropped
  closes : ∃ q, Steps step NoShutdown p q ∧ c ∈ q.tasks

/-- It was replaced and a lease of it was dropped: no run without a shutdown closes it. -/
structure Leaks (p : Pool) (c : ℕ) : Prop where
  replaced : p.httpClient ≠ some c
  listed : c ∈ p.retired
  unstarted : c ∉ p.tasks
  dropped : ⟨c, .dropped⟩ ∈ p.leases
  never : ∀ q, Steps step NoShutdown p q →
    c ∈ q.retired ∧ c ∉ q.tasks ∧ (q.clients c).closed = false

theorem waits_or_leaks {p : Pool} (sound : Sound p) {c : ℕ} (hc : c < p.built)
    (retired : p.Retired c) : Waits p c ∨ Leaks p c := by
  obtain ⟨old, -, unstarted, -, listed, -, no_task, some_left⟩ := retired
  by_cases dropped : ⟨c, .dropped⟩ ∈ p.leases
  · obtain ⟨l, found⟩ := List.mem_iff_getElem?.mp dropped
    refine Or.inr ⟨old, listed, no_task, dropped, fun q run => ?_⟩
    have leaking : Leaking l c q := run.invariant
      (fun s a t leaking live h => leaking.step live h) ⟨sound, hc, old, found, unstarted⟩
    obtain ⟨-, -, -, unclosed, listed', -, no_task', -⟩ := leaking.retired
    exact ⟨listed', no_task', unclosed⟩
  · have undropped : ∀ lease ∈ p.leases, lease.managedClient = c → lease.stage ≠ .dropped := by
      rintro ⟨_, _⟩ mem rfl rfl
      exact dropped mem
    obtain ⟨lease, mem, holds⟩ := List.countP_pos_iff.mp some_left
    obtain ⟨on, unreleased⟩ := of_decide_eq_true holds
    refine Or.inl ⟨old, listed, no_task, ⟨lease, mem, on, ?_⟩, undropped,
      undropped_closes sound hc old undropped⟩
    cases stage : lease.stage with
    | «open» => exact .inl rfl
    | closing => exact .inr rfl
    | released => exact absurd stage unreleased
    | dropped => exact absurd stage (undropped lease mem on)

/-- Each client that was ever built is in exactly one place: it is the current one; it was
replaced and waits for its leases; it was replaced and leaks, by a lease that was dropped; or its
one close task was started, which is on the list until the client is closed. No release finds its
lease gone. -/
structure Accounted (p : Pool) : Prop where
  places : ∀ c < p.built,
    (p.httpClient = some c ∧ (p.clients c).closeRequested = false ∧
      c ∉ p.retired ∧ c ∉ p.tasks) ∨
    Waits p c ∨ Leaks p c ∨
    (p.httpClient ≠ some c ∧ c ∉ p.retired ∧ c ∈ p.tasks ∧
      (c ∈ p.closing ∨ (p.clients c).closed = true))
  retired_once : p.retired.Nodup
  closed_once : p.tasks.Nodup
  releases : ∀ l c, p.leases[l]? = some ⟨c, .closing⟩ →
    ((p.setLease l ⟨c, .released⟩).releaseHttpClient c).2 = false

theorem clients_accounted {p : Pool} (reachable : Reachable step Any Start p) : Accounted p := by
  have sound := sound_of_reachable reachable
  refine ⟨fun c hc => ?_, sound.retired_once, sound.tasks_once, fun l c found => ?_⟩
  · rcases sound.placed c hc with now | retired | closing
    · obtain ⟨current, unasked, -, -, unlisted, -, no_task⟩ := now
      exact Or.inl ⟨current, unasked, unlisted, no_task⟩
    · rcases waits_or_leaks sound hc retired with waits | leaks
      · exact Or.inr (Or.inl waits)
      · exact Or.inr (Or.inr (Or.inl leaks))
    · obtain ⟨old, -, -, unlisted, task, ends⟩ := closing
      exact Or.inr (Or.inr (Or.inr ⟨old, unlisted, task, ends⟩))
  · rw [releaseHttpClient_eq (releasing_of_closing sound found)]

/-- Client 0 has a lease that was dropped while it waited for the lock, client 1 an open one. -/
theorem clients_accounted_dropped : Accounted
    ((replay step (Pool.empty 0) [.initHttpClient, .acquire, .closeLease 0, .refreshHttpClient,
      .cancelRelease 0, .acquire, .refreshHttpClient]).getD (Pool.empty 0)) :=
  clients_accounted (reachable_of_replay [.initHttpClient, .acquire, .closeLease 0,
    .refreshHttpClient, .cancelRelease 0, .acquire, .refreshHttpClient] ⟨0, rfl⟩
    (fun _ _ _ => trivial) rfl)

/-! ## A shutdown waits for all of them -/

theorem fold_untouched (todo : List ℕ) (p : Pool) :
    Untouched p (todo.foldl (fun p c => p.requestClientCloseLocked c true) p) := by
  induction todo generalizing p with
  | nil => exact .refl p
  | cons c todo ih => exact (requestClientCloseLocked_untouched p c true).trans (ih _)

/-- A client that is closed stays closed. -/
theorem step_closed {p q : Pool} {a : Act} (h : step p a = some q) {c : ℕ}
    (closed : (p.clients c).closed = true) : (q.clients c).closed = true := by
  cases a with
  | initHttpClient =>
    cases h
    rw [Pool.initHttpClient]
    split
    · exact closed
    · exact closed
  | refreshHttpClient =>
    cases h
    rw [Pool.refreshHttpClient]
    split
    · exact (requestClientCloseLocked_untouched _ _ _).closed c |>.trans closed
    · exact closed
  | refreshAfterNetworkFailure failedSession now =>
    rw [step] at h
    split_ifs at h
    cases h
    rcases refreshAfterNetworkFailure_cases (p := { p with clock := now }) failedSession now with
      ⟨same, -⟩ | ⟨previous, -, -, -, same⟩
    · rw [same]
      exact closed
    · rw [same]
      exact (requestClientCloseLocked_untouched _ _ _).closed c |>.trans closed
  | acquire =>
    obtain ⟨current, -, rfl⟩ := Option.map_eq_some_iff.mp h
    have counted := setClient_untouched p (c := current) (m := { p.clients current with
      activeLeases := (p.clients current).activeLeases + 1 }) rfl
    exact (counted.closed c).trans closed
  | closeLease l =>
    rw [step] at h
    split at h
    · cases h
      exact closed
    · cases h
      exact closed
    · cases h
  | release l =>
    rw [step] at h
    split at h
    · cases h
      exact (releaseHttpClient_untouched _ _).closed c |>.trans closed
    · cases h
  | cancelRelease l =>
    rw [step] at h
    split at h
    · cases h
      exact closed
    · cases h
  | finishClose c' =>
    rw [step] at h
    split_ifs at h
    cases h
    by_cases here : c = c'
    · subst here
      simp [Pool.setClient]
    · simpa only [Pool.setClient, Function.update_of_ne here] using closed
  | completeClose c' =>
    rw [step] at h
    split_ifs at h
    cases h
    exact closed
  | closeHttpClient =>
    cases h
    exact (fold_untouched _ _).closed c |>.trans closed

/-- When every client that a shutdown waits for is closed, so is every client built before it,
and each of those that it waits for has its close task. -/
theorem shutdown_closes_all {p r : Pool} (reachable : Reachable step Any Start p)
    (run : Steps step Any p.closeHttpClient.1 r)
    (returns : ∀ c ∈ p.closeHttpClient.2, (r.clients c).closed = true) :
    (∀ c < p.built, (r.clients c).closed = true) ∧
      ∀ c ∈ p.closeHttpClient.2, c ∈ p.closeHttpClient.1.tasks := by
  have sound := sound_of_reachable reachable
  obtain ⟨-, -, -, -, all⟩ := sound.closeHttpClient
  have awaited : ∀ c, c ∈ p.closeHttpClient.2 ↔
      p.httpClient = some c ∨ c ∈ p.retired ∨ c ∈ p.closing := by
    intro c
    simp [Pool.closeHttpClient]
  refine ⟨fun c hc => ?_, fun c mem => ?_⟩
  · by_cases waits : c ∈ p.closeHttpClient.2
    · exact returns c waits
    · rw [awaited, not_or, not_or] at waits
      have closed : (p.clients c).closed = true := by
        rcases sound.placed c hc with now | retired | closing
        · exact absurd now.1 waits.1
        · exact absurd retired.2.2.2.2.1 waits.2.1
        · exact closing.2.2.2.2.2.resolve_left waits.2.2
      have before := (fold_untouched p.closeHttpClient.2
        { p with httpClient := none, lastGenerationlessRotationAt := none }).closed c
      exact run.invariant (I := fun s => (s.clients c).closed = true)
        (fun s a t closed _ h => step_closed h closed) (before.trans closed)
  · have hc : c < p.built := by
      rcases (awaited c).mp mem with current | retired | closing
      · exact sound.current_built c current
      · exact sound.listed_built c (Or.inl retired)
      · exact sound.listed_built c (Or.inr (Or.inl closing))
    exact (all c hc).2.2.2.2.1

/-- One client is leased when the process shuts down, another is closing. -/
theorem shutdown_closes_all_leased :
    (∀ c < 2, (((replay step (Pool.empty 0) [.initHttpClient, .refreshHttpClient, .acquire,
      .closeHttpClient, .finishClose 0, .finishClose 1]).getD (Pool.empty 0)).clients c).closed =
        true) ∧
    ∀ c ∈ ((replay step (Pool.empty 0) [.initHttpClient, .refreshHttpClient, .acquire]).getD
        (Pool.empty 0)).closeHttpClient.2,
      c ∈ ((replay step (Pool.empty 0) [.initHttpClient, .refreshHttpClient, .acquire]).getD
        (Pool.empty 0)).closeHttpClient.1.tasks :=
  shutdown_closes_all
    (reachable_of_replay [.initHttpClient, .refreshHttpClient, .acquire] ⟨0, rfl⟩
      (fun _ _ _ => trivial) rfl)
    (steps_of_replay [.finishClose 0, .finishClose 1] (fun _ _ _ => trivial) rfl) (by decide)

/-! ## Rotations -/

/-- A rotation after a failure: the generation that was replaced, what the report named, and
when. -/
structure Rotated where
  generation : ℕ
  failedSession : Option Session
  time : ℚ
  deriving DecidableEq

def noteRotation (p : Pool) (a : Act) (_ : Pool) (log : List Rotated) : List Rotated :=
  match a with
  | .refreshAfterNetworkFailure failedSession now =>
    if ({ p with clock := now }.refreshAfterNetworkFailure failedSession now).2 = .rotated then
      match p.httpClient with
      | some c => ⟨c, failedSession, now⟩ :: log
      | none => log
    else log
  | _ => log

section Note

variable {p q : Pool}

/-- A reported failure moves the clock and nothing else, or replaces the current client. -/
theorem reported_cases {failedSession : Option Session} {now : ℚ}
    (h : step p (.refreshAfterNetworkFailure failedSession now) = some q) (log : List Rotated) :
    p.clock ≤ now ∧
    ((q = { p with clock := now } ∧
      noteRotation p (.refreshAfterNetworkFailure failedSession now) q log = log) ∨
    ∃ c, p.httpClient = some c ∧ q.httpClient = some p.built ∧
      (∀ session ∈ failedSession, session.generation = c) ∧
      (failedSession = none → ∀ last ∈ p.lastGenerationlessRotationAt,
        generationlessRotationCooldownSeconds ≤ now - last) ∧
      q.lastGenerationlessRotationAt = some now ∧ q.clock = now ∧
      noteRotation p (.refreshAfterNetworkFailure failedSession now) q log =
        ⟨c, failedSession, now⟩ :: log) := by
  rw [step] at h
  split_ifs at h with later
  cases h
  refine ⟨later, ?_⟩
  simp only [noteRotation]
  rcases refreshAfterNetworkFailure_cases (p := { p with clock := now }) failedSession now with
    ⟨same, kept⟩ | ⟨c, current, named, cooled, same⟩
  · exact Or.inl ⟨same, if_neg kept⟩
  · have untouched := requestClientCloseLocked_untouched ({ ({ p with clock := now } : Pool).install
      with lastGenerationlessRotationAt := some now }) c false
    refine Or.inr ⟨c, current, ?_, named, cooled, ?_, ?_, ?_⟩
    · rw [same, untouched.httpClient]
      rfl
    · rw [same, untouched.last]
    · rw [same, untouched.clock]
      rfl
    · rw [if_pos (congrArg Prod.snd same)]
      change p.httpClient = some c at current
      simp only [current]

/-- What a step notes: nothing, or that it replaced the client that was current. -/
theorem noteRotation_cases {a : Act} (h : step p a = some q) (log : List Rotated) :
    noteRotation p a q log = log ∨
    ∃ c failedSession now, p.httpClient = some c ∧ q.httpClient = some p.built ∧ p.clock ≤ now ∧
      (∀ session ∈ failedSession, session.generation = c) ∧
      (failedSession = none → ∀ last ∈ p.lastGenerationlessRotationAt,
        generationlessRotationCooldownSeconds ≤ now - last) ∧
      q.lastGenerationlessRotationAt = some now ∧ q.clock = now ∧
      noteRotation p a q log = ⟨c, failedSession, now⟩ :: log := by
  cases a with
  | refreshAfterNetworkFailure failedSession now =>
    obtain ⟨later, ⟨-, same⟩ | ⟨c, current, new, rest⟩⟩ := reported_cases h log
    · exact Or.inl same
    · exact Or.inr ⟨c, failedSession, now, current, new, later, rest⟩
  | _ => exact Or.inl rfl

/-- Nothing but a rotation or a shutdown sets the time of the last rotation. -/
theorem step_times {a : Act} (h : step p a = some q) (live : NoShutdown p a) (log : List Rotated)
    (quiet : noteRotation p a q log = log) :
    q.lastGenerationlessRotationAt = p.lastGenerationlessRotationAt ∧ p.clock ≤ q.clock := by
  cases a with
  | initHttpClient =>
    cases h
    rw [Pool.initHttpClient]
    split
    · exact ⟨rfl, le_rfl⟩
    · exact ⟨rfl, le_rfl⟩
  | refreshHttpClient =>
    cases h
    obtain ⟨-, -, -, last, clock⟩ := refresh_untouched p
    exact ⟨last, clock.ge⟩
  | refreshAfterNetworkFailure failedSession now =>
    obtain ⟨later, ⟨rfl, -⟩ | ⟨c, -, -, -, -, -, -, added⟩⟩ := reported_cases h log
    · exact ⟨rfl, later⟩
    · rw [quiet] at added
      exact absurd added.symm (List.cons_ne_self _ _)
  | acquire =>
    obtain ⟨c, -, rfl⟩ := Option.map_eq_some_iff.mp h
    exact ⟨rfl, le_rfl⟩
  | closeLease l =>
    rw [step] at h
    split at h
    · cases h
      exact ⟨rfl, le_rfl⟩
    · cases h
      exact ⟨rfl, le_rfl⟩
    · cases h
  | release l =>
    rw [step] at h
    split at h
    · rename_i c _
      cases h
      have untouched := releaseHttpClient_untouched (p.setLease l ⟨c, .released⟩) c
      exact ⟨untouched.last, untouched.clock.ge⟩
    · cases h
  | cancelRelease l =>
    rw [step] at h
    split at h
    · cases h
      exact ⟨rfl, le_rfl⟩
    · cases h
  | finishClose c =>
    rw [step] at h
    split_ifs at h
    cases h
    exact ⟨rfl, le_rfl⟩
  | completeClose c =>
    rw [step] at h
    split_ifs at h
    cases h
    exact ⟨rfl, le_rfl⟩
  | closeHttpClient => exact absurd rfl live

end Note

/-- What the log says of the state. -/
structure Logged (x : Pool × List Rotated) : Prop where
  sound : Sound x.1
  once : (x.2.map Rotated.generation).Nodup
  replaced : ∀ r ∈ x.2, r.generation < x.1.built ∧ x.1.httpClient ≠ some r.generation
  named : ∀ r ∈ x.2, ∀ session ∈ r.failedSession, session.generation = r.generation

theorem Logged.step {x y : Pool × List Rotated} {a : Act} (logged : Logged x)
    (h : recording HttpClients.step noteRotation x a = some y) : Logged y := by
  obtain ⟨hstep, noted⟩ := recording_eq_some.mp h
  have sound := logged.sound
  have replaced : ∀ r ∈ x.2, r.generation < y.1.built ∧ y.1.httpClient ≠ some r.generation := by
    intro r mem
    obtain ⟨low, old⟩ := logged.replaced r mem
    rcases step_current sound hstep with ⟨same, built⟩ | ⟨new, built⟩ | ⟨gone, built⟩
    · rw [same, built]
      exact ⟨low, old⟩
    · rw [new, built]
      exact ⟨Nat.lt_succ_of_lt low, fun h => absurd (Option.some.inj h) low.ne'⟩
    · rw [gone, built]
      exact ⟨low, fun h => by cases h⟩
  rcases noteRotation_cases hstep x.2 with same | ⟨c, failed, now, current, new, -, named, -, -, -, added⟩
  · rw [same] at noted
    exact ⟨sound.step hstep, noted ▸ logged.once, noted ▸ replaced, noted ▸ logged.named⟩
  · rw [added] at noted
    have hc := sound.current_built c current
    refine ⟨sound.step hstep, ?_, ?_, ?_⟩
    · rw [noted, List.map_cons, List.nodup_cons]
      refine ⟨fun mem => ?_, logged.once⟩
      obtain ⟨r, among, same⟩ := List.mem_map.mp mem
      exact (logged.replaced r among).2 (same ▸ current)
    · rw [noted]
      refine List.forall_mem_cons.mpr ⟨⟨?_, ?_⟩, replaced⟩
      · rcases step_current sound hstep with ⟨-, built⟩ | ⟨-, built⟩ | ⟨-, built⟩
        · exact built ▸ hc
        · exact built ▸ Nat.lt_succ_of_lt hc
        · exact built ▸ hc
      · rw [new]
        exact fun same => absurd (Option.some.inj same) hc.ne'
    · rw [noted]
      exact List.forall_mem_cons.mpr ⟨named, logged.named⟩

/-- The time of the last rotation is that of all of them, and a report without a session keeps
its distance from each. -/
structure Spaced (x : Pool × List Rotated) : Prop where
  recent : ∀ r ∈ x.2, ∃ last ∈ x.1.lastGenerationlessRotationAt, r.time ≤ last
  past : ∀ last ∈ x.1.lastGenerationlessRotationAt, last ≤ x.1.clock
  spaced : x.2.Pairwise fun later earlier => later.failedSession = none →
    generationlessRotationCooldownSeconds ≤ later.time - earlier.time

theorem Spaced.step {x y : Pool × List Rotated} {a : Act} (spaced : Spaced x)
    (live : NoShutdown x.1 a) (h : recording HttpClients.step noteRotation x a = some y) :
    Spaced y := by
  obtain ⟨hstep, noted⟩ := recording_eq_some.mp h
  rcases noteRotation_cases hstep x.2 with same | ⟨c, failed, now, -, -, later, -, cooled, last, clock, added⟩
  · obtain ⟨last, clock⟩ := step_times hstep live x.2 same
    rw [same] at noted
    refine ⟨?_, ?_, noted ▸ spaced.spaced⟩
    · rw [noted, last]
      exact spaced.recent
    · rw [last]
      exact fun t mem => (spaced.past t mem).trans clock
  · rw [added] at noted
    have before : ∀ r ∈ x.2, r.time ≤ now := by
      intro r mem
      obtain ⟨t, known, early⟩ := spaced.recent r mem
      exact early.trans ((spaced.past t known).trans later)
    refine ⟨?_, ?_, ?_⟩
    · rw [noted, last]
      exact List.forall_mem_cons.mpr ⟨⟨now, rfl, le_rfl⟩, fun r mem => ⟨now, rfl, before r mem⟩⟩
    · rw [last, clock]
      rintro t ⟨⟩
      exact le_rfl
    · rw [noted]
      refine List.pairwise_cons.mpr ⟨fun r mem blind => ?_, spaced.spaced⟩
      obtain ⟨t, known, early⟩ := spaced.recent r mem
      exact (cooled blind t known).trans (sub_le_sub_left early now)

/-- Over a run every generation is rotated away at most once, and a report that names a session
rotates only the generation of that session: of any number of reports of its failure, one does.
Without a shutdown, a report that names no session rotates only when a second has passed since
every rotation before it. -/
theorem rotations_once {ok : Pool × List Rotated → Act → Prop} {p₀ p : Pool} {log : List Rotated}
    (start : Start p₀) (run : Steps (recording step noteRotation) ok (p₀, []) (p, log)) :
    (log.map Rotated.generation).Nodup ∧
    (∀ r ∈ log, ∀ session ∈ r.failedSession, session.generation = r.generation) ∧
    ((∀ x a, ok x a → NoShutdown x.1 a) → log.Pairwise fun later earlier =>
      later.failedSession = none → 1 ≤ later.time - earlier.time) := by
  have logged : Logged (p, log) := by
    refine run.invariant (fun x a y logged _ h => logged.step h) ?_
    exact ⟨sound_of_start start, .nil, fun r mem => absurd mem List.not_mem_nil,
      fun r mem => absurd mem List.not_mem_nil⟩
  refine ⟨logged.once, logged.named, fun live => ?_⟩
  have spaced : Spaced (p, log) := by
    refine run.invariant (fun x a y spaced hok h => spaced.step (live x a hok) h) ?_
    obtain ⟨clock, rfl⟩ := start
    exact ⟨fun r mem => absurd mem List.not_mem_nil, fun t known => absurd known (by simp [Pool.empty]),
      .nil⟩
  exact spaced.spaced

/-- Two reports of one generation, and one without a session two seconds later. -/
theorem rotations_once_storm :
    (([⟨1, none, 3⟩, ⟨0, some ⟨0, false⟩, 1⟩] : List Rotated).map Rotated.generation).Nodup ∧
    (∀ r ∈ ([⟨1, none, 3⟩, ⟨0, some ⟨0, false⟩, 1⟩] : List Rotated), ∀ session ∈ r.failedSession,
      session.generation = r.generation) ∧
    ([⟨1, none, 3⟩, ⟨0, some ⟨0, false⟩, 1⟩] : List Rotated).Pairwise fun later earlier =>
      later.failedSession = none → 1 ≤ later.time - earlier.time := by
  have logged : (replay (recording step noteRotation) (Pool.empty 0, []) [.initHttpClient,
      .refreshAfterNetworkFailure (some ⟨0, false⟩) 1, .refreshAfterNetworkFailure (some ⟨0, true⟩) 2,
      .refreshAfterNetworkFailure none 3]).map Prod.snd =
        some [⟨1, none, 3⟩, ⟨0, some ⟨0, false⟩, 1⟩] := by decide +kernel
  obtain ⟨⟨p, log⟩, replayed, rfl⟩ := Option.map_eq_some_iff.mp logged
  have live : ∀ (x : Pool × List Rotated), ∀ a ∈ ([.initHttpClient,
      .refreshAfterNetworkFailure (some ⟨0, false⟩) 1, .refreshAfterNetworkFailure (some ⟨0, true⟩) 2,
      .refreshAfterNetworkFailure none 3] : List Act), NoShutdown x.1 a := by
    intro x a mem
    simp only [List.mem_cons, List.not_mem_nil, or_false] at mem
    rcases mem with rfl | rfl | rfl | rfl <;> exact fun same => by cases same
  obtain ⟨once, named, spaced⟩ := rotations_once ⟨0, rfl⟩ (steps_of_replay _ live replayed)
  exact ⟨once, named, spaced fun _ _ live => live⟩

end HttpClients
