import LivingBalancer.ResetCredits.RedeemLedger

/-!
# One credit for one redemption

A pin is deleted only on behalf of a clock that has left its lifetime behind, and inserted
only where there is none. So the first pin of a redemption stands for its whole lifetime,
and until it is there no attempt of the redemption has come past the insert. Afterwards an
attempt takes its credit from the ledger, unless the lifetime is over.
-/

namespace ResetCredits

open Runs

variable {s t : Redeem} {h : History} {a b : Attempt} {m : Move} {phase : Phase} {key : RedeemKey}
  {pin : Pin} {pins : RedeemKey → Option Pin}

/-! ## What attempts hold -/

/-- The instant a ledger call of the attempt read when it began. -/
def Phase.captured : Phase → Option ℤ
  | .lookingUp now _ => some now
  | .purging now _ => some now
  | .inserting now _ => some now
  | _ => none

/-- The credit the attempt will send unless it fails. -/
def Phase.chosen : Phase → Option String
  | .fetching pendingCreditId => pendingCreditId
  | .consuming creditId => some creditId
  | _ => none

/-- No attempt is ahead of the clock. -/
def Timed (s : Redeem) : Prop :=
  ∀ i a, s.attempts i = some a → ∀ now ∈ a.phase.captured, now ≤ s.clock

/-- No attempt of the redemption is under way. -/
def Settled (key : RedeemKey) (s : Redeem) : Prop :=
  ∀ i a, s.attempts i = some a → a.key = key → a.phase = .ended

theorem setAttempt_cases {i j : ℕ} (found : (t.setAttempt i b).attempts j = some a) :
    a = b ∨ t.attempts j = some a := by
  by_cases own : j = i
  · subst own
    rw [Redeem.setAttempt_self] at found
    exact .inl (Option.some.inj found).symm
  · rw [Redeem.setAttempt_ne t own] at found
    exact .inr found

theorem Phase.Idle.captured (idle : phase.Idle) : phase.captured = none := by
  cases idle <;> rfl

theorem Phase.Idle.chosen (idle : phase.Idle) : phase.chosen = none := by
  cases idle <;> rfl

theorem Moved.captured (moved : Moved s a m pins phase) {now : ℤ} (held : now ∈ phase.captured) :
    now = s.clock ∨ now ∈ a.phase.captured := by
  cases moved with
  | idle _ idle =>
    rw [idle.captured] at held
    cases held
  | looked => exact .inl (Option.some.inj held).symm
  | picked => exact .inl (Option.some.inj held).symm
  | purged before =>
    rw [before]
    exact .inr held
  | found | retargeted | inserted | selected | sent => cases held

theorem Timed.step {action : Action} (timed : Timed s) (taken : step s action = some t) :
    Timed t := by
  intro j b found now held
  cases step_cases taken with
  | outside _ _ attempts clock =>
    rw [attempts] at found
    exact Int.le_trans (timed j b found now held) clock
  | received unused =>
    rcases setAttempt_cases found with rfl | found
    · cases held
    · exact timed j b found now held
  | @moved i m a u phase at_ moved attempts clock =>
    have hclock : (u.setAttempt i { a with phase := phase }).clock = s.clock := clock
    rw [hclock]
    rcases setAttempt_cases found with rfl | found
    · rcases moved.captured held with rfl | held
      · exact Int.le_refl _
      · exact timed i a at_ now held
    · rw [attempts] at found
      exact timed j b found now held

/-! ## Pins stay for their lifetime -/

theorem purgePins_eq {accountId : String} {now : ℤ} (stored : s.pins key = some pin)
    (young : now - redeemRequestTtl ≤ pin.createdAt) :
    (s.purgePins accountId now).pins key = some pin := by
  have kept : ¬ pin.createdAt < now - redeemRequestTtl := by omega
  simp [Redeem.purgePins, stored, kept]

theorem purgePins_mem {accountId : String} {now : ℤ}
    (stored : (s.purgePins accountId now).pins key = some pin) : s.pins key = some pin :=
  (Option.filter_eq_some_iff.mp stored).1

theorem insertPin_stored {key' : RedeemKey} {new : Pin} (stored : s.pins key = some pin) :
    (s.insertPin key' new).pins key = some pin := by
  rw [Redeem.insertPin]
  split
  · exact stored
  · rename_i free
    have other : key ≠ key' := by
      rintro rfl
      rw [stored] at free
      cases free
    exact (Function.update_of_ne other ..).trans stored

theorem insertPin_ne {key' : RedeemKey} (other : key ≠ key') (new : Pin) :
    (s.insertPin key' new).pins key = s.pins key := by
  rw [Redeem.insertPin]
  split
  · rfl
  · exact Function.update_of_ne other ..

theorem insertPin_free {new : Pin} (free : s.pins key = none) :
    (s.insertPin key new).pins key = some new := by
  rw [Redeem.insertPin, free]
  exact Function.update_self ..

/-- A move takes no pin away that the clock has not left behind. -/
theorem Moved.pin_kept (moved : Moved s a m pins phase)
    (timed : ∀ now ∈ a.phase.captured, now ≤ s.clock) (stored : s.pins key = some pin)
    (young : s.clock - redeemRequestTtl ≤ pin.createdAt) : pins key = some pin := by
  cases moved with
  | @purged now creditId before =>
    rw [before] at timed
    have past := timed now rfl
    exact purgePins_eq stored (by omega)
  | inserted => exact insertPin_stored stored
  | idle | looked | found | retargeted | picked | selected | sent => exact stored

theorem step_clock {action : Action} (taken : step s action = some t) : s.clock ≤ t.clock := by
  cases step_cases taken with
  | outside _ _ _ clock => exact clock
  | received => exact Int.le_refl _
  | moved _ _ _ clock => exact Int.le_of_eq clock.symm

theorem step_pin_kept {action : Action} (timed : Timed s) (taken : step s action = some t)
    (stored : s.pins key = some pin) (young : t.clock - redeemRequestTtl ≤ pin.createdAt) :
    t.pins key = some pin := by
  have still : s.clock - redeemRequestTtl ≤ pin.createdAt := by
    have later := step_clock taken
    omega
  cases step_cases taken with
  | outside _ same => rw [same, stored]
  | received => exact stored
  | moved at_ moved => exact moved.pin_kept (timed _ _ at_) stored still

/-! ## Under a pin -/

/-- The pin is in the table, and every attempt of the redemption that holds a credit holds
the pinned one. -/
structure Held (key : RedeemKey) (pin : Pin) (s : Redeem) : Prop where
  row : s.pins key = some pin
  chosen : ∀ i a, s.attempts i = some a → a.key = key →
    ∀ creditId ∈ a.phase.chosen, creditId = pin.creditId

theorem Moved.chosen (moved : Moved s a m pins phase) (own : a.key = key)
    (row : s.pins key = some pin)
    (held : ∀ creditId ∈ a.phase.chosen, creditId = pin.creditId) :
    ∀ creditId ∈ phase.chosen, creditId = pin.creditId := by
  intro creditId chosen
  cases moved with
  | idle _ idle =>
    rw [idle.chosen] at chosen
    cases chosen
  | found before stored live =>
    rw [own, row] at stored
    cases stored
    exact (Option.some.inj chosen).symm
  | retargeted before =>
    rw [before] at held
    exact held creditId chosen
  | selected before =>
    have same := Option.some.inj chosen
    rw [Redeem.storedCreditId, own, row] at same
    exact same.symm
  | looked | picked | purged | inserted | sent => cases chosen

theorem Held.step {action : Action} (held : Held key pin s) (timed : Timed s)
    (taken : step s action = some t) (young : t.clock - redeemRequestTtl ≤ pin.createdAt) :
    Held key pin t := by
  refine ⟨step_pin_kept timed taken held.row young, ?_⟩
  intro j b found own
  cases step_cases taken with
  | outside _ _ attempts =>
    rw [attempts] at found
    exact held.chosen j b found own
  | received =>
    rcases setAttempt_cases found with rfl | found
    · intro creditId chosen
      cases chosen
    · exact held.chosen j b found own
  | @moved i m a u phase at_ moved attempts clock =>
    rcases setAttempt_cases found with rfl | found
    · exact moved.chosen own held.row (held.chosen i a at_ own)
    · rw [attempts] at found
      exact held.chosen j b found own

/-- What a step may add to the record of consume calls. -/
theorem mem_sent_note {action : Action} {e : Sent} (mem : e ∈ (note s action t h).sent) :
    e ∈ h.sent ∨ ∃ i a, s.attempts i = some a ∧ e.key = a.key ∧ e.creditId ∈ a.phase.chosen ∧
      e.sentAt = s.clock := by
  rw [note.eq_def] at mem
  split at mem
  · split at mem
    · rename_i found
      rcases List.mem_append.mp mem with mem | mem
      · exact .inl mem
      · obtain rfl := List.mem_singleton.mp mem
        exact .inr ⟨_, _, found, rfl, rfl, rfl⟩
    · exact .inl mem
  · split at mem
    · split_ifs at mem
      · exact .inl mem
      · exact .inl mem
    · exact .inl mem
  · exact .inl mem

/-- Up to the end of the lifetime the pin is held, and what was sent names its credit. -/
structure Bound (key : RedeemKey) (pin : Pin) (x : Redeem × History) : Prop where
  held : x.1.clock - redeemRequestTtl ≤ pin.createdAt → Held key pin x.1
  sent : ∀ e ∈ x.2.sent, e.key = key → e.sentAt - redeemRequestTtl ≤ pin.createdAt →
    e.creditId = pin.creditId

theorem Bound.step {action : Action} (bound : Bound key pin (s, h)) (timed : Timed s)
    (taken : step s action = some t) : Bound key pin (t, note s action t h) := by
  have later := step_clock taken
  refine ⟨fun young => ?_, fun e mem own young => ?_⟩
  · exact (bound.held (by dsimp only at young ⊢; omega)).step timed taken young
  · rcases mem_sent_note (t := t) mem with mem | ⟨i, a, at_, same, chosen, now⟩
    · exact bound.sent e mem own young
    · have held := bound.held (by dsimp only; omega)
      exact held.chosen i a at_ (same.symm.trans own) e.creditId chosen

/-! ## Before the pin -/

/-- What an attempt of the redemption may hold while nothing is pinned since `start`. -/
def Phase.Early (start : ℤ) (free : Prop) : Phase → Prop
  | .entered => True
  | .lookingUp now _ => start ≤ now
  | .fetching pendingCreditId => pendingCreditId = none
  | .purging now _ => start ≤ now
  | .inserting now _ => start ≤ now ∧ free
  | .selecting _ => False
  | .consuming _ => False
  | .answering => False
  | .ended => True

/-- Nothing is pinned since `start`: at most an outlived pin is in the table. -/
structure Early (key : RedeemKey) (start : ℤ) (x : Redeem × History) : Prop where
  began : start ≤ x.1.clock
  outlived : ∀ pin, x.1.pins key = some pin → pin.createdAt < start - redeemRequestTtl
  early : ∀ i a, x.1.attempts i = some a → a.key = key →
    a.phase.Early start (x.1.pins key = none)
  unsent : ∀ e ∈ x.2.sent, e.key ≠ key
  unpinned : ∀ p ∈ x.2.pinned, p.1 ≠ key

theorem Phase.Early.chosen {start : ℤ} {free : Prop} (early : phase.Early start free) :
    phase.chosen = none := by
  cases phase with
  | fetching => exact early
  | consuming => exact early.elim
  | entered | lookingUp | purging | inserting | selecting | answering | ended => rfl

theorem Phase.Early.imp {start : ℤ} {free free' : Prop} (imp : free → free')
    (early : phase.Early start free) : phase.Early start free' := by
  cases phase with
  | inserting => exact ⟨early.1, imp early.2⟩
  | entered | lookingUp | fetching | purging | selecting | consuming | answering | ended =>
    exact early

theorem purgePins_free {now : ℤ}
    (outlived : ∀ pin, s.pins key = some pin → pin.createdAt < now - redeemRequestTtl) :
    (s.purgePins key.accountId now).pins key = none := by
  cases row : s.pins key with
  | none => simp [Redeem.purgePins, row]
  | some pin =>
    have past := outlived pin row
    simp only [Redeem.purgePins, row]
    rw [Option.filter_some, decide_eq_true past]
    rfl

/-- Until it inserts, an attempt of the redemption stays as it was. -/
theorem Moved.early {start : ℤ} (moved : Moved s a m pins phase) (own : a.key = key)
    (reads : m ≠ .insert) (early : a.phase.Early start (s.pins key = none))
    (began : start ≤ s.clock)
    (outlived : ∀ pin, s.pins key = some pin → pin.createdAt < start - redeemRequestTtl) :
    phase.Early start (pins key = none) := by
  cases moved with
  | idle _ idle =>
    cases idle with
    | fetching => rfl
    | ended => trivial
  | looked => exact began
  | picked => exact began
  | found before stored live =>
    rw [before] at early
    have captured : start ≤ _ := early
    have past := outlived _ (own ▸ stored)
    omega
  | retargeted before =>
    rw [before] at early
    cases early
  | purged before =>
    rw [before] at early
    have captured : start ≤ _ := early
    refine ⟨captured, ?_⟩
    rw [own]
    refine purgePins_free fun pin row => ?_
    have past := outlived pin row
    omega
  | inserted => exact absurd rfl reads
  | selected before =>
    rw [before] at early
    exact early.elim
  | sent before =>
    rw [before] at early
    exact early.elim

/-- Apart from an insert for the redemption, a move brings no pin of it. -/
theorem Moved.pin_old (moved : Moved s a m pins phase) (other : m = .insert → a.key ≠ key)
    (stored : pins key = some pin) : s.pins key = some pin := by
  cases moved with
  | purged => exact purgePins_mem stored
  | inserted =>
    rw [insertPin_ne (Ne.symm (other rfl))] at stored
    exact stored
  | idle | looked | found | retargeted | picked | selected | sent => exact stored

theorem mem_pinned_note {action : Action} {p : RedeemKey × Pin}
    (mem : p ∈ (note s action t h).pinned) :
    p ∈ h.pinned ∨ ∃ i a, action = .attempt i .insert ∧ s.attempts i = some a ∧ p.1 = a.key := by
  rw [note.eq_def] at mem
  split at mem
  · split at mem
    · exact .inl mem
    · exact .inl mem
  · split at mem
    · rename_i found
      split_ifs at mem
      · rcases List.mem_append.mp mem with mem | mem
        · exact .inl mem
        · obtain rfl := List.mem_singleton.mp mem
          exact .inr ⟨_, _, rfl, found, rfl⟩
      · exact .inl mem
    · exact .inl mem
  · exact .inl mem

/-- The insert of a redemption without a pin, in the record. -/
theorem note_insert {i : ℕ} {now : ℤ} {creditId : String} (at_ : s.attempts i = some a)
    (before : a.phase = .inserting now creditId) (free : s.pins a.key = none) :
    note s (.attempt i .insert) t h
      = { h with pinned := h.pinned ++ [(a.key, ⟨creditId, now⟩)] } := by
  obtain ⟨replica, key, client, phase⟩ := a
  subst before
  simp [note, at_, free]

def History.firstPinned (h : History) (key : RedeemKey) : Option Pin :=
  (h.pinned.find? fun p => decide (p.1 = key)).map Prod.snd

theorem firstPinned_append (key : RedeemKey) (pin : Pin)
    (unpinned : ∀ p ∈ h.pinned, p.1 ≠ key) :
    History.firstPinned { h with pinned := h.pinned ++ [(key, pin)] } key = some pin := by
  have missing : h.pinned.find? (fun p => decide (p.1 = key)) = none := by
    rw [List.find?_eq_none]
    intro p hp
    simpa using unpinned p hp
  simp [History.firstPinned, List.find?_append, missing]

/-- The move of an attempt of a redemption that is not pinned yet. -/
theorem Early.moved {start : ℤ} {i : ℕ} {action : Action} {u : Redeem}
    (early : Early key start (s, h)) (at_ : s.attempts i = some a)
    (moved : Moved s a m u.pins phase) (attempts : u.attempts = s.attempts)
    (clock : u.clock = s.clock) (other : m = .insert → a.key ≠ key)
    (noted : action = .attempt i m) :
    Early key start (u.setAttempt i { a with phase := phase }, note s action t h) where
  began := by
    have began := early.began
    rw [← clock] at began
    exact began
  outlived pin stored := early.outlived pin (moved.pin_old other stored)
  early j b found own := by
    rcases setAttempt_cases found with rfl | found
    · exact moved.early own (fun same => other same own) (early.early i a at_ own) early.began
        early.outlived
    · rw [attempts] at found
      refine (early.early j b found own).imp fun free => ?_
      cases row : (u.setAttempt i { a with phase := phase }).pins key with
      | none => rfl
      | some pin =>
        rw [show s.pins key = some pin from moved.pin_old other row] at free
        cases free
  unsent e mem := by
    rcases mem_sent_note (t := t) mem with mem | ⟨j, b, found, same, chosen, -⟩
    · exact early.unsent e mem
    · intro own
      rw [(early.early j b found (same.symm.trans own)).chosen] at chosen
      cases chosen
  unpinned p mem := by
    rcases mem_pinned_note (t := t) mem with mem | ⟨j, b, inserts, found, same⟩
    · exact early.unpinned p mem
    · rw [noted] at inserts
      cases inserts
      rw [at_] at found
      cases found
      rw [same]
      exact other rfl

theorem Moved.inserts (moved : Moved s a .insert pins phase) :
    ∃ now creditId, a.phase = .inserting now creditId ∧ phase = .selecting creditId ∧
      pins = (s.insertPin a.key ⟨creditId, now⟩).pins := by
  cases moved with
  | idle unnoted => exact absurd rfl unnoted.1
  | inserted before => exact ⟨_, _, before, rfl, rfl⟩

theorem note_quiet {action : Action} (quiet : ∀ i m, action ≠ .attempt i m) :
    note s action t h = h := by
  cases action with
  | attempt i m => exact absurd rfl (quiet i m)
  | tick | refresh | receive => rfl

/-- A redemption stays without a pin, or its first pin is made by this step. -/
theorem Early.step {start : ℤ} {action : Action} (early : Early key start (s, h))
    (taken : step s action = some t) :
    Early key start (t, note s action t h) ∨
      ∃ pin, (note s action t h).firstPinned key = some pin ∧
        Bound key pin (t, note s action t h) := by
  cases step_cases taken with
  | outside quiet pins attempts clock =>
    rw [note_quiet quiet]
    refine .inl ⟨Int.le_trans early.began clock, ?_, ?_, early.unsent, early.unpinned⟩
    · dsimp only
      rw [pins]
      exact early.outlived
    · dsimp only
      rw [pins, attempts]
      exact early.early
  | received unused =>
    refine .inl ⟨early.began, early.outlived, fun j b found own => ?_, early.unsent, early.unpinned⟩
    rcases setAttempt_cases found with rfl | found
    · trivial
    · exact early.early j b found own
  | @moved i m a u phase at_ moved attempts clock =>
    by_cases inserts : m = .insert ∧ a.key = key
    · obtain ⟨rfl, rfl⟩ := inserts
      obtain ⟨now, creditId, before, rfl, stored⟩ := moved.inserts
      have holds := early.early i a at_ rfl
      rw [before] at holds
      obtain ⟨-, free⟩ := holds
      rw [note_insert at_ before free]
      refine .inr ⟨⟨creditId, now⟩, firstPinned_append a.key _ early.unpinned, ?_, ?_⟩
      · intro _
        refine ⟨?_, fun j b found own c chosen => ?_⟩
        · exact (congrFun stored a.key).trans (insertPin_free free)
        · rcases setAttempt_cases found with rfl | found
          · cases chosen
          · rw [attempts] at found
            rw [(early.early j b found own).chosen] at chosen
            cases chosen
      · intro e mem own
        exact absurd own (early.unsent e mem)
    · exact .inl (early.moved at_ moved attempts clock (fun same own => inserts ⟨same, own⟩) rfl)

theorem note_pinned (s : Redeem) (action : Action) (t : Redeem) (h : History) :
    ∃ new, (note s action t h).pinned = h.pinned ++ new := by
  rw [note.eq_def]
  split
  · split
    · exact ⟨[], by simp⟩
    · exact ⟨[], by simp⟩
  · split
    · split_ifs
      · exact ⟨_, rfl⟩
      · exact ⟨[], by simp⟩
    · exact ⟨[], by simp⟩
  · exact ⟨[], by simp⟩

theorem firstPinned_note {action : Action} (first : h.firstPinned key = some pin) :
    (note s action t h).firstPinned key = some pin := by
  obtain ⟨new, extended⟩ := note_pinned s action t h
  obtain ⟨p, found, rfl⟩ := Option.map_eq_some_iff.mp first
  rw [History.firstPinned, extended, List.find?_append, found]
  rfl

/-! ## Whole runs -/

/-- The pin of the redemption that is live at the start. -/
def Redeem.livePin (s : Redeem) (key : RedeemKey) : Option Pin :=
  (s.pins key).filter fun pin => decide (s.clock - redeemRequestTtl ≤ pin.createdAt)

/-- The pin whose lifetime the attempts of a run share: the live one at its start, or else
the first that is made. -/
def lifetimePin (s : Redeem) (h : History) (key : RedeemKey) : Option Pin :=
  (s.livePin key).or (h.firstPinned key)

theorem timed_of_reachable (reached : Reachable step Any Initial s) : Timed s := by
  refine reached.invariant ?_ fun s action t timed _ taken => timed.step taken
  intro s idle i a found
  rw [idle i] at found
  cases found

theorem Settled.bound (settled : Settled key s) (live : s.livePin key = some pin) :
    Bound key pin (s, History.start) := by
  refine ⟨fun _ => ⟨(Option.filter_eq_some_iff.mp live).1, fun i a found own c chosen => ?_⟩, ?_⟩
  · rw [settled i a found own] at chosen
    cases chosen
  · intro e mem
    cases mem

theorem Settled.early (settled : Settled key s) (dead : s.livePin key = none) :
    Early key s.clock (s, History.start) where
  began := Int.le_refl _
  outlived pin row := by
    rw [Redeem.livePin, row] at dead
    by_contra young
    rw [Option.filter_some, if_pos (decide_eq_true (by omega))] at dead
    cases dead
  early i a found own := by
    rw [settled i a found own]
    trivial
  unsent e mem := by cases mem
  unpinned p mem := by cases mem

/-- What the run of a redemption without a live pin comes to. -/
def Tracked (key : RedeemKey) (start : ℤ) (x : Redeem × History) : Prop :=
  Early key start x ∨ ∃ pin, x.2.firstPinned key = some pin ∧ Bound key pin x

theorem Tracked.step {start : ℤ} {action : Action} (tracked : Tracked key start (s, h))
    (timed : Timed s) (taken : step s action = some t) :
    Tracked key start (t, note s action t h) := by
  rcases tracked with early | ⟨pin, first, bound⟩
  · exact early.step taken
  · exact .inr ⟨pin, firstPinned_note (t := t) first, bound.step timed taken⟩

/-- The invariant rule for runs with their record. -/
theorem recorded_invariant {I : Redeem × History → Prop}
    (kept : ∀ s h action t, I (s, h) → Timed s → step s action = some t →
      I (t, note s action t h))
    (timed : Timed s) (start : I (s, h)) {x : Redeem × History}
    (run : Steps (recording step note) Any (s, h) x) : I x := by
  refine (run.invariant (I := fun y => Timed y.1 ∧ I y) ?_ ⟨timed, start⟩).2
  intro ⟨u, g⟩ action ⟨v, g'⟩ ⟨utimed, hu⟩ _ taken
  obtain ⟨moves, noted⟩ := recording_eq_some.mp taken
  dsimp only at moves noted utimed
  subst noted
  exact ⟨utimed.step moves, kept u g action v hu utimed moves⟩

/-- Every consume call of a redemption within the lifetime of its pin names the pinned
credit, and a pin stays as it is for its lifetime. -/
theorem redeem_idempotent (reached : Reachable step Any Initial s)
    (run : Steps (recording step note) Any (s, History.start) (t, h)) :
    (∀ key, Settled key s → ∀ e ∈ h.sent, e.key = key → ∃ pin, lifetimePin s h key = some pin ∧
      (e.sentAt - redeemRequestTtl ≤ pin.createdAt → e.creditId = pin.creditId)) ∧
    ∀ key pin, s.pins key = some pin → t.clock - redeemRequestTtl ≤ pin.createdAt →
      t.pins key = some pin := by
  have timed := timed_of_reachable reached
  refine ⟨fun key settled e mem own => ?_, fun key pin stored young => ?_⟩
  · cases live : s.livePin key with
    | some pin =>
      have bound : Bound key pin (t, h) := recorded_invariant
        (fun s h action t bound timed taken => bound.step timed taken) timed
        (settled.bound live) run
      exact ⟨pin, by rw [lifetimePin, live, Option.some_or], bound.sent e mem own⟩
    | none =>
      have tracked : Tracked key s.clock (t, h) := recorded_invariant
        (fun s h action t tracked timed taken => tracked.step timed taken) timed
        (.inl (settled.early live)) run
      rcases tracked with early | ⟨pin, first, bound⟩
      · exact absurd own (early.unsent e mem)
      · exact ⟨pin, by rw [lifetimePin, live, Option.none_or, first], bound.sent e mem own⟩
  · refine recorded_invariant (I := fun x => x.1.clock - redeemRequestTtl ≤ pin.createdAt →
      x.1.pins key = some pin) ?_ timed (fun _ => stored) run young
    intro s h action t held timed taken young
    have later := step_clock taken
    exact step_pin_kept timed taken (held (by dsimp only at young ⊢; omega)) young

def freshRedeem : Redeem := ⟨0, fun _ => none, fun _ => none, fun _ _ => none⟩

def listing (id : String) : ResetCreditsResponse := ⟨[⟨id, some "available", none⟩], 1⟩

/-- Two replicas that list different credits race for one redemption; the answers are lost,
and a retry comes when nothing is listed. -/
def raceActions : List Action :=
  [.refresh 0 "acc" (some (buildSnapshot (listing "a"))),
    .refresh 1 "acc" (some (buildSnapshot (listing "b"))),
    .receive 0 0 "acc" (some "req") "u0", .receive 1 1 "acc" (some "req") "u1",
    .attempt 0 .look, .attempt 1 .look, .attempt 0 .find, .attempt 1 .find,
    .attempt 0 (.fetched (listing "a")), .tick 5, .attempt 1 (.fetched (listing "b")),
    .attempt 0 .purge, .attempt 1 .purge, .attempt 1 .insert, .attempt 0 .insert,
    .attempt 0 .select, .attempt 0 .consume, .attempt 0 .abandon, .attempt 1 .abandon, .tick 10,
    .receive 2 0 "acc" (some "req") "u2", .attempt 2 .look, .attempt 2 .find,
    .attempt 2 (.fetched ⟨[], 0⟩), .attempt 2 .consume]

def afterRace : Redeem × History :=
  (replay (recording step note) (freshRedeem, History.start) raceActions).getD
    (freshRedeem, History.start)

theorem redeem_idempotent_race :
    (afterRace.2.sent = [⟨⟨"acc", "req"⟩, "b", 5⟩, ⟨⟨"acc", "req"⟩, "b", 15⟩]) ∧
    (∀ e ∈ afterRace.2.sent, e.key = ⟨"acc", "req"⟩ →
      ∃ pin, lifetimePin freshRedeem afterRace.2 ⟨"acc", "req"⟩ = some pin ∧
        (e.sentAt - redeemRequestTtl ≤ pin.createdAt → e.creditId = pin.creditId)) := by
  have reached : Reachable step Any Initial freshRedeem :=
    ⟨freshRedeem, fun _ => rfl, .refl freshRedeem⟩
  have run : Steps (recording step note) Any (freshRedeem, History.start) afterRace :=
    steps_of_replay raceActions (fun _ _ _ => trivial) (replay_eq_getD (by decide +kernel) _)
  refine ⟨by decide +kernel, (redeem_idempotent reached run).1 _ ?_⟩
  intro i a found
  cases found

end ResetCredits
