import Mathlib.Data.Rat.Lemmas
import LivingBalancer.Lib.Streaks
import LivingBalancer.Proxy.CapPartitioning

/-!
# When a larger share is adopted

`CapPartitionHolder` over any sequence of ring refreshes. A refresh reads the monotonic
clock once; its membership read may fail. The history lists the refreshes, newest first.
-/

namespace CapPartitioning

open Runs Streaks

structure CapPartitionHolder where
  adopted : CapPartition := {}
  pending : Option CapPartition := none
  pendingSince : Option ℚ := none
  deriving DecidableEq

/-- The arguments of `observe_members`. -/
structure Observation where
  activeInstanceIds : List String
  selfInstanceId : String
  configuredCaps : List ℤ
  scaleDownSeconds : ℚ

def Observation.partition (o : Observation) : CapPartition :=
  observedPartition o.activeInstanceIds o.selfInstanceId

namespace CapPartitionHolder

def clearPending (h : CapPartitionHolder) : CapPartitionHolder :=
  { h with pending := none, pendingSince := none }

def couldGrowShare (h : CapPartitionHolder) (observed : CapPartition) (configuredCaps : List ℤ) :
    Bool :=
  configuredCaps.any fun cap => decide (h.adopted.share cap < observed.share cap)

def observeMembers (h : CapPartitionHolder) (o : Observation) (now : ℚ) :
    CapPartitionHolder × Bool :=
  let observed := o.partition
  if observed = h.adopted then (h.clearPending, false)
  else if !h.couldGrowShare observed o.configuredCaps then
    ({ h with adopted := observed }.clearPending, true)
  else if some observed ≠ h.pending then
    ({ h with pending := some observed, pendingSince := some now }, false)
  else match h.pendingSince with
    | some since =>
      if o.scaleDownSeconds ≤ now - since then ({ h with adopted := observed }.clearPending, true)
      else (h, false)
    | none => (h, false)

def noteFailedRead (h : CapPartitionHolder) : CapPartitionHolder := h.clearPending

theorem couldGrowShare_iff {h : CapPartitionHolder} {observed : CapPartition}
    {configuredCaps : List ℤ} : h.couldGrowShare observed configuredCaps = true ↔
      ∃ cap ∈ configuredCaps, h.adopted.share cap < observed.share cap := by
  simp [couldGrowShare]

/-- What an observation can do. -/
theorem observeMembers_cases (h : CapPartitionHolder) (o : Observation) (now : ℚ) :
    (h.observeMembers o now = (h.clearPending, false) ∧ o.partition = h.adopted) ∨
    (h.observeMembers o now = ({ h with adopted := o.partition }.clearPending, true) ∧
      h.couldGrowShare o.partition o.configuredCaps = false) ∨
    (h.couldGrowShare o.partition o.configuredCaps = true ∧
      (h.observeMembers o now =
          ({ h with pending := some o.partition, pendingSince := some now }, false) ∨
        h.pending = some o.partition ∧
          (h.observeMembers o now = (h, false) ∨
            ∃ since, h.pendingSince = some since ∧ o.scaleDownSeconds ≤ now - since ∧
              h.observeMembers o now =
                ({ h with adopted := o.partition }.clearPending, true)))) := by
  by_cases same : o.partition = h.adopted
  · exact .inl ⟨by simp [observeMembers, same], same⟩
  · cases grows : h.couldGrowShare o.partition o.configuredCaps with
    | false => exact .inr (.inl ⟨by simp [observeMembers, same, grows], rfl⟩)
    | true =>
      refine .inr (.inr ⟨rfl, ?_⟩)
      by_cases held : some o.partition = h.pending
      · refine .inr ⟨held.symm, ?_⟩
        cases hsince : h.pendingSince with
        | none => exact .inl (by simp [observeMembers, same, grows, ← held, hsince])
        | some since =>
          by_cases long : o.scaleDownSeconds ≤ now - since
          · refine .inr ⟨since, rfl, long, ?_⟩
            simp [observeMembers, same, grows, ← held, hsince, long]
          · exact .inl (by simp [observeMembers, same, grows, ← held, hsince, long])
      · exact .inl (by simp [observeMembers, same, grows, held])

end CapPartitionHolder

/-! ## Refreshes -/

/-- One `refresh_cap_partition`; `none` is a failed membership read. -/
structure RingEvent where
  now : ℚ
  read : Option Observation

/-- The membership was read and gave the partition `p`. -/
def RingEvent.sees (e : RingEvent) (p : CapPartition) : Prop :=
  ∃ o, e.read = some o ∧ o.partition = p

structure Tracker where
  holder : CapPartitionHolder
  clock : ℚ
  deriving DecidableEq

def refresh (s : Tracker) (e : RingEvent) : Option Tracker :=
  if s.clock ≤ e.now then
    match e.read with
    | some o => some { holder := (s.holder.observeMembers o e.now).1, clock := e.now }
    | none => some { holder := s.holder.noteFailedRead, clock := e.now }
  else none

def noteEvent (_ : Tracker) (e : RingEvent) (_ : Tracker) (history : List RingEvent) :
    List RingEvent :=
  e :: history

/-- The latest refreshes all saw `p`, and the first of them was at `since`. -/
def SeenSince (p : CapPartition) (since : ℚ) (history : List RingEvent) : Prop :=
  ∃ span first, Streak (·.sees p) history span ∧ span.getLast? = some first ∧ first.now = since

theorem SeenSince.one {p : CapPartition} {e : RingEvent} (sees : e.sees p)
    (history : List RingEvent) : SeenSince p e.now (e :: history) :=
  ⟨[e], e, (Streak.nil _ history).cons sees, rfl, rfl⟩

theorem SeenSince.cons {p : CapPartition} {since : ℚ} {history : List RingEvent}
    (seen : SeenSince p since history) {e : RingEvent} (sees : e.sees p) :
    SeenSince p since (e :: history) := by
  obtain ⟨span, first, streak, last, start⟩ := seen
  refine ⟨e :: span, first, streak.cons sees, ?_, start⟩
  rw [List.getLast?_cons, last]
  rfl

/-- A pending partition was seen by every refresh since its window began. -/
def Pended (s : Tracker) (history : List RingEvent) : Prop :=
  ∀ p, s.holder.pending = some p →
    ∃ since, s.holder.pendingSince = some since ∧ SeenSince p since history

theorem refresh_cases {s s' : Tracker} {e : RingEvent} (step : refresh s e = some s') :
    s.clock ≤ e.now ∧
      ((∃ o, e.read = some o ∧ s' = ⟨(s.holder.observeMembers o e.now).1, e.now⟩) ∨
        e.read = none ∧ s' = ⟨s.holder.clearPending, e.now⟩) := by
  simp only [refresh] at step
  split at step
  · rename_i later
    refine ⟨later, ?_⟩
    split at step <;> cases step
    · rename_i o hread
      exact .inl ⟨o, hread, rfl⟩
    · rename_i hread
      exact .inr ⟨hread, rfl⟩
  · cases step

theorem Pended.step {s s' : Tracker} {history : List RingEvent} (pended : Pended s history)
    {e : RingEvent} (step : refresh s e = some s') : Pended s' (e :: history) := by
  intro p hp
  obtain ⟨-, ⟨o, hread, rfl⟩ | ⟨-, rfl⟩⟩ := refresh_cases step
  · rcases s.holder.observeMembers_cases o e.now with
      ⟨heq, -⟩ | ⟨heq, -⟩ | ⟨-, heq | ⟨held, heq | ⟨_, _, _, heq⟩⟩⟩
    · rw [heq] at hp
      cases hp
    · rw [heq] at hp
      cases hp
    · rw [heq] at hp ⊢
      obtain rfl := Option.some.inj hp
      exact ⟨e.now, rfl, .one ⟨o, hread, rfl⟩ history⟩
    · -- the same partition again: its window goes on
      rw [heq] at hp ⊢
      obtain ⟨since, hsince, seen⟩ := pended p hp
      obtain rfl := Option.some.inj (held.symm.trans hp)
      exact ⟨since, hsince, seen.cons ⟨o, hread, rfl⟩⟩
    · rw [heq] at hp
      cases hp
  · cases hp

/-- A replica that has seen no ring yet. -/
def Unrefreshed (x : Tracker × List RingEvent) : Prop := x.1.holder = {} ∧ x.2 = []

theorem Pended.of_reachable {s : Tracker} {history : List RingEvent}
    (h : Reachable (recording refresh noteEvent) Any Unrefreshed (s, history)) :
    Pended s history := by
  refine h.invariant (I := fun x => Pended x.1 x.2) ?_ ?_
  · rintro x ⟨fresh, -⟩ p hp
    rw [fresh] at hp
    cases hp
  · intro x e y pended _ hstep
    obtain ⟨hrefresh, hnote⟩ := recording_eq_some.mp hstep
    rw [hnote]
    exact pended.step hrefresh

/-- A refresh that enlarges the share of a configured cap has seen the partition it adopts, and
so has every refresh since one at least `scale_down_seconds` before it. A membership that
enlarges no share is adopted as it is seen, and a failed read adopts nothing. -/
theorem growth_is_confirmed {s s' : Tracker} {history : List RingEvent}
    (h : Reachable (recording refresh noteEvent) Any Unrefreshed (s, history)) {e : RingEvent}
    (step : refresh s e = some s') :
    (∀ o, e.read = some o → (∃ cap ∈ o.configuredCaps,
        s.holder.adopted.share cap < s'.holder.adopted.share cap) →
      ∃ since, SeenSince s'.holder.adopted since (e :: history) ∧
        o.scaleDownSeconds ≤ e.now - since) ∧
    (∀ o, e.read = some o →
      (∀ cap ∈ o.configuredCaps, o.partition.share cap ≤ s.holder.adopted.share cap) →
      s'.holder.adopted = o.partition) ∧
    (e.read = none → s'.holder.adopted = s.holder.adopted) := by
  have pended := Pended.of_reachable h
  obtain ⟨-, ⟨o, hread, rfl⟩ | ⟨hread, rfl⟩⟩ := refresh_cases step
  · rw [hread]
    refine ⟨?_, ?_, nofun⟩
    · rintro _ ⟨⟩ ⟨cap, hcap, grows⟩
      rcases s.holder.observeMembers_cases o e.now with
        ⟨heq, -⟩ | ⟨heq, shrinks⟩ | ⟨-, heq | ⟨held, heq | ⟨since, hsince, long, heq⟩⟩⟩
      · rw [heq] at grows
        exact absurd grows (lt_irrefl _)
      · rw [heq] at grows
        have could : s.holder.couldGrowShare o.partition o.configuredCaps = true :=
          CapPartitionHolder.couldGrowShare_iff.mpr ⟨cap, hcap, grows⟩
        exact absurd (could.symm.trans shrinks) nofun
      · rw [heq] at grows
        exact absurd grows (lt_irrefl _)
      · rw [heq] at grows
        exact absurd grows (lt_irrefl _)
      · obtain ⟨since', hsince', seen⟩ := pended _ held
        obtain rfl := Option.some.inj (hsince.symm.trans hsince')
        rw [heq]
        exact ⟨since, seen.cons ⟨o, hread, rfl⟩, long⟩
    · rintro _ ⟨⟩ shrinks
      rcases s.holder.observeMembers_cases o e.now with
        ⟨heq, same⟩ | ⟨heq, -⟩ | ⟨grows, -⟩
      · rw [heq]
        exact same.symm
      · rw [heq]
        rfl
      · obtain ⟨cap, hcap, more⟩ := CapPartitionHolder.couldGrowShare_iff.mp grows
        exact absurd more (shrinks cap hcap).not_gt
  · rw [hread]
    exact ⟨nofun, nofun, fun _ => rfl⟩

def ringOf (active : List String) : Observation where
  activeInstanceIds := active
  selfInstanceId := "a"
  configuredCaps := [4, 8]
  scaleDownSeconds := 60

/-- Replica "b" leaves; the share of "a" grows when it was gone for 60 seconds. -/
def peerLeaves : List RingEvent :=
  [⟨0, some (ringOf ["a", "b"])⟩, ⟨10, some (ringOf ["a"])⟩, ⟨30, none⟩,
    ⟨40, some (ringOf ["a"])⟩, ⟨90, some (ringOf ["a"])⟩]

def unrefreshed : Tracker × List RingEvent := (⟨{}, 0⟩, [])

def aloneTooShort : Tracker × List RingEvent :=
  (replay (recording refresh noteEvent) unrefreshed peerLeaves).getD unrefreshed

theorem peer_gone_for_a_minute :
    aloneTooShort.1.holder.adopted = ⟨2, 0⟩ ∧
      ∃ since, SeenSince ⟨1, 0⟩ since
          (⟨100, some (ringOf ["a"])⟩ :: aloneTooShort.2) ∧ (60 : ℚ) ≤ 100 - since := by
  have run : Reachable (recording refresh noteEvent) Any Unrefreshed
      (aloneTooShort.1, aloneTooShort.2) :=
    reachable_of_replay peerLeaves (⟨rfl, rfl⟩ : Unrefreshed unrefreshed) (fun _ _ _ => trivial) rfl
  have shared : aloneTooShort.1.holder.adopted = ⟨2, 0⟩ := by decide +kernel
  have step : refresh aloneTooShort.1 ⟨100, some (ringOf ["a"])⟩ = some ⟨⟨⟨1, 0⟩, none, none⟩, 100⟩ := by
    decide +kernel
  have grows : ∃ cap ∈ (ringOf ["a"]).configuredCaps,
      aloneTooShort.1.holder.adopted.share cap < CapPartition.share ⟨1, 0⟩ cap := by
    rw [shared]
    exact ⟨4, by decide, by decide⟩
  exact ⟨shared, (growth_is_confirmed run step).1 _ rfl grows⟩

end CapPartitioning
