import LivingBalancer.Accounts.RefreshClaims
import LivingBalancer.Lib.IpAddress
import Mathlib.Data.List.TakeWhile

/-!
# Owners of refresh claims do not collide

The claim statements compare `claimed_by` as text. The composed value ends in `#` and the
kept part of the owner, of fixed width, so cutting that off leaves the claimant; a process
suffix holds no `:`, so the last one of the claimant ends the instance id, cut or not.
-/

namespace TokenRefresh

open PyText TimedLease

theorem eq_of_last_separator {x : Char} {a b s t : Text} (hs : x ∉ s) (ht : x ∉ t)
    (h : a ++ x :: s = b ++ x :: t) : s = t := by
  have key : ∀ {l r : Text}, x ∉ r → (l ++ x :: r).reverse.takeWhile (· ≠ x) = r.reverse := by
    intro l r hr
    rw [List.reverse_append, List.reverse_cons, List.append_assoc,
      List.takeWhile_append_of_pos (by
        intro y hy
        have : y ≠ x := by
          rintro rfl
          exact hr (List.mem_reverse.mp hy)
        simpa using this)]
    simp
  have same : s.reverse = t.reverse := by
    rw [← key hs (l := a), ← key ht (l := b), h]
  exact List.reverse_injective same

theorem defaultRefreshClaimantId_length (instanceId : Text) {suffix : Text}
    (short : suffix.length ≤ 110) : (defaultRefreshClaimantId instanceId suffix).length ≤ 111 := by
  simp only [defaultRefreshClaimantId, claimedByColumnLen, claimOwnerTokenLen, List.length_append,
    List.length_take, List.length_cons]
  omega

theorem composeClaimedBy_length (claimantId owner : Text) :
    (composeClaimedBy claimantId owner).length ≤ claimedByColumnLen := by
  simp only [composeClaimedBy, claimedByColumnLen, claimOwnerTokenLen, List.length_append,
    List.length_take, List.length_cons]
  omega

/-- The claimant is not cut a second time. -/
theorem composeClaimedBy_eq {claimantId owner : Text} (fits : claimantId.length ≤ 111)
    (long : claimOwnerTokenLen ≤ owner.length) :
    composeClaimedBy claimantId owner = claimantId ++ '#' :: owner.take claimOwnerTokenLen := by
  have width : (owner.take claimOwnerTokenLen).length = 16 := by
    rw [List.length_take, min_eq_left long]
    rfl
  have whole : claimantId.take 111 = claimantId := List.take_of_length_le fits
  simp only [composeClaimedBy, List.length_cons, width, claimedByColumnLen, Nat.reduceAdd,
    Nat.reduceSub, whole]

/-- A composed value determines the process suffix and the kept part of the owner. -/
theorem composeClaimedBy_inj {i j s t f g : Text} (hs : s.length ≤ 110) (ht : t.length ≤ 110)
    (plain_s : ':' ∉ s) (plain_t : ':' ∉ t)
    (hf : claimOwnerTokenLen ≤ f.length) (hg : claimOwnerTokenLen ≤ g.length)
    (h : composeClaimedBy (defaultRefreshClaimantId i s) f =
      composeClaimedBy (defaultRefreshClaimantId j t) g) :
    s = t ∧ f.take claimOwnerTokenLen = g.take claimOwnerTokenLen := by
  rw [composeClaimedBy_eq (defaultRefreshClaimantId_length i hs) hf,
    composeClaimedBy_eq (defaultRefreshClaimantId_length j ht) hg] at h
  have width : ('#' :: f.take claimOwnerTokenLen).length = ('#' :: g.take claimOwnerTokenLen).length := by
    rw [List.length_cons, List.length_cons, List.length_take, List.length_take, min_eq_left hf,
      min_eq_left hg]
  obtain ⟨claimants, owners⟩ := List.append_inj' h width
  exact ⟨eq_of_last_separator plain_s plain_t claimants, (List.cons.inj owners).2⟩

/-! ## Process suffixes and fingerprints -/

/-- `f"{pid}-{uuid.uuid4().hex[:8]}"`. A pid is a machine integer. -/
structure ProcessSuffix where
  pid : ℕ
  random : Text
  pid_machine : pid < 2 ^ 64
  random_length : random.length = 8
  random_hex : ∀ c ∈ random, isHex c = true

def ProcessSuffix.text (s : ProcessSuffix) : Text := Nat.toDigits 10 s.pid ++ '-' :: s.random

/-- A refresh token fingerprint. -/
structure Fingerprint where
  text : Text
  long : 16 ≤ text.length
  hex : ∀ c ∈ text, isHex c = true

theorem ProcessSuffix.text_length (s : ProcessSuffix) : s.text.length ≤ 110 := by
  have digits : (Nat.toDigits 10 s.pid).length ≤ 20 := by
    rw [Nat.length_toDigits_le_iff (by decide) (by decide)]
    exact lt_trans s.pid_machine (by norm_num)
  rw [ProcessSuffix.text, List.length_append, List.length_cons, s.random_length]
  omega

theorem ProcessSuffix.text_plain (s : ProcessSuffix) : ':' ∉ s.text := by
  rw [ProcessSuffix.text, List.mem_append, List.mem_cons]
  rintro (digit | dash | hex)
  · exact absurd (Nat.isDigit_of_mem_toDigits (by decide) (by decide) digit) (by decide)
  · exact absurd dash (by decide)
  · exact absurd (s.random_hex _ hex) (by decide)

/-- The text of a suffix spells its pid and its random part. -/
theorem ProcessSuffix.text_injective : Function.Injective ProcessSuffix.text := by
  intro s t h
  obtain ⟨pids, randoms⟩ := List.append_inj' h (by
    rw [List.length_cons, List.length_cons, s.random_length, t.random_length])
  have pid : s.pid = t.pid := by
    rw [← Nat.ofDigitChars_ten_toDigits (n := s.pid), pids, Nat.ofDigitChars_ten_toDigits]
  have random := (List.cons.inj randoms).2
  cases s
  cases t
  cases pid
  cases random
  rfl

/-- The `claimed_by` of a refresh of the process with this suffix. -/
def claimedBy (instanceId : Text) (process : ProcessSuffix) (owner : Fingerprint) : Text :=
  composeClaimedBy (defaultRefreshClaimantId instanceId process.text) owner.text

/-! ## The claim statements tell refreshes apart -/

/-- Another process or another refresh: its suffix or the kept part of its owner differs. -/
def Foreign (p q : ProcessSuffix) (f g : Fingerprint) : Prop :=
  p ≠ q ∨ f.text.take claimOwnerTokenLen ≠ g.text.take claimOwnerTokenLen

/-- For all instance ids, also those that are cut or that hold the separators. -/
theorem claim_ids_apart (i j : Text) (p q : ProcessSuffix) (f g : Fingerprint) :
    (claimedBy i p f).length ≤ claimedByColumnLen ∧
    (claimedBy i p f = claimedBy j q g →
      p = q ∧ f.text.take claimOwnerTokenLen = g.text.take claimOwnerTokenLen) ∧
    (Foreign p q f g → ∀ heldUntil now expiresAt : ℤ,
      (now ≤ heldUntil → upsert (some ⟨claimedBy j q g, heldUntil⟩) (claimedBy i p f) now expiresAt =
        (some ⟨claimedBy j q g, heldUntil⟩, false)) ∧
      discard (some ⟨claimedBy j q g, heldUntil⟩) (claimedBy i p f) =
        some (⟨claimedBy j q g, heldUntil⟩ : Lease Text ℤ)) := by
  have apart : claimedBy i p f = claimedBy j q g →
      p = q ∧ f.text.take claimOwnerTokenLen = g.text.take claimOwnerTokenLen := by
    intro same
    obtain ⟨suffixes, owners⟩ := composeClaimedBy_inj p.text_length q.text_length p.text_plain
      q.text_plain f.long g.long same
    exact ⟨ProcessSuffix.text_injective suffixes, owners⟩
  refine ⟨composeClaimedBy_length _ _, apart, ?_⟩
  intro foreign heldUntil now expiresAt
  have held : claimedBy j q g ≠ claimedBy i p f := by
    intro same
    obtain ⟨process, owner⟩ := apart same.symm
    rcases foreign with other | other
    · exact other process
    · exact other owner
  constructor
  · intro live
    rcases upsert_cases (some ⟨claimedBy j q g, heldUntil⟩) (claimedBy i p f) now expiresAt with
      ⟨missed, -⟩ | ⟨-, free⟩
    · exact missed
    · rcases free _ rfl with expired | mine
      · exact absurd expired (not_lt.mpr live)
      · exact absurd mine held
  · rcases discard_cases (some ⟨claimedBy j q g, heldUntil⟩) (claimedBy i p f) with
      ⟨kept, -⟩ | ⟨-, l, row, mine⟩
    · exact kept
    · cases row
      exact absurd mine held

end TokenRefresh
