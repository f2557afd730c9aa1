import Mathlib.Data.List.Sort
import Mathlib.Data.Nat.Count
import Mathlib.Tactic.Common

/-!
# Greedy matching

Requests and answers at the positions of one sequence. Each request in turn takes the first
answer behind it that the cursor has not passed, and the cursor moves on. An answer that no
request took has all requests before it answered before it; so when every prefix of the
sequence holds enough requests of this and any other kind, it still does after any requests
are taken out with their answers.
-/

namespace GreedyMatching

/-- Moves the cursor over the remaining answers that lie before a position. -/
def advance : List ℕ → ℕ → ℕ → ℕ
  | [], cursor, _ => cursor
  | o :: rest, cursor, position =>
    if o < position then advance rest (cursor + 1) position else cursor

/-- The answer of a request, and the cursor behind it. -/
def answer (answers : List ℕ) (cursor position : ℕ) : Option ℕ × ℕ :=
  let cursor := advance (answers.drop cursor) cursor position
  match answers[cursor]? with
  | some o => (some o, cursor + 1)
  | none => (none, cursor)

/-- The cursor and the answers behind the first positions of a sequence. -/
def run (request : ℕ → Bool) (answers : List ℕ) : ℕ → ℕ × (ℕ → Option ℕ)
  | 0 => (0, fun _ => none)
  | n + 1 =>
    if request n then
      let next := answer answers (run request answers n).1 n
      (next.2, fun i => if i = n then next.1 else (run request answers n).2 i)
    else run request answers n

/-- What a greedy matching does: answers come behind their requests, no two requests share one,
and an answer left over has every request before it answered before it. -/
structure Greedy (request given : ℕ → Prop) (taken : ℕ → Option ℕ) : Prop where
  behind : ∀ i o, request i → taken i = some o → given o ∧ i < o
  injective : ∀ i j o, request i → request j → taken i = some o → taken j = some o → i = j
  left : ∀ u, given u → (∀ i, request i → taken i ≠ some u) →
    ∀ i, request i → i < u → ∃ o, taken i = some o ∧ o < u

/-! ## The run is greedy -/

theorem advance_spec (rest : List ℕ) (cursor position : ℕ) :
    ∃ skipped ahead, rest = skipped ++ ahead ∧ (∀ o ∈ skipped, o < position) ∧
      (∀ o, ahead.head? = some o → position ≤ o) ∧
      advance rest cursor position = cursor + skipped.length := by
  induction rest generalizing cursor with
  | nil => exact ⟨[], [], rfl, by simp, by simp, rfl⟩
  | cons o rest ih =>
    rw [advance]
    by_cases passed : o < position
    · obtain ⟨skipped, ahead, split, before, first, moved⟩ := ih (cursor + 1)
      refine ⟨o :: skipped, ahead, by rw [split, List.cons_append], ?_, first, ?_⟩
      · rintro u (_ | ⟨_, hu⟩)
        · exact passed
        · exact before u hu
      · rw [if_pos passed, moved, List.length_cons]
        omega
    · refine ⟨[], o :: rest, rfl, by simp, ?_, by rw [if_neg passed]; rfl⟩
      rintro u first
      cases first
      exact Nat.not_lt.mp passed

/-- What the first positions of a run leave behind: the answers that the cursor has passed, and
those ahead of it. -/
structure Progress (request : ℕ → Bool) (answers passed ahead : List ℕ) (n : ℕ)
    (state : ℕ × (ℕ → Option ℕ)) : Prop where
  split : answers = passed ++ ahead
  cursor : state.1 = passed.length
  behind : ∀ i o, i < n → request i = true → state.2 i = some o → o ∈ passed ∧ i < o
  injective : ∀ i j o, i < n → j < n → request i = true → request j = true →
    state.2 i = some o → state.2 j = some o → i = j
  left : ∀ u ∈ passed, (∀ i, i < n → request i = true → state.2 i ≠ some u) →
    u < n ∧ ∀ i, i < n → request i = true → i < u → ∃ o, state.2 i = some o ∧ o < u
  ahead : ∀ u ∈ ahead, ∀ i, i < n → request i = true → ∃ o, state.2 i = some o ∧ o < u

section Run

variable {request : ℕ → Bool} {answers passed ahead : List ℕ} {n : ℕ}
  {state : ℕ × (ℕ → Option ℕ)}

theorem Progress.skip (h : Progress request answers passed ahead n state)
    (other : request n = false) : Progress request answers passed ahead (n + 1) state := by
  have before {i : ℕ} (hi : i < n + 1) (asked : request i = true) : i < n := by
    rcases Nat.lt_succ_iff_lt_or_eq.mp hi with less | rfl
    · exact less
    · rw [other] at asked
      cases asked
  refine ⟨h.split, h.cursor, fun i o hi asked => h.behind i o (before hi asked) asked,
    fun i j o hi hj askedI askedJ => h.injective i j o (before hi askedI) (before hj askedJ)
      askedI askedJ, ?_, fun u hu i hi asked => h.ahead u hu i (before hi asked) asked⟩
  intro u hu free
  obtain ⟨early, answered⟩ := h.left u hu fun i hi asked => free i (Nat.lt_succ_of_lt hi) asked
  exact ⟨Nat.lt_succ_of_lt early, fun i hi asked => answered i (before hi asked) asked⟩

theorem Progress.ask (sorted : answers.Pairwise (· < ·)) (apart : n ∉ answers)
    (h : Progress request answers passed ahead n state) (asked : request n = true) :
    ∃ passed' ahead', Progress request answers passed' ahead' (n + 1)
      ((answer answers state.1 n).2,
        fun i => if i = n then (answer answers state.1 n).1 else state.2 i) := by
  obtain ⟨skipped, rest, hsplit, early, first, moved⟩ := advance_spec ahead state.1 n
  have dropped : answers.drop state.1 = ahead := by
    rw [h.split, h.cursor, List.drop_left]
  have cursor : advance (answers.drop state.1) state.1 n = (passed ++ skipped).length := by
    rw [dropped, moved, h.cursor, List.length_append]
  have whole : answers = (passed ++ skipped) ++ rest := by
    rw [List.append_assoc, ← hsplit, h.split]
  have found : answers[advance (answers.drop state.1) state.1 n]? = rest.head? := by
    rw [cursor]
    conv_lhs => rw [whole]
    rw [List.getElem?_append_right (le_refl _), Nat.sub_self, List.head?_eq_getElem?]
  have old {i : ℕ} (hi : i < n) : i ≠ n := Nat.ne_of_lt hi
  -- an answer that the cursor has passed without a taker lies before the position
  have skippedLeft (taken : ℕ → Option ℕ) (same : ∀ i, i < n → taken i = state.2 i)
      (u : ℕ) (hu : u ∈ passed ++ skipped)
      (free : ∀ i, i < n + 1 → request i = true → taken i ≠ some u) :
      u < n + 1 ∧ ∀ i, i < n + 1 → request i = true → i < u →
        ∃ o, taken i = some o ∧ o < u := by
    have free' : ∀ i, i < n → request i = true → state.2 i ≠ some u := fun i hi askedI =>
      same i hi ▸ free i (Nat.lt_succ_of_lt hi) askedI
    rcases List.mem_append.mp hu with hu | hu
    · obtain ⟨before, answered⟩ := h.left u hu free'
      refine ⟨Nat.lt_succ_of_lt before, fun i hi askedI less => ?_⟩
      have hi' : i < n := by omega
      rw [same i hi']
      exact answered i hi' askedI less
    · have before := early u hu
      refine ⟨Nat.lt_succ_of_lt before, fun i hi askedI less => ?_⟩
      have hi' : i < n := by omega
      rw [same i hi']
      exact h.ahead u (hsplit ▸ List.mem_append_left _ hu) i hi' askedI
  cases rest with
  | nil =>
    rw [List.head?_nil] at found
    refine ⟨passed ++ skipped, [], whole, ?_, ?_, ?_, ?_, by simp⟩
    · simp only [answer, found]
      exact cursor
    · intro i o hi askedI taken
      simp only [answer, found] at taken
      split at taken
      · cases taken
      next hne =>
        obtain ⟨mem, less⟩ := h.behind i o (by omega) askedI taken
        exact ⟨List.mem_append_left _ mem, less⟩
    · intro i j o hi hj askedI askedJ takenI takenJ
      simp only [answer, found] at takenI takenJ
      split at takenI
      · cases takenI
      split at takenJ
      · cases takenJ
      exact h.injective i j o (by omega) (by omega) askedI askedJ takenI takenJ
    · exact skippedLeft _ fun i hi => if_neg (old hi)
  | cons o rest =>
    rw [List.head?_cons] at found
    have ordered := List.pairwise_append.mp (whole ▸ sorted)
    have next : n < o := by
      refine Nat.lt_of_le_of_ne (first o rfl) fun same => apart ?_
      rw [whole, same]
      exact List.mem_append_right _ List.mem_cons_self
    have fresh : o ∉ passed := fun mem =>
      Nat.lt_irrefl o (ordered.2.2 o (List.mem_append_left _ mem) o List.mem_cons_self)
    refine ⟨passed ++ skipped ++ [o], rest, ?_, ?_, ?_, ?_, ?_, ?_⟩
    · rw [whole, List.append_assoc _ [o], List.singleton_append]
    · simp only [answer, found]
      rw [cursor, List.length_append, List.length_append, List.length_append,
        List.length_singleton]
    · intro i u hi askedI taken
      simp only [answer, found] at taken
      split at taken
      next same =>
        cases taken
        exact ⟨List.mem_append_right _ (List.mem_singleton_self o), same ▸ next⟩
      · obtain ⟨mem, less⟩ := h.behind i u (by omega) askedI taken
        exact ⟨List.mem_append_left _ (List.mem_append_left _ mem), less⟩
    · intro i j u hi hj askedI askedJ takenI takenJ
      simp only [answer, found] at takenI takenJ
      split at takenI <;> split at takenJ
      · omega
      · cases takenI
        exact absurd (h.behind j o (by omega) askedJ takenJ).1 fresh
      · cases takenJ
        exact absurd (h.behind i o (by omega) askedI takenI).1 fresh
      · exact h.injective i j u (by omega) (by omega) askedI askedJ takenI takenJ
    · intro u hu free
      rcases List.mem_append.mp hu with hu | hu
      · exact skippedLeft _ (fun i hi => if_neg (old hi)) u hu free
      · have hu := List.mem_singleton.mp hu
        refine absurd ?_ (free n (Nat.lt_succ_self n) asked)
        simp only [answer, found, if_true, hu]
    · intro u hu i hi askedI
      simp only [answer, found]
      split
      · exact ⟨o, rfl, (List.pairwise_cons.mp ordered.2.1).1 u hu⟩
      · exact h.ahead u (hsplit ▸ List.mem_append_right _ (List.mem_cons_of_mem _ hu)) i
          (by omega) askedI

theorem run_progress (sorted : answers.Pairwise (· < ·))
    (apart : ∀ i, request i = true → i ∉ answers) (n : ℕ) :
    ∃ passed ahead, Progress request answers passed ahead n (run request answers n) := by
  induction n with
  | zero =>
    refine ⟨[], answers, rfl, rfl, ?_, ?_, by simp, ?_⟩ <;> intros <;> omega
  | succ n ih =>
    obtain ⟨passed, ahead, progress⟩ := ih
    rw [run]
    by_cases asked : request n = true
    · rw [if_pos asked]
      exact progress.ask sorted (apart n asked) asked
    · rw [if_neg asked]
      exact ⟨passed, ahead, progress.skip (Bool.eq_false_of_not_eq_true asked)⟩

/-- A run over all requests is a greedy matching. -/
theorem run_greedy (sorted : answers.Pairwise (· < ·))
    (apart : ∀ i, request i = true → i ∉ answers) {n : ℕ}
    (all : ∀ i, request i = true → i < n) :
    Greedy (fun i => request i = true) (· ∈ answers) (run request answers n).2 := by
  obtain ⟨passed, ahead, progress⟩ := run_progress sorted apart n
  refine ⟨?_, ?_, ?_⟩
  · intro i o asked taken
    obtain ⟨mem, less⟩ := progress.behind i o (all i asked) asked taken
    exact ⟨progress.split ▸ List.mem_append_left _ mem, less⟩
  · exact fun i j o askedI askedJ => progress.injective i j o (all i askedI) (all j askedJ) askedI
      askedJ
  · intro u hu free i asked less
    rw [progress.split] at hu
    rcases List.mem_append.mp hu with hu | hu
    · exact (progress.left u hu fun i _ asked => free i asked).2 i (all i asked) asked less
    · exact progress.ahead u hu i (all i asked) asked

end Run

/-! ## Prefixes stay covered -/

section Covered

open Finset Classical

variable {request given other : ℕ → Prop} {taken : ℕ → Option ℕ}

/-- An answer that no request took. -/
def Free (request given : ℕ → Prop) (taken : ℕ → Option ℕ) (u : ℕ) : Prop :=
  given u ∧ ∀ i, request i → taken i ≠ some u

theorem count_add_le {p a b : ℕ → Prop} (ha : ∀ i, a i → p i) (hb : ∀ i, b i → p i)
    (apart : ∀ i, a i → ¬ b i) (n : ℕ) : Nat.count a n + Nat.count b n ≤ Nat.count p n := by
  induction n with
  | zero => simp
  | succ n ih =>
    rw [Nat.count_succ, Nat.count_succ, Nat.count_succ]
    have first := ha n
    have second := hb n
    have neither := apart n
    split_ifs <;> first | omega | (exfalso; tauto)

theorem count_le_add {p a b : ℕ → Prop} (split : ∀ i, p i → a i ∨ b i) (n : ℕ) :
    Nat.count p n ≤ Nat.count a n + Nat.count b n := by
  induction n with
  | zero => simp
  | succ n ih =>
    rw [Nat.count_succ, Nat.count_succ, Nat.count_succ]
    have either := split n
    split_ifs <;> first | omega | (exfalso; tauto)

/-- What a list built along the positions holds of a kind. -/
theorem countP_filterMap_range {α : Type*} (f : α → Bool) (g : ℕ → Option α) {p : ℕ → Prop}
    (hp : ∀ i, p i ↔ ∃ a, g i = some a ∧ f a = true) (n : ℕ) :
    ((List.range n).filterMap g).countP f = Nat.count p n := by
  induction n with
  | zero => rfl
  | succ n ih =>
    rw [List.range_succ, List.filterMap_append, List.countP_append, ih, Nat.count_succ]
    congr 1
    have here := hp n
    cases hg : g n with
    | none =>
      rw [hg] at here
      rw [if_neg fun hn => by obtain ⟨_, found, _⟩ := here.mp hn; cases found]
      simp [hg]
    | some a =>
      by_cases hf : f a = true
      · rw [if_pos (here.mpr ⟨a, hg, hf⟩)]
        simp [hg, hf]
      · rw [if_neg fun hn => by
          obtain ⟨a', found, holds⟩ := here.mp hn
          rw [hg] at found
          cases found
          exact hf holds]
        simp [hg, hf]

theorem filterMap_range_getElem? {α : Type*} (l : List α) (n : ℕ) :
    (List.range n).filterMap (fun i => l[i]?) = l.take n := by
  induction n with
  | zero => rfl
  | succ n ih =>
    rw [List.range_succ, List.filterMap_append, ih, List.take_add_one]
    cases h : l[n]? <;> simp [h]

theorem prefix_range {l : List ℕ} {n : ℕ} (h : l <+: List.range n) : ∃ m, l = List.range m := by
  rw [List.prefix_iff_eq_take, List.take_range] at h
  exact ⟨_, h⟩

theorem count_eq_card (p : ℕ → Prop) (n : ℕ) : Nat.count p n = ((range n).filter p).card :=
  Nat.count_eq_card_filter_range p n

/-- Before an answer left over there are as many answers taken as requests. -/
theorem Greedy.free_add_request_le (g : Greedy request given taken)
    (apart : ∀ i, request i → ¬ given i) {n : ℕ} (free : Free request given taken n) :
    Nat.count (Free request given taken) (n + 1) + Nat.count request (n + 1) ≤
      Nat.count given (n + 1) := by
  rw [count_eq_card, count_eq_card, count_eq_card]
  have sub : (range (n + 1)).filter (Free request given taken) ⊆ (range (n + 1)).filter given :=
    monotone_filter_right _ fun _ _ hu => hu.1
  have answered : ∀ i ∈ (range (n + 1)).filter request,
      ∃ o, taken i = some o ∧ given o ∧ o < n := by
    intro i hi
    rw [mem_filter, mem_range] at hi
    have before : i < n := by
      rcases Nat.lt_succ_iff_lt_or_eq.mp hi.1 with less | rfl
      · exact less
      · exact absurd free.1 (apart i hi.2)
    obtain ⟨o, found, less⟩ := g.left n free.1 free.2 i hi.2 before
    exact ⟨o, found, (g.behind i o hi.2 found).1, less⟩
  have room : ((range (n + 1)).filter request).card ≤
      ((range (n + 1)).filter given \ (range (n + 1)).filter (Free request given taken)).card := by
    refine card_le_card_of_injOn (fun i => (taken i).getD 0) ?_ ?_
    · intro i hi
      obtain ⟨o, found, held, less⟩ := answered i hi
      have asked := (mem_filter.mp hi).2
      simp only [found, Option.getD_some, coe_sdiff, coe_filter, mem_range, Set.mem_sdiff,
        Set.mem_ofPred_eq, not_and]
      exact ⟨⟨Nat.lt_succ_of_lt less, held⟩, fun _ left => left.2 i asked found⟩
    · intro i hi j hj same
      obtain ⟨o, found, _⟩ := answered i hi
      obtain ⟨o', found', _⟩ := answered j hj
      simp only [found, found', Option.getD_some] at same
      exact g.injective i j o (mem_filter.mp hi).2 (mem_filter.mp hj).2 found (same ▸ found')
  rw [card_sdiff_of_subset sub] at room
  have fits := card_le_card sub
  omega

/-- Answers left over are covered by requests of the other kind. -/
theorem Greedy.free_le (g : Greedy request given taken) (apart : ∀ i, request i → ¬ given i)
    (balanced : ∀ n, Nat.count given n ≤ Nat.count other n + Nat.count request n) (n : ℕ) :
    Nat.count (Free request given taken) n ≤ Nat.count other n := by
  induction n with
  | zero => simp
  | succ n ih =>
    by_cases free : Free request given taken n
    · have room := g.free_add_request_le apart free
      have enough := balanced (n + 1)
      omega
    · rw [Nat.count_succ, if_neg free, Nat.add_zero]
      exact ih.trans (Nat.count_monotone other (Nat.le_succ n))

/-- Requests may be taken out with the answers they took: what is left is still covered. -/
theorem Greedy.covered (g : Greedy request given taken) (apart : ∀ i, request i → ¬ given i)
    (balanced : ∀ n, Nat.count given n ≤ Nat.count other n + Nat.count request n)
    {remaining shown : ℕ → Prop} (whole : ∀ u, shown u → given u)
    (paired : ∀ u i, shown u → request i → taken i = some u → remaining i) (n : ℕ) :
    Nat.count shown n ≤ Nat.count other n + Nat.count remaining n := by
  have left := g.free_le apart balanced n
  rw [count_eq_card, count_eq_card] at left
  rw [count_eq_card, count_eq_card, count_eq_card,
    ← card_filter_add_card_filter_not (Free request given taken)]
  have freePart : ((range n).filter shown |>.filter (Free request given taken)).card ≤
      ((range n).filter (Free request given taken)).card := by
    refine card_le_card fun u hu => ?_
    simp only [mem_filter] at hu ⊢
    exact ⟨hu.1.1, hu.2⟩
  have takenPart : ((range n).filter shown |>.filter (¬ Free request given taken ·)).card ≤
      ((range n).filter remaining).card := by
    have taker (u : ℕ) (hu : u ∈ ((range n).filter shown).filter
        (¬ Free request given taken ·)) : ∃ i, request i ∧ taken i = some u := by
      simp only [mem_filter] at hu
      by_contra none_
      exact hu.2 ⟨whole u hu.1.2, fun i asked found => none_ ⟨i, asked, found⟩⟩
    refine card_le_card_of_injOn (fun u => if h : _ then (taker u h).choose else 0) ?_ ?_
    · intro u hu
      obtain ⟨asked, found⟩ := (taker u hu).choose_spec
      have hu' : u ∈ ((range n).filter shown).filter (¬ Free request given taken ·) := hu
      simp only [mem_filter, mem_range] at hu'
      have before := (g.behind _ u asked found).2
      simp only [coe_filter, mem_range, Set.mem_ofPred_eq, dif_pos (mem_coe.mp hu)]
      exact ⟨by omega, paired u _ hu'.1.2 asked found⟩
    · intro u hu v hv same
      simp only [dif_pos (mem_coe.mp hu), dif_pos (mem_coe.mp hv)] at same
      have foundU := (taker u hu).choose_spec.2
      have foundV := (taker v hv).choose_spec.2
      rw [same, foundV] at foundU
      exact (Option.some.inj foundU).symm
  omega

end Covered

end GreedyMatching
