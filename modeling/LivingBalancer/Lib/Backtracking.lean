import Mathlib.Data.List.Basic
import Mathlib.Data.List.TakeWhile
import Mathlib.Tactic.TypeStar

/-!
# Backtracking patterns

Regular expressions as a backtracking matcher reads them: `results` lists the ways to match
at the start of a text in the order in which the matcher tries them, each with what it
consumed and what is left. A match is the first way of the whole pattern. The cut lemmas say
when a greedy repetition has only its longest way: when nothing after it can start with a
symbol that the repetition would have taken.
-/

namespace Backtracking

variable {α β : Type*}

inductive Pattern (α : Type*) where
  | empty
  | symbol (p : α → Bool)
  | seq (a b : Pattern α)
  | alt (a b : Pattern α)
  | star (a : Pattern α)
  | notAhead (p : α → Bool)

/-- Greedy repetition; a round that consumes nothing is not repeated. -/
def repeatGreedy (m : List α → List (List α × List α)) : Nat → List α → List (List α × List α)
  | 0, s => [([], s)]
  | fuel + 1, s => (((m s).filter fun r => !r.1.isEmpty).flatMap fun r =>
      (repeatGreedy m fuel r.2).map fun t => (r.1 ++ t.1, t.2)) ++ [([], s)]

def results : Pattern α → List α → List (List α × List α)
  | .empty, s => [([], s)]
  | .symbol _, [] => []
  | .symbol p, c :: s => if p c then [([c], s)] else []
  | .seq a b, s => (results a s).flatMap fun r => (results b r.2).map fun t => (r.1 ++ t.1, t.2)
  | .alt a b, s => results a s ++ results b s
  | .star a, s => repeatGreedy (results a) s.length s
  | .notAhead p, s => if s.head?.any p then [] else [([], s)]

namespace Pattern

/-- `a+`. -/
def plus (a : Pattern α) : Pattern α := .seq a (.star a)

/-- `a?`. -/
def opt (a : Pattern α) : Pattern α := .alt a .empty

def word : List (α → Bool) → Pattern α
  | [] => .empty
  | p :: ps => .seq (.symbol p) (word ps)

def oneOf : List (Pattern α) → Pattern α
  | [] => .symbol fun _ => false
  | [a] => a
  | a :: b :: rest => .alt a (oneOf (b :: rest))

end Pattern

/-- The ways to match a sequence of pieces, with the text of those that are captured. -/
def captures : List (Bool × Pattern α) → List α → List (List (List α) × List α)
  | [], s => [([], s)]
  | (keep, a) :: pieces, s => (results a s).flatMap fun r =>
      (captures pieces r.2).map fun t => (if keep then r.1 :: t.1 else t.1, t.2)

/-- `pattern.search(text)`: the captured groups of the first match. -/
def search (pieces : List (Bool × Pattern α)) : List α → Option (List (List α))
  | [] => ((captures pieces []).head?).map Prod.fst
  | c :: s => match (captures pieces (c :: s)).head? with
    | some found => some found.1
    | none => search pieces s

/-- `pattern.findall(text)` for a pattern that never matches the empty text. -/
def findAll (pieces : List (Bool × Pattern α)) : Nat → List α → List (List (List α))
  | 0, _ => []
  | _ + 1, [] => []
  | fuel + 1, c :: s => match (captures pieces (c :: s)).head? with
    | some found => found.1 :: findAll pieces fuel found.2
    | none => findAll pieces fuel s

attribute [local simp] results repeatGreedy

/-! ## Cuts -/

section Cuts

variable {p : α → Bool} {K : List α → List α → List β}

/-- A text starts with a symbol of the class. -/
def Starts (p : α → Bool) (s : List α) : Prop := ∃ c rest, s = c :: rest ∧ p c = true

theorem not_starts_dropWhile (s : List α) : ¬ Starts p (s.dropWhile p) := by
  rintro ⟨c, rest, split, hc⟩
  have stopped := List.head?_dropWhile_not p s
  rw [split] at stopped
  simp [hc] at stopped

theorem results_symbol_of_not (h : ¬ Starts p s) : results (.symbol p) s = [] := by
  cases s with
  | nil => rfl
  | cons c rest =>
    rw [results, if_neg]
    exact fun hc => h ⟨c, rest, rfl, hc⟩

theorem repeatGreedy_symbol (dead : ∀ t s, Starts p s → K t s = []) (fuel : Nat) (s : List α)
    (enough : s.length ≤ fuel) (t : List α) :
    ((repeatGreedy (results (.symbol p)) fuel s).flatMap fun r => K (t ++ r.1) r.2) =
      K (t ++ s.takeWhile p) (s.dropWhile p) := by
  induction fuel generalizing s t with
  | zero =>
    rw [List.length_eq_zero_iff.mp (Nat.le_zero.mp enough)]
    simp
  | succ fuel ih =>
    cases s with
    | nil => simp
    | cons c rest =>
      by_cases hc : p c = true
      · have next := ih rest (Nat.le_of_succ_le_succ enough) (t ++ [c])
        have stop : K t (c :: rest) = [] := dead t _ ⟨c, rest, rfl, hc⟩
        simp only [repeatGreedy, results, if_pos hc, List.filter_cons, List.isEmpty_cons,
          Bool.not_false, if_true, List.filter_nil, List.flatMap_cons, List.flatMap_nil,
          List.append_nil, List.flatMap_append, List.flatMap_map, stop]
        rw [List.takeWhile_cons_of_pos hc, List.dropWhile_cons_of_pos hc]
        simpa only [List.append_assoc, List.singleton_append, List.cons_append,
          List.nil_append] using next
      · simp [hc]

/-- After a starred class, what cannot start in the class sees only the longest way. -/
theorem flatMap_star (dead : ∀ t s, Starts p s → K t s = []) (s : List α) :
    ((results (.star (.symbol p)) s).flatMap fun r => K r.1 r.2) =
      K (s.takeWhile p) (s.dropWhile p) := by
  have cut := repeatGreedy_symbol dead s.length s (le_refl _) []
  simp only [List.nil_append] at cut
  rw [results]
  exact cut

theorem flatMap_plus (dead : ∀ t s, Starts p s → K t s = []) (s : List α) :
    ((results (.plus (.symbol p)) s).flatMap fun r => K r.1 r.2) =
      if s.takeWhile p = [] then [] else K (s.takeWhile p) (s.dropWhile p) := by
  cases s with
  | nil => rfl
  | cons c rest =>
    by_cases hc : p c = true
    · have cut := repeatGreedy_symbol dead rest.length rest (le_refl _) [c]
      simp only [Pattern.plus, results, if_pos hc, List.flatMap_cons, List.flatMap_nil,
        List.append_nil, List.flatMap_map]
      rw [List.takeWhile_cons_of_pos hc, List.dropWhile_cons_of_pos hc,
        if_neg (List.cons_ne_nil _ _)]
      exact cut
    · rw [List.takeWhile_cons_of_neg hc, if_pos rfl]
      simp [Pattern.plus, hc]

/-- The two ways of an optional part, the longer one first. -/
theorem flatMap_opt (a : Pattern α) (s : List α) :
    ((results (.opt a) s).flatMap fun r => K r.1 r.2) =
      ((results a s).flatMap fun r => K r.1 r.2) ++ K [] s := by
  simp [Pattern.opt]

theorem flatMap_seq (a b : Pattern α) (s : List α) :
    ((results (.seq a b) s).flatMap fun r => K r.1 r.2) =
      (results a s).flatMap fun r => (results b r.2).flatMap fun t => K (r.1 ++ t.1) t.2 := by
  simp only [results, List.flatMap_assoc, List.flatMap_map]

theorem flatMap_symbol_of_not {s : List α} (h : ¬ Starts p s) :
    ((results (.symbol p) s).flatMap fun r => K r.1 r.2) = [] := by
  rw [results_symbol_of_not h]
  rfl

end Cuts

/-! ## Words -/

/-- Reads one symbol for each class of a word. -/
def readWord : List (α → Bool) → List α → Option (List α × List α)
  | [], s => some ([], s)
  | _ :: _, [] => none
  | p :: ps, c :: s => if p c then (readWord ps s).map fun r => (c :: r.1, r.2) else none

theorem results_word (ps : List (α → Bool)) (s : List α) :
    results (.word ps) s = (readWord ps s).toList := by
  induction ps generalizing s with
  | nil => rfl
  | cons p ps ih =>
    cases s with
    | nil => rfl
    | cons c rest =>
      by_cases hc : p c = true
      · simp only [Pattern.word, results, readWord, if_pos hc, List.flatMap_cons,
          List.flatMap_nil, List.append_nil, ih]
        cases readWord ps rest <;> rfl
      · simp [Pattern.word, readWord, hc]

theorem results_oneOf (as : List (Pattern α)) (s : List α) :
    results (.oneOf as) s = as.flatMap fun a => results a s := by
  induction as with
  | nil => cases s <;> simp [Pattern.oneOf]
  | cons a rest ih =>
    cases rest with
    | nil => simp [Pattern.oneOf]
    | cons b rest =>
      rw [List.flatMap_cons, ← ih]
      rfl

/-- Words compared after a map of the symbols, such as lower case. -/
theorem readWord_map [DecidableEq β] (f : α → β) (w : List β) {s u rest : List α} :
    readWord (w.map fun c d => f d == c) s = some (u, rest) ↔ s = u ++ rest ∧ u.map f = w := by
  induction w generalizing s u with
  | nil =>
    constructor
    · intro found
      cases found
      exact ⟨rfl, rfl⟩
    · rintro ⟨rfl, none_⟩
      rw [List.map_eq_nil_iff.mp none_]
      rfl
  | cons c w ih =>
    cases s with
    | nil =>
      constructor
      · intro found
        cases found
      · rintro ⟨split, mapped⟩
        rw [(List.append_eq_nil_iff.mp split.symm).1] at mapped
        cases mapped
    | cons d s =>
      simp only [List.map_cons, readWord, beq_iff_eq]
      constructor
      · intro found
        by_cases hd : f d = c
        · rw [if_pos hd, Option.map_eq_some_iff] at found
          obtain ⟨⟨v, left⟩, read, same⟩ := found
          cases same
          obtain ⟨split, mapped⟩ := ih.mp read
          exact ⟨by rw [split, List.cons_append], by rw [List.map_cons, hd, mapped]⟩
        · rw [if_neg hd] at found
          cases found
      · rintro ⟨split, mapped⟩
        obtain ⟨e, v, hu, he, hv⟩ := List.map_eq_cons_iff.mp mapped
        rw [hu, List.cons_append, List.cons.injEq] at split
        rw [if_pos (split.1 ▸ he), ih.mpr ⟨split.2, hv⟩, hu, split.1]
        rfl

theorem readWord_append (ps qs : List (α → Bool)) (s : List α) :
    readWord (ps ++ qs) s = (readWord ps s).bind fun r =>
      (readWord qs r.2).map fun t => (r.1 ++ t.1, t.2) := by
  induction ps generalizing s with
  | nil => cases h : readWord qs s <;> simp [readWord, h]
  | cons p ps ih =>
    cases s with
    | nil => rfl
    | cons c rest =>
      by_cases hc : p c = true
      · simp only [List.cons_append, readWord, if_pos hc, ih]
        cases readWord ps rest with
        | none => rfl
        | some r => cases h : readWord qs r.2 <;> simp [h]
      · simp [readWord, hc]

/-! ## The first way -/

theorem head?_flatMap_of_ne_nil {xs : List α} {f : α → List β} (some_ : ∀ a ∈ xs, f a ≠ []) :
    (xs.flatMap f).head? = xs.head?.bind fun a => (f a).head? := by
  cases xs with
  | nil => rfl
  | cons a rest =>
    rw [List.flatMap_cons, List.head?_append_of_ne_nil _ (some_ a List.mem_cons_self)]
    rfl

theorem repeatGreedy_ne_nil (m : List α → List (List α × List α)) (fuel : Nat) (s : List α) :
    repeatGreedy m fuel s ≠ [] := by
  cases fuel with
  | zero => exact List.cons_ne_nil _ _
  | succ fuel => exact List.append_ne_nil_of_right_ne_nil _ (List.cons_ne_nil _ _)

/-- The first way of a repetition whose rounds consume: one round in its first way, then on. -/
theorem head?_repeatGreedy {m : List α → List (List α × List α)} {s : List α}
    (consumes : ∀ r ∈ m s, r.1 ≠ []) {r : List α × List α} (first : (m s).head? = some r)
    (fuel : Nat) :
    (repeatGreedy m (fuel + 1) s).head? =
      (repeatGreedy m fuel r.2).head?.map fun t => (r.1 ++ t.1, t.2) := by
  have all : (m s).filter (fun r => !r.1.isEmpty) = m s :=
    List.filter_eq_self.mpr fun r hr => by simp [consumes r hr]
  obtain ⟨rest, hm⟩ := List.head?_eq_some_iff.mp first
  have next : (repeatGreedy m fuel r.2).map (fun t => (r.1 ++ t.1, t.2)) ≠ [] := fun none_ =>
    repeatGreedy_ne_nil m fuel r.2 (List.map_eq_nil_iff.mp none_)
  rw [repeatGreedy, all, hm, List.flatMap_cons, List.append_assoc,
    List.head?_append_of_ne_nil _ next, List.head?_map]

/-- The first way of `a+` is that of the repetition, with one round more. -/
theorem head?_plus {a : Pattern α} {s : List α} (consumes : ∀ r ∈ results a s, r.1 ≠ [])
    {r : List α × List α} (first : (results a s).head? = some r) :
    (results (.plus a) s).head? = (repeatGreedy (results a) (r.2.length + 1) s).head? := by
  rw [head?_repeatGreedy consumes first, Pattern.plus, results, head?_flatMap_of_ne_nil, first]
  · rw [Option.bind_some, List.head?_map, results]
  · intro t _ none_
    rw [List.map_eq_nil_iff, results] at none_
    exact repeatGreedy_ne_nil _ _ _ none_

theorem head?_star_symbol (p : α → Bool) (s : List α) :
    (results (.star (.symbol p)) s).head? = some (s.takeWhile p, s.dropWhile p) := by
  rw [results]
  suffices ∀ fuel, s.length ≤ fuel →
      (repeatGreedy (results (.symbol p)) fuel s).head? = some (s.takeWhile p, s.dropWhile p) from
    this _ (le_refl _)
  intro fuel enough
  induction fuel generalizing s with
  | zero =>
    rw [List.length_eq_zero_iff.mp (Nat.le_zero.mp enough)]
    rfl
  | succ fuel ih =>
    cases s with
    | nil => rfl
    | cons c rest =>
      by_cases hc : p c = true
      · have first : results (.symbol p) (c :: rest) = [([c], rest)] := by rw [results, if_pos hc]
        rw [head?_repeatGreedy (by simp) (by rw [first]; rfl) fuel,
          ih rest (Nat.le_of_succ_le_succ enough), List.takeWhile_cons_of_pos hc,
          List.dropWhile_cons_of_pos hc]
        rfl
      · have none_ : results (.symbol p) (c :: rest) = [] := by rw [results, if_neg hc]
        rw [repeatGreedy, none_, List.takeWhile_cons_of_neg hc, List.dropWhile_cons_of_neg hc]
        rfl

/-! ## The first match -/

theorem search_eq_some {pieces : List (Bool × Pattern α)} {s : List α} {groups : List (List α)}
    (found : search pieces s = some groups) :
    ∃ before rest left, s = before ++ rest ∧ (captures pieces rest).head? = some (groups, left) ∧
      ∀ earlier later, s = earlier ++ later → earlier.length < before.length →
        captures pieces later = [] := by
  induction s with
  | nil =>
    rw [search, Option.map_eq_some_iff] at found
    obtain ⟨way, first, rfl⟩ := found
    exact ⟨[], [], way.2, rfl, first, fun _ _ _ earlier => absurd earlier (Nat.not_lt_zero _)⟩
  | cons c s ih =>
    rw [search] at found
    cases first : (captures pieces (c :: s)).head? with
    | some way =>
      rw [first] at found
      cases found
      exact ⟨[], c :: s, way.2, rfl, first, fun _ _ _ earlier => absurd earlier (Nat.not_lt_zero _)⟩
    | none =>
      rw [first] at found
      obtain ⟨before, rest, left, split, at_, none_⟩ := ih found
      refine ⟨c :: before, rest, left, by rw [split, List.cons_append], at_, ?_⟩
      rintro (_ | ⟨d, earlier⟩) later same short
      · rw [List.nil_append] at same
        exact same ▸ List.head?_eq_none_iff.mp first
      · rw [List.cons_append, List.cons.injEq] at same
        exact none_ earlier later same.2 (Nat.lt_of_succ_lt_succ short)

theorem search_eq_none {pieces : List (Bool × Pattern α)} {s : List α}
    (missed : search pieces s = none) (earlier later : List α) (split : s = earlier ++ later) :
    captures pieces later = [] := by
  induction s generalizing earlier with
  | nil =>
    rw [search, Option.map_eq_none_iff] at missed
    rw [(List.append_eq_nil_iff.mp split.symm).2]
    exact List.head?_eq_none_iff.mp missed
  | cons c s ih =>
    rw [search] at missed
    cases first : (captures pieces (c :: s)).head? with
    | some way =>
      rw [first] at missed
      cases missed
    | none =>
      rw [first] at missed
      cases earlier with
      | nil =>
        rw [List.nil_append] at split
        exact split ▸ List.head?_eq_none_iff.mp first
      | cons d earlier =>
        rw [List.cons_append, List.cons.injEq] at split
        exact ih missed earlier split.2

/-! ## Runs of a class -/

theorem takeWhile_run {p : α → Bool} {a b : List α} (all : ∀ c ∈ a, p c = true)
    (stop : ¬ Starts p b) : (a ++ b).takeWhile p = a ∧ (a ++ b).dropWhile p = b := by
  rw [List.takeWhile_append_of_pos all, List.dropWhile_append_of_pos all]
  cases b with
  | nil => exact ⟨List.append_nil a, rfl⟩
  | cons c rest =>
    have hc : ¬ p c = true := fun hc => stop ⟨c, rest, rfl, hc⟩
    rw [List.takeWhile_cons_of_neg hc, List.dropWhile_cons_of_neg hc]
    exact ⟨List.append_nil a, rfl⟩

theorem takeWhile_eq_nil {p : α → Bool} {s : List α} : s.takeWhile p = [] ↔ ¬ Starts p s := by
  constructor
  · rintro none_ ⟨c, rest, rfl, hc⟩
    rw [List.takeWhile_cons_of_pos hc] at none_
    cases none_
  · intro stop
    exact (takeWhile_run (List.forall_mem_nil _) stop).1

theorem Starts.append {p : α → Bool} {a b : List α} (h : Starts p a) : Starts p (a ++ b) := by
  obtain ⟨c, rest, rfl, hc⟩ := h
  exact ⟨c, rest ++ b, rfl, hc⟩

theorem Starts.disjoint {p q : α → Bool} {s : List α} (apart : ∀ c, p c = true → q c = false)
    (h : Starts p s) : ¬ Starts q s := by
  rintro ⟨c, rest, rfl, hc⟩
  obtain ⟨d, rest', same, hd⟩ := h
  cases same
  rw [apart c hd] at hc
  cases hc

theorem starts_iff {p : α → Bool} {s : List α} : s.head?.any p = true ↔ Starts p s := by
  cases s with
  | nil =>
    constructor
    · intro h
      cases h
    · rintro ⟨_, _, split, _⟩
      cases split
  | cons c rest =>
    constructor
    · exact fun hc => ⟨c, rest, rfl, hc⟩
    · rintro ⟨d, rest', same, hd⟩
      cases same
      exact hd

end Backtracking
