import LivingBalancer.Balancer.Replicas
import LivingBalancer.Lib.Backtracking

/-!
# The retry hint

`parse_retry_after` of core/utils/retry.py: one pattern captures the run of number-unit
components after "try again in", a second one reads the run again, and the amounts are summed.
The character classes are those of ASCII text; durations are exact.
-/

namespace Balancer

open Backtracking

/-! ## The patterns -/

/-- A literal under `(?i)`. -/
def caseless (word : List Char) : Pattern Char := .word (word.map fun c => fun d => d.toLower == c)

/-- A literal with an optional `s`. -/
def plural (word : List Char) : Pattern Char := .seq (caseless word) (.opt (caseless ['s']))

/-- `_UNIT_ALTERNATION`. -/
def unitAlternation : Pattern Char :=
  .oneOf [caseless "ms".toList, plural "millisecond".toList, plural "hour".toList,
    plural "hr".toList, caseless "h".toList, plural "minute".toList, plural "min".toList,
    caseless "m".toList, plural "second".toList, plural "sec".toList, caseless "s".toList]

/-- `_UNIT_BOUNDARY`. -/
def unitBoundary : Pattern Char := .notAhead Char.isAlpha

/-- `_UNIT_SECONDS`. -/
def unitSeconds : List (List Char × ℚ) :=
  [("ms".toList, 1 / 1000), ("millisecond".toList, 1 / 1000), ("milliseconds".toList, 1 / 1000),
    ("h".toList, 3600), ("hr".toList, 3600), ("hrs".toList, 3600), ("hour".toList, 3600),
    ("hours".toList, 3600), ("m".toList, 60), ("min".toList, 60), ("mins".toList, 60),
    ("minute".toList, 60), ("minutes".toList, 60), ("s".toList, 1), ("sec".toList, 1),
    ("secs".toList, 1), ("second".toList, 1), ("seconds".toList, 1)]

def fullStop (c : Char) : Bool := c == '.'

/-- `\d+(?:\.\d+)?`. -/
def number : Pattern Char :=
  .seq (.plus (.symbol Char.isDigit))
    (.opt (.seq (.symbol fullStop) (.plus (.symbol Char.isDigit))))

/-- `\s*`. -/
def spaces : Pattern Char := .star (.symbol isPythonSpace)

def component : Pattern Char :=
  .seq number (.seq spaces (.seq unitAlternation (.seq unitBoundary spaces)))

def retryPhrase : List Char := "try again in".toList

/-- `_RETRY_PATTERN`. -/
def retryPattern : List (Bool × Pattern Char) :=
  [(false, caseless retryPhrase), (false, spaces), (true, .plus component)]

/-- `_DURATION_TOKEN`. -/
def durationToken : List (Bool × Pattern Char) :=
  [(true, number), (false, spaces), (true, unitAlternation), (false, unitBoundary)]

/-! ## The amounts -/

def digitsValue (digits : List Char) : ℕ := digits.foldl (fun n c => 10 * n + (c.toNat - 48)) 0

/-- `float(value)`. -/
def floatOf (value : List Char) : ℚ :=
  let fraction := (value.dropWhile Char.isDigit).tail
  digitsValue (value.takeWhile Char.isDigit ++ fraction) / 10 ^ fraction.length

/-- The seconds of a token, or nothing when the table has no such unit. -/
def tokenSeconds : List (List Char) → Option ℚ
  | [value, unit] =>
    (unitSeconds.lookup (unit.map Char.toLower)).map fun multiplier =>
      if unit.map Char.toLower = "ms".toList then floatOf value / 1000
      else floatOf value * multiplier
  | _ => none

/-- The amounts that the loop over `findall` adds up. -/
def amounts (run : List Char) : List ℚ :=
  (findAll durationToken run.length run).filterMap tokenSeconds

def parseRetryAfter (message : List Char) : Option ℚ :=
  match search retryPattern message with
  | some (run :: _) => if amounts run = [] then none else some (amounts run).sum
  | _ => none

/-! ## What a hint says -/

/-- A component at the start of a text: digits with an optional fraction, spaces, and a unit in
any case that no letter follows. -/
structure Component (s number unit rest : List Char) : Prop where
  split : ∃ whole fraction gap, number = whole ++ fraction ∧
    s = whole ++ (fraction ++ (gap ++ (unit ++ rest))) ∧ whole ≠ [] ∧
    (∀ c ∈ whole, c.isDigit) ∧
    (fraction = [] ∨ ∃ digits, fraction = '.' :: digits ∧ digits ≠ [] ∧ ∀ c ∈ digits, c.isDigit) ∧
    ∀ c ∈ gap, isPythonSpace c
  known : unit.map Char.toLower ∈ unitSeconds.map Prod.fst
  boundary : ¬ Starts Char.isAlpha rest

/-- The seconds of a component. -/
def componentSeconds (number unit : List Char) : ℚ :=
  floatOf number * (unitSeconds.lookup (unit.map Char.toLower)).getD 0

/-- The maximal run of components at the start of a text, with their seconds. -/
inductive Run : List Char → List ℚ → Prop where
  | stop {s : List Char} : (∀ number unit rest, ¬ Component s number unit rest) → Run s []
  | next {s number unit rest : List Char} {amounts : List ℚ} :
      Component s number unit rest → Run (rest.dropWhile isPythonSpace) amounts →
      Run s (componentSeconds number unit :: amounts)

/-- "try again in", in any case, with a run after it. -/
def HintAt (s : List Char) (amounts : List ℚ) : Prop :=
  ∃ phrase after, s = phrase ++ after ∧ phrase.map Char.toLower = retryPhrase ∧
    Run (after.dropWhile isPythonSpace) amounts ∧ amounts ≠ []

/-- What a message hints: the sum of the run at its first hint, or nothing. -/
def HintRead (message : List Char) : Option ℚ → Prop
  | some total => ∃ before rest amounts, message = before ++ rest ∧ HintAt rest amounts ∧
      total = amounts.sum ∧
      ∀ earlier later, message = earlier ++ later → earlier.length < before.length →
        ∀ other, ¬ HintAt later other
  | none => ∀ earlier later, message = earlier ++ later → ∀ other, ¬ HintAt later other

/-! ## Reading a component -/

/-- The longest number at the start of a text and what is left. -/
def readNumber (s : List Char) : List Char × List Char :=
  let whole := s.takeWhile Char.isDigit
  match s.dropWhile Char.isDigit with
  | '.' :: more =>
    if more.takeWhile Char.isDigit = [] then (whole, '.' :: more)
    else (whole ++ '.' :: more.takeWhile Char.isDigit, more.dropWhile Char.isDigit)
  | rest => (whole, rest)

/-- A component read without backtracking: its number, spaces, unit and what is left. -/
def readToken (s : List Char) : Option (List Char × List Char × List Char × List Char) :=
  if s.takeWhile Char.isDigit = [] then none
  else
    let after := (readNumber s).2.dropWhile isPythonSpace
    if (after.takeWhile Char.isAlpha).map Char.toLower ∈ unitSeconds.map Prod.fst then
      some ((readNumber s).1, (readNumber s).2.takeWhile isPythonSpace,
        after.takeWhile Char.isAlpha, after.dropWhile Char.isAlpha)
    else none

section Cuts

variable {β : Type*}

def numeral (c : Char) : Bool := c.isDigit || fullStop c

theorem starts_numeral {s : List Char} (h : Starts Char.isDigit s) : Starts numeral s := by
  obtain ⟨c, rest, rfl, hc⟩ := h
  exact ⟨c, rest, rfl, by simp [numeral, hc]⟩

/-- Behind a number nothing that could go on with it has another way. -/
theorem flatMap_number {K : List Char → List Char → List β}
    (dead : ∀ t s, Starts numeral s → K t s = []) (s : List Char) :
    ((results number s).flatMap fun r => K r.1 r.2) =
      if s.takeWhile Char.isDigit = [] then [] else K (readNumber s).1 (readNumber s).2 := by
  have cut := flatMap_plus (p := Char.isDigit)
    (K := fun t s => (results (.opt (.seq (.symbol fullStop) (.plus (.symbol Char.isDigit))))
      s).flatMap fun u => K (t ++ u.1) u.2) ?_ s
  · rw [number, flatMap_seq, cut]
    by_cases none_ : s.takeWhile Char.isDigit = []
    · rw [if_pos none_, if_pos none_]
    rw [if_neg none_, if_neg none_,
      flatMap_opt (K := fun u v => K (s.takeWhile Char.isDigit ++ u) v), List.append_nil]
    cases hrest : s.dropWhile Char.isDigit with
    | nil => simp [results, readNumber, hrest]
    | cons c more =>
      by_cases stop : c = '.'
      · subst stop
        have more_ := flatMap_plus (p := Char.isDigit)
          (K := fun t u => K (s.takeWhile Char.isDigit ++ ('.' :: t)) u)
          (fun t u hu => dead _ u (starts_numeral hu)) more
        have other := dead (s.takeWhile Char.isDigit) ('.' :: more) ⟨'.', more, rfl, rfl⟩
        have point : results (.symbol fullStop) ('.' :: more) = [(['.'], more)] := rfl
        rw [flatMap_seq (K := fun u v => K (s.takeWhile Char.isDigit ++ u) v), point]
        simp only [List.flatMap_cons, List.flatMap_nil, List.append_nil, List.singleton_append]
        rw [more_, other, List.append_nil]
        by_cases bare : more.takeWhile Char.isDigit = []
        · simp [readNumber, hrest, bare, other]
        · simp [readNumber, hrest, bare]
      · have point : ¬ Starts fullStop (c :: more) := by
          rintro ⟨d, rest, same, hd⟩
          cases same
          exact stop (eq_of_beq hd)
        rw [flatMap_seq (K := fun u v => K (s.takeWhile Char.isDigit ++ u) v),
          flatMap_symbol_of_not (K := fun t v => (results _ v).flatMap fun u =>
            K (s.takeWhile Char.isDigit ++ (t ++ u.1)) u.2) point]
        simp [readNumber, hrest, stop]
  · intro t s digits
    have point : ¬ Starts fullStop s := by
      rintro ⟨d, rest, rfl, hd⟩
      obtain ⟨c, rest', same, hc⟩ := digits
      cases same
      rw [eq_of_beq hd] at hc
      cases hc
    rw [flatMap_opt (K := fun u v => K (t ++ u) v), flatMap_seq (K := fun u v => K (t ++ u) v),
      flatMap_symbol_of_not (K := fun a v => (results _ v).flatMap fun u => K (t ++ (a ++ u.1)) u.2)
        point, List.nil_append, List.append_nil]
    exact dead t s (starts_numeral digits)

/-- The literals of the alternation in the order in which they are tried. -/
def unitWords : List (List Char) :=
  ["ms", "milliseconds", "millisecond", "hours", "hour", "hrs", "hr", "h", "minutes", "minute",
    "mins", "min", "m", "seconds", "second", "secs", "sec", "s"].map String.toList

theorem unitWords_known (unit : List Char) :
    unit ∈ unitWords ↔ unit ∈ unitSeconds.map Prod.fst := by
  have same : unitWords.Perm (unitSeconds.map Prod.fst) := by decide
  exact same.mem_iff

theorem flatMap_caseless (K : List Char → List Char → List β) (word s : List Char) :
    ((results (caseless word) s).flatMap fun r => K r.1 r.2) =
      (readWord (word.map fun c => fun d => d.toLower == c) s).toList.flatMap
        fun r => K r.1 r.2 := by
  rw [caseless, results_word]

theorem flatMap_plural (K : List Char → List Char → List β) (word s : List Char) :
    ((results (plural word) s).flatMap fun r => K r.1 r.2) =
      ((results (caseless (word ++ ['s'])) s).flatMap fun r => K r.1 r.2) ++
        ((results (caseless word) s).flatMap fun r => K r.1 r.2) := by
  rw [plural, flatMap_seq, flatMap_caseless (fun t v => (results (.opt (caseless ['s'])) v).flatMap
      fun u => K (t ++ u.1) u.2), flatMap_caseless, flatMap_caseless, List.map_append,
    readWord_append]
  cases readWord (word.map fun c => fun d => d.toLower == c) s with
  | none => rfl
  | some r =>
    simp only [Option.toList_some, List.flatMap_cons, List.flatMap_nil, List.append_nil,
      Option.bind_some]
    rw [flatMap_opt (K := fun u v => K (r.1 ++ u) v), List.append_nil,
      flatMap_caseless fun u v => K (r.1 ++ u) v]
    cases readWord (['s'].map fun c => fun d => d.toLower == c) r.2 <;> simp

theorem flatMap_unitAlternation (K : List Char → List Char → List β) (s : List Char) :
    ((results unitAlternation s).flatMap fun r => K r.1 r.2) =
      unitWords.flatMap fun word =>
        (results (caseless word) s).flatMap fun r => K r.1 r.2 := by
  rw [unitAlternation, results_oneOf, List.flatMap_assoc]
  simp only [List.flatMap_cons, List.flatMap_nil, flatMap_plural, List.append_assoc,
    List.append_nil, unitWords, List.map_cons, List.map_nil]
  rfl

theorem flatMap_if_mem {α : Type*} [DecidableEq α] {words : List α} (nodup : words.Nodup)
    (x : α) (ys : List β) :
    (words.flatMap fun word => if x = word then ys else []) = if x ∈ words then ys else [] := by
  induction words with
  | nil => rfl
  | cons word words ih =>
    rw [List.flatMap_cons, ih nodup.of_cons]
    by_cases hx : x = word
    · subst hx
      rw [if_pos rfl, if_pos List.mem_cons_self, if_neg (List.nodup_cons.mp nodup).1,
        List.append_nil]
    · rw [if_neg hx, List.nil_append]
      simp [hx]

theorem isAlpha_of_toLower (c : Char) (h : c.toLower.isAlpha = true) : c.isAlpha = true := by
  by_cases upper : c.isUpper = true
  · exact Bool.or_eq_true_iff.mpr (.inl upper)
  · have same : c.toLower = c := dif_neg fun range => upper (decide_eq_true range)
    rwa [same] at h

theorem unitWords_letters : ∀ word ∈ unitWords, word ≠ [] ∧ ∀ c ∈ word, c.isAlpha = true := by
  have letters : unitWords.all (fun word => !word.isEmpty && word.all Char.isAlpha) = true := by
    decide +kernel
  intro word member
  have of_word := List.all_eq_true.mp letters word member
  rw [Bool.and_eq_true, Bool.not_eq_true', List.isEmpty_eq_false_iff] at of_word
  exact ⟨of_word.1, List.all_eq_true.mp of_word.2⟩

/-- A literal before a boundary is the whole run of letters. -/
theorem flatMap_unit_word {K : List Char → List Char → List β}
    (dead : ∀ t s, Starts Char.isAlpha s → K t s = []) {word : List Char}
    (letters : ∀ c ∈ word, c.isAlpha = true) (s : List Char) :
    ((results (caseless word) s).flatMap fun r => K r.1 r.2) =
      if (s.takeWhile Char.isAlpha).map Char.toLower = word then
        K (s.takeWhile Char.isAlpha) (s.dropWhile Char.isAlpha)
      else [] := by
  rw [flatMap_caseless]
  by_cases whole : (s.takeWhile Char.isAlpha).map Char.toLower = word
  · have read := (readWord_map Char.toLower word).mpr
      ⟨(List.takeWhile_append_dropWhile (p := Char.isAlpha) (l := s)).symm, whole⟩
    rw [read, if_pos whole]
    simp
  · rw [if_neg whole]
    cases read : readWord (word.map fun c => fun d => d.toLower == c) s with
    | none => rfl
    | some r =>
      obtain ⟨split, mapped⟩ := (readWord_map Char.toLower word).mp read
      have more : Starts Char.isAlpha r.2 := by
        by_contra stop
        have unit_letters : ∀ c ∈ r.1, c.isAlpha = true := fun c hc =>
          isAlpha_of_toLower c (letters _ (mapped ▸ List.mem_map_of_mem hc))
        exact whole (by rw [split, (takeWhile_run unit_letters stop).1, mapped])
      simp [dead r.1 r.2 more]

theorem flatMap_unit {K : List Char → List Char → List β}
    (dead : ∀ t s, Starts Char.isAlpha s → K t s = []) (s : List Char) :
    ((results unitAlternation s).flatMap fun r => K r.1 r.2) =
      if (s.takeWhile Char.isAlpha).map Char.toLower ∈ unitSeconds.map Prod.fst then
        K (s.takeWhile Char.isAlpha) (s.dropWhile Char.isAlpha)
      else [] := by
  have each : ∀ word ∈ unitWords,
      ((results (caseless word) s).flatMap fun r => K r.1 r.2) =
        if (s.takeWhile Char.isAlpha).map Char.toLower = word then
          K (s.takeWhile Char.isAlpha) (s.dropWhile Char.isAlpha)
        else [] := fun word hword => flatMap_unit_word dead (unitWords_letters word hword).2 s
  rw [flatMap_unitAlternation, List.flatMap_congr each, flatMap_if_mem (by decide)]
  simp only [unitWords_known]

theorem nil_not_unit : ([] : List Char).map Char.toLower ∉ unitSeconds.map Prod.fst := by decide

theorem isAlpha_toNat {c : Char} (h : c.isAlpha = true) :
    (65 ≤ c.toNat ∧ c.toNat ≤ 90) ∨ (97 ≤ c.toNat ∧ c.toNat ≤ 122) := by
  rcases Bool.or_eq_true_iff.mp h with upper | lower
  · obtain ⟨above, below⟩ := of_decide_eq_true upper
    exact .inl ⟨UInt32.le_iff_toNat_le.mp above, UInt32.le_iff_toNat_le.mp below⟩
  · obtain ⟨above, below⟩ := Bool.and_eq_true_iff.mp lower
    exact .inr ⟨UInt32.le_iff_toNat_le.mp (of_decide_eq_true above),
      UInt32.le_iff_toNat_le.mp (of_decide_eq_true below)⟩

theorem isDigit_toNat {c : Char} (h : c.isDigit = true) : 48 ≤ c.toNat ∧ c.toNat ≤ 57 := by
  simpa [Char.isDigit, UInt32.le_iff_toNat_le] using h

theorem numeral_toNat {c : Char} (h : numeral c = true) : 46 ≤ c.toNat ∧ c.toNat ≤ 57 := by
  rw [numeral, Bool.or_eq_true, fullStop, beq_iff_eq] at h
  obtain h | rfl := h
  · have range := isDigit_toNat h
    omega
  · decide

theorem isPythonSpace_toNat {c : Char} (h : isPythonSpace c = true) :
    c.toNat ≤ 32 ∨ 128 ≤ c.toNat := by
  simp only [isPythonSpace, Bool.or_eq_true, Bool.and_eq_true, decide_eq_true_eq,
    beq_iff_eq] at h
  omega

theorem alpha_of_space (c : Char) (h : isPythonSpace c = true) : c.isAlpha = false := by
  by_contra letter
  have space := isPythonSpace_toNat h
  have range := isAlpha_toNat (eq_true_of_ne_false letter)
  omega

theorem alpha_of_numeral (c : Char) (h : numeral c = true) : c.isAlpha = false := by
  by_contra letter
  have digit := numeral_toNat h
  have range := isAlpha_toNat (eq_true_of_ne_false letter)
  omega

theorem space_of_numeral (c : Char) (h : numeral c = true) : isPythonSpace c = false := by
  by_contra space
  have digit := numeral_toNat h
  have range := isPythonSpace_toNat (eq_true_of_ne_false space)
  omega

/-- A number, spaces and a unit before a boundary have one way at most. -/
theorem flatMap_token (K : List Char → List Char → List Char → List Char → List β)
    (s : List Char) :
    ((results number s).flatMap fun n => (results spaces n.2).flatMap fun g =>
      (results unitAlternation g.2).flatMap fun u => (results unitBoundary u.2).flatMap fun e =>
        K n.1 g.1 u.1 e.2) =
      match readToken s with
      | none => []
      | some (number, gap, unit, rest) => K number gap unit rest := by
  have boundary (a b c : List Char) (s : List Char) :
      ((results unitBoundary s).flatMap fun e => K a b c e.2) =
        if s.head?.any Char.isAlpha then [] else K a b c s := by
    rw [unitBoundary, results]
    split <;> simp
  have units (a b s : List Char) : ((results unitAlternation s).flatMap fun u =>
      (results unitBoundary u.2).flatMap fun e => K a b u.1 e.2) =
      if (s.takeWhile Char.isAlpha).map Char.toLower ∈ unitSeconds.map Prod.fst then
        K a b (s.takeWhile Char.isAlpha) (s.dropWhile Char.isAlpha)
      else [] := by
    rw [flatMap_unit (K := fun t v => (results unitBoundary v).flatMap fun e => K a b t e.2)]
    · have stopped : ¬ (s.dropWhile Char.isAlpha).head?.any Char.isAlpha = true := fun more =>
        not_starts_dropWhile s (starts_iff.mp more)
      rw [boundary, if_neg stopped]
    · rintro t s ⟨c, rest, rfl, hc⟩
      rw [boundary, if_pos (by simpa using hc)]
  have gaps (a s : List Char) : ((results spaces s).flatMap fun g =>
      (results unitAlternation g.2).flatMap fun u => (results unitBoundary u.2).flatMap fun e =>
        K a g.1 u.1 e.2) =
      let after := s.dropWhile isPythonSpace
      if (after.takeWhile Char.isAlpha).map Char.toLower ∈ unitSeconds.map Prod.fst then
        K a (s.takeWhile isPythonSpace) (after.takeWhile Char.isAlpha)
          (after.dropWhile Char.isAlpha)
      else [] := by
    rw [spaces, flatMap_star (K := fun b v => (results unitAlternation v).flatMap fun u =>
      (results unitBoundary u.2).flatMap fun e => K a b u.1 e.2), units]
    intro t s space
    rw [units, takeWhile_eq_nil.mpr (space.disjoint alpha_of_space), if_neg nil_not_unit]
  rw [flatMap_number (K := fun a v => (results spaces v).flatMap fun g =>
    (results unitAlternation g.2).flatMap fun u => (results unitBoundary u.2).flatMap fun e =>
      K a g.1 u.1 e.2)]
  · rw [gaps, readToken]
    by_cases none_ : s.takeWhile Char.isDigit = []
    · rw [if_pos none_, if_pos none_]
    · rw [if_neg none_, if_neg none_]
      dsimp only
      split <;> rfl
  · intro t s digits
    have same : s.dropWhile isPythonSpace = s := by
      rw [← List.nil_append s]
      exact (takeWhile_run (List.forall_mem_nil _) (digits.disjoint space_of_numeral)).2
    have none_ := takeWhile_eq_nil.mpr (digits.disjoint alpha_of_numeral)
    simp only [gaps, same, none_, if_neg nil_not_unit]

end Cuts

theorem captures_durationToken (s : List Char) :
    captures durationToken s =
      match readToken s with
      | none => []
      | some (number, _, unit, rest) => [([number, unit], rest)] := by
  rw [← flatMap_token fun number _ unit rest => [([number, unit], rest)]]
  simp [durationToken, captures, List.map_flatMap]

theorem results_component (s : List Char) :
    results component s =
      match readToken s with
      | none => []
      | some (number, gap, unit, rest) => (results spaces rest).map fun t =>
          (number ++ (gap ++ (unit ++ t.1)), t.2) := by
  rw [← flatMap_token fun number gap unit rest => (results spaces rest).map fun t =>
    (number ++ (gap ++ (unit ++ t.1)), t.2)]
  simp only [component, results, unitBoundary, List.map_flatMap, List.map_map,
    Function.comp_def]
  refine List.flatMap_congr fun n _ => List.flatMap_congr fun g _ =>
    List.flatMap_congr fun u _ => List.flatMap_congr fun e he => ?_
  have same : e.1 = [] := by
    split at he
    · cases he
    · rw [List.mem_singleton.mp he]
  rw [same]
  rfl

/-! ## Components and runs -/

theorem readNumber_split {whole fraction rest : List Char} (digits : ∀ c ∈ whole, c.isDigit = true)
    (decimal : fraction = [] ∨
      ∃ more, fraction = '.' :: more ∧ more ≠ [] ∧ ∀ c ∈ more, c.isDigit = true)
    (stop : ¬ Starts numeral rest) :
    readNumber (whole ++ (fraction ++ rest)) = (whole ++ fraction, rest) := by
  have plain : ¬ Starts Char.isDigit rest := fun more => stop (starts_numeral more)
  obtain rfl | ⟨more, rfl, some_, all⟩ := decimal
  · rw [List.nil_append, List.append_nil, readNumber, (takeWhile_run digits plain).1,
      (takeWhile_run digits plain).2]
    split
    · exact absurd ⟨'.', _, rfl, rfl⟩ stop
    · rfl
  · have point : ¬ Starts Char.isDigit (('.' :: more) ++ rest) := by
      rintro ⟨c, tail, same, hc⟩
      cases same
      cases hc
    rw [readNumber, (takeWhile_run digits point).1, (takeWhile_run digits point).2]
    simp only [List.cons_append, (takeWhile_run all plain).1, (takeWhile_run all plain).2,
      if_neg some_]

theorem Component.read {s number unit rest : List Char} (h : Component s number unit rest) :
    ∃ gap, (∀ c ∈ gap, isPythonSpace c = true) ∧ s = number ++ (gap ++ (unit ++ rest)) ∧
      readToken s = some (number, gap, unit, rest) := by
  obtain ⟨whole, fraction, gap, rfl, rfl, some_, digits, decimal, space⟩ := h.split
  have letters : ∀ c ∈ unit, c.isAlpha = true := fun c hc =>
    isAlpha_of_toLower c ((unitWords_letters _ ((unitWords_known _).mpr h.known)).2 _
      (List.mem_map_of_mem hc))
  have unit_some : unit ≠ [] := by
    rintro rfl
    exact nil_not_unit h.known
  have alpha : Starts Char.isAlpha (unit ++ rest) := by
    obtain ⟨c, tail, rfl⟩ := List.exists_cons_of_ne_nil unit_some
    exact ⟨c, tail ++ rest, rfl, letters c List.mem_cons_self⟩
  have spaced : ¬ Starts isPythonSpace (unit ++ rest) := fun more =>
    more.disjoint alpha_of_space alpha
  have stop : ¬ Starts numeral (gap ++ (unit ++ rest)) := by
    cases gap with
    | nil => exact fun more => more.disjoint alpha_of_numeral alpha
    | cons c gap =>
      exact fun more => more.disjoint space_of_numeral
        ⟨c, gap ++ (unit ++ rest), rfl, space c List.mem_cons_self⟩
  have first : (whole ++ (fraction ++ (gap ++ (unit ++ rest)))).takeWhile Char.isDigit ≠ [] := by
    obtain ⟨c, tail, rfl⟩ := List.exists_cons_of_ne_nil some_
    rw [List.cons_append, List.takeWhile_cons_of_pos (digits c List.mem_cons_self)]
    exact List.cons_ne_nil _ _
  refine ⟨gap, space, List.append_assoc _ _ _ |>.symm, ?_⟩
  rw [readToken, if_neg first, readNumber_split digits decimal stop]
  simp only [(takeWhile_run space spaced).1, (takeWhile_run space spaced).2,
    (takeWhile_run letters h.boundary).1, (takeWhile_run letters h.boundary).2, if_pos h.known]

theorem readNumber_parts (s : List Char) : ∃ whole fraction,
    (readNumber s).1 = whole ++ fraction ∧ whole = s.takeWhile Char.isDigit ∧
    s = whole ++ (fraction ++ (readNumber s).2) ∧
    (fraction = [] ∨
      ∃ more, fraction = '.' :: more ∧ more ≠ [] ∧ ∀ c ∈ more, c.isDigit = true) := by
  have whole_ := List.takeWhile_append_dropWhile (p := Char.isDigit) (l := s)
  rw [readNumber]
  split
  next more rest =>
    split
    · exact ⟨_, [], (List.append_nil _).symm, rfl, by rw [List.nil_append, ← rest, whole_],
        Or.inl rfl⟩
    next some_ =>
      refine ⟨_, '.' :: more.takeWhile Char.isDigit, rfl, rfl, ?_, Or.inr ⟨_, rfl, some_, ?_⟩⟩
      · rw [List.cons_append, List.takeWhile_append_dropWhile, ← rest, whole_]
      · exact fun c hc => List.mem_takeWhile_imp hc
  · exact ⟨_, [], (List.append_nil _).symm, rfl, by rw [List.nil_append, whole_], Or.inl rfl⟩

theorem component_of_read {s number gap unit rest : List Char}
    (read : readToken s = some (number, gap, unit, rest)) : Component s number unit rest := by
  rw [readToken] at read
  split at read
  · cases read
  next some_ =>
    dsimp only at read
    split at read
    next known =>
      obtain ⟨whole, fraction, parts, whole_, split, decimal⟩ := readNumber_parts s
      cases read
      refine ⟨⟨whole, fraction, (readNumber s).2.takeWhile isPythonSpace, parts, ?_,
        whole_ ▸ some_, ?_, decimal, ?_⟩, known, not_starts_dropWhile _⟩
      · rw [List.takeWhile_append_dropWhile, List.takeWhile_append_dropWhile]
        exact split
      · exact fun c hc => List.mem_takeWhile_imp (whole_ ▸ hc)
      · exact fun c hc => List.mem_takeWhile_imp hc
    · cases read

theorem no_component {s : List Char} (none_ : readToken s = none) (number unit rest : List Char) :
    ¬ Component s number unit rest := by
  intro h
  obtain ⟨gap, _, _, read⟩ := h.read
  rw [none_] at read
  cases read

theorem Component.shorter {s number unit rest : List Char} (h : Component s number unit rest) :
    (rest.dropWhile isPythonSpace).length < s.length := by
  obtain ⟨whole, fraction, gap, _, split, some_, _⟩ := h.split
  have least := (List.dropWhile_suffix isPythonSpace (l := rest)).length_le
  have some_ := List.length_pos_iff.mpr some_
  rw [split]
  simp only [List.length_append]
  omega

theorem run_exists (s : List Char) : ∃ found, Run s found := by
  induction hn : s.length using Nat.strong_induction_on generalizing s with
  | h n ih =>
    cases read : readToken s with
    | none => exact ⟨[], .stop (no_component read)⟩
    | some token =>
      obtain ⟨number, gap, unit, rest⟩ := token
      have first := component_of_read read
      obtain ⟨found, run⟩ := ih _ (hn ▸ first.shorter) _ rfl
      exact ⟨_, .next first run⟩

theorem component_head {s number unit rest : List Char} (h : Component s number unit rest) :
    ∃ gap, (∀ c ∈ gap, isPythonSpace c = true) ∧ s = number ++ (gap ++ (unit ++ rest)) ∧
      (results component s).head? =
        some (number ++ (gap ++ (unit ++ rest.takeWhile isPythonSpace)),
          rest.dropWhile isPythonSpace) := by
  obtain ⟨gap, space, split, read⟩ := h.read
  refine ⟨gap, space, split, ?_⟩
  rw [results_component, read]
  simp only [List.head?_map, spaces, head?_star_symbol, Option.map_some]

theorem component_consumes {s : List Char} {r : List Char × List Char}
    (found : r ∈ results component s) : r.1 ≠ [] := by
  rw [results_component] at found
  cases read : readToken s with
  | none =>
    rw [read] at found
    cases found
  | some token =>
    obtain ⟨number, gap, unit, rest⟩ := token
    rw [read] at found
    obtain ⟨t, _, rfl⟩ := List.mem_map.mp found
    obtain ⟨whole, fraction, _, rfl, _, some_, _⟩ := (component_of_read read).split
    intro none_
    exact some_ (List.append_eq_nil_iff.mp (List.append_eq_nil_iff.mp none_).1).1

/-- Spaces before a run hold no token. -/
theorem findAll_spaces {gap text : List Char} (space : ∀ c ∈ gap, isPythonSpace c = true)
    (fuel : Nat) :
    findAll durationToken (gap.length + fuel) (gap ++ text) = findAll durationToken fuel text := by
  induction gap with
  | nil => rw [List.length_nil, Nat.zero_add, List.nil_append]
  | cons c gap ih =>
    have none_ : readToken (c :: (gap ++ text)) = none := by
      rw [readToken, if_pos]
      refine List.takeWhile_cons_of_neg fun digit => ?_
      have range := isPythonSpace_toNat (space c List.mem_cons_self)
      have digits := isDigit_toNat digit
      omega
    have length : (c :: gap).length + fuel = gap.length + fuel + 1 := by
      rw [List.length_cons]
      omega
    rw [length, List.cons_append, findAll, captures_durationToken, none_]
    exact ih fun d hd => space d (List.mem_cons_of_mem c hd)

/-- A component that is read stays one when its text is cut behind it. -/
theorem Component.cut {s number unit rest tail : List Char} (h : Component s number unit rest)
    {gap : List Char} (space : ∀ c ∈ gap, isPythonSpace c = true)
    (split : s = number ++ (gap ++ (unit ++ rest))) (within : tail <+: rest) :
    readToken (number ++ (gap ++ (unit ++ tail))) = some (number, gap, unit, tail) := by
  obtain ⟨whole, fraction, gap', parts, same, some_, digits, decimal, space'⟩ := h.split
  obtain ⟨left, rfl⟩ := within
  have cut : Component (number ++ (gap ++ (unit ++ tail))) number unit tail :=
    ⟨⟨whole, fraction, gap, parts, by rw [parts, List.append_assoc], some_, digits, decimal, space⟩,
      h.known, fun more => h.boundary more.append⟩
  obtain ⟨other, _, again, read⟩ := cut.read
  have gaps := List.append_inj_left' (List.append_cancel_left again) (by simp)
  rw [read, gaps]

theorem tokenSeconds_known {number unit : List Char}
    (known : unit.map Char.toLower ∈ unitSeconds.map Prod.fst) :
    tokenSeconds [number, unit] = some (componentSeconds number unit) := by
  rw [tokenSeconds, componentSeconds]
  cases found : unitSeconds.lookup (unit.map Char.toLower) with
  | none =>
    obtain ⟨entry, hentry, same⟩ := List.mem_map.mp known
    have differs := List.lookup_eq_none_iff.mp found entry hentry
    simp [same] at differs
  | some multiplier =>
    rw [Option.map_some, Option.getD_some]
    split
    next ms =>
      rw [ms] at found
      cases found
      rw [div_eq_mul_one_div]
    · rfl

theorem findAll_token {text number gap unit tail : List Char}
    (read : readToken text = some (number, gap, unit, tail)) (fuel : Nat) :
    findAll durationToken (fuel + 1) text =
      [number, unit] :: findAll durationToken fuel tail := by
  cases text with
  | nil => cases read
  | cons c text =>
    rw [findAll, captures_durationToken, read]
    rfl

theorem run_length {s : List Char} {found : List ℚ} (run : Run s found) :
    found.length ≤ s.length := by
  induction run with
  | stop none_ => exact Nat.zero_le _
  | next first run ih =>
    have shorter := first.shorter
    rw [List.length_cons]
    omega

/-- The captured run holds the components of the run and no other token. -/
theorem run_captured {s : List Char} {found : List ℚ} (run : Run s found) (fuel : Nat)
    (enough : found.length ≤ fuel) :
    ∃ text left, (repeatGreedy (results component) fuel s).head? = some (text, left) ∧
      text <+: s ∧
      ∀ k, text.length ≤ k → (findAll durationToken k text).filterMap tokenSeconds = found := by
  induction run generalizing fuel with
  | @stop s none_ =>
    have ways : results component s = [] := by
      cases read : readToken s with
      | none => rw [results_component, read]
      | some token => exact absurd (component_of_read read) (none_ _ _ _)
    refine ⟨[], s, ?_, List.nil_prefix, fun k _ => ?_⟩
    · cases fuel with
      | zero => rfl
      | succ fuel => simp [repeatGreedy, ways]
    · cases k <;> rfl
  | @next s number unit rest found first run ih =>
    obtain ⟨fuel, rfl⟩ := Nat.exists_eq_add_of_lt (Nat.lt_of_lt_of_le (Nat.succ_pos _) enough)
    rw [Nat.zero_add] at enough ⊢
    obtain ⟨gap, space, split, head⟩ := component_head first
    obtain ⟨text, left, taken, within, tokens⟩ := ih fuel (Nat.le_of_succ_le_succ enough)
    have spaces_ := List.takeWhile_append_dropWhile (p := isPythonSpace) (l := rest)
    have within_rest : rest.takeWhile isPythonSpace ++ text <+: rest := by
      obtain ⟨more, hmore⟩ := within
      exact ⟨more, by rw [List.append_assoc, hmore, spaces_]⟩
    have text_eq : number ++ (gap ++ (unit ++ rest.takeWhile isPythonSpace)) ++ text =
        number ++ (gap ++ (unit ++ (rest.takeWhile isPythonSpace ++ text))) := by
      simp only [List.append_assoc]
    refine ⟨number ++ (gap ++ (unit ++ rest.takeWhile isPythonSpace)) ++ text, left, ?_, ?_, ?_⟩
    · rw [head?_repeatGreedy (fun r hr => component_consumes hr) head, taken, Option.map_some]
    · rw [text_eq, split]
      simpa only [List.prefix_append_right_inj] using within_rest
    · intro k long
      rw [text_eq] at long ⊢
      have read := first.cut space split within_rest
      cases k with
      | zero =>
        have empty := List.eq_nil_of_length_eq_zero (Nat.le_zero.mp long)
        rw [empty] at read
        cases read
      | succ k =>
        obtain ⟨whole, fraction, _, parts, _, some_, _⟩ := first.split
        have number_some : 0 < number.length := by
          have some_ := List.length_pos_iff.mpr some_
          rw [parts, List.length_append]
          omega
        simp only [List.length_append] at long
        obtain ⟨j, hj⟩ := Nat.exists_eq_add_of_le
          (show (rest.takeWhile isPythonSpace).length ≤ k by omega)
        rw [findAll_token read, List.filterMap_cons, tokenSeconds_known first.known, hj,
          findAll_spaces fun c hc => List.mem_takeWhile_imp hc]
        rw [tokens j (by omega)]

theorem plus_captured {s : List Char} {found : List ℚ} (run : Run s found) (some_ : found ≠ []) :
    ∃ text left, (results (.plus component) s).head? = some (text, left) ∧
      amounts text = found := by
  cases run with
  | stop none_ => exact absurd rfl some_
  | @next _ number unit rest found first run =>
    obtain ⟨gap, space, split, head⟩ := component_head first
    have enough : (componentSeconds number unit :: found).length ≤
        (rest.dropWhile isPythonSpace).length + 1 := Nat.succ_le_succ (run_length run)
    obtain ⟨text, left, taken, _, tokens⟩ := run_captured (.next first run) _ enough
    refine ⟨text, left, ?_, tokens _ (le_refl _)⟩
    rw [head?_plus (fun r hr => component_consumes hr) head, taken]

/-! ## The hint of a message -/

theorem captures_retryPattern (s : List Char) :
    captures retryPattern s =
      (readWord (retryPhrase.map fun c => fun d => d.toLower == c) s).toList.flatMap fun r =>
        (results (.plus component) (r.2.dropWhile isPythonSpace)).map fun t => ([t.1], t.2) := by
  have gaps (v : List Char) : ((results spaces v).flatMap fun g =>
      (results (.plus component) g.2).map fun t => ([t.1], t.2)) =
        (results (.plus component) (v.dropWhile isPythonSpace)).map fun t => ([t.1], t.2) := by
    rw [spaces, flatMap_star (K := fun _ w => (results (.plus component) w).map
      fun t => ([t.1], t.2))]
    intro _ w space
    have none_ : readToken w = none := by
      rw [readToken, if_pos]
      refine takeWhile_eq_nil.mpr (space.disjoint fun c hc => ?_)
      by_contra digit
      have range := isPythonSpace_toNat hc
      have digits := isDigit_toNat (eq_true_of_ne_false digit)
      omega
    rw [Pattern.plus, results, results_component, none_]
    rfl
  simp only [retryPattern, captures, caseless, results_word, List.map_flatMap, List.map_map]
  refine List.flatMap_congr fun r _ => ?_
  rw [← gaps]
  simp [List.map_eq_flatMap]

theorem HintAt.captured {s : List Char} {found : List ℚ} (h : HintAt s found) :
    ∃ text left, (captures retryPattern s).head? = some ([text], left) ∧
      amounts text = found := by
  obtain ⟨phrase, after, split, same, run, some_⟩ := h
  obtain ⟨text, left, head, sum⟩ := plus_captured run some_
  refine ⟨text, left, ?_, sum⟩
  rw [captures_retryPattern, (readWord_map Char.toLower retryPhrase).mpr ⟨split, same⟩]
  simp [head]

theorem hintAt_of_captures {s : List Char} (some_ : captures retryPattern s ≠ []) :
    ∃ found, HintAt s found := by
  rw [captures_retryPattern] at some_
  cases read : readWord (retryPhrase.map fun c => fun d => d.toLower == c) s with
  | none =>
    rw [read] at some_
    exact absurd rfl some_
  | some r =>
    obtain ⟨split, same⟩ := (readWord_map Char.toLower retryPhrase).mp read
    obtain ⟨found, run⟩ := run_exists (r.2.dropWhile isPythonSpace)
    refine ⟨found, r.1, r.2, split, same, run, ?_⟩
    rintro rfl
    cases run with
    | stop none_ =>
      apply some_
      cases token : readToken (r.2.dropWhile isPythonSpace) with
      | none => simp [read, Pattern.plus, results, results_component, token]
      | some token_ => exact absurd (component_of_read token) (none_ _ _ _)

/-- `parse_retry_after` reads the hint of a message. -/
theorem parseRetryAfter_reads (message : List Char) :
    HintRead message (parseRetryAfter message) := by
  rw [parseRetryAfter]
  cases found : search retryPattern message with
  | none =>
    intro earlier later split other hint
    obtain ⟨text, left, head, _⟩ := hint.captured
    rw [search_eq_none found earlier later split] at head
    cases head
  | some groups =>
    obtain ⟨before, rest, left, split, head, none_⟩ := search_eq_some found
    obtain ⟨total, hint⟩ := hintAt_of_captures (s := rest) (by
      intro none_
      rw [none_] at head
      cases head)
    obtain ⟨text, left', head', sum⟩ := hint.captured
    rw [head] at head'
    cases head'
    obtain ⟨_, _, _, _, _, some_⟩ := id hint
    simp only [sum, if_neg some_]
    refine ⟨before, rest, total, split, hint, rfl, fun earlier later same short other hint => ?_⟩
    obtain ⟨text, left, head, _⟩ := hint.captured
    rw [none_ earlier later same short] at head
    cases head

end Balancer
