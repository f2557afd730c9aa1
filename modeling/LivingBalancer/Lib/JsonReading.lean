import Mathlib.Data.List.TakeWhile
import Mathlib.Data.Nat.Digits.Lemmas
import LivingBalancer.Lib.JsonText

/-!
# Reading a JSON text back

The text of a value, with the keys of each object in the order they have, is scanned as
that value: strings and numbers by what their texts start with and end in, arrays and
objects by induction over the value.
-/

namespace PyJson

/-! ## Strings -/

theorem decodeHex_control : ∀ c < 0x20,
    decodeHex (code '0') (code '0') (hexDigit (c / 16)) (hexDigit (c % 16)) = some c := by
  decide

theorem scanUnits_backslash {e x : ℕ} (short : e ≠ code 'u') (h : backslash e = some x) (s : Str) :
    scanUnits (code '\\' :: e :: s) = (scanUnits s).map fun p => ((false, x) :: p.1, p.2) := by
  rw [scanUnits.eq_def]
  simp only [if_neg (show code '\\' ≠ code '"' by decide), if_true, if_neg short, h]

theorem scanUnits_escape (c : ℕ) (s : Str) : ∃ b, (b = true → c < 0x20) ∧
    scanUnits (escape c ++ s) = (scanUnits s).map fun p => ((b, c) :: p.1, p.2) := by
  simp only [escape]
  split_ifs with h₁ h₂ h₃ h₄ h₅ h₆ h₇ h₈
  · exact ⟨false, nofun, scanUnits_backslash (by decide) (by rw [h₁]; decide) s⟩
  · exact ⟨false, nofun, scanUnits_backslash (by decide) (by rw [h₂]; decide) s⟩
  · exact ⟨false, nofun, scanUnits_backslash (by decide) (by rw [h₃]; decide) s⟩
  · exact ⟨false, nofun, scanUnits_backslash (by decide) (by rw [h₄]; decide) s⟩
  · exact ⟨false, nofun, scanUnits_backslash (by decide) (by rw [h₅]; decide) s⟩
  · exact ⟨false, nofun, scanUnits_backslash (by decide) (by rw [h₆]; decide) s⟩
  · exact ⟨false, nofun, scanUnits_backslash (by decide) (by rw [h₇]; decide) s⟩
  · refine ⟨true, fun _ => h₈, ?_⟩
    rw [scanUnits.eq_def]
    simp only [List.cons_append, List.nil_append, if_neg (show code '\\' ≠ code '"' by decide),
      if_true, decodeHex_control c h₈]
  · refine ⟨false, nofun, ?_⟩
    rw [List.singleton_append, scanUnits.eq_def]
    simp only [if_neg h₂, if_neg h₁, if_neg h₈]

theorem scanUnits_flatMap (t r : Str) : ∃ units,
    scanUnits (t.flatMap escape ++ code '"' :: r) = some (units, r) ∧ units.map Prod.snd = t ∧
    ∀ u ∈ units, u.1 = true → u.2 < 0x20 := by
  induction t with
  | nil =>
    refine ⟨[], ?_, rfl, nofun⟩
    rw [List.flatMap_nil, List.nil_append, scanUnits.eq_def]
    exact if_pos rfl
  | cons c t ih =>
    obtain ⟨units, read, same, low⟩ := ih
    obtain ⟨b, control, first⟩ := scanUnits_escape c (t.flatMap escape ++ code '"' :: r)
    refine ⟨(b, c) :: units, ?_, ?_, ?_⟩
    · rw [List.flatMap_cons, List.append_assoc, first, read]
      rfl
    · rw [List.map_cons, same]
    · intro u hu
      rcases List.mem_cons.mp hu with rfl | later
      · exact control
      · exact low u later

theorem joinSurrogates_low {units : List (Bool × ℕ)} (low : ∀ u ∈ units, u.1 = true → u.2 < 0x20) :
    joinSurrogates units = units.map Prod.snd := by
  induction units using joinSurrogates.induct with
  | case1 => rfl
  | case2 u => rfl
  | case3 u u' rest pair =>
    have first := low u List.mem_cons_self pair.1.1
    have high := pair.1.2.1
    omega
  | case4 u u' rest single ih =>
    rw [joinSurrogates, if_neg single, ih fun v hv => low v (List.mem_cons_of_mem u hv)]
    rfl

theorem scanString_flatMap (t r : Str) :
    scanString (t.flatMap escape ++ code '"' :: r) = some (t, r) := by
  obtain ⟨units, read, same, low⟩ := scanUnits_flatMap t r
  rw [scanString, read, Option.map_some, joinSurrogates_low low, same]

/-! ## Numbers -/

/-- What stands behind a value in an array or an object. -/
def closers : Str := [code ',', code ']', code '}']

def Closed (r : Str) : Prop := ∀ c ∈ r.head?, c ∈ closers

theorem closed_nil : Closed [] := nofun

theorem closed_cons {c : ℕ} {r : Str} (h : c ∈ closers) : Closed (c :: r) := by
  rintro d ⟨⟩
  exact h

theorem Closed.not_mem {r signs : Str} (h : Closed r) (other : ∀ c ∈ closers, c ∉ signs) :
    ∀ c ∈ r.head?, c ∉ signs :=
  fun c hc => other c (h c hc)

theorem Closed.not_digit {r : Str} (h : Closed r) : ∀ c ∈ r.head?, isDigit c = false := by
  intro c hc
  have stops : ∀ d ∈ closers, isDigit d = false := by decide
  exact stops c (h c hc)

section Append

variable {r : Str}

theorem takeWhile_append_stop {p : ℕ → Bool} (hr : ∀ c ∈ r.head?, p c = false) (s : Str) :
    (s ++ r).takeWhile p = s.takeWhile p ∧ (s ++ r).dropWhile p = s.dropWhile p ++ r := by
  induction s with
  | nil =>
    cases r with
    | nil => exact ⟨rfl, rfl⟩
    | cons c r =>
      have stop : p c = false := hr c rfl
      simp [stop]
  | cons c s ih =>
    by_cases hc : p c = true
    · simp [hc, ih]
    · simp [hc]

theorem takeDigits_append (hr : ∀ c ∈ r.head?, isDigit c = false) (s : Str) :
    takeDigits (s ++ r) = (takeDigits s).map fun p => (p.1, p.2 ++ r) := by
  cases s with
  | nil =>
    cases r with
    | nil => rfl
    | cons c r =>
      have stop : isDigit c = false := hr c rfl
      simp [takeDigits, stop]
  | cons c s =>
    obtain ⟨taken, left⟩ := takeWhile_append_stop hr s
    simp only [List.cons_append, takeDigits, taken, left]
    by_cases hc : isDigit c = true
    · simp [hc]
    · simp [hc]

theorem takeInteger_append (hr : ∀ c ∈ r.head?, isDigit c = false) (s : Str) :
    takeInteger (s ++ r) = (takeInteger s).map fun p => (p.1, p.2 ++ r) := by
  cases s with
  | nil =>
    cases r with
    | nil => rfl
    | cons c r =>
      have stop : isDigit c = false := hr c rfl
      have zero : c ≠ code '0' := by
        rintro rfl
        cases stop
      simp [takeInteger, stop, zero]
  | cons c s =>
    obtain ⟨taken, left⟩ := takeWhile_append_stop hr s
    simp only [List.cons_append, takeInteger, taken, left]
    split_ifs <;> rfl

theorem takeSign_append {signs : Str} (hr : ∀ c ∈ r.head?, c ∉ signs) (s : Str) :
    takeSign signs (s ++ r) = ((takeSign signs s).1, (takeSign signs s).2 ++ r) := by
  cases s with
  | nil =>
    cases r with
    | nil => rfl
    | cons c r => simp [takeSign, hr c rfl]
  | cons c s =>
    simp only [List.cons_append, takeSign]
    split_ifs <;> rfl

theorem takeFraction_append (hr : Closed r) (s : Str) :
    takeFraction (s ++ r) = ((takeFraction s).1, (takeFraction s).2 ++ r) := by
  cases s with
  | nil =>
    cases r with
    | nil => rfl
    | cons c r =>
      have dot : c ≠ code '.' := by
        rintro rfl
        exact absurd (hr _ rfl) (by decide)
      simp only [List.nil_append, takeFraction]
      split <;> simp [dot]
  | cons c s =>
    simp only [List.cons_append, takeFraction, takeDigits_append hr.not_digit]
    cases takeDigits s with
    | none => rfl
    | some p =>
      simp only [Option.map_some]
      split_ifs <;> rfl

theorem takeExponent_append (hr : Closed r) (s : Str) :
    takeExponent (s ++ r) = ((takeExponent s).1, (takeExponent s).2 ++ r) := by
  cases s with
  | nil =>
    cases r with
    | nil => rfl
    | cons c r =>
      have e : c ∉ text "eE" := hr.not_mem (by decide) c rfl
      simp only [List.nil_append, takeExponent]
      split <;> simp [e]
  | cons c s =>
    have signs : ∀ d ∈ r.head?, d ∉ text "+-" := hr.not_mem (by decide)
    simp only [List.cons_append, takeExponent, takeSign_append signs,
      takeDigits_append hr.not_digit]
    cases takeDigits (takeSign (text "+-") s).2 with
    | none => rfl
    | some p =>
      simp only [Option.map_some]
      split_ifs <;> rfl

theorem matchNumber_append (hr : Closed r) (s : Str) :
    matchNumber (s ++ r) = (matchNumber s).map fun p => (p.1, p.2 ++ r) := by
  have signs : ∀ d ∈ r.head?, d ∉ text "-" := hr.not_mem (by decide)
  simp only [matchNumber, takeSign_append signs, takeInteger_append hr.not_digit]
  cases takeInteger (takeSign (text "-") s).2 with
  | none => rfl
  | some p =>
    simp only [Option.map_some, takeFraction_append hr, takeExponent_append hr]

end Append

theorem mem_digits {n d : ℕ} (h : d ∈ (Nat.digits 10 n).reverse) : d < 10 :=
  Nat.digits_lt_base (by decide) (List.mem_reverse.mp h)

theorem isDigit_digit {d : ℕ} (h : d < 10) : isDigit (code '0' + d) = true := by
  have low : code '0' = 48 := rfl
  have high : code '9' = 57 := rfl
  rw [isDigit, decide_eq_true_eq]
  omega

theorem natText_digits (n : ℕ) : ∀ c ∈ natText n, isDigit c = true := by
  intro c hc
  rw [natText] at hc
  split_ifs at hc with zero
  · rw [List.mem_singleton.mp hc]
    rfl
  · obtain ⟨d, hd, rfl⟩ := List.mem_map.mp hc
    exact isDigit_digit (mem_digits hd)

theorem natOfDigits_natText (n : ℕ) : natOfDigits (natText n) = n := by
  rw [natText]
  split_ifs with zero
  · rw [zero]
    rfl
  · have values : ∀ ds : List ℕ, natOfDigits (ds.reverse.map fun d => code '0' + d) =
        Nat.ofDigits 10 ds := by
      intro ds
      rw [natOfDigits, List.foldl_map, List.foldl_reverse, Nat.ofDigits_eq_foldr]
      refine congrArg (fun f => ds.foldr f 0) (funext fun d => funext fun m => ?_)
      simp only [Nat.cast_id]
      omega
    rw [values, Nat.ofDigits_digits]

theorem takeInteger_natText (n : ℕ) : takeInteger (natText n) = some (natText n, []) := by
  have digits := natText_digits n
  rw [natText] at digits ⊢
  split_ifs at digits ⊢ with zero
  · rfl
  · have nonempty : Nat.digits 10 n ≠ [] := Nat.digits_ne_nil_iff_ne_zero.mpr zero
    have last := Nat.getLast_digit_ne_zero 10 zero
    cases hds : (Nat.digits 10 n).reverse with
    | nil => exact absurd (List.reverse_eq_nil_iff.mp hds) nonempty
    | cons d ds =>
      have leading : d ≠ 0 := by
        rw [← List.head_reverse (by rw [hds]; simp)] at last
        simpa [hds] using last
      rw [hds, List.map_cons] at digits
      have rest : ∀ c ∈ ds.map fun d => code '0' + d, isDigit c = true :=
        fun c hc => digits c (List.mem_cons_of_mem _ hc)
      have first : code '0' + d ≠ code '0' := by omega
      rw [List.map_cons, takeInteger, if_neg first, if_pos (digits _ List.mem_cons_self),
        List.takeWhile_eq_self_iff.mpr rest, List.dropWhile_eq_nil_iff.mpr rest]

theorem takeSign_natText (n : ℕ) : takeSign (text "-") (natText n) = ([], natText n) := by
  cases h : natText n with
  | nil => rfl
  | cons c rest =>
    have digit := natText_digits n c (by rw [h]; exact List.mem_cons_self)
    have positive : c ∉ text "-" := by
      intro minus
      have same : c = code '-' := by simpa [text] using minus
      rw [same] at digit
      cases digit
    exact if_neg positive

theorem matchNumber_intText (n : ℤ) :
    matchNumber (intText n) = some (⟨intText n, [], []⟩, []) := by
  cases n with
  | ofNat n =>
    simp only [intText, matchNumber, takeSign_natText, takeInteger_natText]
    rfl
  | negSucc n =>
    have sign : takeSign (text "-") (code '-' :: natText (n + 1)) =
        ([code '-'], natText (n + 1)) := by
      rw [takeSign]
      exact if_pos (by decide)
    simp only [intText, matchNumber, sign, takeInteger_natText]
    rfl

theorem intOfText_intText (n : ℤ) : intOfText (intText n) = n := by
  cases n with
  | ofNat n =>
    have value := natOfDigits_natText n
    rw [intText]
    cases h : natText n with
    | nil =>
      rw [h] at value
      rw [← value]
      rfl
    | cons c rest =>
      have digit := natText_digits n c (by rw [h]; exact List.mem_cons_self)
      have positive : c ≠ code '-' := by
        rintro rfl
        cases digit
      rw [h] at value
      rw [intOfText, if_neg positive, value]
      rfl
  | negSucc n =>
    rw [intText, intOfText, if_pos rfl, natOfDigits_natText]
    rfl

theorem takeDigits_eq {s digits rest : Str} (h : takeDigits s = some (digits, rest)) :
    digits ++ rest = s := by
  cases s with
  | nil => cases h
  | cons c s =>
    rw [takeDigits] at h
    split_ifs at h
    cases h
    rw [List.cons_append, List.takeWhile_append_dropWhile]

theorem takeSign_eq (signs s : Str) : (takeSign signs s).1 ++ (takeSign signs s).2 = s := by
  cases s with
  | nil => rfl
  | cons c s =>
    rw [takeSign]
    split_ifs <;> rfl

theorem takeInteger_eq {s integer rest : Str} (h : takeInteger s = some (integer, rest)) :
    integer ++ rest = s := by
  cases s with
  | nil => cases h
  | cons c s =>
    rw [takeInteger] at h
    split_ifs at h
    · cases h
      rfl
    · cases h
      rw [List.cons_append, List.takeWhile_append_dropWhile]

theorem takeFraction_eq (s : Str) : (takeFraction s).1 ++ (takeFraction s).2 = s := by
  cases s with
  | nil => rfl
  | cons c s =>
    rw [takeFraction]
    split
    · rename_i digits rest found
      split_ifs
      · rw [List.cons_append, takeDigits_eq found]
      · rfl
    · rfl

theorem takeExponent_eq (s : Str) : (takeExponent s).1 ++ (takeExponent s).2 = s := by
  cases s with
  | nil => rfl
  | cons c s =>
    rw [takeExponent]
    split
    · rename_i digits rest found
      split_ifs
      · simp only [List.cons_append, List.append_assoc]
        rw [takeDigits_eq found, takeSign_eq]
      · rfl
    · rfl

/-- The groups of a match, with what follows, are the text. -/
theorem matchNumber_eq {s rest : Str} {m : NumberMatch} (h : matchNumber s = some (m, rest)) :
    m.integer ++ m.frac ++ m.exp ++ rest = s := by
  obtain ⟨⟨integer, left⟩, found, same⟩ := Option.map_eq_some_iff.mp h
  cases same
  rw [List.append_assoc, takeExponent_eq, List.append_assoc, takeFraction_eq, List.append_assoc,
    takeInteger_eq found, takeSign_eq]

/-- A number starts with a sign or a digit. -/
theorem matchNumber_head {s : Str} {p : NumberMatch × Str} (h : matchNumber s = some p) :
    ∃ c rest, s = c :: rest ∧ (c = code '-' ∨ isDigit c = true) := by
  cases s with
  | nil => cases h
  | cons c rest =>
    refine ⟨c, rest, rfl, ?_⟩
    by_contra other
    obtain ⟨minus, digit⟩ := not_or.mp other
    have sign : takeSign (text "-") (c :: rest) = ([], c :: rest) :=
      if_neg (by simpa [text] using minus)
    have zero : c ≠ code '0' := by
      rintro rfl
      exact digit rfl
    rw [matchNumber, sign, takeInteger, if_neg zero, if_neg digit] at h
    cases h

/-! ## Scalars -/

variable {F : Type} {fmt : FloatText F}

theorem not_prefix_of_head {c d : ℕ} {word s : Str} (h : c ≠ d) : ¬ c :: word <+: d :: s := by
  intro starts
  exact h (List.cons_prefix_cons.mp starts).1

theorem scanScalar_number {s r : Str} {m : NumberMatch} (h : matchNumber s = some (m, []))
    (hr : Closed r) : scanScalar fmt (s ++ r) = some (m.toValue fmt, r) := by
  obtain ⟨c, rest, rfl, first⟩ := matchNumber_head h
  have read : matchNumber (c :: rest ++ r) = some (m, r) := by
    rw [matchNumber_append hr, h]
    rfl
  have letter : ∀ d, d ≠ code '-' → isDigit d = false → d ≠ c := by
    rintro d minus digit rfl
    rcases first with same | same
    · exact minus same
    · exact absurd same (by rw [digit]; decide)
  have null : ¬ text "null" <+: c :: rest ++ r := not_prefix_of_head (letter _ (by decide) rfl)
  have yes : ¬ text "true" <+: c :: rest ++ r := not_prefix_of_head (letter _ (by decide) rfl)
  have no : ¬ text "false" <+: c :: rest ++ r := not_prefix_of_head (letter _ (by decide) rfl)
  rw [scanScalar, if_neg null, if_neg yes, if_neg no, read]

theorem literal_toValue (fmt : FloatText F) (x : F) : ∃ m,
    matchNumber (fmt.repr x) = some (m, []) ∧ m.toValue fmt = .float (.finite x) := by
  obtain ⟨m, read, fraction⟩ := fmt.literal x
  have whole := matchNumber_eq read
  rw [List.append_nil] at whole
  refine ⟨m, read, ?_⟩
  rw [NumberMatch.toValue, if_neg (by tauto), whole, fmt.ofText_repr]

theorem scanScalar_float {x : PyFloat F} {r : Str} (hr : Closed r) :
    scanScalar fmt (floatText fmt x ++ r) = some (.float x, r) := by
  cases x with
  | nan => rfl
  | infinity negative => cases negative <;> rfl
  | finite x =>
    obtain ⟨m, read, value⟩ := literal_toValue fmt x
    rw [floatText, scanScalar_number read hr, value]

/-- What a text, an object and an array start with. -/
def openers : Str := [code '"', code '{', code '[']

theorem scanOnce_scalar {c fuel : ℕ} {s : Str} (h : c ∉ openers) :
    scanOnce fmt (fuel + 1) (c :: s) = scanScalar fmt (c :: s) := by
  have quotes : c ≠ code '"' := fun same => h (by rw [same]; decide)
  have brace : c ≠ code '{' := fun same => h (by rw [same]; decide)
  have bracket : c ≠ code '[' := fun same => h (by rw [same]; decide)
  rw [scanOnce, if_neg quotes, if_neg brace, if_neg bracket]

theorem scanScalar_none {c : ℕ} {s : Str} (letter : c ∉ text "ntfNI-") (digit : isDigit c = false) :
    scanScalar fmt (c :: s) = none := by
  have other : ∀ d ∈ text "ntfNI-", d ≠ c := by
    rintro d hd rfl
    exact letter hd
  have number : matchNumber (c :: s) = none := by
    cases h : matchNumber (c :: s) with
    | none => rfl
    | some p =>
      obtain ⟨d, rest, same, first⟩ := matchNumber_head h
      cases same
      rcases first with minus | isdigit
      · exact absurd minus.symm (other _ (by decide))
      · rw [digit] at isdigit
        cases isdigit
  have null : ¬ text "null" <+: c :: s := not_prefix_of_head (other _ (by decide))
  have yes : ¬ text "true" <+: c :: s := not_prefix_of_head (other _ (by decide))
  have no : ¬ text "false" <+: c :: s := not_prefix_of_head (other _ (by decide))
  have nan : ¬ text "NaN" <+: c :: s := not_prefix_of_head (other _ (by decide))
  have infinity : ¬ text "Infinity" <+: c :: s := not_prefix_of_head (other _ (by decide))
  have negative : ¬ text "-Infinity" <+: c :: s := not_prefix_of_head (other _ (by decide))
  rw [scanScalar, if_neg null, if_neg yes, if_neg no, number]
  simp only [if_neg nan, if_neg infinity, if_neg negative]

/-- No value starts with a space, a closer or a byte order mark. -/
def nonStarters : Str := text " \t\n\r" ++ closers ++ [0xfeff]

theorem scanOnce_head {fuel : ℕ} {s : Str} {p : JsonValue F × Str}
    (h : scanOnce fmt fuel s = some p) : ∃ c rest, s = c :: rest ∧ c ∉ nonStarters := by
  cases fuel with
  | zero =>
    rw [scanOnce] at h
    cases h
  | succ fuel =>
    cases s with
    | nil =>
      rw [scanOnce] at h
      cases h
    | cons c rest =>
      refine ⟨c, rest, rfl, fun bad => ?_⟩
      have closed : ∀ c ∈ nonStarters, c ∉ openers := by decide
      have letter : ∀ c ∈ nonStarters, c ∉ text "ntfNI-" := by decide
      have digit : ∀ c ∈ nonStarters, isDigit c = false := by decide
      rw [scanOnce_scalar (closed c bad), scanScalar_none (letter c bad) (digit c bad)] at h
      cases h

theorem skipSpace_cons {c : ℕ} (h : c ∉ text " \t\n\r") (s : Str) :
    skipSpace (c :: s) = c :: s := by
  rw [skipSpace, List.dropWhile_cons_of_neg]
  rw [isSpace, decide_eq_true_eq]
  exact h

/-! ## Values -/

/-- The text of the value is read as the value. -/
def Reads (fmt : FloatText F) (v : JsonValue F) : Prop :=
  ∀ fuel r, 2 * (v.compact fmt).length ≤ fuel → Closed r →
    scanOnce fmt fuel (v.compact fmt ++ r) = some (v, r)

theorem Reads.head {v : JsonValue F} (h : Reads fmt v) :
    ∃ c rest, v.compact fmt = c :: rest ∧ c ∉ nonStarters := by
  have read := h _ [] (Nat.le_refl _) closed_nil
  rw [List.append_nil] at read
  exact scanOnce_head read

theorem Reads.length_pos {v : JsonValue F} (h : Reads fmt v) : 0 < (v.compact fmt).length := by
  obtain ⟨c, rest, same, -⟩ := h.head
  rw [same]
  exact Nat.succ_pos _

theorem Reads.skipSpace {v : JsonValue F} (h : Reads fmt v) (s : Str) :
    skipSpace (v.compact fmt ++ s) = v.compact fmt ++ s := by
  obtain ⟨c, rest, same, starts⟩ := h.head
  rw [same]
  refine skipSpace_cons (fun space => starts ?_) _
  exact List.mem_append_left _ (List.mem_append_left _ space)

theorem elementsText_closed (fmt : FloatText F) (xs : List (JsonValue F)) (r : Str) :
    Closed (elementsText fmt xs ++ r) := by
  cases xs with
  | nil =>
    rw [elementsText]
    exact closed_cons (by decide)
  | cons x xs =>
    rw [elementsText]
    exact closed_cons (by decide)

theorem membersText_closed (fmt : FloatText F) (items : List (Str × JsonValue F)) (r : Str) :
    Closed (membersText fmt items ++ r) := by
  cases items with
  | nil =>
    rw [membersText]
    exact closed_cons (by decide)
  | cons p items =>
    obtain ⟨k, v⟩ := p
    rw [membersText]
    exact closed_cons (by decide)

theorem scanKey_quote (k s : Str) :
    scanKey (quote k ++ code ':' :: s) = some (k, skipSpace s) := by
  have read : scanString (k.flatMap escape ++ ([code '"'] ++ code ':' :: s)) =
      some (k, code ':' :: s) := scanString_flatMap k (code ':' :: s)
  rw [quote, List.cons_append, List.append_assoc, scanKey, if_pos rfl, read]
  simp only [skipSpace_cons (show code ':' ∉ text " \t\n\r" by decide), if_true]

theorem dictOf_distinct {items : List (Str × JsonValue F)} (h : (items.map Prod.fst).Nodup) :
    dictOf items = items := by
  have grows : ∀ (rest : List (Str × JsonValue F)) (d : Dict Str (JsonValue F)),
      ((d.items ++ rest).map Prod.fst).Nodup →
      (rest.foldl (fun d p => d.set p.1 p.2) d).items = d.items ++ rest := by
    intro rest
    induction rest with
    | nil =>
      intro d _
      exact (List.append_nil d.items).symm
    | cons p rest ih =>
      intro d nodup
      have fresh : Dict.lookup p.1 d.items = none := by
        rw [Dict.lookup_eq_none]
        rw [List.map_append, List.nodup_append] at nodup
        exact fun present => nodup.2.2 _ present _ (by simp) rfl
      have set : (d.set p.1 p.2).items = d.items ++ [p] := Dict.assign_fresh fresh p.2
      rw [List.foldl_cons, ih _ (by rw [set, List.append_assoc]; exact nodup), set,
        List.append_assoc]
      rfl
  rw [dictOf, grows items Dict.empty h]
  rfl

/-- An element and the elements behind it. -/
theorem scanElements_cons {fuel : ℕ} {s r : Str} {v : JsonValue F} {vs : List (JsonValue F)}
    {c : ℕ} (head : scanOnce fmt fuel s = some (v, c :: r)) (closer : c ∈ closers)
    {t : Str} (tail : c = code ']' ∧ vs = [] ∧ t = r ∨
      c = code ',' ∧ scanElements fmt fuel (skipSpace r) = some (vs, t)) :
    scanElements fmt (fuel + 1) s = some (v :: vs, t) := by
  have nospace : c ∉ text " \t\n\r" := by
    have other : ∀ c ∈ closers, c ∉ text " \t\n\r" := by decide
    exact other c closer
  rw [scanElements, head]
  simp only [skipSpace_cons nospace]
  rcases tail with ⟨rfl, rfl, rfl⟩ | ⟨rfl, more⟩
  · rw [if_pos rfl]
  · rw [if_neg (by decide), if_pos rfl, more]
    rfl

theorem scanMembers_cons {fuel : ℕ} {s s' r : Str} {k : Str} {v : JsonValue F}
    {items : List (Str × JsonValue F)} {c : ℕ} (key : scanKey s = some (k, s'))
    (head : scanOnce fmt fuel s' = some (v, c :: r)) (closer : c ∈ closers)
    {t : Str} (tail : c = code '}' ∧ items = [] ∧ t = r ∨
      c = code ',' ∧ scanMembers fmt fuel (skipSpace r) = some (items, t)) :
    scanMembers fmt (fuel + 1) s = some ((k, v) :: items, t) := by
  have nospace : c ∉ text " \t\n\r" := by
    have other : ∀ c ∈ closers, c ∉ text " \t\n\r" := by decide
    exact other c closer
  rw [scanMembers, key]
  simp only [head, skipSpace_cons nospace]
  rcases tail with ⟨rfl, rfl, rfl⟩ | ⟨rfl, more⟩
  · rw [if_pos rfl]
  · rw [if_neg (by decide), if_pos rfl, more]
    rfl

theorem reads_scalar {v : JsonValue F} {c : ℕ} {rest : Str} (same : v.compact fmt = c :: rest)
    (letter : c ∉ openers) (read : ∀ r, Closed r → scanScalar fmt (v.compact fmt ++ r) = some (v, r)) :
    Reads fmt v := by
  intro fuel r enough closed
  cases fuel with
  | zero =>
    rw [same] at enough
    simp at enough
  | succ fuel =>
    have scalar := read r closed
    rw [same] at scalar ⊢
    rw [List.cons_append, scanOnce_scalar letter]
    exact scalar

theorem reads_number {v : JsonValue F} {m : NumberMatch}
    (number : matchNumber (v.compact fmt) = some (m, [])) (value : m.toValue fmt = v) :
    Reads fmt v := by
  obtain ⟨c, rest, same, first⟩ := matchNumber_head number
  refine reads_scalar same ?_ fun r closed => ?_
  · intro opens
    have other : ∀ c ∈ openers, c ≠ code '-' ∧ isDigit c = false := by decide
    obtain ⟨minus, digit⟩ := other c opens
    rcases first with first | first
    · exact minus first
    · rw [digit] at first
      cases first
  · rw [scanScalar_number number closed, value]

theorem reads_str (t : Str) : Reads fmt (.str t) := by
  intro fuel r enough _
  have same : (JsonValue.str t : JsonValue F).compact fmt = quote t := by rw [JsonValue.compact]
  rw [same] at enough ⊢
  cases fuel with
  | zero => simp [quote] at enough
  | succ fuel =>
    have read : scanString (t.flatMap escape ++ ([code '"'] ++ r)) = some (t, r) :=
      scanString_flatMap t r
    rw [quote, List.cons_append, List.append_assoc, scanOnce, if_pos rfl, read]
    rfl

mutual
/-- Induction over the value. -/
theorem reads_compact : ∀ v : JsonValue F, v.Distinct → Reads fmt v
  | .null, _ => reads_scalar (by rw [JsonValue.compact]; rfl) (by decide)
      fun r _ => by rw [JsonValue.compact]; rfl
  | .bool true, _ => reads_scalar (by rw [JsonValue.compact]; rfl) (by decide)
      fun r _ => by rw [JsonValue.compact]; rfl
  | .bool false, _ => reads_scalar (by rw [JsonValue.compact]; rfl) (by decide)
      fun r _ => by rw [JsonValue.compact]; rfl
  | .int n, _ => by
    refine reads_number (m := ⟨intText n, [], []⟩) ?_ ?_
    · rw [JsonValue.compact]
      exact matchNumber_intText n
    · rw [NumberMatch.toValue, if_pos ⟨rfl, rfl⟩, intOfText_intText]
  | .float .nan, _ => reads_scalar (by rw [JsonValue.compact]; rfl) (by decide)
      fun r closed => by rw [JsonValue.compact]; exact scanScalar_float closed
  | .float (.infinity false), _ => reads_scalar (by rw [JsonValue.compact]; rfl) (by decide)
      fun r closed => by rw [JsonValue.compact]; exact scanScalar_float closed
  | .float (.infinity true), _ => reads_scalar (by rw [JsonValue.compact]; rfl) (by decide)
      fun r closed => by rw [JsonValue.compact]; exact scanScalar_float closed
  | .float (.finite x), _ => by
    obtain ⟨m, read, value⟩ := literal_toValue fmt x
    refine reads_number ?_ value
    rw [JsonValue.compact]
    exact read
  | .str t, _ => reads_str t
  | .list [], _ => by
    intro fuel r enough _
    rw [JsonValue.compact] at enough ⊢
    cases fuel with
    | zero => cases enough
    | succ fuel =>
      have next : skipSpace (code ']' :: r) = code ']' :: r := skipSpace_cons (by decide) r
      simp only [List.cons_append, List.nil_append, scanOnce, next]
      rfl
  | .list (x :: xs), distinct => by
    intro fuel r enough _
    obtain ⟨first, others⟩ := distinct
    have hx := reads_compact x first
    rw [JsonValue.compact] at enough ⊢
    cases fuel with
    | zero => cases enough
    | succ fuel =>
      rw [List.length_cons] at enough
      have elements := scanElements_compact xs others x hx fuel r (by omega)
      have next := hx.skipSpace (elementsText fmt xs ++ r)
      obtain ⟨c, rest, same, starts⟩ := hx.head
      have more : c ≠ code ']' := by
        rintro rfl
        exact starts (by decide)
      rw [same] at elements next
      rw [same, List.cons_append, List.append_assoc, scanOnce, if_neg (by decide),
        if_neg (by decide), if_pos rfl, next]
      simp only [List.cons_append] at elements ⊢
      rw [if_neg more, elements]
      rfl
  | .dict [], _ => by
    intro fuel r enough _
    rw [JsonValue.compact] at enough ⊢
    cases fuel with
    | zero => cases enough
    | succ fuel =>
      have next : skipSpace (code '}' :: r) = code '}' :: r := skipSpace_cons (by decide) r
      simp only [List.cons_append, List.nil_append, scanOnce, next]
      rfl
  | .dict ((k, v) :: rest), distinct => by
    intro fuel r enough _
    obtain ⟨nodup, value, others⟩ := distinct
    have hv := reads_compact v value
    rw [JsonValue.compact] at enough ⊢
    cases fuel with
    | zero => cases enough
    | succ fuel =>
      rw [List.length_cons] at enough
      have members := scanMembers_compact rest others k v hv fuel r (by omega)
      have next : ∀ s, skipSpace (quote k ++ s) = quote k ++ s :=
        fun s => skipSpace_cons (by decide) _
      rw [List.cons_append, List.append_assoc, List.cons_append, List.append_assoc, scanOnce,
        if_neg (by decide), if_pos rfl, next]
      simp only [quote, List.cons_append] at members ⊢
      rw [if_neg (by decide), members]
      simp only [Option.map_some, dictOf_distinct nodup]
theorem scanElements_compact : ∀ xs : List (JsonValue F), AllDistinct xs → ∀ x, Reads fmt x →
    ∀ fuel r, 2 * (x.compact fmt ++ elementsText fmt xs).length ≤ fuel →
      scanElements fmt fuel (x.compact fmt ++ (elementsText fmt xs ++ r)) = some (x :: xs, r)
  | [], _, x, hx, fuel, r, enough => by
    have positive := hx.length_pos
    have closed := elementsText_closed fmt [] r
    rw [elementsText, List.length_append] at enough
    cases fuel with
    | zero => omega
    | succ fuel =>
      have head := hx fuel (elementsText fmt [] ++ r) (by simp at enough; omega) closed
      rw [elementsText] at head ⊢
      exact scanElements_cons head (by decide) (.inl ⟨rfl, rfl, rfl⟩)
  | y :: ys, distinct, x, hx, fuel, r, enough => by
    have positive := hx.length_pos
    have closed := elementsText_closed fmt (y :: ys) r
    have hy := reads_compact y distinct.1
    rw [elementsText, List.length_append, List.length_cons] at enough
    cases fuel with
    | zero => omega
    | succ fuel =>
      have head := hx fuel (elementsText fmt (y :: ys) ++ r) (by omega) closed
      have more := scanElements_compact ys distinct.2 y hy fuel r (by omega)
      rw [elementsText, List.cons_append] at head ⊢
      refine scanElements_cons head (by decide) (.inr ⟨rfl, ?_⟩)
      rw [List.append_assoc, hy.skipSpace]
      exact more
theorem scanMembers_compact : ∀ items : List (Str × JsonValue F), ItemsDistinct items →
    ∀ k v, Reads fmt v → ∀ fuel r,
      2 * (quote k ++ code ':' :: (v.compact fmt ++ membersText fmt items)).length ≤ fuel →
      scanMembers fmt fuel (quote k ++ code ':' :: (v.compact fmt ++ (membersText fmt items ++ r)))
        = some ((k, v) :: items, r)
  | [], _, k, v, hv, fuel, r, enough => by
    have closed := membersText_closed fmt [] r
    rw [membersText, List.length_append, List.length_cons, List.length_append] at enough
    cases fuel with
    | zero => omega
    | succ fuel =>
      have head := hv fuel (membersText fmt [] ++ r) (by simp at enough; omega) closed
      have key := scanKey_quote k (v.compact fmt ++ (membersText fmt [] ++ r))
      rw [hv.skipSpace] at key
      rw [membersText] at head key ⊢
      exact scanMembers_cons key head (by decide) (.inl ⟨rfl, rfl, rfl⟩)
  | (k', v') :: rest, distinct, k, v, hv, fuel, r, enough => by
    have closed := membersText_closed fmt ((k', v') :: rest) r
    have hv' := reads_compact v' distinct.1
    have next : ∀ s, skipSpace (quote k' ++ s) = quote k' ++ s :=
      fun s => skipSpace_cons (by decide) _
    rw [membersText, List.length_append, List.length_cons, List.length_append,
      List.length_cons] at enough
    cases fuel with
    | zero => omega
    | succ fuel =>
      have head := hv fuel (membersText fmt ((k', v') :: rest) ++ r) (by omega) closed
      have key := scanKey_quote k (v.compact fmt ++ (membersText fmt ((k', v') :: rest) ++ r))
      have more := scanMembers_compact rest distinct.2 k' v' hv' fuel r (by omega)
      rw [hv.skipSpace] at key
      rw [membersText, List.cons_append] at head key ⊢
      refine scanMembers_cons key head (by decide) (.inr ⟨rfl, ?_⟩)
      rw [List.append_assoc, next, List.cons_append, List.append_assoc]
      exact more
end

end PyJson
