import LivingBalancer.Lib.JsonRoundTrip

/-!
# The limit on the digits of an integer

`int(text)` and `int.__repr__` raise a `ValueError` above 4300 decimal digits. It is no
`JSONDecodeError`: `json.loads` of a text with such a literal raises it when the scan comes to
the literal before any fault of the text, and `json.dumps` of a value with such an integer
raises it. What `json.loads` returns has no such integer.
-/

namespace PyJson

variable {F : Type}

/-- `sys.get_int_max_str_digits()`. -/
def maxStrDigits : ℕ := 4300

/-! ## Writing -/

mutual
/-- `dumps` writes every integer of the value. -/
def JsonValue.writable : JsonValue F → Bool
  | .int n => decide (n.natAbs < 10 ^ maxStrDigits)
  | .list xs => allWritable xs
  | .dict items => itemsWritable items
  | _ => true
def allWritable : List (JsonValue F) → Bool
  | [] => true
  | x :: xs => x.writable && allWritable xs
def itemsWritable : List (Str × JsonValue F) → Bool
  | [] => true
  | (_, v) :: rest => v.writable && itemsWritable rest
end

theorem itemsWritable_iff {items : List (Str × JsonValue F)} :
    itemsWritable items = true ↔ ∀ p ∈ items, p.2.writable = true := by
  induction items with
  | nil => simp [itemsWritable]
  | cons p items ih => simp [itemsWritable, ih]

/-! ## Reading -/

/-- `int(text)` of the literal raises. -/
def NumberMatch.refused (m : NumberMatch) : Bool :=
  decide (m.frac = [] ∧ m.exp = [] ∧ maxStrDigits < m.integer.countP isDigit)

def scalarRefused (s : Str) : Bool := (matchNumber s).any fun p => p.1.refused

section Scan

variable (fmt : FloatText F)

mutual
/-- `scan_once` raises the `ValueError`. -/
def scanRefused : ℕ → Str → Bool
  | 0, _ => false
  | _ + 1, [] => false
  | fuel + 1, c :: rest =>
    if c = code '"' then false
    else if c = code '{' then membersRefused fuel (skipSpace rest)
    else if c = code '[' then elementsRefused fuel (skipSpace rest)
    else scalarRefused (c :: rest)
def elementsRefused : ℕ → Str → Bool
  | 0, _ => false
  | fuel + 1, s =>
    scanRefused fuel s ||
      match scanOnce fmt fuel s with
      | some (_, s) =>
        match skipSpace s with
        | c :: rest => decide (c = code ',') && elementsRefused fuel (skipSpace rest)
        | [] => false
      | none => false
def membersRefused : ℕ → Str → Bool
  | 0, _ => false
  | fuel + 1, s =>
    match scanKey s with
    | some (_, s) =>
      scanRefused fuel s ||
        match scanOnce fmt fuel s with
        | some (_, s) =>
          match skipSpace s with
          | c :: rest => decide (c = code ',') && membersRefused fuel (skipSpace rest)
          | [] => false
        | none => false
    | none => false
end

/-- `json.loads` raises the `ValueError`. -/
def loadsRefused (s : Str) : Bool :=
  decide (s.head? ≠ some 0xfeff) && scanRefused fmt (2 * s.length) (skipSpace s)

end Scan

/-! ## What is read can be written -/

theorem natOfDigits_lt {digits : Str} (h : ∀ c ∈ digits, isDigit c = true) :
    natOfDigits digits < 10 ^ digits.length := by
  have grows : ∀ (rest : Str) (n : ℕ), (∀ c ∈ rest, isDigit c = true) →
      rest.foldl (fun n c => 10 * n + (c - code '0')) n < (n + 1) * 10 ^ rest.length := by
    intro rest
    induction rest with
    | nil => simp
    | cons c rest ih =>
      intro n hrest
      have digit : c - code '0' ≤ 9 := by
        have bounds := of_decide_eq_true (hrest c List.mem_cons_self)
        have nine : code '9' = code '0' + 9 := by decide
        omega
      calc rest.foldl (fun n c => 10 * n + (c - code '0')) (10 * n + (c - code '0'))
          < (10 * n + (c - code '0') + 1) * 10 ^ rest.length :=
            ih _ fun d hd => hrest d (List.mem_cons_of_mem c hd)
        _ ≤ ((n + 1) * 10) * 10 ^ rest.length := Nat.mul_le_mul_right _ (by omega)
        _ = (n + 1) * 10 ^ (rest.length + 1) := by rw [pow_succ', mul_assoc]
  simpa [natOfDigits] using grows digits 0 h

theorem takeInteger_digits {s digits rest : Str} (h : takeInteger s = some (digits, rest)) :
    ∀ c ∈ digits, isDigit c = true := by
  cases s with
  | nil => cases h
  | cons c s =>
    rw [takeInteger] at h
    split_ifs at h with zero digit
    · cases h
      rw [zero]
      decide
    · cases h
      intro d hd
      rcases List.mem_cons.mp hd with rfl | later
      · exact digit
      · exact List.mem_takeWhile_imp later

/-- A literal of at most the limit's digits is an integer that can be written. -/
theorem intOfText_lt {s rest digits : Str} (h : takeInteger rest = some (digits, s))
    {sign : Str} (hsign : sign = [] ∨ sign = [code '-']) :
    (intOfText (sign ++ digits)).natAbs < 10 ^ (sign ++ digits).countP isDigit := by
  have all := takeInteger_digits h
  have count : digits.countP isDigit = digits.length := List.countP_eq_length.mpr all
  have bound := natOfDigits_lt all
  rcases hsign with rfl | rfl
  · rw [List.nil_append, count]
    cases digits with
    | nil => simp [intOfText]
    | cons c digits =>
      have plain : c ≠ code '-' := by
        rintro rfl
        exact absurd (all _ List.mem_cons_self) (by decide)
      rw [intOfText, if_neg plain]
      exact bound
  · have minus : isDigit (code '-') = false := by decide
    rw [List.singleton_append, List.countP_cons, minus, count, intOfText, if_pos rfl,
      Int.natAbs_neg]
    exact bound

variable {fmt : FloatText F}

theorem toValue_writable {s rest : Str} {m : NumberMatch} (h : matchNumber s = some (m, rest))
    (fine : m.refused = false) : (m.toValue fmt).writable = true := by
  rw [NumberMatch.toValue]
  split_ifs with whole
  · have few : m.integer.countP isDigit ≤ maxStrDigits := by
      by_contra many
      have refused : m.refused = true := decide_eq_true ⟨whole.1, whole.2, Nat.lt_of_not_le many⟩
      rw [refused] at fine
      cases fine
    obtain ⟨p, found, same⟩ := Option.map_eq_some_iff.mp h
    cases same
    have sign : (takeSign (text "-") s).1 = [] ∨ (takeSign (text "-") s).1 = [code '-'] := by
      cases s with
      | nil => exact .inl rfl
      | cons c s =>
        rw [takeSign]
        split_ifs with minus
        · have same : c = code '-' := List.mem_singleton.mp minus
          exact .inr (by rw [same])
        · exact .inl rfl
    rw [JsonValue.writable, decide_eq_true_eq]
    exact (intOfText_lt found sign).trans_le (Nat.pow_le_pow_right (by decide) few)
  · rfl

theorem scanScalar_writable {s r : Str} {v : JsonValue F} (h : scanScalar fmt s = some (v, r))
    (fine : scalarRefused s = false) : v.writable = true := by
  rw [scanScalar] at h
  cases number : matchNumber s with
  | none =>
    rw [number] at h
    split_ifs at h <;> cases h <;> rfl
  | some p =>
    simp only [number] at h
    rw [scalarRefused, number] at fine
    split_ifs at h
    · cases h
      rfl
    · cases h
      rfl
    · cases h
      rfl
    · cases h
      exact toValue_writable number fine

/-- What is read with some fuel, and not refused, can be written. -/
structure ScansWritable (fmt : FloatText F) (fuel : ℕ) : Prop where
  value : ∀ s v r, scanOnce fmt fuel s = some (v, r) → scanRefused fmt fuel s = false →
    v.writable = true
  elements : ∀ s xs r, scanElements fmt fuel s = some (xs, r) →
    elementsRefused fmt fuel s = false → allWritable xs = true
  members : ∀ s items r, scanMembers fmt fuel s = some (items, r) →
    membersRefused fmt fuel s = false → itemsWritable items = true

theorem ScansWritable.scanOnce {fuel : ℕ} (ih : ScansWritable fmt fuel) {s r : Str}
    {v : JsonValue F} (h : scanOnce fmt (fuel + 1) s = some (v, r))
    (fine : scanRefused fmt (fuel + 1) s = false) : v.writable = true := by
  rcases scanOnce_cases h with ⟨_, _, -, -, rfl⟩ | ⟨_, -, -, rfl⟩ | ⟨_, pairs, rfl, members, rfl⟩ |
    ⟨_, -, -, rfl⟩ | ⟨_, _, rfl, elements, rfl⟩ | ⟨c, rest, rfl, ⟨quotes, brace, bracket⟩, scalar⟩
  · rfl
  · rfl
  · have written := itemsWritable_iff.mp (ih.members _ _ _ members fine)
    exact itemsWritable_iff.mpr fun q hq => written q (mem_dictOf hq)
  · rfl
  · exact ih.elements _ _ _ elements fine
  · rw [scanRefused, if_neg quotes, if_neg brace, if_neg bracket] at fine
    exact scanScalar_writable scalar fine

theorem ScansWritable.scanElements {fuel : ℕ} (ih : ScansWritable fmt fuel) {s r : Str}
    {xs : List (JsonValue F)} (h : scanElements fmt (fuel + 1) s = some (xs, r))
    (fine : elementsRefused fmt (fuel + 1) s = false) : allWritable xs = true := by
  obtain ⟨v, t, c, rest, head, skipped, ending⟩ := scanElements_cases h
  rw [elementsRefused, Bool.or_eq_false_iff] at fine
  simp only [head, skipped] at fine
  have first := ih.value _ _ _ head fine.1
  rcases ending with ⟨-, -, rfl⟩ | ⟨comma, later, read, rfl⟩
  · rw [allWritable, first]
    rfl
  · rw [decide_eq_true comma, Bool.true_and] at fine
    rw [allWritable, first, ih.elements _ _ _ read fine.2]
    rfl

theorem ScansWritable.scanMembers {fuel : ℕ} (ih : ScansWritable fmt fuel) {s r : Str}
    {items : List (Str × JsonValue F)} (h : scanMembers fmt (fuel + 1) s = some (items, r))
    (fine : membersRefused fmt (fuel + 1) s = false) : itemsWritable items = true := by
  obtain ⟨k, s', v, t, c, rest, key, head, skipped, ending⟩ := scanMembers_cases h
  rw [membersRefused] at fine
  simp only [key, head, skipped, Bool.or_eq_false_iff] at fine
  have first := ih.value _ _ _ head fine.1
  rcases ending with ⟨-, -, rfl⟩ | ⟨comma, later, read, rfl⟩
  · rw [itemsWritable, first]
    rfl
  · rw [decide_eq_true comma, Bool.true_and] at fine
    rw [itemsWritable, first, ih.members _ _ _ read fine.2]
    rfl

theorem scansWritable (fuel : ℕ) : ScansWritable fmt fuel := by
  induction fuel with
  | zero => exact ⟨nofun, nofun, nofun⟩
  | succ fuel ih =>
    exact ⟨fun _ _ _ => ih.scanOnce, fun _ _ _ => ih.scanElements, fun _ _ _ => ih.scanMembers⟩

theorem loads_writable {s : Str} {v : JsonValue F} (h : loads fmt s = some v)
    (fine : loadsRefused fmt s = false) : v.writable = true := by
  rw [loads] at h
  split_ifs at h with marked
  rw [loadsRefused, decide_eq_true marked, Bool.true_and] at fine
  split at h
  next w rest read =>
    split_ifs at h
    cases h
    exact (scansWritable _).value _ _ _ read fine
  · cases h

end PyJson
