import LivingBalancer.Lib.JsonRoundTrip

/-!
# What a scan of JSON text leaves over

More fuel never changes a result, and a string, a key or a scalar ends before any line feed.
A text that stands in front of a line feed and an object is therefore read as no value with
it, unless it is blank.
-/

namespace PyJson

variable {F : Type} {fmt : FloatText F}

/-! ## Fuel -/

/-- What is read with some fuel is read with more. -/
structure ScansMore (fmt : FloatText F) (fuel : ℕ) : Prop where
  value : ∀ s p, scanOnce fmt fuel s = some p → scanOnce fmt (fuel + 1) s = some p
  elements : ∀ s p, scanElements fmt fuel s = some p → scanElements fmt (fuel + 1) s = some p
  members : ∀ s p, scanMembers fmt fuel s = some p → scanMembers fmt (fuel + 1) s = some p

theorem ScansMore.scanOnce {fuel : ℕ} (ih : ScansMore fmt fuel) {s : Str}
    {p : JsonValue F × Str} (h : scanOnce fmt (fuel + 1) s = some p) :
    scanOnce fmt (fuel + 2) s = some p := by
  cases s with
  | nil =>
    rw [PyJson.scanOnce] at h
    cases h
  | cons c rest =>
    rw [PyJson.scanOnce] at h ⊢
    split_ifs at h ⊢ with quotes brace bracket
    · exact h
    · split at h
      · split_ifs at h ⊢
        · exact h
        · obtain ⟨q, read, same⟩ := Option.map_eq_some_iff.mp h
          rw [ih.members _ _ read, Option.map_some, same]
      · cases h
    · split at h
      · split_ifs at h ⊢
        · exact h
        · obtain ⟨q, read, same⟩ := Option.map_eq_some_iff.mp h
          rw [ih.elements _ _ read, Option.map_some, same]
      · cases h
    · exact h

theorem ScansMore.scanElements {fuel : ℕ} (ih : ScansMore fmt fuel) {s : Str}
    {p : List (JsonValue F) × Str} (h : scanElements fmt (fuel + 1) s = some p) :
    scanElements fmt (fuel + 2) s = some p := by
  rw [PyJson.scanElements] at h ⊢
  split at h
  · rename_i v t head
    rw [ih.value _ _ head]
    dsimp only at h ⊢
    split at h
    · split_ifs at h ⊢
      · exact h
      · obtain ⟨q, read, same⟩ := Option.map_eq_some_iff.mp h
        rw [ih.elements _ _ read, Option.map_some, same]
    · cases h
  · cases h

theorem ScansMore.scanMembers {fuel : ℕ} (ih : ScansMore fmt fuel) {s : Str}
    {p : List (Str × JsonValue F) × Str} (h : scanMembers fmt (fuel + 1) s = some p) :
    scanMembers fmt (fuel + 2) s = some p := by
  rw [PyJson.scanMembers] at h ⊢
  split at h
  · rename_i k t key
    split at h
    · rename_i v t' head
      rw [ih.value _ _ head]
      dsimp only at h ⊢
      split at h
      · split_ifs at h ⊢
        · exact h
        · obtain ⟨q, read, same⟩ := Option.map_eq_some_iff.mp h
          rw [ih.members _ _ read, Option.map_some, same]
      · cases h
    · cases h
  · cases h

theorem scansMore (fuel : ℕ) : ScansMore fmt fuel := by
  induction fuel with
  | zero => exact ⟨nofun, nofun, nofun⟩
  | succ fuel ih =>
    exact ⟨fun _ _ => ih.scanOnce, fun _ _ => ih.scanElements, fun _ _ => ih.scanMembers⟩

theorem scanOnce_mono {fuel fuel' : ℕ} {s : Str} {p : JsonValue F × Str}
    (h : scanOnce fmt fuel s = some p) (le : fuel ≤ fuel') : scanOnce fmt fuel' s = some p := by
  induction le with
  | refl => exact h
  | step _ ih => exact (scansMore _).value _ _ ih

theorem scanOnce_unique {fuel fuel' : ℕ} {s : Str} {p q : JsonValue F × Str}
    (hp : scanOnce fmt fuel s = some p) (hq : scanOnce fmt fuel' s = some q) : p = q := by
  rcases Nat.le_total fuel fuel' with le | le
  · exact Option.some.inj ((scanOnce_mono hp le).symm.trans hq)
  · exact Option.some.inj (hp.symm.trans (scanOnce_mono hq le))

/-! ## What is consumed -/

/-- Neither a control character nor a space. -/
def Visible (t : Str) : Prop := ∀ c ∈ t, 0x20 < c

theorem Visible.append {t u : Str} (ht : Visible t) (hu : Visible u) : Visible (t ++ u) :=
  fun c hc => (List.mem_append.mp hc).elim (ht c) (hu c)

theorem visible_digit {c : ℕ} (h : isDigit c = true) : 0x20 < c :=
  Nat.lt_of_lt_of_le (by decide) (of_decide_eq_true h).1

theorem visible_takeWhile_digit (s : Str) : Visible (s.takeWhile isDigit) :=
  fun _ hc => visible_digit (List.mem_takeWhile_imp hc)

theorem takeDigits_visible {s digits rest : Str} (h : takeDigits s = some (digits, rest)) :
    Visible digits := by
  cases s with
  | nil => cases h
  | cons c s =>
    rw [takeDigits] at h
    split_ifs at h with digit
    cases h
    exact List.forall_mem_cons.mpr ⟨visible_digit digit, visible_takeWhile_digit s⟩

theorem takeSign_visible {signs : Str} (visible : Visible signs) (s : Str) :
    Visible (takeSign signs s).1 := by
  cases s with
  | nil => exact List.forall_mem_nil _
  | cons c s =>
    rw [takeSign]
    split_ifs with sign
    · exact fun d hd => visible d (List.mem_singleton.mp hd ▸ sign)
    · exact List.forall_mem_nil _

theorem takeInteger_visible {s integer rest : Str} (h : takeInteger s = some (integer, rest)) :
    Visible integer := by
  cases s with
  | nil => cases h
  | cons c s =>
    rw [takeInteger] at h
    split_ifs at h with zero digit
    · cases h
      intro d hd
      rw [List.mem_singleton.mp hd, zero]
      decide
    · cases h
      exact List.forall_mem_cons.mpr ⟨visible_digit digit, visible_takeWhile_digit s⟩

theorem takeFraction_visible (s : Str) : Visible (takeFraction s).1 := by
  cases s with
  | nil => exact List.forall_mem_nil _
  | cons c s =>
    rw [takeFraction]
    split
    · rename_i digits rest found
      split_ifs with dot
      · exact List.forall_mem_cons.mpr ⟨dot ▸ by decide, takeDigits_visible found⟩
      · exact List.forall_mem_nil _
    · exact List.forall_mem_nil _

theorem takeExponent_visible (s : Str) : Visible (takeExponent s).1 := by
  cases s with
  | nil => exact List.forall_mem_nil _
  | cons c s =>
    rw [takeExponent]
    split
    · rename_i digits rest found
      split_ifs with letter
      · have shown : Visible (text "eE") := by
          unfold Visible
          decide
        refine List.forall_mem_cons.mpr ⟨shown c letter, ?_⟩
        exact (takeSign_visible (by unfold Visible; decide) s).append (takeDigits_visible found)
      · exact List.forall_mem_nil _
    · exact List.forall_mem_nil _

theorem matchNumber_visible {s rest : Str} {m : NumberMatch}
    (h : matchNumber s = some (m, rest)) : Visible (m.integer ++ m.frac ++ m.exp) := by
  obtain ⟨⟨integer, left⟩, found, same⟩ := Option.map_eq_some_iff.mp h
  cases same
  have sign : Visible (takeSign (text "-") s).1 := takeSign_visible (by unfold Visible; decide) s
  exact ((sign.append (takeInteger_visible found)).append (takeFraction_visible _)).append
    (takeExponent_visible _)

/-- The text up to `r` holds no control character. -/
def Printed (s r : Str) : Prop := ∃ t, s = t ++ r ∧ ∀ c ∈ t, 0x20 ≤ c

theorem Visible.printed {t r : Str} (h : Visible t) : Printed (t ++ r) r :=
  ⟨t, rfl, fun c hc => Nat.le_of_lt (h c hc)⟩

theorem Printed.append {t s r : Str} (ht : ∀ c ∈ t, 0x20 ≤ c) (h : Printed s r) :
    Printed (t ++ s) r := by
  obtain ⟨u, rfl, printed⟩ := h
  exact ⟨t ++ u, (List.append_assoc _ _ _).symm,
    fun c hc => (List.mem_append.mp hc).elim (ht c) (printed c)⟩

theorem scanScalar_printed {s r : Str} {v : JsonValue F} (h : scanScalar fmt s = some (v, r)) :
    Printed s r := by
  have word : ∀ w : Str, Visible w → w <+: s → Printed s (s.drop w.length) := by
    rintro w visible ⟨rest, rfl⟩
    rw [List.drop_left]
    exact visible.printed
  rw [scanScalar] at h
  cases number : matchNumber s with
  | none =>
    simp only [number] at h
    split_ifs at h with null yes no nan infinity negative
    · cases h
      exact word (text "null") (by unfold Visible; decide) null
    · cases h
      exact word (text "true") (by unfold Visible; decide) yes
    · cases h
      exact word (text "false") (by unfold Visible; decide) no
    · cases h
      exact word (text "NaN") (by unfold Visible; decide) nan
    · cases h
      exact word (text "Infinity") (by unfold Visible; decide) infinity
    · cases h
      exact word (text "-Infinity") (by unfold Visible; decide) negative
  | some q =>
    simp only [number] at h
    split_ifs at h with null yes no
    · cases h
      exact word (text "null") (by unfold Visible; decide) null
    · cases h
      exact word (text "true") (by unfold Visible; decide) yes
    · cases h
      exact word (text "false") (by unfold Visible; decide) no
    · cases h
      exact matchNumber_eq number ▸ (matchNumber_visible number).printed

theorem hexValue_control {c : ℕ} (h : c < 0x20) : hexValue c = none := by
  have zero : ¬ (code '0' ≤ c ∧ c ≤ code '9') := fun range => absurd range.1 (by
    have : code '0' = 48 := rfl
    omega)
  have lower : ¬ (code 'a' ≤ c ∧ c ≤ code 'f') := fun range => absurd range.1 (by
    have : code 'a' = 97 := rfl
    omega)
  have upper : ¬ (code 'A' ≤ c ∧ c ≤ code 'F') := fun range => absurd range.1 (by
    have : code 'A' = 65 := rfl
    omega)
  rw [hexValue, if_neg zero, if_neg lower, if_neg upper]

theorem decodeHex_printable {a b c d n : ℕ} (h : decodeHex a b c d = some n) :
    ∀ x ∈ [a, b, c, d], 0x20 ≤ x := by
  intro x hx
  by_contra control
  have none_x := hexValue_control (Nat.not_le.mp control)
  simp only [List.mem_cons, List.not_mem_nil, or_false] at hx
  rcases hx with rfl | rfl | rfl | rfl <;> simp [decodeHex, none_x] at h

theorem backslash_printable {c x : ℕ} (h : backslash c = some x) : 0x20 ≤ c := by
  by_contra control
  have low := Nat.not_le.mp control
  have none_c : ∀ c < 0x20, backslash c = none := by decide
  rw [none_c c low] at h
  cases h

theorem scanUnits_printed (s : Str) : ∀ {r : Str} {units : List (Bool × ℕ)},
    scanUnits s = some (units, r) → Printed s r := by
  induction s using scanUnits.induct with
  | case1 =>
    intro r units h
    rw [scanUnits] at h
    cases h
  | case2 rest =>
    intro r units h
    rw [scanUnits.eq_def] at h
    cases h
    exact ⟨[code '"'], rfl, by decide⟩
  | case3 _ =>
    intro r units h
    rw [scanUnits.eq_def] at h
    cases h
  | case4 a b c d rest n hex _ ih =>
    intro r units h
    rw [scanUnits.eq_def] at h
    simp only [show ¬ code '\\' = code '"' by decide, if_false, if_true, hex] at h
    obtain ⟨p, read, same⟩ := Option.map_eq_some_iff.mp h
    cases same
    refine Printed.append (t := [code '\\', code 'u', a, b, c, d]) ?_ (ih read)
    exact List.forall_mem_cons.mpr ⟨by decide,
      List.forall_mem_cons.mpr ⟨by decide, decodeHex_printable hex⟩⟩
  | case5 a b c d rest hex _ =>
    intro r units h
    rw [scanUnits.eq_def] at h
    simp only [show ¬ code '\\' = code '"' by decide, if_false, if_true, hex] at h
    cases h
  | case6 rest _ _ =>
    intro r units h
    rw [scanUnits.eq_def] at h
    simp only [show ¬ code '\\' = code '"' by decide, if_false, if_true] at h
    cases h
  | case7 e rest other n escaped _ ih =>
    intro r units h
    rw [scanUnits.eq_def] at h
    simp only [show ¬ code '\\' = code '"' by decide, if_false, if_true, other, escaped] at h
    obtain ⟨p, read, same⟩ := Option.map_eq_some_iff.mp h
    cases same
    refine Printed.append (t := [code '\\', e]) ?_ (ih read)
    exact List.forall_mem_cons.mpr ⟨by decide,
      List.forall_mem_cons.mpr ⟨backslash_printable escaped, List.forall_mem_nil _⟩⟩
  | case8 e rest other escaped _ =>
    intro r units h
    rw [scanUnits.eq_def] at h
    simp only [show ¬ code '\\' = code '"' by decide, if_false, if_true, other, escaped] at h
    cases h
  | case9 c rest quotes backslash control =>
    intro r units h
    rw [scanUnits.eq_def] at h
    simp only [quotes, backslash, control, if_false, if_true] at h
    cases h
  | case10 c rest quotes backslash printed ih =>
    intro r units h
    rw [scanUnits.eq_def] at h
    simp only [quotes, backslash, printed, if_false] at h
    obtain ⟨p, read, same⟩ := Option.map_eq_some_iff.mp h
    cases same
    refine Printed.append (t := [c]) ?_ (ih read)
    exact List.forall_mem_cons.mpr ⟨Nat.not_lt.mp printed, List.forall_mem_nil _⟩

theorem scanString_printed {s r k : Str} (h : scanString s = some (k, r)) : Printed s r := by
  obtain ⟨p, read, same⟩ := Option.map_eq_some_iff.mp h
  cases same
  exact scanUnits_printed s read

/-! ## What a scan has read -/

theorem scanKey_cases {s r k : Str} (h : scanKey s = some (k, r)) :
    ∃ rest t rest', s = code '"' :: rest ∧ scanString rest = some (k, t) ∧
      skipSpace t = code ':' :: rest' ∧ r = skipSpace rest' := by
  cases s with
  | nil => cases h
  | cons c rest =>
    rw [scanKey] at h
    split_ifs at h with quotes
    split at h
    · rename_i k' t read
      split at h
      · rename_i d rest' skipped
        split_ifs at h with colon
        cases h
        exact ⟨rest, t, rest', by rw [quotes], read, by rw [skipped, colon], rfl⟩
      · cases h
    · cases h

/-! ## Past a line feed -/

/-- A line feed with the text `d` behind it is still ahead. -/
def Behind (d s : Str) : Prop := code '\n' :: d <:+ s

theorem Behind.tail {d s : Str} {c : ℕ} (h : Behind d (c :: s)) (other : c ≠ code '\n') :
    Behind d s := by
  rcases List.suffix_cons_iff.mp h with same | later
  · cases same
    exact absurd rfl other
  · exact later

theorem Behind.of_printed {d s r : Str} (h : Behind d s) (printed : Printed s r) :
    Behind d r := by
  obtain ⟨t, rfl, shown⟩ := printed
  induction t with
  | nil => exact h
  | cons c t ih =>
    have other : c ≠ code '\n' := by
      rintro rfl
      exact absurd (shown _ List.mem_cons_self) (by decide)
    exact ih (fun e he => shown e (List.mem_cons_of_mem c he)) (Behind.tail h other)

theorem Behind.skipSpace {d s : Str} (h : Behind d s) :
    Behind d (skipSpace s) ∨ skipSpace s = skipSpace d := by
  induction s with
  | nil => cases List.suffix_nil.mp h
  | cons c s ih =>
    by_cases space : isSpace c = true
    · have skipped : PyJson.skipSpace (c :: s) = PyJson.skipSpace s :=
        List.dropWhile_cons_of_pos space
      rw [skipped]
      rcases List.suffix_cons_iff.mp h with same | later
      · cases same
        exact .inr rfl
      · exact ih later
    · have kept : PyJson.skipSpace (c :: s) = c :: s := List.dropWhile_cons_of_neg space
      rw [kept]
      exact .inl h

/-- The text is one of an object that nothing but space is left behind. -/
structure Whole (fmt : FloatText F) (d : Str) : Prop where
  head : d.head? = some (code '\x7b')
  rest : ∀ fuel v r, scanOnce fmt fuel d = some (v, r) → skipSpace r = []

theorem skipSpace_object {d : Str} (head : d.head? = some (code '\x7b')) : skipSpace d = d := by
  cases d with
  | nil => rfl
  | cons c d =>
    cases head
    exact skipSpace_cons (by decide) d

theorem whole_of_loads {d : Str} {v : JsonValue F} (head : d.head? = some (code '\x7b'))
    (h : loads fmt d = some v) : Whole fmt d := by
  refine ⟨head, fun fuel w r read => ?_⟩
  rw [loads] at h
  split_ifs at h
  rw [skipSpace_object head] at h
  split at h
  · rename_i x rest scanned
    have same := scanOnce_unique read scanned
    split_ifs at h with blank
    cases same
    exact blank
  · cases h

/-- What can stand between two values. -/
def separators : Str := code ':' :: closers

/-- A character between two values is read before the line feed. -/
theorem Behind.separator {d t rest : Str} {c : ℕ} (head : d.head? = some (code '\x7b'))
    (h : Behind d t) (skipped : PyJson.skipSpace t = c :: rest) (between : c ∈ separators) :
    Behind d rest := by
  rcases h.skipSpace with later | reached
  · rw [skipped] at later
    apply later.tail
    rintro rfl
    exact absurd between (by decide)
  · rw [skipSpace_object head, skipped] at reached
    rw [← reached] at head
    cases head
    exact absurd between (by decide)

theorem Behind.next {d s : Str} (head : d.head? = some (code '\x7b')) (h : Behind d s) :
    Behind d (PyJson.skipSpace s) ∨ PyJson.skipSpace s = d := by
  have next := h.skipSpace
  rwa [skipSpace_object head] at next

/-- What is read with some fuel before the line feed ends before it. -/
structure ScansBehind (fmt : FloatText F) (d : Str) (fuel : ℕ) : Prop where
  value : ∀ s v r, Behind d s → scanOnce fmt fuel s = some (v, r) → Behind d r
  elements : ∀ s items r, Behind d s ∨ s = d → scanElements fmt fuel s = some (items, r) →
    Behind d r
  members : ∀ s items r, Behind d s ∨ s = d → scanMembers fmt fuel s = some (items, r) →
    Behind d r

section Step

variable {d : Str} {fuel : ℕ} (ih : ScansBehind fmt d fuel) (whole : Whole fmt d)
include ih whole

theorem ScansBehind.scanOnce {s r : Str} {v : JsonValue F} (h : Behind d s)
    (read : scanOnce fmt (fuel + 1) s = some (v, r)) : Behind d r := by
  rcases scanOnce_cases read with ⟨rest, t, rfl, string, -⟩ | ⟨rest, rfl, skipped, -⟩ |
    ⟨rest, pairs, rfl, members, -⟩ | ⟨rest, rfl, skipped, -⟩ | ⟨rest, items, rfl, elements, -⟩ |
    ⟨_, _, -, -, scalar⟩
  · exact (h.tail (by decide)).of_printed (scanString_printed string)
  · exact (h.tail (by decide)).separator whole.head skipped (by decide)
  · exact ih.members _ _ _ ((h.tail (by decide)).next whole.head) members
  · exact (h.tail (by decide)).separator whole.head skipped (by decide)
  · exact ih.elements _ _ _ ((h.tail (by decide)).next whole.head) elements
  · exact h.of_printed (scanScalar_printed scalar)

/-- The object itself is no value inside another: nothing is left to close the other. -/
theorem ScansBehind.inner {s t rest : Str} {v : JsonValue F} {c : ℕ} (h : Behind d s ∨ s = d)
    (value : PyJson.scanOnce fmt fuel s = some (v, t)) (skipped : skipSpace t = c :: rest)
    (between : c ∈ separators) : Behind d rest := by
  rcases h with ahead | rfl
  · exact (ih.value _ _ _ ahead value).separator whole.head skipped between
  · rw [whole.rest _ _ _ value] at skipped
    cases skipped

theorem ScansBehind.scanElements {s r : Str} {items : List (JsonValue F)}
    (h : Behind d s ∨ s = d) (read : scanElements fmt (fuel + 1) s = some (items, r)) :
    Behind d r := by
  obtain ⟨v, t, c, rest, value, skipped, ⟨rfl, rfl, -⟩ | ⟨rfl, later, elements, -⟩⟩ :=
    scanElements_cases read
  · exact ih.inner whole h value skipped (by decide)
  · have next := ih.inner whole h value skipped (by decide)
    exact ih.elements _ _ _ (next.next whole.head) elements

theorem ScansBehind.scanMembers {s r : Str} {items : List (Str × JsonValue F)}
    (h : Behind d s ∨ s = d) (read : scanMembers fmt (fuel + 1) s = some (items, r)) :
    Behind d r := by
  obtain ⟨k, s', v, t, c, rest, key, value, skipped, behind⟩ := scanMembers_cases read
  obtain ⟨quoted, u, rest', rfl, string, colon, rfl⟩ := scanKey_cases key
  have ahead : Behind d (code '"' :: quoted) := by
    rcases h with ahead | rfl
    · exact ahead
    · cases whole.head
  have unquoted : Behind d u := (ahead.tail (by decide)).of_printed (scanString_printed string)
  have start := (unquoted.separator whole.head colon (by decide)).next whole.head
  rcases behind with ⟨rfl, rfl, -⟩ | ⟨rfl, later, members, -⟩
  · exact ih.inner whole start value skipped (by decide)
  · have next := ih.inner whole start value skipped (by decide)
    exact ih.members _ _ _ (next.next whole.head) members

end Step

theorem scansBehind {d : Str} (whole : Whole fmt d) (fuel : ℕ) : ScansBehind fmt d fuel := by
  induction fuel with
  | zero => exact ⟨nofun, nofun, nofun⟩
  | succ fuel ih =>
    exact ⟨fun _ _ _ => ih.scanOnce whole, fun _ _ _ => ih.scanElements whole,
      fun _ _ _ => ih.scanMembers whole⟩

/-- No text reads through a line feed and an object behind it, unless it is blank before. -/
theorem loads_line_feed {d t : Str} {w : JsonValue F} (head : d.head? = some (code '\x7b'))
    (h : loads fmt d = some w) (shown : ∃ c ∈ t, isSpace c = false) :
    loads fmt (t ++ code '\n' :: d) = none := by
  have whole := whole_of_loads head h
  have start : Behind d (skipSpace (t ++ code '\n' :: d)) := by
    obtain ⟨c, mem, visible⟩ := shown
    have kept : skipSpace t ≠ [] := fun blank => by
      have space := List.dropWhile_eq_nil_iff.mp blank c mem
      rw [visible] at space
      cases space
    rw [skipSpace, List.dropWhile_append]
    have left : (t.dropWhile isSpace).isEmpty = false := List.isEmpty_eq_false_iff.mpr kept
    rw [left]
    exact List.suffix_append _ _
  rw [loads]
  split_ifs
  · rfl
  · split
    · rename_i v rest read
      have ahead := (scansBehind whole _).value _ _ _ start read
      rw [if_neg]
      intro blank
      rcases ahead.next whole.head with later | reached
      · rw [blank] at later
        cases List.suffix_nil.mp later
      · rw [← reached, blank] at head
        cases head
    · rfl

/-- Space before an object is skipped. -/
theorem loads_space {d t : Str} {w : JsonValue F} (head : d.head? = some (code '\x7b'))
    (h : loads fmt d = some w) (blank : ∀ c ∈ t, isSpace c = true) :
    loads fmt (t ++ d) = some w := by
  have skipped : skipSpace (t ++ d) = d := by
    rw [skipSpace, List.dropWhile_append_of_pos blank]
    exact skipSpace_object head
  rw [loads] at h ⊢
  split_ifs at h with mark
  rw [skipSpace_object head] at h
  have unmarked : (t ++ d).head? ≠ some 0xfeff := by
    cases t with
    | nil => exact mark
    | cons c t =>
      intro marked
      cases marked
      exact absurd (blank _ List.mem_cons_self) (by decide)
  rw [if_neg unmarked, skipped]
  split at h
  · rename_i v rest read
    rw [scanOnce_mono read (Nat.mul_le_mul_left 2 (by simp))]
    exact h
  · cases h

end PyJson
