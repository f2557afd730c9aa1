import Mathlib.Data.List.DropRight

/-!
# Python text: strip, join and canonical JSON

Texts are lists of characters. `strip` is `str.strip`, joining is
`List.intercalate`, and `Json.dumps` is `json.dumps` with `ensure_ascii=True` and
the separators `,` and `:` on null, Booleans, strings and objects. An object's
members are written in the order given, so sorted keys are the caller's part.
The JSON text is self-delimiting, hence injective.
-/

abbrev Text := List Char

namespace PyText

/-- The characters removed by `str.strip`. -/
def isSpace (c : Char) : Bool :=
  let n := c.toNat
  (9 ≤ n && n ≤ 13) || (28 ≤ n && n ≤ 32) || n == 0x85 || n == 0xa0 || n == 0x1680
    || (0x2000 ≤ n && n ≤ 0x200a) || n == 0x2028 || n == 0x2029 || n == 0x202f
    || n == 0x205f || n == 0x3000

def strip (t : Text) : Text := (t.dropWhile isSpace).rdropWhile isSpace

def Stripped (t : Text) : Prop := strip t = t

instance (t : Text) : Decidable (Stripped t) := inferInstanceAs (Decidable (strip t = t))

theorem stripped_of_no_space {t : Text} (h : ∀ c ∈ t, isSpace c = false) : Stripped t := by
  have front : t.dropWhile isSpace = t := by
    cases t with
    | nil => rfl
    | cons c rest => exact List.dropWhile_cons_of_neg (by simp [h c List.mem_cons_self])
  simp only [Stripped, strip]
  rw [front, List.rdropWhile_eq_self_iff]
  intro hne
  simp [h _ (List.getLast_mem hne)]

/-- Cutting both ends twice is cutting them once. -/
theorem trim_idem {α : Type*} (p : α → Bool) (t : List α) :
    (((t.dropWhile p).rdropWhile p).dropWhile p).rdropWhile p = (t.dropWhile p).rdropWhile p := by
  have front : ((t.dropWhile p).rdropWhile p).dropWhile p = (t.dropWhile p).rdropWhile p := by
    rw [List.dropWhile_eq_self_iff]
    intro hne
    -- The first character survives the first pass, and the second pass keeps a front part.
    have hpre : (t.dropWhile p).rdropWhile p <+: t.dropWhile p := List.rdropWhile_prefix p _
    have inside : 0 < (t.dropWhile p).length := hne.trans_le hpre.length_le
    have hget : ((t.dropWhile p).rdropWhile p)[0] = (t.dropWhile p)[0] := hpre.getElem hne
    rw [hget]
    exact List.dropWhile_get_zero_not p t inside
  rw [front]
  exact List.rdropWhile_idempotent p _

theorem strip_stripped (t : Text) : Stripped (strip t) := trim_idem isSpace t

/-- Splitting a joined text at the delimiter splits every field. -/
theorem splitOn_join (d : Char) {fields : List Text} (h : fields ≠ []) :
    (List.intercalate [d] fields).splitOn d = fields.flatMap (List.splitOn d) := by
  induction fields with
  | nil => exact absurd rfl h
  | cons f rest ih =>
    cases rest with
    | nil => simp
    | cons g more =>
      have hrest := ih (by simp)
      rw [List.intercalate_cons_cons, List.append_assoc, List.singleton_append,
        List.splitOn_append_cons_self, hrest]
      rfl

theorem not_mem_piece (d : Char) {t piece : Text} (h : piece ∈ t.splitOn d) : d ∉ piece := by
  induction t generalizing piece with
  | nil =>
    rw [List.splitOn_nil, List.mem_singleton] at h
    simp [h]
  | cons c t ih =>
    rw [List.splitOn_cons_eq_if_modifyHead] at h
    split_ifs at h with here
    · rcases List.mem_cons.mp h with rfl | hrest
      · simp
      · exact ih hrest
    · cases split : t.splitOn d with
      | nil => exact absurd split (List.splitOn_ne_nil d t)
      | cons first rest =>
        rw [split] at h ih
        rcases List.mem_cons.mp h with rfl | hrest
        · rw [List.mem_cons, not_or]
          exact ⟨fun same => here (by simp [same]), ih List.mem_cons_self⟩
        · exact ih (List.mem_cons_of_mem _ hrest)

/-- An encoding whose end can be found without knowing what follows. -/
def SelfDelimiting {α : Type*} (e : α → Text) : Prop :=
  ∀ a b r s, e a ++ r = e b ++ s → a = b ∧ r = s

theorem SelfDelimiting.injective {α : Type*} {e : α → Text} (h : SelfDelimiting e) :
    Function.Injective e := by
  intro a b hab
  exact (h a b [] [] (by rw [hab])).1

theorem SelfDelimiting.flatMap_injective {α : Type*} {e : α → Text} (h : SelfDelimiting e)
    (hne : ∀ a, e a ≠ []) : Function.Injective fun xs : List α => xs.flatMap e := by
  intro xs ys hxy
  induction xs generalizing ys with
  | nil =>
    cases ys with
    | nil => rfl
    | cons y ys => exact absurd (List.append_eq_nil_iff.mp hxy.symm).1 (hne y)
  | cons x xs ih =>
    cases ys with
    | nil => exact absurd (List.append_eq_nil_iff.mp hxy).1 (hne x)
    | cons y ys =>
      obtain ⟨hhead, htail⟩ := h x y _ _ hxy
      rw [hhead, ih htail]

/-! ## Escaped characters -/

/-- `'{0:04x}'.format(n)` for `n < 0x10000`. -/
def hex4 (n : ℕ) : Text :=
  [Nat.digitChar (n / 4096 % 16), Nat.digitChar (n / 256 % 16), Nat.digitChar (n / 16 % 16),
    Nat.digitChar (n % 16)]

/-- The ASCII escape of one character, as `json.encoder.ESCAPE_ASCII` replaces it. -/
def escape (c : Char) : Text :=
  if c = '\\' then ['\\', '\\']
  else if c = '"' then ['\\', '"']
  else if c = '\x08' then ['\\', 'b']
  else if c = '\x0c' then ['\\', 'f']
  else if c = '\n' then ['\\', 'n']
  else if c = '\r' then ['\\', 'r']
  else if c = '\t' then ['\\', 't']
  else if 32 ≤ c.toNat ∧ c.toNat ≤ 126 then [c]
  else if c.toNat < 0x10000 then '\\' :: 'u' :: hex4 c.toNat
  else
    let n := c.toNat - 0x10000
    '\\' :: 'u' :: hex4 (0xd800 + n / 0x400) ++ '\\' :: 'u' :: hex4 (0xdc00 + n % 0x400)

def hexValue (c : Char) : ℕ := if c.toNat < 58 then c.toNat - 48 else c.toNat - 87

theorem hexValue_digitChar : ∀ n < 16, hexValue (Nat.digitChar n) = n := by decide

def unhex4 (a b c d : Char) : ℕ :=
  hexValue a * 4096 + hexValue b * 256 + hexValue c * 16 + hexValue d

/-- Read one escaped character off the front. -/
def unescape : Text → Option (Char × Text)
  | '\\' :: 'u' :: a :: b :: c :: d :: rest =>
    let n := unhex4 a b c d
    if 0xd800 ≤ n ∧ n < 0xdc00 then
      match rest with
      | _ :: _ :: e :: f :: g :: h :: rest' =>
        some (Char.ofNat (0x10000 + (n - 0xd800) * 0x400 + (unhex4 e f g h - 0xdc00)), rest')
      | _ => none
    else some (Char.ofNat n, rest)
  | '\\' :: 'b' :: rest => some ('\x08', rest)
  | '\\' :: 'f' :: rest => some ('\x0c', rest)
  | '\\' :: 'n' :: rest => some ('\n', rest)
  | '\\' :: 'r' :: rest => some ('\r', rest)
  | '\\' :: 't' :: rest => some ('\t', rest)
  | '\\' :: c :: rest => some (c, rest)
  | c :: rest => some (c, rest)
  | [] => none

theorem unhex4_hex4 {n : ℕ} (h : n < 0x10000) :
    unhex4 (Nat.digitChar (n / 4096 % 16)) (Nat.digitChar (n / 256 % 16))
      (Nat.digitChar (n / 16 % 16)) (Nat.digitChar (n % 16)) = n := by
  have digit : ∀ m, hexValue (Nat.digitChar (m % 16)) = m % 16 := fun m =>
    hexValue_digitChar _ (Nat.mod_lt _ (by decide))
  simp only [unhex4]
  rw [digit, digit, digit, digit]
  omega

/-- A block of eight hexadecimal digits for each character. -/
def hexCode (c : Char) : Text := hex4 (c.toNat / 0x10000) ++ hex4 (c.toNat % 0x10000)

theorem hex4_cancel {m n : ℕ} {r s : Text} (hm : m < 0x10000) (hn : n < 0x10000)
    (h : hex4 m ++ r = hex4 n ++ s) : m = n ∧ r = s := by
  simp only [hex4, List.cons_append, List.nil_append, List.cons.injEq] at h
  obtain ⟨h1, h2, h3, h4, hrs⟩ := h
  refine ⟨?_, hrs⟩
  rw [← unhex4_hex4 hm, ← unhex4_hex4 hn, h1, h2, h3, h4]

/-- A character is no surrogate. -/
theorem toNat_range (c : Char) : c.toNat < 0xd800 ∨ (0xdfff < c.toNat ∧ c.toNat < 0x110000) :=
  c.valid

theorem hexCode_selfDelimiting : SelfDelimiting hexCode := by
  intro c d r s h
  have hc := toNat_range c
  have hd := toNat_range d
  simp only [hexCode, List.append_assoc] at h
  obtain ⟨hhigh, hrest⟩ := hex4_cancel (by omega) (by omega) h
  obtain ⟨hlow, hrs⟩ := hex4_cancel (by omega) (by omega) hrest
  exact ⟨Char.toNat_inj.mp (by omega), hrs⟩

theorem unescape_unicode {n : ℕ} (h : n < 0x10000) (hs : ¬(0xd800 ≤ n ∧ n < 0xdc00)) (r : Text) :
    unescape ('\\' :: 'u' :: hex4 n ++ r) = some (Char.ofNat n, r) := by
  simp only [hex4, List.cons_append, List.nil_append, unescape, unhex4_hex4 h, if_neg hs]

theorem unescape_pair {m n : ℕ} (hm : 0xd800 ≤ m ∧ m < 0xdc00) (hn : n < 0x10000) (r : Text) :
    unescape ('\\' :: 'u' :: hex4 m ++ '\\' :: 'u' :: hex4 n ++ r)
      = some (Char.ofNat (0x10000 + (m - 0xd800) * 0x400 + (n - 0xdc00)), r) := by
  have hm' : m < 0x10000 := by omega
  simp only [hex4, List.cons_append, List.nil_append, unescape, unhex4_hex4 hm', if_pos hm,
    unhex4_hex4 hn]

theorem unescape_plain {c : Char} (h : c ≠ '\\') (r : Text) :
    unescape (c :: r) = some (c, r) := by
  rw [unescape.eq_def]
  split
  all_goals simp_all

theorem unescape_escape (c : Char) (r : Text) : unescape (escape c ++ r) = some (c, r) := by
  simp only [escape]
  split_ifs with h1 h2 h3 h4 h5 h6 h7 h8 h9
  · rw [h1]; rfl
  · rw [h2]; rfl
  · rw [h3]; rfl
  · rw [h4]; rfl
  · rw [h5]; rfl
  · rw [h6]; rfl
  · rw [h7]; rfl
  · exact unescape_plain h1 r
  · have hc := toNat_range c
    rw [unescape_unicode h9 (by omega), Char.ofNat_toNat]
  · have hc := toNat_range c
    rw [unescape_pair (by omega) (by omega)]
    have hn : 0x10000 + (0xd800 + (c.toNat - 0x10000) / 0x400 - 0xd800) * 0x400
        + (0xdc00 + (c.toNat - 0x10000) % 0x400 - 0xdc00) = c.toNat := by omega
    rw [hn, Char.ofNat_toNat]

theorem escape_selfDelimiting : SelfDelimiting escape := by
  intro c d r s h
  have hread : unescape (escape c ++ r) = unescape (escape d ++ s) := by rw [h]
  rw [unescape_escape, unescape_escape] at hread
  exact Prod.mk.inj (Option.some.inj hread)

/-- No escape starts with a quotation mark. -/
theorem escape_ne_quote (c : Char) (r s : Text) : escape c ++ r ≠ '"' :: s := by
  simp only [escape]
  by_cases quoted : c = '"'
  · simp [quoted]
  · split_ifs
    all_goals simp [quoted]

/-! ## Strings and objects -/

def quote (t : Text) : Text := '"' :: t.flatMap escape ++ ['"']

theorem escaped_selfDelimiting (t u r s : Text)
    (h : t.flatMap escape ++ '"' :: r = u.flatMap escape ++ '"' :: s) : t = u ∧ r = s := by
  induction t generalizing u with
  | nil =>
    cases u with
    | nil => exact ⟨rfl, (List.cons.inj h).2⟩
    | cons d u =>
      rw [List.flatMap_cons, List.append_assoc] at h
      exact absurd h.symm (escape_ne_quote d _ _)
  | cons c t ih =>
    cases u with
    | nil =>
      rw [List.flatMap_cons, List.append_assoc] at h
      exact absurd h (escape_ne_quote c _ _)
    | cons d u =>
      rw [List.flatMap_cons, List.flatMap_cons, List.append_assoc, List.append_assoc] at h
      obtain ⟨hcd, hrest⟩ := escape_selfDelimiting _ _ _ _ h
      obtain ⟨htu, hrs⟩ := ih u hrest
      exact ⟨by rw [hcd, htu], hrs⟩

mutual
/-- The JSON values of signed and cached records. -/
inductive Json where
  | null
  | bool (b : Bool)
  | str (t : Text)
  | obj (members : Members)
/-- The members of an object, in the order they are written. -/
inductive Members where
  | nil
  | cons (key : Text) (value : Json) (rest : Members)
end

mutual
def Json.dumps : Json → Text
  | .null => "null".toList
  | .bool true => "true".toList
  | .bool false => "false".toList
  | .str t => quote t
  | .obj .nil => ['{', '}']
  | .obj (.cons k v rest) => '{' :: quote k ++ ':' :: v.dumps ++ rest.dumpsTail
def Members.dumpsTail : Members → Text
  | .nil => ['}']
  | .cons k v rest => ',' :: quote k ++ ':' :: v.dumps ++ rest.dumpsTail
end

def Members.ofList : List (Text × Json) → Members
  | [] => .nil
  | (k, v) :: rest => .cons k v (Members.ofList rest)

theorem Members.ofList_injective : Function.Injective Members.ofList := by
  intro xs ys h
  induction xs generalizing ys with
  | nil =>
    cases ys with
    | nil => rfl
    | cons y ys => cases h
  | cons x xs ih =>
    cases ys with
    | nil => cases h
    | cons y ys =>
      obtain ⟨hkey, hvalue, hrest⟩ := Members.cons.inj h
      rw [ih hrest, Prod.ext hkey hvalue]

@[simp] theorem dumps_null : Json.null.dumps = ['n', 'u', 'l', 'l'] := rfl

@[simp] theorem dumps_true : (Json.bool true).dumps = ['t', 'r', 'u', 'e'] := rfl

@[simp] theorem dumps_false : (Json.bool false).dumps = ['f', 'a', 'l', 's', 'e'] := rfl

@[simp] theorem dumps_str (t : Text) :
    (Json.str t).dumps = '"' :: (t.flatMap escape ++ ['"']) := rfl

@[simp] theorem dumps_obj_nil : (Json.obj .nil).dumps = ['{', '}'] := rfl

@[simp] theorem dumps_obj_cons (k : Text) (v : Json) (rest : Members) :
    (Json.obj (.cons k v rest)).dumps
      = '{' :: '"' :: (k.flatMap escape ++ '"' :: ':' :: (v.dumps ++ rest.dumpsTail)) := by
  change '{' :: quote k ++ ':' :: v.dumps ++ rest.dumpsTail = _
  simp [quote]

@[simp] theorem dumpsTail_nil : Members.nil.dumpsTail = ['}'] := rfl

@[simp] theorem dumpsTail_cons (k : Text) (v : Json) (rest : Members) :
    (Members.cons k v rest).dumpsTail
      = ',' :: '"' :: (k.flatMap escape ++ '"' :: ':' :: (v.dumps ++ rest.dumpsTail)) := by
  change ',' :: quote k ++ ':' :: v.dumps ++ rest.dumpsTail = _
  simp [quote]

mutual
/-- A value's text ends where the value does: induction over the value. -/
theorem Json.dumps_cancel : ∀ (x y : Json) (r s : Text),
    x.dumps ++ r = y.dumps ++ s → x = y ∧ r = s
  | .null, y, r, s, h => by
    match y with
    | .null => exact ⟨rfl, by simpa using h⟩
    | .bool true | .bool false | .str _ | .obj .nil | .obj (.cons ..) => simp at h
  | .bool true, y, r, s, h => by
    match y with
    | .bool true => exact ⟨rfl, by simpa using h⟩
    | .null | .bool false | .str _ | .obj .nil | .obj (.cons ..) => simp at h
  | .bool false, y, r, s, h => by
    match y with
    | .bool false => exact ⟨rfl, by simpa using h⟩
    | .null | .bool true | .str _ | .obj .nil | .obj (.cons ..) => simp at h
  | .str t, y, r, s, h => by
    match y with
    | .str u =>
      have hbody : t.flatMap escape ++ '"' :: r = u.flatMap escape ++ '"' :: s := by simpa using h
      obtain ⟨htu, hrs⟩ := escaped_selfDelimiting t u r s hbody
      exact ⟨by rw [htu], hrs⟩
    | .null | .bool true | .bool false | .obj .nil | .obj (.cons ..) => simp at h
  | .obj .nil, y, r, s, h => by
    match y with
    | .obj .nil => exact ⟨rfl, by simpa using h⟩
    | .null | .bool true | .bool false | .str _ | .obj (.cons ..) => simp at h
  | .obj (.cons k v rest), y, r, s, h => by
    match y with
    | .obj (.cons k' v' rest') =>
      have hkey : k.flatMap escape ++ '"' :: (':' :: (v.dumps ++ (rest.dumpsTail ++ r)))
          = k'.flatMap escape ++ '"' :: (':' :: (v'.dumps ++ (rest'.dumpsTail ++ s))) := by
        simpa using h
      obtain ⟨hk, hvalue⟩ := escaped_selfDelimiting k k' _ _ hkey
      obtain ⟨hv, htail⟩ := Json.dumps_cancel v v' _ _ (List.cons.inj hvalue).2
      obtain ⟨hrest, hrs⟩ := Members.dumpsTail_cancel rest rest' r s htail
      exact ⟨by rw [hk, hv, hrest], hrs⟩
    | .null | .bool true | .bool false | .str _ | .obj .nil => simp at h
theorem Members.dumpsTail_cancel : ∀ (m n : Members) (r s : Text),
    m.dumpsTail ++ r = n.dumpsTail ++ s → m = n ∧ r = s
  | .nil, n, r, s, h => by
    match n with
    | .nil => exact ⟨rfl, by simpa using h⟩
    | .cons .. => simp at h
  | .cons k v rest, n, r, s, h => by
    match n with
    | .nil => simp at h
    | .cons k' v' rest' =>
      have hkey : k.flatMap escape ++ '"' :: (':' :: (v.dumps ++ (rest.dumpsTail ++ r)))
          = k'.flatMap escape ++ '"' :: (':' :: (v'.dumps ++ (rest'.dumpsTail ++ s))) := by
        simpa using h
      obtain ⟨hk, hvalue⟩ := escaped_selfDelimiting k k' _ _ hkey
      obtain ⟨hv, htail⟩ := Json.dumps_cancel v v' _ _ (List.cons.inj hvalue).2
      obtain ⟨hrest, hrs⟩ := Members.dumpsTail_cancel rest rest' r s htail
      exact ⟨by rw [hk, hv, hrest], hrs⟩
end

theorem dumps_selfDelimiting : SelfDelimiting Json.dumps := Json.dumps_cancel

theorem dumps_injective : Function.Injective Json.dumps := dumps_selfDelimiting.injective

theorem Members.dumpsTail_getLast : ∀ m : Members, m.dumpsTail.getLast? = some '}'
  | .nil => by simp
  | .cons k v rest => by
    have ih := Members.dumpsTail_getLast rest
    simp [List.getLast?_cons, List.getLast?_append, ih]

/-- The text of an object ends in a brace. -/
theorem obj_getLast (m : Members) : (Json.obj m).dumps.getLast? = some '}' := by
  cases m with
  | nil => simp
  | cons k v rest =>
    have htail := Members.dumpsTail_getLast rest
    simp [List.getLast?_cons, List.getLast?_append, htail]

end PyText
