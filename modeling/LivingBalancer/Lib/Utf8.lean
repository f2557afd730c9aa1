import Mathlib.Logic.Basic

/-!
# UTF-8 text in byte lists

Strict decoding. A byte list decodes exactly when it is the encoding of a text, so two byte
lists that decode make one that does. An ASCII byte is never part of another character, so a
byte list may be cut at one.
-/

namespace Utf8

open String (utf8EncodeChar)

def encode (t : List Char) : List UInt8 := t.flatMap utf8EncodeChar

/-- `bytes.decode("utf-8")`, with `none` for an error. -/
def decode (b : List UInt8) : Option (List Char) := b.toByteArray.utf8Decode?.map Array.toList

theorem encode_append (t u : List Char) : encode (t ++ u) = encode t ++ encode u :=
  List.flatMap_append

theorem encode_toByteArray (t : List Char) : (encode t).toByteArray = t.utf8Encode := rfl

theorem decode_encode (t : List Char) : decode (encode t) = some t := by
  simp only [decode, encode_toByteArray, List.utf8Decode?_utf8Encode, Option.map_some]

theorem decode_eq_some {b : List UInt8} {t : List Char} : decode b = some t ↔ b = encode t := by
  constructor
  · intro h
    obtain ⟨chars, hchars, rfl⟩ := Option.map_eq_some_iff.mp h
    have whole := ByteArray.utf8Encode_get_utf8Decode? (b := b.toByteArray)
      (h := Option.isSome_of_eq_some hchars)
    simp only [hchars, Option.get_some] at whole
    rw [← encode_toByteArray, List.toByteArray_inj] at whole
    exact whole.symm
  · rintro rfl
    exact decode_encode t

theorem decode_append {b c : List UInt8} {t u : List Char} (hb : decode b = some t)
    (hc : decode c = some u) : decode (b ++ c) = some (t ++ u) := by
  rw [decode_eq_some] at hb hc ⊢
  rw [hb, hc, encode_append]

/-! ## Cutting at an ASCII byte -/

/-- A byte below 128 in the encoding of a character is all of it. -/
theorem eq_of_mem_utf8EncodeChar {c : Char} {x : UInt8} (ascii : x < 128)
    (hx : x ∈ utf8EncodeChar c) : utf8EncodeChar c = [x] := by
  have other : ∀ {n}, 128 ≤ n → n < 256 → x ≠ UInt8.ofNat n := by
    rintro n low high rfl
    rw [UInt8.lt_iff_toNat_lt, UInt8.toNat_ofNat', Nat.mod_eq_of_lt high] at ascii
    exact absurd low (Nat.not_le_of_lt ascii)
  simp only [utf8EncodeChar] at hx ⊢
  split at hx
  · rename_i one
    rw [if_pos one, List.mem_singleton.mp hx]
  · exfalso
    split at hx
    · simp only [List.mem_cons, List.not_mem_nil, or_false] at hx
      rcases hx with h | h
      · exact other (by omega) (by omega) h
      · exact other (by omega) (by omega) h
    · split at hx
      · simp only [List.mem_cons, List.not_mem_nil, or_false] at hx
        rcases hx with h | h | h
        · exact other (by omega) (by omega) h
        · exact other (by omega) (by omega) h
        · exact other (by omega) (by omega) h
      · simp only [List.mem_cons, List.not_mem_nil, or_false] at hx
        rcases hx with h | h | h | h
        · exact other (by omega) (by omega) h
        · exact other (by omega) (by omega) h
        · exact other (by omega) (by omega) h
        · exact other (by omega) (by omega) h

/-- Cutting an encoding at an ASCII byte cuts its text. -/
theorem encode_split {x : UInt8} (ascii : x < 128) {t : List Char} {a b : List UInt8}
    (h : encode t = a ++ x :: b) : ∃ u v, a = encode u ∧ b = encode v := by
  induction t generalizing a with
  | nil => exact absurd h.symm (List.append_ne_nil_of_right_ne_nil a (List.cons_ne_nil x b))
  | cons c t ih =>
    rw [encode, List.flatMap_cons] at h
    rcases List.append_eq_append_iff.mp h with ⟨a', rfl, later⟩ | ⟨c', first, behind⟩
    · obtain ⟨u, v, rfl, hb⟩ := ih later
      exact ⟨c :: u, v, rfl, hb⟩
    · cases c' with
      | nil =>
        rw [List.append_nil] at first
        obtain ⟨u, v, hu, hb⟩ := ih (a := []) behind.symm
        exact ⟨[c], v, by rw [← first]; simp [encode], hb⟩
      | cons y c' =>
        cases behind
        have whole := eq_of_mem_utf8EncodeChar ascii (c := c) (by rw [first]; simp)
        rw [whole] at first
        obtain ⟨rfl, rfl⟩ : a = [] ∧ c' = [] := by
          cases a with
          | nil => exact ⟨rfl, (List.cons.inj first).2.symm⟩
          | cons z a => simp at first
        exact ⟨[], t, rfl, rfl⟩

theorem isSome_decode {b : List UInt8} : (decode b).isSome ↔ ∃ t, b = encode t := by
  rw [Option.isSome_iff_exists]
  exact exists_congr fun t => decode_eq_some

theorem encode_ascii {x : UInt8} (ascii : x < 128) : encode [Char.ofUInt8 x] = [x] := by
  have value : (Char.ofUInt8 x).val.toNat = x.toNat := UInt8.toNat_toUInt32 x
  have small : x.toNat ≤ 127 := Nat.le_of_lt_succ ascii
  rw [encode, List.flatMap_singleton, utf8EncodeChar]
  simp only [value, if_pos small, UInt8.ofNat_toNat]

/-- An ASCII text has one byte for each character. -/
theorem encode_eq_map {t : List Char} (ascii : ∀ c ∈ t, c.toNat < 128) :
    encode t = t.map fun c => UInt8.ofNat c.toNat := by
  induction t with
  | nil => rfl
  | cons c t ih =>
    obtain ⟨one, rest⟩ := List.forall_mem_cons.mp ascii
    have small : c.val.toNat ≤ 127 := Nat.le_of_lt_succ one
    rw [List.map_cons, ← ih rest, encode, List.flatMap_cons, utf8EncodeChar]
    simp only [if_pos small]
    rfl

theorem length_encode {t : List Char} (ascii : ∀ c ∈ t, c.toNat < 128) :
    (encode t).length = t.length := by
  rw [encode_eq_map ascii, List.length_map]

theorem take_encode {t : List Char} {n : Nat} (ascii : ∀ c ∈ t, c.toNat < 128) :
    (encode t).take n = encode (t.take n) := by
  rw [encode_eq_map ascii, encode_eq_map fun c mem => ascii c (List.mem_of_mem_take mem),
    List.map_take]

theorem drop_encode {t : List Char} {n : Nat} (ascii : ∀ c ∈ t, c.toNat < 128) :
    (encode t).drop n = encode (t.drop n) := by
  rw [encode_eq_map ascii, encode_eq_map fun c mem => ascii c (List.mem_of_mem_drop mem),
    List.map_drop]

/-- Bytes around an ASCII byte decode exactly when both sides do. -/
theorem isSome_decode_split {x : UInt8} (ascii : x < 128) {a b : List UInt8} :
    (decode (a ++ x :: b)).isSome ↔ (decode a).isSome ∧ (decode b).isSome := by
  simp only [isSome_decode]
  constructor
  · rintro ⟨t, h⟩
    obtain ⟨u, v, hu, hv⟩ := encode_split ascii h.symm
    exact ⟨⟨u, hu⟩, v, hv⟩
  · rintro ⟨⟨u, rfl⟩, v, rfl⟩
    refine ⟨u ++ [Char.ofUInt8 x] ++ v, ?_⟩
    rw [encode_append, encode_append, encode_ascii ascii, List.append_assoc, List.singleton_append]

/-! ## Decoding with replacement -/

/-- The bounds of the bytes that may follow a lead byte, in their order. -/
def trailing (lead : UInt8) : List (UInt8 × UInt8) :=
  if 0xc2 ≤ lead ∧ lead ≤ 0xdf then [(0x80, 0xbf)]
  else if lead = 0xe0 then [(0xa0, 0xbf), (0x80, 0xbf)]
  else if lead = 0xed then [(0x80, 0x9f), (0x80, 0xbf)]
  else if 0xe1 ≤ lead ∧ lead ≤ 0xef then [(0x80, 0xbf), (0x80, 0xbf)]
  else if lead = 0xf0 then [(0x90, 0xbf), (0x80, 0xbf), (0x80, 0xbf)]
  else if 0xf1 ≤ lead ∧ lead ≤ 0xf3 then [(0x80, 0xbf), (0x80, 0xbf), (0x80, 0xbf)]
  else if lead = 0xf4 then [(0x80, 0x8f), (0x80, 0xbf), (0x80, 0xbf)]
  else []

/-- How many of the next bytes keep to the bounds. -/
def followed : List (UInt8 × UInt8) → List UInt8 → Nat
  | (low, high) :: bounds, b :: rest =>
    if low ≤ b ∧ b ≤ high then followed bounds rest + 1 else 0
  | _, _ => 0

/-- `bytes.decode("utf-8", errors="replace")`: one replacement for each longest start of a
character, or for a byte that starts none. -/
def decodeReplace : List UInt8 → List Char
  | [] => []
  | lead :: rest =>
    match (lead :: rest).toByteArray.utf8DecodeChar? 0 with
    | some c => c :: decodeReplace ((lead :: rest).drop c.utf8Size)
    | none => '\uFFFD' :: decodeReplace (rest.drop (followed (trailing lead) rest))
termination_by b => b.length
decreasing_by
  · have := c.utf8Size_pos
    rw [List.length_drop, List.length_cons]
    omega
  · rw [List.length_drop, List.length_cons]
    omega

theorem decodeReplace_encode (t : List Char) : decodeReplace (encode t) = t := by
  induction t with
  | nil => rw [encode, List.flatMap_nil, decodeReplace]
  | cons c t ih =>
    obtain ⟨lead, rest, bytes⟩ := List.exists_cons_of_ne_nil (String.utf8EncodeChar_ne_nil (c := c))
    have whole : encode (c :: t) = lead :: (rest ++ encode t) := by
      rw [encode, List.flatMap_cons, bytes, List.cons_append]
      rfl
    have head : (lead :: (rest ++ encode t)).toByteArray.utf8DecodeChar? 0 = some c := by
      rw [← List.cons_append, ← bytes, List.toByteArray_append]
      exact ByteArray.utf8DecodeChar?_utf8EncodeChar_append
    have tail : (lead :: (rest ++ encode t)).drop c.utf8Size = encode t := by
      rw [← List.cons_append, ← bytes, ← String.length_utf8EncodeChar, List.drop_left]
    rw [whole, decodeReplace, head]
    dsimp only
    rw [tail, ih]

end Utf8
