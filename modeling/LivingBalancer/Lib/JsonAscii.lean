import LivingBalancer.Lib.JsonText

/-!
# JSON text in ASCII

`dumpsAscii` is `json.dumps` with the separators `,` and `:` and `ensure_ascii=True`, the
keys of each object in the order they have. Outside its strings a text of `compact` is
ASCII and stays as it is; in a string the two differ by the escapes of what is not ASCII.
-/

namespace PyJson

variable {F : Type}

/-- `'\\u{0:04x}'.format(n)`. -/
def unicodeEscape (n : ℕ) : Str :=
  [code '\\', code 'u', hexDigit (n / 4096 % 16), hexDigit (n / 256 % 16), hexDigit (n / 16 % 16),
    hexDigit (n % 16)]

/-- A character that is not between the space and the tilde is escaped, beyond the first
65536 by a surrogate pair. -/
def asciiEscape (c : ℕ) : Str :=
  if 0x20 ≤ c ∧ c ≤ 0x7e then [c]
  else if c < 0x10000 then unicodeEscape c
  else
    unicodeEscape (0xd800 + (c - 0x10000) / 0x400 % 0x400) ++
      unicodeEscape (0xdc00 + (c - 0x10000) % 0x400)

def dumpsAscii (fmt : FloatText F) (v : JsonValue F) : Str := (v.compact fmt).flatMap asciiEscape

/-- A character inside a string, as `ESCAPE_ASCII` and `ESCAPE_DCT` have it. -/
def escapeAscii (c : ℕ) : Str :=
  if c = code '\\' then [code '\\', code '\\']
  else if c = code '"' then [code '\\', code '"']
  else if c = code '\x08' then [code '\\', code 'b']
  else if c = code '\x0c' then [code '\\', code 'f']
  else if c = code '\n' then [code '\\', code 'n']
  else if c = code '\r' then [code '\\', code 'r']
  else if c = code '\t' then [code '\\', code 't']
  else asciiEscape c

/-- `py_encode_basestring_ascii`. -/
def quoteAscii (t : Str) : Str := code '"' :: (t.flatMap escapeAscii ++ [code '"'])

theorem hexDigit_ascii {n : ℕ} (h : n < 16) : 0x20 ≤ hexDigit n ∧ hexDigit n ≤ 0x7e := by
  have all : ∀ n < 16, 0x20 ≤ hexDigit n ∧ hexDigit n ≤ 0x7e := by decide
  exact all n h

theorem unicodeEscape_ascii (n : ℕ) : ∀ c ∈ unicodeEscape n, 0x20 ≤ c ∧ c ≤ 0x7e := by
  have digit : ∀ m, 0x20 ≤ hexDigit (m % 16) ∧ hexDigit (m % 16) ≤ 0x7e := fun m =>
    hexDigit_ascii (Nat.mod_lt m (by decide))
  exact List.forall_mem_cons.mpr ⟨by decide, List.forall_mem_cons.mpr ⟨by decide,
    List.forall_mem_cons.mpr ⟨digit _, List.forall_mem_cons.mpr ⟨digit _,
      List.forall_mem_cons.mpr ⟨digit _, List.forall_mem_cons.mpr ⟨digit _, nofun⟩⟩⟩⟩⟩⟩

theorem asciiEscape_ascii (n : ℕ) : ∀ c ∈ asciiEscape n, 0x20 ≤ c ∧ c ≤ 0x7e := by
  intro c hc
  rw [asciiEscape] at hc
  split_ifs at hc with plain basic
  · exact List.mem_singleton.mp hc ▸ plain
  · exact unicodeEscape_ascii n c hc
  · rcases List.mem_append.mp hc with high | low
    · exact unicodeEscape_ascii _ c high
    · exact unicodeEscape_ascii _ c low

theorem dumpsAscii_ascii (fmt : FloatText F) (v : JsonValue F) :
    ∀ c ∈ dumpsAscii fmt v, 0x20 ≤ c ∧ c ≤ 0x7e := by
  intro c hc
  obtain ⟨n, -, escaped⟩ := List.mem_flatMap.mp hc
  exact asciiEscape_ascii n c escaped

theorem dumpsAscii_head (fmt : FloatText F) (items : List (Str × JsonValue F)) :
    (dumpsAscii fmt (.dict items)).head? = some (code '\x7b') := by
  cases items with
  | nil =>
    rw [dumpsAscii, JsonValue.compact]
    rfl
  | cons q items =>
    rw [dumpsAscii, JsonValue.compact]
    rfl

end PyJson
