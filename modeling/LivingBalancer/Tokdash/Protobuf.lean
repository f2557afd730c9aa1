import Mathlib.Data.List.Induction
import LivingBalancer.Lib.Dict
import LivingBalancer.Lib.Varint

/-!
# The protobuf walker

`_pb_read_varint`, `_pb_parse_message` and `_pb_get_path` of the Antigravity parser. A position
in the buffer is given by the bytes from there on. A number takes eleven bytes at most, and a
value that reaches behind the end of the buffer raises, so that what is returned is spelled out
by the whole of the bytes.
-/

namespace Protobuf

open Varint

abbrev Bytes := List UInt8

/-! ## The walker -/

/-- A Python value of a field. -/
inductive WireValue where
  | int (n : ℕ)
  | bytes (b : Bytes)
  deriving DecidableEq

abbrev Message := Dict ℕ (List WireValue)

/-- The loop of `_pb_read_varint`. -/
def pbReadVarintFrom (value shift : ℕ) : Bytes → Except String (ℕ × Bytes)
  | [] => .error "truncated varint"
  | byte :: rest =>
    if byte.toNat &&& 0x80 = 0 then .ok (value ||| (byte.toNat &&& 0x7F) <<< shift, rest)
    else if 70 < shift + 7 then .error "varint too long"
    else pbReadVarintFrom (value ||| (byte.toNat &&& 0x7F) <<< shift) (shift + 7) rest

def pbReadVarint (buf : Bytes) : Except String (ℕ × Bytes) := pbReadVarintFrom 0 0 buf

/-- `buf[pos : pos + size]`, if that much is left. -/
def pbTake (size : ℕ) (truncated : String) (buf : Bytes) : Except String (WireValue × Bytes) :=
  if buf.length < size then .error truncated else .ok (.bytes (buf.take size), buf.drop size)

/-- The value behind a tag. -/
def pbReadValue (wireType : ℕ) (buf : Bytes) : Except String (WireValue × Bytes) :=
  match wireType with
  | 0 => do
    let (value, rest) ← pbReadVarint buf
    return (.int value, rest)
  | 1 => pbTake 8 "truncated fixed64" buf
  | 2 => do
    let (size, rest) ← pbReadVarint buf
    pbTake size "truncated length-delimited field" rest
  | 5 => pbTake 4 "truncated fixed32" buf
  | _ => .error s!"unsupported wire type {wireType}"

/-- One round of the loop of `_pb_parse_message`. -/
def pbReadField (buf : Bytes) : Except String ((ℕ × WireValue) × Bytes) := do
  let (tag, rest) ← pbReadVarint buf
  if tag >>> 3 = 0 then throw "invalid field number"
  let (value, rest) ← pbReadValue (tag &&& 0x07) rest
  return ((tag >>> 3, value), rest)

/-- `out.setdefault(field, []).append(value)`. -/
def Message.append (out : Message) (field : ℕ × WireValue) : Message :=
  out.modify field.1 [] (· ++ [field.2])

/-! ## Numbers -/

/-- The bytes of a number that is short enough. -/
structure Number (bytes : Bytes) (n : ℕ) : Prop where
  spells : Spells bytes n
  short : bytes.length ≤ 11

theorem and_low (b : UInt8) : b.toNat &&& 0x7F = b.toNat % 128 :=
  Nat.and_two_pow_sub_one_eq_mod b.toNat 7

theorem and_high (b : UInt8) : b.toNat &&& 0x80 = 0 ↔ b.toNat < 128 := by
  have all : ∀ n < 256, (n &&& 0x80 = 0 ↔ n < 128) := by decide +kernel
  exact all b.toNat b.toNat_lt

/-- Groups do not overlap, so `|=` adds. -/
theorem or_shift {value shift : ℕ} (below : value < 2 ^ shift) (n : ℕ) :
    value ||| n <<< shift = value + 2 ^ shift * n := by
  rw [Nat.or_comm, ← Nat.shiftLeft_add_eq_or_of_lt below, Nat.shiftLeft_eq]
  ring

theorem pbReadVarintFrom_iff {value shift : ℕ} (below : value < 2 ^ shift) (room : shift ≤ 70)
    (buf : Bytes) (v : ℕ) (rest : Bytes) :
    pbReadVarintFrom value shift buf = .ok (v, rest) ↔
      ∃ used n, buf = used ++ rest ∧ Spells used n ∧ shift + 7 * used.length ≤ 77 ∧
        v = value + 2 ^ shift * n := by
  induction buf generalizing value shift with
  | nil =>
    constructor
    · intro h
      cases h
    · rintro ⟨used, n, empty, spells, -⟩
      exact absurd (List.append_eq_nil_iff.mp empty.symm).1 spells.ne_nil
  | cons byte tail ih =>
    rw [pbReadVarintFrom, or_shift below, and_low]
    by_cases low : byte.toNat < 128
    · have whole : byte.toNat % 128 = byte.toNat := Nat.mod_eq_of_lt low
      rw [if_pos ((and_high byte).mpr low), whole]
      constructor
      · intro h
        cases h
        refine ⟨[byte], byte.toNat, rfl, .last low, ?_, rfl⟩
        simp only [List.length_singleton]
        omega
      · rintro ⟨used, n, split, spells, -, rfl⟩
        cases spells with
        | last =>
          obtain ⟨rfl, rfl⟩ := List.cons.inj split
          rfl
        | more high =>
          obtain ⟨rfl, -⟩ := List.cons.inj split
          omega
    · have grown : value + 2 ^ shift * (byte.toNat % 128) < 2 ^ (shift + 7) := by
        have group : byte.toNat % 128 ≤ 127 := by omega
        have := Nat.mul_le_mul_left (2 ^ shift) group
        rw [pow_add]
        omega
      rw [if_neg (mt (and_high byte).mp low)]
      by_cases long : 70 < shift + 7
      · rw [if_pos long]
        constructor
        · intro h
          cases h
        · rintro ⟨used, n, split, spells, fits, -⟩
          cases spells with
          | last low' =>
            obtain ⟨rfl, -⟩ := List.cons.inj split
            exact absurd low' low
          | more high inner =>
            have := List.length_pos_of_ne_nil inner.ne_nil
            rw [List.length_cons] at fits
            omega
      · rw [if_neg long, ih grown (by omega)]
        constructor
        · rintro ⟨used, n, rfl, spells, fits, rfl⟩
          refine ⟨byte :: used, byte.toNat % 128 + 128 * n, rfl, .more (by omega) spells, ?_, ?_⟩
          · rw [List.length_cons]
            omega
          · rw [pow_add]
            ring
        · rintro ⟨used, n, split, spells, fits, rfl⟩
          cases spells with
          | last low' =>
            obtain ⟨rfl, -⟩ := List.cons.inj split
            exact absurd low' low
          | more high inner =>
            obtain ⟨rfl, rfl⟩ := List.cons.inj split
            rw [List.length_cons] at fits
            refine ⟨_, _, rfl, inner, by omega, ?_⟩
            rw [pow_add]
            ring

theorem pbReadVarint_iff (buf : Bytes) (v : ℕ) (rest : Bytes) :
    pbReadVarint buf = .ok (v, rest) ↔ ∃ used, buf = used ++ rest ∧ Number used v := by
  rw [pbReadVarint, pbReadVarintFrom_iff (by decide) (by decide)]
  constructor
  · rintro ⟨used, n, split, spells, fits, rfl⟩
    refine ⟨used, split, ?_, by omega⟩
    simpa using spells
  · rintro ⟨used, split, spells, short⟩
    exact ⟨used, v, split, spells, by omega, by simp⟩

/-! ## Fields -/

/-- The bytes of a value behind a tag of a wire type. -/
inductive Spelt : ℕ → Bytes → WireValue → Prop
  | varint {bytes : Bytes} {n : ℕ} (number : Number bytes n) : Spelt 0 bytes (.int n)
  | fixed64 {bytes : Bytes} (eight : bytes.length = 8) : Spelt 1 bytes (.bytes bytes)
  | delimited {size body : Bytes} (number : Number size body.length) :
      Spelt 2 (size ++ body) (.bytes body)
  | fixed32 {bytes : Bytes} (four : bytes.length = 4) : Spelt 5 bytes (.bytes bytes)

/-- The bytes are one complete field. -/
inductive Piece : Bytes → ℕ × WireValue → Prop
  | mk {tag bytes : Bytes} {field wireType : ℕ} {value : WireValue} (positive : 0 < field)
      (number : Number tag (8 * field + wireType)) (spelt : Spelt wireType bytes value) :
      Piece (tag ++ bytes) (field, value)

/-- The bytes are complete fields, one behind the other. -/
inductive Pieces : Bytes → List (ℕ × WireValue) → Prop
  | nil : Pieces [] []
  | cons {piece rest : Bytes} {field : ℕ × WireValue} {fields : List (ℕ × WireValue)}
      (first : Piece piece field) (later : Pieces rest fields) :
      Pieces (piece ++ rest) (field :: fields)

theorem Spelt.wireType_lt {wireType : ℕ} {bytes : Bytes} {value : WireValue}
    (h : Spelt wireType bytes value) : wireType < 8 := by
  cases h <;> omega

theorem Piece.ne_nil {bytes : Bytes} {field : ℕ × WireValue} (h : Piece bytes field) :
    bytes ≠ [] := by
  cases h with
  | mk positive number spelt =>
    intro empty
    exact number.spells.ne_nil (List.append_eq_nil_iff.mp empty).1

theorem bind_ok {α β : Type} {x : Except String α} {f : α → Except String β} {b : β} :
    x >>= f = .ok b ↔ ∃ a, x = .ok a ∧ f a = .ok b := by
  cases x with
  | error e =>
    constructor
    · intro h
      cases h
    · rintro ⟨a, h, -⟩
      cases h
  | ok a =>
    constructor
    · intro h
      exact ⟨a, rfl, h⟩
    · rintro ⟨a', h, h'⟩
      cases h
      exact h'

theorem pbTake_iff {size : ℕ} {truncated : String} {buf rest : Bytes} {value : WireValue} :
    pbTake size truncated buf = .ok (value, rest) ↔
      ∃ body, buf = body ++ rest ∧ body.length = size ∧ value = .bytes body := by
  rw [pbTake]
  by_cases short : buf.length < size
  · rw [if_pos short]
    constructor
    · intro h
      cases h
    · rintro ⟨body, rfl, rfl, -⟩
      rw [List.length_append] at short
      omega
  · rw [if_neg short]
    constructor
    · intro h
      cases h
      exact ⟨buf.take size, (List.take_append_drop size buf).symm,
        List.length_take_of_le (by omega), rfl⟩
    · rintro ⟨body, rfl, rfl, rfl⟩
      rw [List.take_left, List.drop_left]

theorem pbReadValue_iff {wireType : ℕ} {buf rest : Bytes} {value : WireValue} :
    pbReadValue wireType buf = .ok (value, rest) ↔
      ∃ bytes, buf = bytes ++ rest ∧ Spelt wireType bytes value := by
  constructor
  · intro h
    unfold pbReadValue at h
    split at h
    · obtain ⟨⟨n, rest'⟩, read, same⟩ := bind_ok.mp h
      cases same
      obtain ⟨used, split, number⟩ := (pbReadVarint_iff _ _ _).mp read
      exact ⟨used, split, .varint number⟩
    · obtain ⟨body, split, eight, rfl⟩ := pbTake_iff.mp h
      exact ⟨body, split, .fixed64 eight⟩
    · obtain ⟨⟨size, rest'⟩, read, taken⟩ := bind_ok.mp h
      obtain ⟨used, split, number⟩ := (pbReadVarint_iff _ _ _).mp read
      obtain ⟨body, split', long, rfl⟩ := pbTake_iff.mp taken
      subst long
      refine ⟨used ++ body, ?_, .delimited number⟩
      rw [split, split', List.append_assoc]
    · obtain ⟨body, split, four, rfl⟩ := pbTake_iff.mp h
      exact ⟨body, split, .fixed32 four⟩
    · cases h
  · rintro ⟨bytes, rfl, spelt⟩
    cases spelt with
    | varint number =>
      exact bind_ok.mpr ⟨_, (pbReadVarint_iff _ _ _).mpr ⟨_, rfl, number⟩, rfl⟩
    | fixed64 eight => exact pbTake_iff.mpr ⟨_, rfl, eight, rfl⟩
    | delimited number =>
      refine bind_ok.mpr ⟨_, (pbReadVarint_iff _ _ _).mpr ⟨_, List.append_assoc _ _ _, number⟩, ?_⟩
      exact pbTake_iff.mpr ⟨_, rfl, rfl, rfl⟩
    | fixed32 four => exact pbTake_iff.mpr ⟨_, rfl, four, rfl⟩

theorem tag_parts (tag : ℕ) : 8 * (tag >>> 3) + (tag &&& 0x07) = tag := by
  have field : tag >>> 3 = tag / 8 := Nat.shiftRight_eq_div_pow tag 3
  have wireType : tag &&& 0x07 = tag % 8 := Nat.and_two_pow_sub_one_eq_mod tag 3
  omega

theorem tag_field (field : ℕ) {wireType : ℕ} (small : wireType < 8) :
    (8 * field + wireType) >>> 3 = field ∧ (8 * field + wireType) &&& 0x07 = wireType := by
  have shifted : (8 * field + wireType) >>> 3 = (8 * field + wireType) / 8 :=
    Nat.shiftRight_eq_div_pow _ 3
  have masked : (8 * field + wireType) &&& 0x07 = (8 * field + wireType) % 8 :=
    Nat.and_two_pow_sub_one_eq_mod _ 3
  omega

theorem pbReadField_iff {buf rest : Bytes} {field : ℕ × WireValue} :
    pbReadField buf = .ok (field, rest) ↔ ∃ piece, buf = piece ++ rest ∧ Piece piece field := by
  constructor
  · intro h
    obtain ⟨⟨tag, rest'⟩, read, h⟩ := bind_ok.mp h
    by_cases zero : tag >>> 3 = 0
    · simp only [zero, if_true] at h
      cases h
    · simp only [zero, if_false] at h
      obtain ⟨⟨value, rest''⟩, valued, same⟩ := bind_ok.mp h
      cases same
      obtain ⟨used, split, number⟩ := (pbReadVarint_iff _ _ _).mp read
      obtain ⟨bytes, split', spelt⟩ := pbReadValue_iff.mp valued
      rw [← tag_parts tag] at number
      refine ⟨used ++ bytes, ?_, .mk (Nat.pos_of_ne_zero zero) number spelt⟩
      rw [split, split', List.append_assoc]
  · rintro ⟨piece, rfl, complete⟩
    cases complete with
    | @mk tag bytes field wireType value positive number spelt =>
      obtain ⟨field_eq, wireType_eq⟩ := tag_field field spelt.wireType_lt
      refine bind_ok.mpr ⟨_, (pbReadVarint_iff _ _ _).mpr ⟨_, List.append_assoc _ _ _, number⟩, ?_⟩
      simp only [field_eq, wireType_eq, Nat.ne_of_gt positive, if_false]
      exact bind_ok.mpr ⟨_, pbReadValue_iff.mpr ⟨_, rfl, spelt⟩, rfl⟩

theorem pbReadField_shorter {buf rest : Bytes} {field : ℕ × WireValue}
    (h : pbReadField buf = .ok (field, rest)) : rest.length < buf.length := by
  obtain ⟨piece, rfl, complete⟩ := pbReadField_iff.mp h
  have := List.length_pos_of_ne_nil complete.ne_nil
  rw [List.length_append]
  omega

/-! ## Messages -/

/-- The loop of `_pb_parse_message`, which ends as every round takes bytes away. -/
def pbParseFrom (out : Message) (buf : Bytes) : Except String Message :=
  match buf with
  | [] => .ok out
  | byte :: tail =>
    match _read : pbReadField (byte :: tail) with
    | .error e => .error e
    | .ok (field, rest) => pbParseFrom (out.append field) rest
termination_by buf.length
decreasing_by exact pbReadField_shorter _read

def pbParseMessage (buf : Bytes) : Except String Message := pbParseFrom Dict.empty buf

/-- `_pb_get_path`; `values` that are empty or missing end the way. -/
def pbGetPath (cur : Message) : List ℕ → Except String (Option WireValue)
  | [] => .ok none
  | [field] => .ok ((cur.get field).bind List.getLast?)
  | field :: next :: path =>
    match (cur.get field).bind List.getLast? with
    | some (.bytes value) => do pbGetPath (← pbParseMessage value) (next :: path)
    | _ => .ok none

theorem pbParseFrom_cons {buf rest : Bytes} {field : ℕ × WireValue} (out : Message)
    (h : pbReadField buf = .ok (field, rest)) :
    pbParseFrom out buf = pbParseFrom (out.append field) rest := by
  cases buf with
  | nil => exact absurd (pbReadField_shorter h) (Nat.not_lt_zero _)
  | cons byte tail =>
    conv_lhs => rw [pbParseFrom]
    split
    · rename_i e failed
      rw [h] at failed
      cases failed
    · rename_i field' rest' read
      rw [h] at read
      cases read
      rfl

/-- Complete fields are taken one after the other, whatever stands behind them. -/
theorem pbParseFrom_append {bytes : Bytes} {fields : List (ℕ × WireValue)}
    (h : Pieces bytes fields) (out : Message) (behind : Bytes) :
    pbParseFrom out (bytes ++ behind) = pbParseFrom (fields.foldl Message.append out) behind := by
  induction h generalizing out with
  | nil => rfl
  | cons first later ih =>
    rw [List.append_assoc, pbParseFrom_cons out (pbReadField_iff.mpr ⟨_, rfl, first⟩), ih]
    rfl

theorem pbParseFrom_pieces {out out' : Message} {buf : Bytes} (h : pbParseFrom out buf = .ok out') :
    ∃ fields, Pieces buf fields ∧ out' = fields.foldl Message.append out := by
  induction long : buf.length using Nat.strongRecOn generalizing buf out with
  | ind n ih =>
    cases buf with
    | nil =>
      rw [pbParseFrom] at h
      cases h
      exact ⟨[], .nil, rfl⟩
    | cons byte tail =>
      cases read : pbReadField (byte :: tail) with
      | error e =>
        rw [pbParseFrom] at h
        split at h
        · cases h
        · rename_i field' rest' read'
          rw [read] at read'
          cases read'
      | ok p =>
        obtain ⟨field, rest⟩ := p
        rw [pbParseFrom_cons out read] at h
        obtain ⟨fields, pieces, rfl⟩ := ih rest.length (long ▸ pbReadField_shorter read) h rfl
        obtain ⟨piece, split, complete⟩ := pbReadField_iff.mp read
        rw [split]
        exact ⟨field :: fields, .cons complete pieces, rfl⟩

/-- The values of a field number, in order, as the parsed message has them. -/
def valuesOf (fields : List (ℕ × WireValue)) (number : ℕ) : List WireValue :=
  (fields.filter fun field => decide (field.1 = number)).map Prod.snd

/-- A dictionary has the values of each number that is there at all. -/
def Message.Holds (out : Message) (fields : List (ℕ × WireValue)) : Prop :=
  ∀ number, out.get number
    = if valuesOf fields number = [] then none else some (valuesOf fields number)

theorem Message.Holds.append {out : Message} {fields : List (ℕ × WireValue)} (h : out.Holds fields)
    (field : ℕ × WireValue) : (out.append field).Holds (fields ++ [field]) := by
  intro number
  have grown : valuesOf (fields ++ [field]) number
      = valuesOf fields number ++ if field.1 = number then [field.2] else [] := by
    by_cases own : field.1 = number <;> simp [valuesOf, own]
  rw [Message.append, Dict.get_modify, grown, h field.1]
  by_cases own : number = field.1
  · subst own
    by_cases empty : valuesOf fields field.1 = [] <;> simp [empty]
  · rw [if_neg own, if_neg (Ne.symm own), List.append_nil]
    exact h number

theorem holds_foldl (fields : List (ℕ × WireValue)) :
    Message.Holds (fields.foldl Message.append Dict.empty) fields := by
  induction fields using List.reverseRecOn with
  | nil => exact fun number => rfl
  | append_singleton fields field ih =>
    rw [List.foldl_append]
    exact ih.append field

theorem pbParseMessage_pieces {bytes : Bytes} {fields : List (ℕ × WireValue)}
    (h : Pieces bytes fields) :
    pbParseMessage bytes = .ok (fields.foldl Message.append Dict.empty) := by
  have whole := pbParseFrom_append h Dict.empty []
  rw [List.append_nil, pbParseFrom] at whole
  exact whole

/-- What is cut off inside a field raises. -/
theorem pbParseMessage_truncated {before cut missing : Bytes} {fields : List (ℕ × WireValue)}
    {field : ℕ × WireValue} (pieces : Pieces before fields) (piece : Piece (cut ++ missing) field)
    (begun : cut ≠ []) (unfinished : missing ≠ []) :
    ∃ e, pbParseMessage (before ++ cut) = .error e := by
  rw [pbParseMessage, pbParseFrom_append pieces]
  cases parsed : pbParseFrom (fields.foldl Message.append Dict.empty) cut with
  | error e => exact ⟨e, rfl⟩
  | ok out =>
    obtain ⟨fields', pieces', -⟩ := pbParseFrom_pieces parsed
    cases pieces' with
    | nil => exact absurd rfl begun
    | @cons first rest field' _ complete later =>
      have whole : pbReadField (first ++ rest ++ missing) = .ok (field, []) :=
        pbReadField_iff.mpr ⟨_, (List.append_nil _).symm, piece⟩
      have part : pbReadField (first ++ rest ++ missing) = .ok (field', rest ++ missing) :=
        pbReadField_iff.mpr ⟨first, List.append_assoc _ _ _, complete⟩
      rw [whole] at part
      injection part with same
      exact absurd (List.append_eq_nil_iff.mp (Prod.mk.inj same).2.symm).2 unfinished

/-! ## The standard encoding -/

/-- A value to encode; a Python byte string is shorter than `2 ^ 63`. -/
inductive Payload where
  | varint (n : ℕ) (small : n < 2 ^ 64)
  | fixed64 (bytes : Bytes) (eight : bytes.length = 8)
  | delimited (bytes : Bytes) (short : bytes.length < 2 ^ 63)
  | fixed32 (bytes : Bytes) (four : bytes.length = 4)

namespace Payload

def wireType : Payload → ℕ
  | varint .. => 0
  | fixed64 .. => 1
  | delimited .. => 2
  | fixed32 .. => 5

def encoded : Payload → Bytes
  | varint n _ => encode n
  | fixed64 bytes _ => bytes
  | delimited bytes _ => encode bytes.length ++ bytes
  | fixed32 bytes _ => bytes

def value : Payload → WireValue
  | varint n _ => .int n
  | fixed64 bytes _ => .bytes bytes
  | delimited bytes _ => .bytes bytes
  | fixed32 bytes _ => .bytes bytes

end Payload

structure Field where
  number : ℕ
  positive : 1 ≤ number
  small : number ≤ 2 ^ 29 - 1
  payload : Payload

namespace Field

def encoded (field : Field) : Bytes :=
  encode (8 * field.number + field.payload.wireType) ++ field.payload.encoded

/-- The field as the walker returns it. -/
def read (field : Field) : ℕ × WireValue := (field.number, field.payload.value)

end Field

def encodeMessage (fields : List Field) : Bytes := fields.flatMap Field.encoded

theorem number_encode {n : ℕ} (small : n < 2 ^ 64) : Number (encode n) n :=
  ⟨spells_encode n, length_encode_le 10 n (by omega)⟩

theorem Payload.spelt (payload : Payload) :
    Spelt payload.wireType payload.encoded payload.value := by
  cases payload with
  | varint n small => exact .varint (number_encode small)
  | fixed64 bytes eight => exact .fixed64 eight
  | delimited bytes short => exact .delimited (number_encode (by omega))
  | fixed32 bytes four => exact .fixed32 four

theorem Field.piece (field : Field) : Piece field.encoded field.read := by
  have wireType := field.payload.spelt.wireType_lt
  have small := field.small
  exact .mk field.positive (number_encode (by omega)) field.payload.spelt

theorem pieces_encodeMessage (fields : List Field) :
    Pieces (encodeMessage fields) (fields.map Field.read) := by
  induction fields with
  | nil => exact .nil
  | cons field fields ih => exact .cons field.piece ih

/-- The last value of a field number. -/
def lastValue (fields : List Field) (number : ℕ) : Option WireValue :=
  (valuesOf (fields.map Field.read) number).getLast?

/-- The last value along a path, each step but the last into the nested message that is the
last value of its field. -/
inductive LastAlong : List Field → List ℕ → WireValue → Prop
  | here {fields : List Field} {number : ℕ} {value : WireValue}
      (last : lastValue fields number = some value) : LastAlong fields [number] value
  | inside {fields inner : List Field} {number next : ℕ} {path : List ℕ} {value : WireValue}
      (last : lastValue fields number = some (.bytes (encodeMessage inner)))
      (rest : LastAlong inner (next :: path) value) :
      LastAlong fields (number :: next :: path) value

theorem Message.Holds.getLast? {out : Message} {fields : List Field}
    (h : out.Holds (fields.map Field.read)) (number : ℕ) :
    (out.get number).bind List.getLast? = lastValue fields number := by
  rw [h number, lastValue]
  by_cases empty : valuesOf (fields.map Field.read) number = []
  · rw [if_pos empty, empty]
    rfl
  · rw [if_neg empty]
    rfl

theorem pbGetPath_last {fields : List Field} {path : List ℕ} {value : WireValue}
    (h : LastAlong fields path value) {out : Message} (holds : out.Holds (fields.map Field.read)) :
    pbGetPath out path = .ok (some value) := by
  induction h generalizing out with
  | here last => rw [pbGetPath, holds.getLast?, last]
  | @inside fields inner number next path value last rest ih =>
    rw [pbGetPath, holds.getLast?, last]
    exact bind_ok.mpr ⟨_, pbParseMessage_pieces (pieces_encodeMessage inner), ih (holds_foldl _)⟩

/-- The walker reads back every standard encoding, along paths too; and any bytes that it does
not refuse are complete fields with the values that it returns. -/
theorem walker_exact :
    (∀ fields : List Field, ∃ out, pbParseMessage (encodeMessage fields) = .ok out ∧
      out.Holds (fields.map Field.read)) ∧
    (∀ fields path value, LastAlong fields path value →
      ∃ out, pbParseMessage (encodeMessage fields) = .ok out ∧
        pbGetPath out path = .ok (some value)) ∧
    (∀ bytes, (∃ e, pbParseMessage bytes = .error e) ∨
      ∃ out fields, pbParseMessage bytes = .ok out ∧ Pieces bytes fields ∧ out.Holds fields) ∧
    (∀ before fields cut missing field, Pieces before fields → Piece (cut ++ missing) field →
      cut ≠ [] → missing ≠ [] → ∃ e, pbParseMessage (before ++ cut) = .error e) := by
  refine ⟨fun fields => ?_, fun fields path value last => ?_, fun bytes => ?_, ?_⟩
  · exact ⟨_, pbParseMessage_pieces (pieces_encodeMessage fields), holds_foldl _⟩
  · exact ⟨_, pbParseMessage_pieces (pieces_encodeMessage fields),
      pbGetPath_last last (holds_foldl _)⟩
  · cases parsed : pbParseMessage bytes with
    | error e => exact .inl ⟨e, rfl⟩
    | ok out =>
      obtain ⟨fields, pieces, rfl⟩ := pbParseFrom_pieces parsed
      exact .inr ⟨_, fields, rfl, pieces, holds_foldl fields⟩
  · exact fun before fields cut missing field pieces piece begun unfinished =>
      pbParseMessage_truncated pieces piece begun unfinished

end Protobuf
