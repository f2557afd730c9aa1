import Mathlib.Data.List.Lex
import Mathlib.Data.List.Sort
import Mathlib.Data.Nat.Digits.Defs
import LivingBalancer.Lib.Dict

/-!
# JSON values and their text

`loads` and `dumps` are `json.loads` and `json.dumps`, the latter with `sort_keys=True`,
the separators `,` and `:` and `ensure_ascii=False`. A text is a list of code points, lone
surrogates included. The finite floats are a parameter: their literals and their `repr`.

Integers are unbounded here. Python raises a `ValueError` above 4300 digits (`JsonLimits`); a
module that does not name the limit is about texts and values within it.
-/

namespace PyJson

abbrev Str := List ℕ

instance : LawfulBEq Str := inferInstance

abbrev code (c : Char) : ℕ := c.toNat

def text (s : String) : Str := s.toList.map code

/-! ## Values -/

inductive PyFloat (F : Type) where
  | nan
  | infinity (negative : Bool)
  | finite (x : F)

inductive JsonValue (F : Type) where
  | null
  | bool (b : Bool)
  | int (n : ℤ)
  | float (x : PyFloat F)
  | str (t : Str)
  | list (items : List (JsonValue F))
  | dict (items : List (Str × JsonValue F))

variable {F : Type}

mutual
/-- Every object in the value has each key once. -/
def JsonValue.Distinct : JsonValue F → Prop
  | .list xs => AllDistinct xs
  | .dict items => (items.map Prod.fst).Nodup ∧ ItemsDistinct items
  | _ => True
def AllDistinct : List (JsonValue F) → Prop
  | [] => True
  | x :: xs => x.Distinct ∧ AllDistinct xs
def ItemsDistinct : List (Str × JsonValue F) → Prop
  | [] => True
  | (_, v) :: rest => v.Distinct ∧ ItemsDistinct rest
end

/-- The order of `sorted(items)` on items with different keys. -/
def KeyLe {β : Type*} (p q : Str × β) : Prop := p.1 ≤ q.1

instance {β : Type*} : DecidableRel (@KeyLe β) :=
  fun p q => inferInstanceAs (Decidable (p.1 ≤ q.1))

mutual
/-- The value with the keys of every object in order, as `sort_keys` writes them. -/
def JsonValue.sortKeys : JsonValue F → JsonValue F
  | .list xs => .list (sortAll xs)
  | .dict items => .dict ((sortItems items).insertionSort KeyLe)
  | .null => .null
  | .bool b => .bool b
  | .int n => .int n
  | .float x => .float x
  | .str t => .str t
def sortAll : List (JsonValue F) → List (JsonValue F)
  | [] => []
  | x :: xs => x.sortKeys :: sortAll xs
def sortItems : List (Str × JsonValue F) → List (Str × JsonValue F)
  | [] => []
  | (k, v) :: rest => (k, v.sortKeys) :: sortItems rest
end

/-! ## Numbers -/

def isDigit (c : ℕ) : Bool := decide (code '0' ≤ c ∧ c ≤ code '9')

/-- The groups of `NUMBER_RE`. -/
structure NumberMatch where
  integer : Str
  frac : Str := []
  exp : Str := []
  deriving DecidableEq

def takeSign (signs s : Str) : Str × Str :=
  match s with
  | c :: rest => if c ∈ signs then ([c], rest) else ([], s)
  | [] => ([], [])

def takeInteger : Str → Option (Str × Str)
  | [] => none
  | c :: rest =>
    if c = code '0' then some ([c], rest)
    else if isDigit c then some (c :: rest.takeWhile isDigit, rest.dropWhile isDigit)
    else none

def takeDigits : Str → Option (Str × Str)
  | [] => none
  | c :: rest =>
    if isDigit c then some (c :: rest.takeWhile isDigit, rest.dropWhile isDigit) else none

def takeFraction (s : Str) : Str × Str :=
  match s with
  | c :: rest =>
    match takeDigits rest with
    | some (digits, rest') => if c = code '.' then (c :: digits, rest') else ([], s)
    | none => ([], s)
  | [] => ([], [])

def takeExponent (s : Str) : Str × Str :=
  match s with
  | c :: rest =>
    match takeDigits (takeSign (text "+-") rest).2 with
    | some (digits, rest') =>
      if c ∈ text "eE" then (c :: (takeSign (text "+-") rest).1 ++ digits, rest') else ([], s)
    | none => ([], s)
  | [] => ([], [])

/-- `NUMBER_RE.match`, with the rest of the text. -/
def matchNumber (s : Str) : Option (NumberMatch × Str) :=
  (takeInteger (takeSign (text "-") s).2).map fun p =>
    (⟨(takeSign (text "-") s).1 ++ p.1, (takeFraction p.2).1, (takeExponent (takeFraction p.2).2).1⟩,
      (takeExponent (takeFraction p.2).2).2)

/-- The finite floats: `float(text)`, and `float.__repr__`, which is a literal of its value. -/
structure FloatText (F : Type) where
  ofText : Str → PyFloat F
  repr : F → Str
  literal : ∀ x, ∃ m, matchNumber (repr x) = some (m, []) ∧ (m.frac ≠ [] ∨ m.exp ≠ [])
  ofText_repr : ∀ x, ofText (repr x) = .finite x

/-- The text is a literal of a float. -/
def isFloatLiteral (t : Str) : Bool :=
  (matchNumber t).any fun p => decide (p.2 = [] ∧ (p.1.frac ≠ [] ∨ p.1.exp ≠ []))

/-- The literals themselves as floats, without rounding. -/
def literalFloats : FloatText {t : Str // isFloatLiteral t = true} where
  ofText t := if h : isFloatLiteral t = true then .finite ⟨t, h⟩ else .nan
  repr x := x.1
  literal x := by
    obtain ⟨⟨m, rest⟩, found, literal⟩ := (Option.any_eq_true _ _).mp x.2
    obtain ⟨rfl, fraction⟩ := of_decide_eq_true literal
    exact ⟨m, found, fraction⟩
  ofText_repr x := dif_pos x.2

/-- `int(text)` of decimal digits. -/
def natOfDigits (digits : Str) : ℕ := digits.foldl (fun n c => 10 * n + (c - code '0')) 0

def intOfText : Str → ℤ
  | [] => 0
  | c :: rest => if c = code '-' then -natOfDigits rest else natOfDigits (c :: rest)

def NumberMatch.toValue (fmt : FloatText F) (m : NumberMatch) : JsonValue F :=
  if m.frac = [] ∧ m.exp = [] then .int (intOfText m.integer)
  else .float (fmt.ofText (m.integer ++ m.frac ++ m.exp))

def natText (n : ℕ) : Str :=
  if n = 0 then [code '0'] else (Nat.digits 10 n).reverse.map fun d => code '0' + d

/-- `int.__repr__`. -/
def intText : ℤ → Str
  | .ofNat n => natText n
  | .negSucc n => code '-' :: natText (n + 1)

def floatText (fmt : FloatText F) : PyFloat F → Str
  | .nan => text "NaN"
  | .infinity false => text "Infinity"
  | .infinity true => text "-Infinity"
  | .finite x => fmt.repr x

/-! ## Strings -/

def hexDigit (n : ℕ) : ℕ := if n < 10 then code '0' + n else code 'a' + (n - 10)

/-- A character inside a JSON string, as `ESCAPE` and `ESCAPE_DCT` have it. -/
def escape (c : ℕ) : Str :=
  if c = code '\\' then [code '\\', code '\\']
  else if c = code '"' then [code '\\', code '"']
  else if c = code '\x08' then [code '\\', code 'b']
  else if c = code '\x0c' then [code '\\', code 'f']
  else if c = code '\n' then [code '\\', code 'n']
  else if c = code '\r' then [code '\\', code 'r']
  else if c = code '\t' then [code '\\', code 't']
  else if c < 0x20 then
    [code '\\', code 'u', code '0', code '0', hexDigit (c / 16), hexDigit (c % 16)]
  else [c]

def quote (t : Str) : Str := code '"' :: (t.flatMap escape ++ [code '"'])

def hexValue (c : ℕ) : Option ℕ :=
  if code '0' ≤ c ∧ c ≤ code '9' then some (c - code '0')
  else if code 'a' ≤ c ∧ c ≤ code 'f' then some (c - code 'a' + 10)
  else if code 'A' ≤ c ∧ c ≤ code 'F' then some (c - code 'A' + 10)
  else none

/-- `_decode_uXXXX`. -/
def decodeHex (a b c d : ℕ) : Option ℕ := do
  let a ← hexValue a
  let b ← hexValue b
  let c ← hexValue c
  let d ← hexValue d
  return ((a * 16 + b) * 16 + c) * 16 + d

/-- `BACKSLASH`. -/
def backslash (c : ℕ) : Option ℕ :=
  if c = code '"' then some (code '"')
  else if c = code '\\' then some (code '\\')
  else if c = code '/' then some (code '/')
  else if c = code 'b' then some (code '\x08')
  else if c = code 'f' then some (code '\x0c')
  else if c = code 'n' then some (code '\n')
  else if c = code 'r' then some (code '\r')
  else if c = code 't' then some (code '\t')
  else none

/-- `scanstring` from behind the opening quotation mark: the characters, and whether a
four-digit escape stands for each. -/
def scanUnits : Str → Option (List (Bool × ℕ) × Str)
  | [] => none
  | c :: rest =>
    if c = code '"' then some ([], rest)
    else if c = code '\\' then
      match rest with
      | [] => none
      | e :: rest =>
        if e = code 'u' then
          match rest with
          | h₁ :: h₂ :: h₃ :: h₄ :: rest =>
            match decodeHex h₁ h₂ h₃ h₄ with
            | some n => (scanUnits rest).map fun p => ((true, n) :: p.1, p.2)
            | none => none
          | _ => none
        else
          match backslash e with
          | some x => (scanUnits rest).map fun p => ((false, x) :: p.1, p.2)
          | none => none
    else if c < 0x20 then none
    else (scanUnits rest).map fun p => ((false, c) :: p.1, p.2)

/-- An escaped high surrogate and the escaped low one behind it are one character. -/
def joinSurrogates : List (Bool × ℕ) → Str
  | [] => []
  | [u] => [u.2]
  | u :: u' :: rest =>
    if (u.1 ∧ 0xd800 ≤ u.2 ∧ u.2 ≤ 0xdbff) ∧ u'.1 ∧ 0xdc00 ≤ u'.2 ∧ u'.2 ≤ 0xdfff then
      (0x10000 + (u.2 - 0xd800) * 0x400 + (u'.2 - 0xdc00)) :: joinSurrogates rest
    else u.2 :: joinSurrogates (u' :: rest)

def scanString (s : Str) : Option (Str × Str) :=
  (scanUnits s).map fun p => (joinSurrogates p.1, p.2)

/-! ## `dumps` -/

section Text

variable (fmt : FloatText F)

mutual
/-- The text of a value, its keys in the order they have. -/
def JsonValue.compact : JsonValue F → Str
  | .null => text "null"
  | .bool true => text "true"
  | .bool false => text "false"
  | .int n => intText n
  | .float x => floatText fmt x
  | .str t => quote t
  | .list [] => [code '[', code ']']
  | .list (x :: xs) => code '[' :: (x.compact ++ elementsText xs)
  | .dict [] => [code '{', code '}']
  | .dict ((k, v) :: rest) => code '{' :: (quote k ++ code ':' :: (v.compact ++ membersText rest))
def elementsText : List (JsonValue F) → Str
  | [] => [code ']']
  | x :: xs => code ',' :: (x.compact ++ elementsText xs)
def membersText : List (Str × JsonValue F) → Str
  | [] => [code '}']
  | (k, v) :: rest => code ',' :: (quote k ++ code ':' :: (v.compact ++ membersText rest))
end

def dumps (v : JsonValue F) : Str := v.sortKeys.compact fmt

/-! ## `loads` -/

def isSpace (c : ℕ) : Bool := decide (c ∈ text " \t\n\r")

def skipSpace (s : Str) : Str := s.dropWhile isSpace

/-- `dict(pairs)`. -/
def dictOf (pairs : List (Str × JsonValue F)) : List (Str × JsonValue F) :=
  (pairs.foldl (fun d p => d.set p.1 p.2) Dict.empty).items

def scanScalar (s : Str) : Option (JsonValue F × Str) :=
  if text "null" <+: s then some (.null, s.drop 4)
  else if text "true" <+: s then some (.bool true, s.drop 4)
  else if text "false" <+: s then some (.bool false, s.drop 5)
  else
    match matchNumber s with
    | some (m, rest) => some (m.toValue fmt, rest)
    | none =>
      if text "NaN" <+: s then some (.float .nan, s.drop 3)
      else if text "Infinity" <+: s then some (.float (.infinity false), s.drop 8)
      else if text "-Infinity" <+: s then some (.float (.infinity true), s.drop 9)
      else none

/-- A key, its quotation marks and the colon behind it. -/
def scanKey : Str → Option (Str × Str)
  | [] => none
  | c :: rest =>
    if c = code '"' then
      match scanString rest with
      | some (k, s) =>
        match skipSpace s with
        | d :: rest' => if d = code ':' then some (k, skipSpace rest') else none
        | [] => none
      | none => none
    else none

mutual
/-- `scan_once`. -/
def scanOnce : ℕ → Str → Option (JsonValue F × Str)
  | 0, _ => none
  | _ + 1, [] => none
  | fuel + 1, c :: rest =>
    if c = code '"' then (scanString rest).map fun p => (.str p.1, p.2)
    else if c = code '{' then
      match skipSpace rest with
      | d :: rest' =>
        if d = code '}' then some (.dict [], rest')
        else (scanMembers fuel (d :: rest')).map fun p => (.dict (dictOf p.1), p.2)
      | [] => none
    else if c = code '[' then
      match skipSpace rest with
      | d :: rest' =>
        if d = code ']' then some (.list [], rest')
        else (scanElements fuel (d :: rest')).map fun p => (.list p.1, p.2)
      | [] => none
    else scanScalar fmt (c :: rest)
/-- The elements of an array, from the first on. -/
def scanElements : ℕ → Str → Option (List (JsonValue F) × Str)
  | 0, _ => none
  | fuel + 1, s =>
    match scanOnce fuel s with
    | some (v, s) =>
      match skipSpace s with
      | c :: rest =>
        if c = code ']' then some ([v], rest)
        else if c = code ',' then
          (scanElements fuel (skipSpace rest)).map fun p => (v :: p.1, p.2)
        else none
      | [] => none
    | none => none
/-- The members of an object, from the first key on. -/
def scanMembers : ℕ → Str → Option (List (Str × JsonValue F) × Str)
  | 0, _ => none
  | fuel + 1, s =>
    match scanKey s with
    | some (k, s) =>
      match scanOnce fuel s with
      | some (v, s) =>
        match skipSpace s with
        | c :: rest =>
          if c = code '}' then some ([(k, v)], rest)
          else if c = code ',' then
            (scanMembers fuel (skipSpace rest)).map fun p => ((k, v) :: p.1, p.2)
          else none
        | [] => none
      | none => none
    | none => none
end

/-- `json.loads`; the text of a value is never nested deeper than it is long. -/
def loads (s : Str) : Option (JsonValue F) :=
  if s.head? = some 0xfeff then none
  else
    match scanOnce fmt (2 * s.length) (skipSpace s) with
    | some (v, rest) => if skipSpace rest = [] then some v else none
    | none => none

end Text

end PyJson
