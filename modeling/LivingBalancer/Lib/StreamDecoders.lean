import Mathlib.Data.List.Infix
import Mathlib.Tactic.Common

/-!
# Streaming decoders

Two interfaces of a decoder that gives its output piece by piece: a reader, and a decompressor
that is fed its input and told how much to put out. Their laws say that the pieces are the output
in order. The interfaces of a decoder that knows one stream are instances of both.
-/

namespace StreamDecoders

variable {α : Type}

/-- A reader that is read `size` at a time. `rest` is what it still delivers, and whether it then
comes to its end or raises. -/
structure Reader (α : Type) (size : ℕ) where
  State : Type
  start : List α → State
  /-- `none` if the read raises. -/
  read : State → Option (List α × State)
  rest : State → List α × Bool
  read_le : ∀ {s chunk s'}, read s = some (chunk, s') → chunk.length ≤ size
  read_none : ∀ {s}, read s = none → rest s = ([], false)
  read_nil : ∀ {s s'}, read s = some ([], s') → rest s = ([], true)
  read_cons : ∀ {s chunk s'}, read s = some (chunk, s') → chunk ≠ [] →
    rest s = (chunk ++ (rest s').1, (rest s').2)

/-- What the reader makes of an input, if it comes to its end. -/
def Reader.decode {size : ℕ} (r : Reader α size) (input : List α) : Option (List α) :=
  if (r.rest (r.start input)).2 then some (r.rest (r.start input)).1 else none

/-- A decompressor that puts out at most a given length and keeps the input it did not come to.
`future` is its whole further output for an input with which its stream ends. -/
structure Decompressor (α : Type) where
  State : Type
  start : State
  /-- `none` if the call raises. -/
  decompress : State → List α → ℕ → Option (List α × State)
  unconsumedTail : State → List α
  eof : State → Bool
  future : State → List α → Option (List α)
  length_le : ∀ {s input n out s'}, 0 < n → decompress s input n = some (out, s') → out.length ≤ n
  tail_suffix : ∀ {s input n out s'}, decompress s input n = some (out, s') →
    unconsumedTail s' <:+ input
  tail_full : ∀ {s input n out s'}, decompress s input n = some (out, s') →
    unconsumedTail s' ≠ [] → out.length = n
  future_error : ∀ {s input n}, 0 < n → decompress s input n = none →
    ∀ more, future s (input ++ more) = none
  future_step : ∀ {s input n out s'}, 0 < n → decompress s input n = some (out, s') →
    ∀ more, future s (input ++ more) = (future s' (unconsumedTail s' ++ more)).map (out ++ ·)
  drained : ∀ {s n s'}, 0 < n → decompress s [] n = some ([], s') →
    future s [] = if eof s' then some [] else none

def Decompressor.decode (d : Decompressor α) (input : List α) : Option (List α) :=
  d.future d.start input

theorem Decompressor.tail_length_le (d : Decompressor α) {s : d.State} {input : List α} {n : ℕ}
    {out : List α} {s' : d.State} (h : d.decompress s input n = some (out, s')) :
    (d.unconsumedTail s').length ≤ input.length := (d.tail_suffix h).length_le

theorem Decompressor.tail_nil (d : Decompressor α) {s : d.State} {n : ℕ} {out : List α}
    {s' : d.State} (h : d.decompress s [] n = some (out, s')) : d.unconsumedTail s' = [] :=
  List.suffix_nil.mp (d.tail_suffix h)

/-! ## One known stream -/

variable [DecidableEq α]

/-- A reader that delivers the content of one stream and raises on all others. -/
def Reader.known {size : ℕ} (some_ : 0 < size) (stream content : List α) : Reader α size where
  State := List α × Bool
  start input := if input = stream then (content, true) else ([], false)
  read s := if s.2 then some (s.1.take size, (s.1.drop size, true)) else none
  rest s := if s.2 then s else ([], false)
  read_le := by
    rintro ⟨left, last⟩ chunk s' h
    cases last with
    | false => cases h
    | true =>
      cases h
      exact List.length_take_le _ _
  read_none := by
    rintro ⟨left, last⟩ h
    cases last with
    | false => rfl
    | true => cases h
  read_nil := by
    rintro ⟨left, last⟩ s' h
    cases last with
    | false => cases h
    | true =>
      have empty : left.take size = [] := congrArg Prod.fst (Option.some.inj h)
      have none : left = [] := (List.take_eq_nil_iff.mp empty).resolve_left (by omega)
      rw [none]
      rfl
  read_cons := by
    rintro ⟨left, last⟩ chunk s' h -
    cases last with
    | false => cases h
    | true =>
      cases h
      simp

theorem Reader.known_rest {size : ℕ} (some_ : 0 < size) (stream content : List α) :
    (Reader.known some_ stream content).rest ((Reader.known some_ stream content).start stream) =
      (content, true) := by
  simp [Reader.known]

/-- A decompressor that knows one stream. It puts the content out once it has the whole stream,
and raises when the input leaves the stream. -/
def Decompressor.known (stream content : List α) : Decompressor α where
  State := List α × List α
  start := ([], content)
  decompress s input n :=
    if stream <+: s.1 ++ input then some (s.2.take n, (s.1 ++ input, s.2.drop n))
    else if s.1 ++ input <+: stream then some ([], (s.1 ++ input, s.2))
    else none
  unconsumedTail _ := []
  eof s := decide (stream <+: s.1 ∧ s.2 = [])
  future s input := if stream <+: s.1 ++ input then some s.2 else none
  length_le := by
    intro s input n out s' _ h
    split_ifs at h
    · cases h
      exact List.length_take_le _ _
    · cases h
      exact Nat.zero_le _
  tail_suffix _ := List.nil_suffix
  tail_full _ h := absurd rfl h
  future_error := by
    intro s input n _ h more
    split_ifs at h with whole part
    rw [if_neg]
    intro later
    rw [← List.append_assoc] at later
    rcases List.prefix_or_prefix_of_prefix later (List.prefix_append _ more) with ends | left
    · exact whole ends
    · exact part left
  future_step := by
    intro s input n out s' _ h more
    rw [← List.append_assoc, List.nil_append]
    split_ifs at h with whole part
    · cases h
      have later := whole.trans (List.prefix_append (s.1 ++ input) more)
      rw [if_pos later, if_pos later, Option.map_some, List.take_append_drop]
    · cases h
      split <;> rfl
  drained := by
    intro s n s' some_ h
    rw [List.append_nil] at h ⊢
    split_ifs at h with whole part
    · obtain ⟨empty, rfl⟩ := Prod.mk.inj (Option.some.inj h)
      have none : s.2 = [] := (List.take_eq_nil_iff.mp empty).resolve_left (by omega)
      simp [whole, none]
    · cases h
      simp [whole]

theorem Decompressor.known_decode (stream content : List α) :
    (Decompressor.known stream content).decode stream = some content := by
  simp [Decompressor.decode, Decompressor.known]

end StreamDecoders
