import LivingBalancer.Lib.Delimited
import LivingBalancer.Lib.PyText
import LivingBalancer.Lib.Utf8

/-!
# Event blocks of a forwarded stream

`_iter_sse_event_blocks` reads the stream of the owner with no timeout, for a consumer that
takes every block. A chunk that leaves a delimiter or a character unfinished leaves it in the
buffer, so the blocks are those of one pass over the whole stream. Decoding is strict: bytes
that are no UTF-8 end the stream by an error, after the blocks before them.
-/

namespace ForwardStream

open Delimited Utf8

def delimiter : List UInt8 := [10, 10]

/-- The bytes that `bytes.strip` removes. -/
def isSpace (b : UInt8) : Bool := b == 32 || (9 ≤ b && b ≤ 13)

def strip (b : List UInt8) : List UInt8 := (b.dropWhile isSpace).rdropWhile isSpace

inductive Ending where
  | exhausted
  | unicodeDecodeError
  deriving DecidableEq

/-- `f"{text}\n\n"`, yielded before the later blocks if there is a text. -/
def yieldBlock (text : Text) (later : List Text) : List Text :=
  if text = [] then later else (text ++ ['\n', '\n']) :: later

/-- `while b"\n\n" in buffer`: what it yields, and the buffer it leaves; `none` when a block
does not decode. -/
def drain (buffer : List UInt8) : List Text × Option (List UInt8) :=
  match _found : cut delimiter buffer with
  | none => ([], some buffer)
  | some (raw, tail) =>
    match decode raw with
    | none => ([], none)
    | some text => (yieldBlock text (drain tail).1, (drain tail).2)
termination_by buffer.length
decreasing_by all_goals exact cut_shorter (by decide) _found

/-- `_iter_sse_event_blocks` from a buffer on. -/
def iterSseEventBlocks : List (List UInt8) → List UInt8 → List Text × Ending
  | [], buffer =>
    if strip buffer = [] then ([], .exhausted)
    else
      match decode buffer with
      | none => ([], .unicodeDecodeError)
      | some text => ([text], .exhausted)
  | chunk :: chunks, buffer =>
    if chunk = [] then iterSseEventBlocks chunks buffer
    else
      match drain (buffer ++ chunk) with
      | (yielded, none) => (yielded, .unicodeDecodeError)
      | (yielded, some left) =>
        (yielded ++ (iterSseEventBlocks chunks left).1, (iterSseEventBlocks chunks left).2)

/-! ## One pass -/

theorem drain_open {s : List UInt8} (h : cut delimiter s = none) : drain s = ([], some s) := by
  rw [drain]
  split
  · rfl
  · rename_i found
    cases h.symm.trans found

theorem drain_block {s raw tail : List UInt8} (h : cut delimiter s = some (raw, tail)) :
    drain s = match decode raw with
      | none => ([], none)
      | some text => (yieldBlock text (drain tail).1, (drain tail).2) := by
  rw [drain]
  split
  · rename_i missing
    cases h.symm.trans missing
  · rename_i found
    cases h.symm.trans found
    rfl

/-- What the pieces of a stream yield, one after another. -/
def frames : List (List UInt8) → List UInt8 → List Text × Ending
  | [], rest => iterSseEventBlocks [] rest
  | raw :: blocks, rest =>
    match decode raw with
    | none => ([], .unicodeDecodeError)
    | some text => (yieldBlock text (frames blocks rest).1, (frames blocks rest).2)

theorem yieldBlock_append (text : Text) (later after : List Text) :
    yieldBlock text (later ++ after) = yieldBlock text later ++ after := by
  unfold yieldBlock
  split <;> rfl

/-- Draining the first part of a stream leaves the pieces that are still to come. -/
theorem drain_pieces {s t rest : List UInt8} {blocks : List (List UInt8)}
    (pieces : Pieces delimiter (s ++ t) blocks rest) :
    (∃ yielded, drain s = (yielded, none) ∧ frames blocks rest = (yielded, .unicodeDecodeError)) ∨
      ∃ yielded left later, drain s = (yielded, some left) ∧ cut delimiter left = none ∧
        Pieces delimiter (left ++ t) later rest ∧
        frames blocks rest = (yielded ++ (frames later rest).1, (frames later rest).2) := by
  induction size : s.length using Nat.strongRecOn generalizing s blocks with
  | ind n ih =>
    cases h : cut delimiter s with
    | none => exact Or.inr ⟨[], s, blocks, drain_open h, h, pieces, rfl⟩
    | some found =>
      obtain ⟨raw, tail⟩ := found
      have whole := cut_append h t
      cases pieces with
      | rest none_left => cases whole.symm.trans none_left
      | block found' pieces =>
        cases whole.symm.trans found'
        rw [drain_block h]
        simp only [frames]
        cases decode raw with
        | none => exact Or.inl ⟨[], rfl, rfl⟩
        | some text =>
          rcases ih tail.length (size ▸ cut_shorter (by decide) h) pieces rfl with
            ⟨yielded, drained, later⟩ | ⟨yielded, left, later, drained, open_, pieces, after⟩
          · refine Or.inl ⟨yieldBlock text yielded, ?_, ?_⟩
            · rw [drained]
            · rw [later]
          · refine Or.inr ⟨yieldBlock text yielded, left, later, ?_, open_, pieces, ?_⟩
            · rw [drained]
            · simp only [after, yieldBlock_append]

/-- However a stream is cut into chunks, its blocks are those of its pieces. -/
theorem iterSseEventBlocks_eq {chunks : List (List UInt8)} {buffer rest : List UInt8}
    {blocks : List (List UInt8)} (open_ : cut delimiter buffer = none)
    (pieces : Pieces delimiter (buffer ++ chunks.flatten) blocks rest) :
    iterSseEventBlocks chunks buffer = frames blocks rest := by
  induction chunks generalizing buffer blocks with
  | nil =>
    rw [List.flatten_nil, List.append_nil] at pieces
    cases pieces with
    | rest => rfl
    | block found => cases open_.symm.trans found
  | cons chunk chunks ih =>
    rw [List.flatten_cons, ← List.append_assoc] at pieces
    rw [iterSseEventBlocks]
    by_cases empty : chunk = []
    · subst empty
      rw [List.append_nil] at pieces
      rw [if_pos rfl, ih open_ pieces]
    · rw [if_neg empty]
      rcases drain_pieces pieces with
        ⟨yielded, drained, failed⟩ | ⟨yielded, left, later, drained, open_, pieces, after⟩
      · rw [drained, failed]
      · rw [drained, after]
        simp only [ih open_ pieces]

theorem iterSseEventBlocks_pieces (chunks : List (List UInt8)) :
    ∃ blocks rest, Pieces delimiter chunks.flatten blocks rest ∧
      iterSseEventBlocks chunks [] = frames blocks rest := by
  have some_sep : delimiter ≠ [] := by decide
  obtain ⟨blocks, rest, pieces⟩ := Pieces.exists some_sep chunks.flatten
  exact ⟨blocks, rest, pieces, iterSseEventBlocks_eq rfl pieces⟩

/-! ## What is yielded of a stream -/

/-- The blocks of a stream without the empty ones, and the rest unless it is blank. -/
def kept (blocks : List (List UInt8)) (rest : List UInt8) : List (List UInt8) :=
  ((blocks.filter fun raw => raw ≠ []).map fun raw => raw ++ delimiter) ++
    if strip rest = [] then [] else [rest]

theorem encode_flatten (texts : List Text) : encode texts.flatten = (texts.map encode).flatten := by
  induction texts with
  | nil => rfl
  | cons text texts ih => rw [List.flatten_cons, encode_append, ih, List.map_cons, List.flatten_cons]

theorem map_encode_yieldBlock {raw : List UInt8} {text : Text} (h : decode raw = some text)
    (later : List Text) :
    (yieldBlock text later).map encode =
      (([raw].filter fun raw => raw ≠ []).map fun raw => raw ++ delimiter) ++ later.map encode := by
  rw [decode_eq_some] at h
  subst h
  cases text with
  | nil => rfl
  | cons c text =>
    have some_byte : encode (c :: text) ≠ [] := by
      rw [encode, List.flatMap_cons]
      exact List.append_ne_nil_of_left_ne_nil String.utf8EncodeChar_ne_nil _
    rw [yieldBlock, if_neg (List.cons_ne_nil c text), List.map_cons, encode_append]
    simp [some_byte]
    rfl

/-- Blank bytes are ASCII. -/
theorem isSome_decode_blank {b : List UInt8} (blank : strip b = []) : (decode b).isSome := by
  have spaces : ∀ x ∈ b, isSpace x = true := by
    rw [strip, List.rdropWhile_eq_nil_iff] at blank
    rw [← List.dropWhile_eq_nil_iff]
    by_contra left
    have inked := List.head_dropWhile_not isSpace left
    rw [blank _ (List.head_mem left)] at inked
    cases inked
  clear blank
  induction b with
  | nil => rfl
  | cons x b ih =>
    have ascii : x < 128 := by
      have space := spaces x List.mem_cons_self
      simp only [isSpace, Bool.or_eq_true, beq_iff_eq, Bool.and_eq_true, decide_eq_true_eq] at space
      rcases space with rfl | ⟨-, high⟩
      · decide
      · exact UInt8.lt_of_le_of_lt high (by decide)
    rw [← List.nil_append (x :: b), isSome_decode_split ascii]
    exact ⟨rfl, ih fun y h => spaces y (List.mem_cons_of_mem x h)⟩

/-- A stream is UTF-8 exactly when its pieces are. -/
theorem isSome_decode_pieces {s rest : List UInt8} {blocks : List (List UInt8)}
    (h : Pieces delimiter s blocks rest) :
    (decode s).isSome ↔ (∀ raw ∈ blocks, (decode raw).isSome) ∧ (decode rest).isSome := by
  induction h with
  | rest => simp
  | @block s raw tail blocks rest found _ ih =>
    have whole : s = raw ++ 10 :: ([] ++ 10 :: tail) := by
      rw [cut_eq_some found, List.append_assoc]
      rfl
    rw [whole, isSome_decode_split (by decide), isSome_decode_split (by decide), ih,
      List.forall_mem_cons, and_assoc]
    exact and_congr_right fun _ => and_iff_right rfl

theorem frames_decoded {blocks : List (List UInt8)} {rest : List UInt8}
    (decodes : ∀ raw ∈ blocks, (decode raw).isSome) (rest_decodes : (decode rest).isSome) :
    (frames blocks rest).2 = .exhausted ∧ (frames blocks rest).1.map encode = kept blocks rest := by
  induction blocks with
  | nil =>
    rw [frames, iterSseEventBlocks, kept]
    by_cases blank : strip rest = []
    · rw [if_pos blank, if_pos blank]
      exact ⟨rfl, rfl⟩
    · obtain ⟨text, h⟩ := Option.isSome_iff_exists.mp rest_decodes
      rw [if_neg blank, if_neg blank, h]
      rw [decode_eq_some] at h
      subst h
      exact ⟨rfl, rfl⟩
  | cons raw blocks ih =>
    rw [List.forall_mem_cons] at decodes
    obtain ⟨text, h⟩ := Option.isSome_iff_exists.mp decodes.1
    obtain ⟨exhausted, yields⟩ := ih decodes.2
    rw [frames, h]
    refine ⟨exhausted, ?_⟩
    rw [map_encode_yieldBlock h, yields, kept, kept, ← List.append_assoc, ← List.map_append,
      ← List.filter_append, List.singleton_append]

/-- The first piece that does not decode ends the stream. -/
theorem frames_failed {blocks : List (List UInt8)} {rest : List UInt8}
    (fails : ¬ ((∀ raw ∈ blocks, (decode raw).isSome) ∧ (decode rest).isSome)) :
    ∃ done bad later, blocks ++ [rest] = done ++ bad :: later ∧
      (∀ raw ∈ done, (decode raw).isSome) ∧ decode bad = none ∧
      (frames blocks rest).2 = .unicodeDecodeError ∧
      (frames blocks rest).1.map encode = kept done [] := by
  induction blocks with
  | nil =>
    have bad : decode rest = none := by simpa using fails
    have inked : strip rest ≠ [] := by
      intro blank
      have decodes := isSome_decode_blank blank
      rw [bad] at decodes
      cases decodes
    refine ⟨[], rest, [], rfl, nofun, bad, ?_⟩
    rw [frames, iterSseEventBlocks, if_neg inked, bad]
    exact ⟨rfl, rfl⟩
  | cons raw blocks ih =>
    rw [frames]
    cases h : decode raw with
    | none => exact ⟨[], raw, blocks ++ [rest], rfl, nofun, h, rfl, rfl⟩
    | some text =>
      rw [List.forall_mem_cons, h, and_assoc] at fails
      obtain ⟨done, bad, later, split, decodes, failed, ending, yields⟩ :=
        ih fun decodes => fails ⟨rfl, decodes⟩
      refine ⟨raw :: done, bad, later, by rw [List.cons_append, split, List.cons_append], ?_, failed,
        ending, ?_⟩
      · rw [List.forall_mem_cons, h]
        exact ⟨rfl, decodes⟩
      · rw [map_encode_yieldBlock h, yields, kept, kept, ← List.append_assoc, ← List.map_append,
          ← List.filter_append, List.singleton_append]

/-! ## The framing -/

/-- Chunks do not matter, and a stream of UTF-8 comes out as it came in, without its empty
blocks and a blank rest. Any other stream ends at its first piece that does not decode. -/
theorem stream_framing (chunks : List (List UInt8)) :
    (∀ chunks' : List (List UInt8), chunks'.flatten = chunks.flatten →
      iterSseEventBlocks chunks' [] = iterSseEventBlocks chunks []) ∧
    ∃ blocks rest, Pieces delimiter chunks.flatten blocks rest ∧
      ((decode chunks.flatten).isSome →
        (iterSseEventBlocks chunks []).2 = .exhausted ∧
        (iterSseEventBlocks chunks []).1.map encode = kept blocks rest ∧
        encode (iterSseEventBlocks chunks []).1.flatten = (kept blocks rest).flatten) ∧
      (decode chunks.flatten = none → ∃ done bad later, blocks ++ [rest] = done ++ bad :: later ∧
        (∀ raw ∈ done, (decode raw).isSome) ∧ decode bad = none ∧
        (iterSseEventBlocks chunks []).2 = .unicodeDecodeError ∧
        (iterSseEventBlocks chunks []).1.map encode = kept done []) := by
  obtain ⟨blocks, rest, pieces, yields⟩ := iterSseEventBlocks_pieces chunks
  refine ⟨?_, blocks, rest, pieces, ?_, ?_⟩
  · intro chunks' same
    rw [yields]
    exact iterSseEventBlocks_eq rfl (by rwa [List.nil_append, same])
  · intro decodes
    rw [isSome_decode_pieces pieces] at decodes
    obtain ⟨exhausted, texts⟩ := frames_decoded decodes.1 decodes.2
    rw [yields]
    exact ⟨exhausted, texts, by rw [encode_flatten, texts]⟩
  · intro fails
    rw [yields]
    refine frames_failed ?_
    rw [← isSome_decode_pieces pieces, fails]
    exact Bool.false_ne_true

/-- A block that is no UTF-8 is lost, and everything behind it. -/
theorem broken_block_lost :
    ¬ ∀ chunks : List (List UInt8), ∃ blocks rest, Pieces delimiter chunks.flatten blocks rest ∧
      encode (iterSseEventBlocks chunks []).1.flatten = (kept blocks rest).flatten := by
  intro claim
  obtain ⟨blocks, rest, pieces, whole⟩ := claim [[0xff, 10, 10]]
  have found : cut delimiter [0xff, 10, 10] = some ([0xff], []) := by decide
  have bad : decode [0xff] = none := by decide +kernel
  have yielded : iterSseEventBlocks [[0xff, 10, 10]] [] = ([], .unicodeDecodeError) := by
    rw [iterSseEventBlocks, if_neg (by decide), List.nil_append, drain_block found, bad]
  rw [yielded] at whole
  cases pieces with
  | rest none_left => cases found.symm.trans none_left
  | block found' pieces =>
    cases found.symm.trans found'
    simp [kept, delimiter, encode] at whole

end ForwardStream
