import LivingBalancer.Lib.StreamDecoders

/-!
# Decompression of request bodies

`_decompress_body` runs the encodings of a request body backwards, each bounded by `max_size`.
The gzip, zlib and zstd decoders are parameters with the laws of their interfaces. A loop comes
with the number of decoded bytes that it held when it ended; it holds no more before that.
-/

namespace BodyDecompression

open StreamDecoders

abbrev Bytes := List UInt8

/-- `chunk_size`. -/
def chunkSize : ℕ := 64 * 1024

/-- What a decompression raises. -/
inductive Failure
  | tooLarge (maxSize : ℕ)
  | decoder
  | incomplete
  | unsupported
  deriving DecidableEq

structure Loop (β : Type) where
  result : Except Failure β
  held : ℕ

inductive Encoding
  | zstd
  | gzip
  | deflate
  | identity
  deriving DecidableEq

def Encoding.name : Encoding → String
  | .zstd => "zstd"
  | .gzip => "gzip"
  | .deflate => "deflate"
  | .identity => "identity"

/-- `encoding in supported`. -/
def Encoding.ofName (name : String) : Option Encoding :=
  if name = "zstd" then some .zstd
  else if name = "gzip" then some .gzip
  else if name = "deflate" then some .deflate
  else if name = "identity" then some .identity
  else none

/-- The decoders. `decompress` of zstd is the call on a whole frame, with `max_output_size`; what
it returns is what its reader delivers. -/
structure Decoders where
  gzip : Reader UInt8 chunkSize
  zlib : Decompressor UInt8
  zstd : Reader UInt8 chunkSize
  zstdDecompress : Bytes → ℕ → Option Bytes
  zstd_whole : ∀ {data n out}, zstdDecompress data n = some out → zstd.decode data = some out

/-! ## The loops -/

/-- `_read_limited`, from a state of the reader and a buffer. -/
def readLimited (r : Reader UInt8 chunkSize) (maxSize : ℕ) (s : r.State) (buffer : Bytes) :
    Loop Bytes :=
  match r.read s with
  | none => ⟨.error .decoder, buffer.length⟩
  | some (chunk, s') =>
    if chunk = [] then ⟨.ok buffer, buffer.length⟩
    else if maxSize < buffer.length + chunk.length then
      ⟨.error (.tooLarge maxSize), buffer.length + chunk.length⟩
    else readLimited r maxSize s' (buffer ++ chunk)
termination_by maxSize - buffer.length
decreasing_by
  have := List.length_pos_iff.mpr ‹¬ chunk = []›
  rw [List.length_append]
  omega

/-- `_decompress_gzip`. -/
def decompressGzip (r : Reader UInt8 chunkSize) (data : Bytes) (maxSize : ℕ) : Loop Bytes :=
  readLimited r maxSize (r.start data) []

section Deflate

variable (d : Decompressor UInt8) (maxSize : ℕ)

/-- The loop over a chunk and what is left of it. -/
def whileChunk (s : d.State) (chunk buffer : Bytes) : Loop (Bytes × d.State) :=
  if chunk = [] then ⟨.ok (buffer, s), buffer.length⟩
  else if maxSize - buffer.length = 0 then ⟨.error (.tooLarge maxSize), buffer.length⟩
  else
    match _call : d.decompress s chunk (maxSize - buffer.length) with
    | none => ⟨.error .decoder, buffer.length⟩
    | some (out, s') => whileChunk s' (d.unconsumedTail s') (buffer ++ out)
termination_by maxSize - buffer.length + chunk.length
decreasing_by
  -- The tail is empty, or the output has reached its limit.
  have shorter := d.tail_length_le _call
  have some_ := List.length_pos_iff.mpr ‹¬ chunk = []›
  rw [List.length_append]
  by_cases tail : d.unconsumedTail s' = []
  · rw [tail, List.length_nil]
    omega
  · have full := d.tail_full _call tail
    omega

/-- The loop over the chunks of the data. -/
def feed (s : d.State) (data buffer : Bytes) : Loop (Bytes × d.State) :=
  if data = [] then ⟨.ok (buffer, s), buffer.length⟩
  else
    match whileChunk d maxSize s (data.take chunkSize) buffer with
    | ⟨.error e, held⟩ => ⟨.error e, held⟩
    | ⟨.ok (buffer', s'), _⟩ => feed s' (data.drop chunkSize) buffer'
termination_by data.length
decreasing_by
  have some_ := List.length_pos_iff.mpr ‹¬ data = []›
  have size : 0 < chunkSize := by decide
  rw [List.length_drop]
  omega

/-- The loop that drains the decompressor, with the check of the end of the stream. -/
def drain (s : d.State) (buffer : Bytes) : Loop Bytes :=
  if maxSize - buffer.length = 0 then ⟨.error (.tooLarge maxSize), buffer.length⟩
  else
    match d.decompress s [] (maxSize - buffer.length) with
    | none => ⟨.error .decoder, buffer.length⟩
    | some (drained, s') =>
      if drained = [] then
        ⟨if d.eof s' then .ok buffer else .error .incomplete, buffer.length⟩
      else drain s' (buffer ++ drained)
termination_by maxSize - buffer.length
decreasing_by
  have some_ := List.length_pos_iff.mpr ‹¬ drained = []›
  rw [List.length_append]
  omega

/-- `_decompress_deflate`. -/
def decompressDeflate (data : Bytes) : Loop Bytes :=
  match feed d maxSize d.start data [] with
  | ⟨.error e, held⟩ => ⟨.error e, held⟩
  | ⟨.ok (buffer, s), _⟩ => drain d maxSize s buffer

end Deflate

/-- `_decompress_zstd`; any exception of the call leads to the reader. -/
def decompressZstd (dec : Decoders) (data : Bytes) (maxSize : ℕ) : Except Failure Bytes :=
  match dec.zstdDecompress data maxSize with
  | some decompressed =>
    if maxSize < decompressed.length then .error (.tooLarge maxSize) else .ok decompressed
  | none => (readLimited dec.zstd maxSize (dec.zstd.start data) []).result

/-- A turn of the loop of `_decompress_body`; `held` is of the gzip and deflate paths. -/
def runStage (dec : Decoders) (maxSize : ℕ) (encoding : Encoding) (data : Bytes) : Loop Bytes :=
  match encoding with
  | .zstd => ⟨decompressZstd dec data maxSize, 0⟩
  | .gzip => decompressGzip dec.gzip data maxSize
  | .deflate => decompressDeflate dec.zlib maxSize data
  | .identity => ⟨.ok data, 0⟩

def runStages (dec : Decoders) (maxSize : ℕ) : List Encoding → Bytes → Loop Bytes
  | [], data => ⟨.ok data, 0⟩
  | encoding :: rest, data =>
    match runStage dec maxSize encoding data with
    | ⟨.error e, held⟩ => ⟨.error e, held⟩
    | ⟨.ok result, held⟩ =>
      ⟨(runStages dec maxSize rest result).result,
        max held (runStages dec maxSize rest result).held⟩

/-- `_decompress_body`. -/
def decompressBody (dec : Decoders) (data : Bytes) (encodings : List String) (maxSize : ℕ) :
    Loop Bytes :=
  match encodings.mapM Encoding.ofName with
  | none => ⟨.error .unsupported, 0⟩
  | some supported => runStages dec maxSize supported.reverse data

/-! ## What the limit promises -/

/-- What a stage decodes its input to. -/
def decode (dec : Decoders) (encoding : Encoding) (data : Bytes) : Option Bytes :=
  match encoding with
  | .zstd => dec.zstd.decode data
  | .gzip => dec.gzip.decode data
  | .deflate => dec.zlib.decode data
  | .identity => some data

/-- The body after stages that all decode to at most `maxSize` bytes. -/
def decoded (dec : Decoders) (maxSize : ℕ) : List Encoding → Bytes → Option Bytes
  | [], data => some data
  | encoding :: rest, data => (decode dec encoding data).bind fun out =>
      if out.length ≤ maxSize then decoded dec maxSize rest out else none

/-- The first failing stage decodes to more than `maxSize` bytes. -/
def Oversize (dec : Decoders) (maxSize : ℕ) : List Encoding → Bytes → Prop
  | [], _ => False
  | encoding :: rest, data => ∃ out, decode dec encoding data = some out ∧
      (out.length ≤ maxSize → Oversize dec maxSize rest out)

/-- The stages with their inputs, up to the first that fails. -/
def reached (dec : Decoders) (maxSize : ℕ) : List Encoding → Bytes → List (Encoding × Bytes)
  | [], _ => []
  | encoding :: rest, data => (encoding, data) ::
      match decode dec encoding data with
      | none => []
      | some out => if out.length ≤ maxSize then reached dec maxSize rest out else []

/-- The body is decoded if it fits, and too large if it is the size that fails; and every stage
has the boundary at `maxSize`. -/
def LimitExact (dec : Decoders) (maxSize : ℕ) (encodings : List Encoding) (data : Bytes) : Prop :=
  (∀ out, (decompressBody dec data (encodings.map Encoding.name) maxSize).result = .ok out ↔
    decoded dec maxSize encodings.reverse data = some out) ∧
  (Oversize dec maxSize encodings.reverse data →
    (decompressBody dec data (encodings.map Encoding.name) maxSize).result =
      .error (.tooLarge maxSize)) ∧
  ∀ p ∈ reached dec maxSize encodings.reverse data, ∀ out, decode dec p.1 p.2 = some out →
    ((runStage dec maxSize p.1 p.2).result = .ok out ↔ out.length ≤ maxSize)

/-- The stage is no deflate stage that decodes to exactly `maxSize` bytes, and no identity stage
with a longer input. -/
def StageOff (dec : Decoders) (maxSize : ℕ) (p : Encoding × Bytes) : Prop :=
  (p.1 = .deflate → ∀ out, dec.zlib.decode p.2 = some out → out.length ≠ maxSize) ∧
  (p.1 = .identity → p.2.length ≤ maxSize)

def OffBoundary (dec : Decoders) (maxSize : ℕ) (encodings : List Encoding) (data : Bytes) : Prop :=
  ∀ p ∈ reached dec maxSize encodings.reverse data, StageOff dec maxSize p

/-- No gzip stage delivers more than `maxSize` bytes. -/
def GzipFits (dec : Decoders) (maxSize : ℕ) (encodings : List Encoding) (data : Bytes) : Prop :=
  ∀ p ∈ reached dec maxSize encodings.reverse data, p.1 = .gzip →
    (dec.gzip.rest (dec.gzip.start p.2)).1.length ≤ maxSize

/-! ## Readers -/

/-- What the reader delivers fits, and is returned if it comes to its end, or it is too large. -/
theorem readLimited_spec (r : Reader UInt8 chunkSize) {maxSize : ℕ} (s : r.State) (buffer : Bytes)
    (fits : buffer.length ≤ maxSize) :
    (buffer.length + (r.rest s).1.length ≤ maxSize →
      (readLimited r maxSize s buffer).result =
        (if (r.rest s).2 then .ok (buffer ++ (r.rest s).1) else .error .decoder) ∧
      (readLimited r maxSize s buffer).held ≤ maxSize) ∧
    (maxSize < buffer.length + (r.rest s).1.length →
      (readLimited r maxSize s buffer).result = .error (.tooLarge maxSize) ∧
      maxSize < (readLimited r maxSize s buffer).held) := by
  fun_induction readLimited r maxSize s buffer with
  | case1 s buffer raises =>
    rw [r.read_none raises]
    exact ⟨fun _ => ⟨rfl, fits⟩, fun exceeds => absurd fits (not_le.mpr exceeds)⟩
  | case2 s buffer s' ends =>
    rw [r.read_nil ends]
    exact ⟨fun _ => ⟨congrArg _ (List.append_nil _).symm, fits⟩,
      fun exceeds => absurd fits (not_le.mpr exceeds)⟩
  | case3 s buffer chunk s' call some_ large =>
    rw [r.read_cons call some_, List.length_append]
    exact ⟨fun small => absurd large (by omega), fun _ => ⟨rfl, large⟩⟩
  | case4 s buffer chunk s' call some_ small ih =>
    have fits' : (buffer ++ chunk).length ≤ maxSize := by
      rw [List.length_append]
      omega
    rw [r.read_cons call some_, List.length_append, ← Nat.add_assoc, ← List.length_append,
      ← List.append_assoc]
    exact ih fits'

theorem decode_eq_some {r : Reader UInt8 chunkSize} {data out : Bytes} :
    r.decode data = some out ↔ r.rest (r.start data) = (out, true) := by
  rw [Reader.decode]
  obtain ⟨bytes, ended⟩ := r.rest (r.start data)
  cases ended <;> simp

/-- A bounded read from the start gives the decoded bytes if they fit. -/
theorem readLimited_start (r : Reader UInt8 chunkSize) (maxSize : ℕ) (data : Bytes) :
    (∀ out, (readLimited r maxSize (r.start data) []).result = .ok out ↔
      r.decode data = some out ∧ out.length ≤ maxSize) ∧
    (∀ out, r.decode data = some out → maxSize < out.length →
      (readLimited r maxSize (r.start data) []).result = .error (.tooLarge maxSize)) ∧
    ((readLimited r maxSize (r.start data) []).held ≤ maxSize ↔
      (r.rest (r.start data)).1.length ≤ maxSize) := by
  have spec := readLimited_spec r (r.start data) [] (Nat.zero_le maxSize)
  simp only [List.length_nil, Nat.zero_add, List.nil_append] at spec
  obtain ⟨small, large⟩ := spec
  refine ⟨fun out => ?_, fun out whole exceeds => ?_, ?_⟩
  · rw [decode_eq_some]
    by_cases fits : (r.rest (r.start data)).1.length ≤ maxSize
    · rw [(small fits).1]
      revert fits
      obtain ⟨bytes, ended⟩ := r.rest (r.start data)
      intro fits
      cases ended with
      | false => simp
      | true =>
        simp only [if_true, Except.ok.injEq, Prod.mk.injEq, and_true]
        exact ⟨fun same => ⟨same, same ▸ fits⟩, fun both => both.1⟩
    · rw [(large (not_le.mp fits)).1]
      refine iff_of_false nofun fun both => fits ?_
      rw [both.1]
      exact both.2
  · rw [decode_eq_some] at whole
    refine (large ?_).1
    rw [whole]
    exact exceeds
  · by_cases fits : (r.rest (r.start data)).1.length ≤ maxSize
    · exact iff_of_true (small fits).2 fits
    · exact iff_of_false (not_le.mpr (large (not_le.mp fits)).2) fits

/-! ## The decompressor -/

section Deflate

variable {d : Decompressor UInt8} {maxSize : ℕ}

/-- The loop puts the buffer's bytes before the output `f` of the stream: it goes on with what
remains of it, and for a good stream it raises only when the buffer is full. -/
structure Follows (d : Decompressor UInt8) (maxSize : ℕ) (buffer : Bytes)
    (f : Bytes → Option Bytes) (run : Loop (Bytes × d.State)) : Prop where
  held : run.held ≤ maxSize
  ok : ∀ {buffer' s'}, run.result = .ok (buffer', s') → buffer'.length ≤ maxSize ∧
    ∃ out, buffer' = buffer ++ out ∧ ∀ more, f more = (d.future s' more).map (out ++ ·)
  error : ∀ {e}, run.result = .error e → ∀ {more bytes}, f more = some bytes →
    e = .tooLarge maxSize ∧ maxSize ≤ buffer.length + bytes.length

/-- What follows after some output follows before it. -/
theorem Follows.after {buffer out : Bytes} {f g : Bytes → Option Bytes}
    {run : Loop (Bytes × d.State)} (h : Follows d maxSize (buffer ++ out) g run)
    (split : ∀ more, f more = (g more).map (out ++ ·)) : Follows d maxSize buffer f run where
  held := h.held
  ok done := by
    obtain ⟨fits, later, same, rest⟩ := h.ok done
    refine ⟨fits, out ++ later, by rw [same, List.append_assoc], fun more => ?_⟩
    rw [split, rest, Option.map_map]
    exact congrArg (Option.map · _) (funext fun bytes => (List.append_assoc _ _ _).symm)
  error failed more bytes whole := by
    rw [split, Option.map_eq_some_iff] at whole
    obtain ⟨later, found, rfl⟩ := whole
    have bound := h.error failed found
    rw [List.length_append, Nat.add_assoc, ← List.length_append] at bound
    exact bound

theorem whileChunk_follows (s : d.State) (chunk buffer : Bytes) (fits : buffer.length ≤ maxSize) :
    Follows d maxSize buffer (fun more => d.future s (chunk ++ more))
      (whileChunk d maxSize s chunk buffer) := by
  fun_induction whileChunk d maxSize s chunk buffer with
  | case1 s buffer =>
    refine ⟨fits, fun done => ?_, nofun⟩
    cases done
    exact ⟨fits, [], (List.append_nil _).symm, fun more => Option.map_id'.symm⟩
  | case2 s chunk buffer some_ full =>
    refine ⟨fits, nofun, fun failed => ?_⟩
    cases failed
    exact fun _ => ⟨rfl, by omega⟩
  | case3 s chunk buffer some_ room raises =>
    refine ⟨fits, nofun, fun failed more bytes whole => ?_⟩
    rw [d.future_error (by omega) raises] at whole
    cases whole
  | case4 s chunk buffer some_ room out s' call ih =>
    have bound := d.length_le (by omega) call
    have fits' : (buffer ++ out).length ≤ maxSize := by
      rw [List.length_append]
      omega
    exact (ih fits').after (d.future_step (by omega) call)

theorem feed_follows (s : d.State) (data buffer : Bytes) (fits : buffer.length ≤ maxSize) :
    Follows d maxSize buffer (fun more => d.future s (data ++ more))
      (feed d maxSize s data buffer) := by
  fun_induction feed d maxSize s data buffer with
  | case1 s buffer =>
    refine ⟨fits, fun done => ?_, nofun⟩
    cases done
    exact ⟨fits, [], (List.append_nil _).symm, fun more => Option.map_id'.symm⟩
  | case2 s data buffer some_ e held stopped =>
    have chunk := whileChunk_follows s (data.take chunkSize) buffer fits
    rw [stopped] at chunk
    refine ⟨chunk.held, nofun, fun failed more bytes whole => ?_⟩
    rw [← List.take_append_drop chunkSize data, List.append_assoc] at whole
    cases failed
    exact chunk.error rfl whole
  | case3 s data buffer some_ buffer' s' held went ih =>
    have chunk := whileChunk_follows s (data.take chunkSize) buffer fits
    rw [went] at chunk
    obtain ⟨fits', out, rfl, rest⟩ := chunk.ok rfl
    refine (ih fits').after fun more => ?_
    rw [← rest, ← List.append_assoc, List.take_append_drop]

/-- Draining gives the bytes still to come if the stream is complete and they leave room. -/
theorem drain_spec (s : d.State) (buffer : Bytes) (fits : buffer.length ≤ maxSize) :
    (drain d maxSize s buffer).held ≤ maxSize ∧
    (∀ {out}, (drain d maxSize s buffer).result = .ok out →
      out.length < maxSize ∧ ∃ bytes, out = buffer ++ bytes ∧ d.future s [] = some bytes) ∧
    ∀ {e}, (drain d maxSize s buffer).result = .error e → ∀ {bytes}, d.future s [] = some bytes →
      e = .tooLarge maxSize ∧ maxSize ≤ buffer.length + bytes.length := by
  fun_induction drain d maxSize s buffer with
  | case1 s buffer full =>
    refine ⟨fits, nofun, fun failed => ?_⟩
    cases failed
    exact fun _ => ⟨rfl, by omega⟩
  | case2 s buffer room raises =>
    refine ⟨fits, nofun, fun failed bytes whole => ?_⟩
    rw [← List.append_nil [], d.future_error (by omega) raises] at whole
    cases whole
  | case3 s buffer room s' call =>
    have last := d.drained (by omega) call
    refine ⟨fits, fun {out} done => ?_, fun {e} failed bytes whole => ?_⟩
    · cases ends : d.eof s' with
      | false =>
        rw [ends] at done
        cases done
      | true =>
        rw [ends] at done last
        cases done
        exact ⟨by omega, [], (List.append_nil _).symm, last⟩
    · cases ends : d.eof s' with
      | false =>
        rw [last, ends] at whole
        cases whole
      | true =>
        rw [ends] at failed
        cases failed
  | case4 s buffer room drained s' call some_ ih =>
    have bound := d.length_le (by omega) call
    have fits' : (buffer ++ drained).length ≤ maxSize := by
      rw [List.length_append]
      omega
    have step := d.future_step (by omega) call []
    rw [d.tail_nil call, List.append_nil] at step
    obtain ⟨held, ok, error⟩ := ih fits'
    refine ⟨held, fun done => ?_, fun failed bytes whole => ?_⟩
    · obtain ⟨small, bytes, rfl, rest⟩ := ok done
      refine ⟨small, drained ++ bytes, List.append_assoc _ _ _, ?_⟩
      rw [step, rest, Option.map_some]
    · rw [step, Option.map_eq_some_iff] at whole
      obtain ⟨later, found, rfl⟩ := whole
      have late := error failed found
      rw [List.length_append, Nat.add_assoc, ← List.length_append] at late
      exact late

/-- A deflate stage returns what decodes to less than `maxSize` bytes. -/
theorem decompressDeflate_spec (data : Bytes) :
    (decompressDeflate d maxSize data).held ≤ maxSize ∧
    (∀ out, (decompressDeflate d maxSize data).result = .ok out ↔
      d.decode data = some out ∧ out.length < maxSize) ∧
    ∀ out, d.decode data = some out → maxSize ≤ out.length →
      (decompressDeflate d maxSize data).result = .error (.tooLarge maxSize) := by
  have fed := @feed_follows d maxSize d.start data [] (Nat.zero_le maxSize)
  have whole : (decompressDeflate d maxSize data).held ≤ maxSize ∧
      (∀ {out}, (decompressDeflate d maxSize data).result = .ok out →
        out.length < maxSize ∧ d.decode data = some out) ∧
      ∀ {e}, (decompressDeflate d maxSize data).result = .error e → ∀ {out},
        d.decode data = some out → e = .tooLarge maxSize ∧ maxSize ≤ out.length := by
    rw [decompressDeflate]
    split
    · next e held stopped =>
      rw [stopped] at fed
      refine ⟨fed.held, nofun, fun failed out good => ?_⟩
      cases failed
      have late := @Follows.error _ _ _ _ _ fed _ rfl [] _ (by rw [List.append_nil]; exact good)
      rwa [List.length_nil, Nat.zero_add] at late
    · next buffer s held went =>
      rw [went] at fed
      obtain ⟨fits, out, same, rest⟩ := fed.ok rfl
      rw [List.nil_append] at same
      subst same
      have rest := rest []
      rw [List.append_nil] at rest
      obtain ⟨held, ok, error⟩ := drain_spec s buffer fits
      refine ⟨held, fun done => ?_, fun failed out good => ?_⟩
      · obtain ⟨small, bytes, rfl, found⟩ := ok done
        refine ⟨small, ?_⟩
        rw [Decompressor.decode, rest, found, Option.map_some]
      · rw [Decompressor.decode, rest, Option.map_eq_some_iff] at good
        obtain ⟨bytes, found, rfl⟩ := good
        rw [List.length_append]
        exact error failed found
  obtain ⟨held, ok, error⟩ := whole
  refine ⟨held, fun out => ⟨fun done => ⟨(ok done).2, (ok done).1⟩, fun good => ?_⟩,
    fun out good large => ?_⟩
  · cases result : (decompressDeflate d maxSize data).result with
    | ok out' =>
      have same := (ok result).2
      rw [good.1] at same
      cases same
      rfl
    | error e =>
      have bound := (error result good.1).2
      omega
  · cases result : (decompressDeflate d maxSize data).result with
    | ok out' =>
      have small := ok result
      rw [good] at small
      cases small.2
      omega
    | error e => rw [(error result good).1]

end Deflate

/-! ## Stages -/

variable {dec : Decoders} {maxSize : ℕ}

/-- What the bound of a stage admits. -/
def Admits (maxSize : ℕ) (encoding : Encoding) (out : Bytes) : Prop :=
  match encoding with
  | .identity => True
  | .deflate => out.length < maxSize
  | .gzip | .zstd => out.length ≤ maxSize

theorem decompressZstd_spec (data : Bytes) :
    (∀ out, decompressZstd dec data maxSize = .ok out ↔
      dec.zstd.decode data = some out ∧ out.length ≤ maxSize) ∧
    ∀ out, dec.zstd.decode data = some out → maxSize < out.length →
      decompressZstd dec data maxSize = .error (.tooLarge maxSize) := by
  rw [decompressZstd]
  cases call : dec.zstdDecompress data maxSize with
  | none =>
    obtain ⟨ok, large, -⟩ := readLimited_start dec.zstd maxSize data
    exact ⟨ok, large⟩
  | some decompressed =>
    rw [dec.zstd_whole call]
    simp only [Option.some.injEq]
    by_cases exceeds : maxSize < decompressed.length
    · rw [if_pos exceeds]
      refine ⟨fun out => iff_of_false nofun ?_, fun _ _ _ => rfl⟩
      rintro ⟨rfl, fits⟩
      omega
    · rw [if_neg exceeds]
      refine ⟨fun out => ?_, ?_⟩
      · rw [Except.ok.injEq]
        exact ⟨fun same => ⟨same, same ▸ not_lt.mp exceeds⟩, fun both => both.1⟩
      · rintro out rfl large
        exact absurd large exceeds

theorem runStage_spec (encoding : Encoding) (data : Bytes) :
    (∀ out, (runStage dec maxSize encoding data).result = .ok out ↔
      decode dec encoding data = some out ∧ Admits maxSize encoding out) ∧
    ∀ out, decode dec encoding data = some out → ¬ Admits maxSize encoding out →
      (runStage dec maxSize encoding data).result = .error (.tooLarge maxSize) := by
  cases encoding with
  | zstd =>
    obtain ⟨ok, large⟩ := @decompressZstd_spec dec maxSize data
    exact ⟨ok, fun out whole exceeds => large out whole (not_le.mp exceeds)⟩
  | gzip =>
    obtain ⟨ok, large, -⟩ := readLimited_start dec.gzip maxSize data
    exact ⟨ok, fun out whole exceeds => large out whole (not_le.mp exceeds)⟩
  | deflate =>
    obtain ⟨-, ok, large⟩ := @decompressDeflate_spec dec.zlib maxSize data
    exact ⟨ok, fun out whole exceeds => large out whole (not_lt.mp exceeds)⟩
  | identity =>
    refine ⟨fun out => ?_, fun _ _ exceeds => absurd trivial exceeds⟩
    simp only [runStage, decode, Admits, Except.ok.injEq, Option.some.injEq, and_true]

/-- A stage has the boundary at `maxSize` exactly when its input is off its own one. -/
theorem stageOff_iff {p : Encoding × Bytes} : StageOff dec maxSize p ↔
    ∀ out, decode dec p.1 p.2 = some out → (Admits maxSize p.1 out ↔ out.length ≤ maxSize) := by
  obtain ⟨encoding, data⟩ := p
  cases encoding with
  | zstd => exact iff_of_true ⟨nofun, nofun⟩ fun _ _ => Iff.rfl
  | gzip => exact iff_of_true ⟨nofun, nofun⟩ fun _ _ => Iff.rfl
  | deflate =>
    constructor
    · rintro ⟨off, -⟩ out whole
      have apart := off rfl out whole
      simp only [Admits]
      omega
    · intro exact_
      refine ⟨fun _ out whole => ?_, nofun⟩
      have same := exact_ out whole
      simp only [Admits] at same
      omega
  | identity =>
    constructor
    · rintro ⟨-, off⟩ out whole
      cases whole
      exact iff_of_true trivial (off rfl)
    · intro exact_
      exact ⟨nofun, fun _ => (exact_ data rfl).mp trivial⟩

theorem runStage_exact_iff {p : Encoding × Bytes} : StageOff dec maxSize p ↔
    ∀ out, decode dec p.1 p.2 = some out →
      ((runStage dec maxSize p.1 p.2).result = .ok out ↔ out.length ≤ maxSize) := by
  rw [stageOff_iff]
  refine forall_congr' fun out => forall_congr' fun whole => ?_
  rw [(runStage_spec p.1 p.2).1 out]
  simp only [whole, true_and]

/-- What a stage off its boundary gives. -/
theorem StageOff.result {encoding : Encoding} {data : Bytes}
    (off : StageOff dec maxSize (encoding, data)) :
    (∃ out, decode dec encoding data = some out ∧ out.length ≤ maxSize ∧
      (runStage dec maxSize encoding data).result = .ok out) ∨
    ∃ e, (runStage dec maxSize encoding data).result = .error e ∧
      ∀ out, decode dec encoding data = some out → maxSize < out.length ∧ e = .tooLarge maxSize := by
  have spec := @runStage_spec dec maxSize encoding data
  have admits := stageOff_iff.mp off
  cases result : (runStage dec maxSize encoding data).result with
  | ok out =>
    obtain ⟨whole, admitted⟩ := (spec.1 out).mp result
    exact .inl ⟨out, whole, (admits out whole).mp admitted, rfl⟩
  | error e =>
    refine .inr ⟨e, rfl, fun out whole => ?_⟩
    have refused : ¬ Admits maxSize encoding out := fun admitted => by
      rw [(spec.1 out).mpr ⟨whole, admitted⟩] at result
      cases result
    rw [spec.2 out whole refused] at result
    cases result
    exact ⟨not_le.mp fun fits => refused ((admits out whole).mpr fits), rfl⟩

theorem runStage_held_iff {encoding : Encoding} {data : Bytes} :
    (runStage dec maxSize encoding data).held ≤ maxSize ↔
      (encoding = .gzip → (dec.gzip.rest (dec.gzip.start data)).1.length ≤ maxSize) := by
  cases encoding with
  | zstd => exact iff_of_true (Nat.zero_le _) nofun
  | gzip =>
    rw [runStage, decompressGzip, (readLimited_start dec.gzip maxSize data).2.2]
    exact ⟨fun fits _ => fits, fun fits => fits rfl⟩
  | deflate => exact iff_of_true (decompressDeflate_spec data).1 nofun
  | identity => exact iff_of_true (Nat.zero_le _) nofun

/-! ## Bodies -/

theorem ofName_name (encoding : Encoding) : Encoding.ofName encoding.name = some encoding := by
  cases encoding <;> decide

/-- A list of supported encodings is run backwards. -/
theorem decompressBody_supported (encodings : List Encoding) (data : Bytes) :
    decompressBody dec data (encodings.map Encoding.name) maxSize =
      runStages dec maxSize encodings.reverse data := by
  have known : (encodings.map Encoding.name).mapM Encoding.ofName = some encodings := by
    induction encodings with
    | nil => rfl
    | cons encoding rest ih =>
      rw [List.map_cons, List.mapM_cons, ofName_name, ih]
      rfl
  rw [decompressBody, known]

/-- Off the boundary the stages do what the limit promises, and hold too much exactly where a
gzip stage delivers too much. -/
theorem runStages_spec {stages : List Encoding} {data : Bytes}
    (off : ∀ p ∈ reached dec maxSize stages data, StageOff dec maxSize p) :
    (∀ out, (runStages dec maxSize stages data).result = .ok out ↔
      decoded dec maxSize stages data = some out) ∧
    (Oversize dec maxSize stages data →
      (runStages dec maxSize stages data).result = .error (.tooLarge maxSize)) ∧
    ((runStages dec maxSize stages data).held ≤ maxSize ↔
      ∀ p ∈ reached dec maxSize stages data, p.1 = .gzip →
        (dec.gzip.rest (dec.gzip.start p.2)).1.length ≤ maxSize) := by
  induction stages generalizing data with
  | nil =>
    refine ⟨fun out => ?_, nofun, iff_of_true (Nat.zero_le _) nofun⟩
    rw [runStages, decoded, Except.ok.injEq, Option.some.injEq]
  | cons encoding rest ih =>
    have held := @runStage_held_iff dec maxSize encoding data
    rw [runStages, decoded, Oversize, reached] at *
    have first := off _ List.mem_cons_self
    rcases first.result with ⟨out, whole, fits, done⟩ | ⟨e, failed, late⟩
    · simp only [whole, if_pos fits, Option.bind_some, List.forall_mem_cons] at off ⊢
      obtain ⟨ok, large, heldRest⟩ := ih off.2
      split
      · next e h stopped =>
        rw [stopped] at done
        cases done
      · next result h went =>
        rw [went] at done held
        cases done
        refine ⟨ok, fun exceeds => large ?_, ?_⟩
        · obtain ⟨out', same, next⟩ := exceeds
          cases same
          exact next fits
        · rw [Nat.max_le, held, heldRest]
    · have short : decoded dec maxSize (encoding :: rest) data = none ∧
          reached dec maxSize (encoding :: rest) data = [(encoding, data)] := by
        rw [decoded, reached]
        cases whole : decode dec encoding data with
        | none => exact ⟨rfl, rfl⟩
        | some out =>
          have exceeds := not_le.mpr (late out whole).1
          simp only [Option.bind_some, if_neg exceeds, and_self]
      rw [decoded, reached] at short
      rw [short.1, short.2]
      split
      · next e' h stopped =>
        rw [stopped] at failed held
        cases failed
        refine ⟨fun out => iff_of_false nofun nofun, ?_, ?_⟩
        · rintro ⟨out, whole, -⟩
          rw [(late out whole).2]
        · rw [List.forall_mem_singleton]
          exact held
      · next result h went =>
        rw [went] at failed
        cases failed

/-- The limit is exact for a body exactly when no stage is at its boundary, and the gzip and
deflate paths then hold no more than `maxSize` decoded bytes exactly when every gzip stage fits. -/
theorem decompression_limit_iff (dec : Decoders) (maxSize : ℕ) (encodings : List Encoding)
    (data : Bytes) :
    (LimitExact dec maxSize encodings data ↔ OffBoundary dec maxSize encodings data) ∧
    (LimitExact dec maxSize encodings data ∧
        (decompressBody dec data (encodings.map Encoding.name) maxSize).held ≤ maxSize ↔
      OffBoundary dec maxSize encodings data ∧ GzipFits dec maxSize encodings data) := by
  have limit : LimitExact dec maxSize encodings data ↔ OffBoundary dec maxSize encodings data := by
    rw [LimitExact, OffBoundary, decompressBody_supported]
    constructor
    · rintro ⟨-, -, boundary⟩ p hp
      exact runStage_exact_iff.mpr (boundary p hp)
    · intro off
      obtain ⟨ok, large, -⟩ := runStages_spec off
      exact ⟨ok, large, fun p hp => runStage_exact_iff.mp (off p hp)⟩
  refine ⟨limit, ?_⟩
  rw [limit, GzipFits, decompressBody_supported]
  refine and_congr_right fun off => ?_
  exact (runStages_spec off).2.2

/-- The streams of the one byte `b"a"`. -/
def gzipStream : Bytes :=
  [0x1f, 0x8b, 8, 0, 0, 0, 0, 0, 0, 0xff, 0x4b, 4, 0, 0x43, 0xbe, 0xb7, 0xe8, 1, 0, 0, 0]

def zlibStream : Bytes := [0x78, 0x9c, 0x4b, 4, 0, 0, 0x62, 0, 0x62]

def zstdStream : Bytes := [0x28, 0xb5, 0x2f, 0xfd, 0x20, 1, 9, 0, 0, 0x61]

/-- Decoders that know these streams. -/
def knownDecoders : Decoders where
  gzip := .known (by decide) gzipStream [0x61]
  zlib := .known zlibStream [0x61]
  zstd := .known (by decide) zstdStream [0x61]
  zstdDecompress data _ := if data = zstdStream then some [0x61] else none
  zstd_whole := by
    intro data _ out h
    split_ifs at h with whole
    cases h
    rw [whole, Reader.decode, Reader.known_rest]
    rfl

/-- One byte under a limit of one byte, from gzip. -/
theorem decompression_limit_gzip : LimitExact knownDecoders 1 [.gzip] gzipStream ∧
    (decompressBody knownDecoders gzipStream ["gzip"] 1).held ≤ 1 := by
  have stages : reached knownDecoders 1 [.gzip] gzipStream = [(.gzip, gzipStream)] := rfl
  refine (decompression_limit_iff knownDecoders 1 [.gzip] gzipStream).2.mpr ⟨?_, ?_⟩
  · rw [OffBoundary, List.reverse_singleton, stages, List.forall_mem_singleton]
    exact ⟨nofun, nofun⟩
  · rw [GzipFits, List.reverse_singleton, stages, List.forall_mem_singleton]
    intro _
    exact Nat.le_refl 1

/-- From deflate the same byte under the same limit is too large. -/
theorem deflate_at_limit_too_large : ¬ LimitExact knownDecoders 1 [.deflate] zlibStream ∧
    (decompressBody knownDecoders zlibStream ["deflate"] 1).result = .error (.tooLarge 1) := by
  have whole : knownDecoders.zlib.decode zlibStream = some [0x61] :=
    Decompressor.known_decode zlibStream [0x61]
  obtain ⟨-, ok, large⟩ := @decompressDeflate_spec knownDecoders.zlib 1 zlibStream
  constructor
  · rintro ⟨-, -, boundary⟩
    have same := boundary (.deflate, zlibStream) List.mem_cons_self [0x61] whole
    have small := ((ok [0x61]).mp (same.mpr (Nat.le_refl 1))).2
    exact absurd small (by decide)
  · have run : decompressBody knownDecoders zlibStream ["deflate"] 1 =
        runStages knownDecoders 1 [.deflate] zlibStream :=
      decompressBody_supported [.deflate] zlibStream
    have raised := large [0x61] whole (Nat.le_refl 1)
    rw [run, runStages, runStage]
    split
    · next e held stopped =>
      rw [stopped] at raised
      exact raised
    · next out held went =>
      rw [went] at raised
      cases raised

end BodyDecompression
