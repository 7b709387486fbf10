import Svp.Exec.Frame
import Svp.Lib.StreamDecoder
import Svp.Lib.System

/-!
# The incremental frame decoder

`FrameDecoder` buffers what it is fed and parses the header at the front once,
keeping it until the payloads have arrived. Every read of the buffer goes
through `readSpan`, which tells apart a read that leaves the buffer.

Results:
1. `decodes_frames`: the decoder is a stream decoder of the frame encoding, so
   the laws of `Lib.StreamDecoder` give what any chunking yields.
2. `frame_stream`: round trip, prefixes, and failure that stays; where header,
   payloads and prefix together fit a 64-bit size, no size wraps and no read
   leaves the buffer.
3. `frame_stream_wraps`: with limits that do not fit, a header makes the decoder
   read past its buffer.
-/

namespace Svp.Exec

open Lib

/-! ## The decoder -/

/-- The bytes `[offset, offset + length)` of a buffer. -/
def readSpan (buffer : Bytes) (offset length : Nat) : Except Abort Bytes :=
  if offset + length ≤ buffer.length then .ok ((buffer.drop offset).take length)
  else .error .overread

structure FrameDecoder where
  limits : FrameLimits := {}
  buffer : Bytes := []
  /-- The header at the front of the buffer, while its payloads are arriving. -/
  pendingHeader : Option FrameHeader := none
  pendingHeaderEnd : Nat := 0
  failed : Bool := false

def kAlreadyRejected : Abort :=
  .thrown ⟨.frameMalformed, "frame decoder already rejected this stream"⟩

variable (codec : Codec)

/-- Reads the header at the front of the buffer, and where it ends. -/
def parseHeader (limits : FrameLimits) (buffer : Bytes) :
    Except Abort (Option (FrameHeader × Nat)) :=
  if buffer.length < kFrameLengthPrefixBytes then .ok none
  else do
    let lengthBytes ← readSpan buffer 0 kFrameLengthPrefixBytes
    let headerBytes := readBigEndianU32 lengthBytes
    if headerBytes = 0 then
      .error (.thrown ⟨.frameMalformed, "frame header length must be at least 1 byte"⟩)
    else if limits.maxHeaderBytes < headerBytes then
      .error (.thrown ⟨.frameHeaderTooLarge,
        "frame header of " ++ toString headerBytes ++ " bytes exceeds the " ++
          toString limits.maxHeaderBytes ++ "-byte header limit"⟩)
    else
      let headerEnd := addSize kFrameLengthPrefixBytes headerBytes
      if buffer.length < headerEnd then .ok none
      else do
        let text ← readSpan buffer kFrameLengthPrefixBytes headerBytes
        let header ← Abort.lift (decodeFrameHeader codec.json text limits)
        return some (header, headerEnd)

/-- Reads and verifies the declared payloads from `offset` on. -/
def readPayloads (buffer : Bytes) :
    List PayloadDeclaration → Nat → Nat → Except Abort (List FramePayload)
  | [], _, _ => .ok []
  | declaration :: rest, offset, index => do
    let payload ← readSpan buffer offset declaration.bytes
    if codec.blake3 payload ≠ declaration.blake3 then
      .error (.thrown ⟨.payloadHashMismatch,
        "frame payload " ++ toString index ++ " does not match its declared BLAKE3"⟩)
    else
      let payloads ← readPayloads buffer rest (addSize offset declaration.bytes) (index + 1)
      return payload :: payloads

namespace FrameDecoder

def feed (d : FrameDecoder) (bytes : Bytes) : Except Abort Unit × FrameDecoder :=
  if d.failed then (.error kAlreadyRejected, d)
  else (.ok (), { d with buffer := d.buffer ++ bytes })

/-- The pending header, or the one the buffer starts with. -/
def header (d : FrameDecoder) : Except Abort (Option (FrameHeader × Nat)) :=
  match d.pendingHeader with
  | some header => .ok (some (header, d.pendingHeaderEnd))
  | none => parseHeader codec d.limits d.buffer

def nextUnchecked (d : FrameDecoder) : Except Abort (Option Frame × FrameDecoder) := do
  match ← d.header codec with
  | none => return (none, d)
  | some (header, headerEnd) =>
    let frameEnd := addSize headerEnd (declaredPayloadBytes header.payloads)
    if d.buffer.length < frameEnd then
      return (none, { d with pendingHeader := some header, pendingHeaderEnd := headerEnd })
    else
      let payloads ← readPayloads codec d.buffer header.payloads headerEnd 0
      return (some { type := header.type, body := header.body, payloads },
        { d with buffer := d.buffer.drop frameEnd, pendingHeader := none, pendingHeaderEnd := 0 })

def next (d : FrameDecoder) : Except Abort (Option Frame) × FrameDecoder :=
  if d.failed then (.error kAlreadyRejected, d)
  else
    match d.nextUnchecked codec with
    | .error e => (.error e, { d with failed := true })
    | .ok (frame, d') => (.ok frame, d')

def finish (d : FrameDecoder) : Except Abort Unit × FrameDecoder :=
  if d.failed then (.error kAlreadyRejected, d)
  else if d.buffer.isEmpty then (.ok (), d)
  else
    (.error (.thrown ⟨.frameTruncated,
      "stream ended inside a frame (" ++ toString d.buffer.length ++ " bytes buffered)"⟩),
      { d with failed := true })

/-- What its client does with a decoder. -/
def stream : StreamDecoder UInt8 Frame Abort FrameDecoder where
  buffer := buffer
  feed := feed
  next := next codec

/-- The decoders some sequence of calls makes of a fresh one. -/
def system (limits : FrameLimits) : System FrameDecoder where
  init d := d = { limits }
  step d d' := (∃ bytes, d' = (d.feed bytes).2) ∨ d' = (d.next codec).2 ∨ d' = d.finish.2

end FrameDecoder

/-! ## Reading spans -/

theorem readSpan_eq {buffer tail span after : Bytes} (before : Bytes)
    (split : buffer ++ tail = before ++ (span ++ after))
    (fits : before.length + span.length ≤ buffer.length) :
    readSpan buffer before.length span.length = .ok span := by
  have drop : (buffer.drop before.length) ++ tail = span ++ after := by
    have whole := congrArg (List.drop before.length) split
    rwa [List.drop_append_of_le_length (by omega), List.drop_left] at whole
  have take := congrArg (List.take span.length) drop
  rw [List.take_append_of_le_length (by rw [List.length_drop]; omega), List.take_left] at take
  rw [readSpan, if_pos fits, take]

theorem readSpan_append {buffer span : Bytes} {offset length : Nat}
    (read : readSpan buffer offset length = .ok span) (more : Bytes) :
    readSpan (buffer ++ more) offset length = .ok span := by
  unfold readSpan at read ⊢
  split at read
  · next fits =>
    cases read
    rw [if_pos (by rw [List.length_append]; omega),
      List.drop_append_of_le_length (by omega),
      List.take_append_of_le_length (by rw [List.length_drop]; omega)]
  · cases read

theorem readSpan_ne_overread (buffer : Bytes) (offset length : Nat)
    (fits : offset + length ≤ buffer.length) : ∃ span, readSpan buffer offset length = .ok span :=
  ⟨_, if_pos fits⟩

/-- A header that can be read stays the same when more bytes arrive. -/
theorem parseHeader_append {limits : FrameLimits} {buffer : Bytes} {found : FrameHeader × Nat}
    (parsed : parseHeader codec limits buffer = .ok (some found)) (more : Bytes) :
    parseHeader codec limits (buffer ++ more) = .ok (some found) := by
  unfold parseHeader at parsed ⊢
  split at parsed
  · cases parsed
  · next long =>
    rw [if_neg (by rw [List.length_append]; omega)]
    obtain ⟨lengthBytes, read, parsed⟩ := bind_eq_ok.mp parsed
    refine bind_eq_ok.mpr ⟨lengthBytes, readSpan_append read more, ?_⟩
    simp only at parsed ⊢
    split at parsed
    · cases parsed
    · next notZero =>
      rw [if_neg notZero]
      split at parsed
      · cases parsed
      · next small =>
        rw [if_neg small]
        split at parsed
        · cases parsed
        · next whole =>
          rw [if_neg (by rw [List.length_append]; omega)]
          obtain ⟨text, readText, parsed⟩ := bind_eq_ok.mp parsed
          exact bind_eq_ok.mpr ⟨text, readSpan_append readText more, parsed⟩

theorem Abort.lift_eq_ok {α : Type} {result : Except ExecError α} {a : α} :
    Abort.lift result = .ok a ↔ result = .ok a := by
  cases result <;> simp [Abort.lift]

theorem Abort.lift_ne_overread {α : Type} (result : Except ExecError α) :
    Abort.lift result ≠ .error .overread := by
  cases result <;> simp [Abort.lift]

/-- What a header read from the buffer ends at and declares. -/
theorem parseHeader_eq_some {limits : FrameLimits} {buffer : Bytes} {header : FrameHeader}
    {headerEnd : Nat} (parsed : parseHeader codec limits buffer = .ok (some (header, headerEnd))) :
    headerEnd = kFrameLengthPrefixBytes + readBigEndianU32 buffer ∧
      readBigEndianU32 buffer ≤ limits.maxHeaderBytes ∧
      declaredSum header.payloads ≤ limits.maxTotalPayloadBytes := by
  unfold parseHeader at parsed
  split at parsed
  · cases parsed
  · next long =>
    obtain ⟨lengthBytes, read, parsed⟩ := bind_eq_ok.mp parsed
    have fourBytes : readBigEndianU32 lengthBytes = readBigEndianU32 buffer := by
      rw [readSpan, if_pos (by omega)] at read
      cases read
      rw [readBigEndianU32, readBigEndianU32, List.drop_zero, List.take_take, Nat.min_self]
    simp only [fourBytes] at parsed
    split at parsed
    · cases parsed
    · split at parsed
      · cases parsed
      · next small =>
        split at parsed
        · cases parsed
        · obtain ⟨text, -, parsed⟩ := bind_eq_ok.mp parsed
          obtain ⟨decoded, accepted, parsed⟩ := bind_eq_ok.mp parsed
          cases parsed
          have width := limits.headerWidth
          refine ⟨addSize_eq ?_, Nat.le_of_not_lt small,
            checkPayloadLimits_sum (decodeFrameHeader_checked _ (Abort.lift_eq_ok.mp accepted))⟩
          rw [kFrameLengthPrefixBytes]
          omega

/-! ## The cached header -/

namespace FrameDecoder

/-- A pending header is the one its buffer starts with. -/
def Cached (d : FrameDecoder) : Prop :=
  ∀ header, d.pendingHeader = some header →
    parseHeader codec d.limits d.buffer = .ok (some (header, d.pendingHeaderEnd))

variable {codec}

theorem Cached.header_eq {d : FrameDecoder} (cached : d.Cached codec) :
    d.header codec = parseHeader codec d.limits d.buffer := by
  unfold header
  split
  · next header pending => exact (cached header pending).symm
  · rfl

theorem Cached.feed {d : FrameDecoder} (cached : d.Cached codec) (bytes : Bytes) :
    (d.feed bytes).2.Cached codec := by
  unfold FrameDecoder.feed
  split
  · exact cached
  · intro header pending
    exact parseHeader_append codec (cached header pending) bytes

theorem Cached.nextUnchecked {d d' : FrameDecoder} {frame : Option Frame}
    (cached : d.Cached codec) (next : d.nextUnchecked codec = .ok (frame, d')) :
    d'.Cached codec ∧ d'.limits = d.limits := by
  obtain ⟨front, parsed, next⟩ := bind_eq_ok.mp next
  rw [cached.header_eq] at parsed
  split at next
  · cases next
    exact ⟨cached, rfl⟩
  · simp only at next
    split at next
    · cases next
      refine ⟨fun header pending => ?_, rfl⟩
      cases pending
      exact parsed
    · obtain ⟨payloads, -, next⟩ := bind_eq_ok.mp next
      cases next
      exact ⟨fun header pending => (by cases pending), rfl⟩

theorem Cached.next {d : FrameDecoder} (cached : d.Cached codec) :
    (d.next codec).2.Cached codec ∧ (d.next codec).2.limits = d.limits := by
  unfold FrameDecoder.next
  split
  · exact ⟨cached, rfl⟩
  · split
    · exact ⟨cached, rfl⟩
    · next next => exact cached.nextUnchecked next

theorem Cached.finish {d : FrameDecoder} (cached : d.Cached codec) :
    d.finish.2.Cached codec ∧ d.finish.2.limits = d.limits := by
  unfold FrameDecoder.finish
  split
  · exact ⟨cached, rfl⟩
  · split
    · exact ⟨cached, rfl⟩
    · exact ⟨cached, rfl⟩

theorem reachable_cached {limits : FrameLimits} {d : FrameDecoder}
    (reach : (system codec limits).Reachable d) : d.Cached codec ∧ d.limits = limits := by
  refine reach.invariant (P := fun d => d.Cached codec ∧ d.limits = limits) ?_ ?_
  · rintro d rfl
    exact ⟨fun header pending => (by cases pending), rfl⟩
  · rintro d d' - ⟨cached, same⟩ step
    rcases step with ⟨bytes, rfl⟩ | rfl | rfl
    · refine ⟨cached.feed bytes, ?_⟩
      unfold FrameDecoder.feed
      split <;> exact same
    · exact ⟨cached.next.1, cached.next.2.trans same⟩
    · exact ⟨cached.finish.1, cached.finish.2.trans same⟩

end FrameDecoder

/-! ## Sizes and reads -/

/-- Prefix, header and payloads within the limits have a 64-bit size. -/
def FrameLimits.Fit (limits : FrameLimits) : Prop :=
  kFrameLengthPrefixBytes + limits.maxHeaderBytes + limits.maxTotalPayloadBytes < 2 ^ 64

instance (limits : FrameLimits) : Decidable limits.Fit :=
  inferInstanceAs (Decidable (_ < _))

example : FrameLimits.Fit {} := by decide

/-- The sizes the decoder computes from a header are the true ones. -/
structure SizesExact (buffer : Bytes) (header : FrameHeader) (headerEnd : Nat) : Prop where
  isEnd : headerEnd = kFrameLengthPrefixBytes + readBigEndianU32 buffer
  declared : declaredPayloadBytes header.payloads = declaredSum header.payloads
  frameEnd : addSize headerEnd (declaredPayloadBytes header.payloads) =
    headerEnd + declaredSum header.payloads

theorem sizesExact_of_fit {limits : FrameLimits} (fit : limits.Fit) {buffer : Bytes}
    {header : FrameHeader} {headerEnd : Nat}
    (parsed : parseHeader codec limits buffer = .ok (some (header, headerEnd))) :
    SizesExact buffer header headerEnd := by
  obtain ⟨isEnd, small, sum⟩ := parseHeader_eq_some codec parsed
  have width := limits.totalWidth
  have declared : declaredPayloadBytes header.payloads = declaredSum header.payloads :=
    declaredPayloadBytes_eq (by omega)
  refine ⟨isEnd, declared, ?_⟩
  rw [declared]
  refine addSize_eq ?_
  rw [FrameLimits.Fit] at fit
  omega

theorem parseHeader_ne_overread (limits : FrameLimits) (buffer : Bytes) :
    parseHeader codec limits buffer ≠ .error .overread := by
  unfold parseHeader
  split
  · simp
  · next long =>
    obtain ⟨lengthBytes, read⟩ :=
      readSpan_ne_overread buffer 0 kFrameLengthPrefixBytes (by omega)
    simp only [read, bind, Except.bind]
    split
    · simp
    · split
      · simp
      · next small =>
        split
        · simp
        · next whole =>
          have width := limits.headerWidth
          rw [addSize_eq (by rw [kFrameLengthPrefixBytes]; omega)] at whole
          obtain ⟨text, readText⟩ := readSpan_ne_overread _ _ _ (Nat.le_of_not_lt whole)
          simp only [readText]
          split
          · next e failed =>
            intro same
            cases same
            exact Abort.lift_ne_overread _ failed
          · simp [pure, Except.pure]

/-- Payloads that end within the buffer are read within it. -/
theorem readPayloads_ne_overread {buffer : Bytes} {payloads : List PayloadDeclaration}
    {offset : Nat} (fits : offset + declaredSum payloads ≤ buffer.length)
    (width : offset + declaredSum payloads < 2 ^ 64) (index : Nat) :
    readPayloads codec buffer payloads offset index ≠ .error .overread := by
  induction payloads generalizing offset index with
  | nil => simp [readPayloads]
  | cons declaration rest ih =>
    simp only [declaredSum, List.map_cons, List.sum_cons] at fits width
    obtain ⟨payload, read⟩ := readSpan_ne_overread buffer offset declaration.bytes (by omega)
    have sum : addSize offset declaration.bytes = offset + declaration.bytes :=
      addSize_eq (by omega)
    have fits' : offset + declaration.bytes + declaredSum rest ≤ buffer.length := by
      rw [declaredSum]
      omega
    have width' : offset + declaration.bytes + declaredSum rest < 2 ^ 64 := by
      rw [declaredSum]
      omega
    have later := ih fits' width' (index + 1)
    simp only [readPayloads, read, sum, bind, Except.bind]
    split
    · simp
    · cases result : readPayloads codec buffer rest (offset + declaration.bytes) (index + 1) with
      | error e =>
        rw [result] at later
        simpa using later
      | ok payloads => simp [pure, Except.pure]

variable {codec}

theorem FrameDecoder.next_ne_overread {d : FrameDecoder} (cached : d.Cached codec)
    (fit : d.limits.Fit) : (d.next codec).1 ≠ .error .overread := by
  have unchecked : d.nextUnchecked codec ≠ .error .overread := by
    unfold nextUnchecked
    rw [cached.header_eq]
    cases parsed : parseHeader codec d.limits d.buffer with
    | error e =>
      have notOver := parseHeader_ne_overread codec d.limits d.buffer
      rw [parsed] at notOver
      simpa [bind, Except.bind] using notOver
    | ok front =>
      cases front with
      | none => simp [bind, Except.bind, pure, Except.pure]
      | some found =>
        obtain ⟨header, headerEnd⟩ := found
        have exact := sizesExact_of_fit codec fit parsed
        simp only [bind, Except.bind, exact.frameEnd]
        split
        · simp [pure, Except.pure]
        · next whole =>
          have width : headerEnd + declaredSum header.payloads < 2 ^ 64 := by
            rw [← exact.frameEnd]
            exact Nat.mod_lt _ (by decide)
          have notOver := readPayloads_ne_overread codec (Nat.le_of_not_lt whole) width 0
          split
          · next e failed =>
            rw [failed] at notOver
            simpa using notOver
          · simp [pure, Except.pure]
  unfold next
  split
  · simp [kAlreadyRejected]
  · split
    · next e failed =>
      rw [failed] at unchecked
      simpa using unchecked
    · simp

/-! ## Encodings at the front of the buffer -/

section Encodings

variable (codec) (limits : FrameLimits)

/-- The JSON library parses back the header it writes for the frame. -/
def ParsesBack (frame : Frame) : Prop :=
  codec.json.parse (dump codec.json (frameHeaderJson (frameHeader codec frame))) =
    .ok (frameHeaderJson (frameHeader codec frame))

/-- The frames with an encoding under the limits. -/
def Encodable : Set Frame :=
  {frame | (∃ bytes, encodeFrame codec frame limits = .ok bytes) ∧ ParsesBack codec frame}

/-- The encoding of a frame that has one. -/
def frameBytes (frame : Frame) : Bytes :=
  match encodeFrame codec frame limits with
  | .ok bytes => bytes
  | .error _ => []

/-- A decoder that has not failed. -/
structure Healthy (d : FrameDecoder) : Prop where
  running : d.failed = false
  limits : d.limits = limits
  cached : d.Cached codec

variable {codec limits}

theorem encodeFrameHeader_ne_nil {header : FrameHeader} {bytes : Bytes}
    (encoded : encodeFrameHeader codec.json header limits = .ok bytes) : bytes.length ≠ 0 := by
  obtain ⟨-, -, canonical, -⟩ := encodeFrameHeader_eq_ok codec.json encoded
  obtain ⟨_, -, written⟩ := bind_eq_ok.mp canonical
  cases written
  simp [frameHeaderJson, dump]

/-- A buffer that starts like an encoded header holds it whole or waits. -/
theorem parseHeader_part {header : FrameHeader} {headerBytes buffer tail after : Bytes}
    (inverse : codec.json.parse (dump codec.json (frameHeaderJson header)) =
      .ok (frameHeaderJson header))
    (encoded : encodeFrameHeader codec.json header limits = .ok headerBytes)
    (split : buffer ++ tail = bigEndianU32 headerBytes.length ++ (headerBytes ++ after)) :
    parseHeader codec limits buffer =
      if buffer.length < kFrameLengthPrefixBytes + headerBytes.length then .ok none
      else .ok (some (header, kFrameLengthPrefixBytes + headerBytes.length)) := by
  obtain ⟨-, -, -, fits⟩ := encodeFrameHeader_eq_ok codec.json encoded
  have width := limits.headerWidth
  have fourBytes : (bigEndianU32 headerBytes.length).length = kFrameLengthPrefixBytes := rfl
  unfold parseHeader
  split
  · next short => rw [if_pos (by omega)]
  · next long =>
    have lengthBytes : readSpan buffer 0 kFrameLengthPrefixBytes =
        .ok (bigEndianU32 headerBytes.length) := by
      have read : readSpan buffer ([] : Bytes).length (bigEndianU32 headerBytes.length).length =
          .ok (bigEndianU32 headerBytes.length) :=
        readSpan_eq [] split (by rw [List.length_nil, fourBytes]; omega)
      exact read
    have value : readBigEndianU32 (bigEndianU32 headerBytes.length) = headerBytes.length := by
      have read := readBigEndianU32_bigEndianU32 (Nat.lt_of_le_of_lt fits width) []
      rwa [List.append_nil] at read
    have headerEnd : addSize kFrameLengthPrefixBytes headerBytes.length =
        kFrameLengthPrefixBytes + headerBytes.length :=
      addSize_eq (by rw [kFrameLengthPrefixBytes]; omega)
    simp only [lengthBytes, value, headerEnd, bind, Except.bind,
      if_neg (encodeFrameHeader_ne_nil encoded), if_neg (Nat.not_lt.mpr fits)]
    split
    · rfl
    · next whole =>
      have text : readSpan buffer kFrameLengthPrefixBytes headerBytes.length = .ok headerBytes :=
        readSpan_eq _ split (by rw [fourBytes]; omega)
      have decoded := decodeFrameHeader_encodeFrameHeader codec.json inverse encoded
      simp only [text, decoded, Abort.lift]
      rfl

/-- The payloads of an encoding are read back. -/
theorem readPayloads_eq {payloads : List FramePayload} {before : Bytes} (after : Bytes)
    (width : before.length + payloads.flatten.length < 2 ^ 64) (index : Nat) :
    readPayloads codec (before ++ (payloads.flatten ++ after))
      (payloads.map fun payload => { bytes := payload.length, blake3 := codec.blake3 payload })
      before.length index = .ok payloads := by
  induction payloads generalizing before index with
  | nil => rfl
  | cons payload rest ih =>
    rw [List.flatten_cons, List.length_append] at width
    have read : readSpan (before ++ ((payload :: rest).flatten ++ after)) before.length
        payload.length = .ok payload := by
      have split : before ++ ((payload :: rest).flatten ++ after) ++ [] =
          before ++ (payload ++ (rest.flatten ++ after)) := by
        simp
      refine readSpan_eq _ split ?_
      · simp only [List.flatten_cons, List.length_append]
        omega
    have sum : addSize before.length payload.length = (before ++ payload).length := by
      rw [addSize_eq (by omega), List.length_append]
    have width' : (before ++ payload).length + rest.flatten.length < 2 ^ 64 := by
      rw [List.length_append]
      omega
    have later := ih width' (index + 1)
    rw [List.append_assoc, ← List.append_assoc payload] at later
    rw [List.map_cons, readPayloads, read]
    simp only [bind, Except.bind, ne_eq, not_true_eq_false, if_false, sum]
    rw [List.flatten_cons, later]
    rfl

/-- What `next` does on a healthy decoder whose buffer holds the start of an
encoding, whole or not. -/
theorem next_encoding {d : FrameDecoder} (ok : Healthy codec limits d) {frame : Frame}
    {bytes : Bytes} (tail rest : Bytes) (inverse : ParsesBack codec frame)
    (encoded : encodeFrame codec frame limits = .ok bytes)
    (split : d.buffer ++ tail = bytes ++ rest) :
    ∃ d', Healthy codec limits d' ∧
      if d.buffer.length < bytes.length then
        d.next codec = (.ok none, d') ∧ d'.buffer = d.buffer
      else d.next codec = (.ok (some frame), d') ∧ d'.buffer = d.buffer.drop bytes.length := by
  obtain ⟨running, sameLimits, cached⟩ := ok
  obtain ⟨headerBytes, accepted, isBytes, width⟩ := encodeFrame_eq_ok codec encoded
  have split' : d.buffer ++ tail =
      bigEndianU32 headerBytes.length ++ (headerBytes ++ (frame.payloads.flatten ++ rest)) := by
    rw [split, isBytes]
    simp only [List.append_assoc]
  have parsed := parseHeader_part inverse accepted split'
  rw [← sameLimits, ← cached.header_eq] at parsed
  have size : bytes.length =
      kFrameLengthPrefixBytes + headerBytes.length + frame.payloads.flatten.length := by
    rw [isBytes, List.length_append, List.length_append]
    rfl
  have sum : declaredSum (frameHeader codec frame).payloads = frame.payloads.flatten.length :=
    declaredSum_frameHeader codec frame
  have frameEnd : addSize (kFrameLengthPrefixBytes + headerBytes.length)
      (declaredPayloadBytes (frameHeader codec frame).payloads) = bytes.length := by
    rw [declaredPayloadBytes_eq (by omega), sum, addSize_eq (by omega), size]
  have stepped : ∀ {frame' : Option Frame} {d' : FrameDecoder},
      d.nextUnchecked codec = .ok (frame', d') → d.next codec = (.ok frame', d') := by
    intro frame' d' unchecked
    simp [FrameDecoder.next, running, unchecked]
  split at parsed
  · next noHeader =>
    refine ⟨d, ⟨running, sameLimits, cached⟩, ?_⟩
    rw [if_pos (by omega)]
    refine ⟨stepped ?_, rfl⟩
    simp [FrameDecoder.nextUnchecked, parsed, bind, Except.bind, pure, Except.pure]
  · by_cases part : d.buffer.length < bytes.length
    · -- the header is there, the payloads are not
      let d' : FrameDecoder :=
        { d with
          pendingHeader := some (frameHeader codec frame)
          pendingHeaderEnd := kFrameLengthPrefixBytes + headerBytes.length }
      have unchecked : d.nextUnchecked codec = .ok (none, d') := by
        simp [FrameDecoder.nextUnchecked, parsed, frameEnd, part, bind, Except.bind, pure,
          Except.pure, d']
      refine ⟨d', ⟨running, sameLimits, (cached.nextUnchecked unchecked).1⟩, ?_⟩
      rw [if_pos part]
      exact ⟨stepped unchecked, rfl⟩
    · obtain ⟨after, isBuffer⟩ : ∃ after, d.buffer = bytes ++ after := by
        have whole : bytes <+: d.buffer ++ tail := by
          rw [split]
          exact List.prefix_append _ _
        obtain ⟨after, same⟩ := List.prefix_of_prefix_length_le whole (List.prefix_append _ tail)
          (Nat.le_of_not_lt part)
        exact ⟨after, same.symm⟩
      have payloads : readPayloads codec d.buffer (frameHeader codec frame).payloads
          (kFrameLengthPrefixBytes + headerBytes.length) 0 = .ok frame.payloads := by
        have width' : (bigEndianU32 headerBytes.length ++ headerBytes).length +
            frame.payloads.flatten.length < 2 ^ 64 := by
          rw [List.length_append]
          change kFrameLengthPrefixBytes + _ + _ < _
          omega
        have read : readPayloads codec _ _ _ 0 = _ := readPayloads_eq after width' 0
        rw [isBuffer, isBytes, List.append_assoc _ frame.payloads.flatten]
        rw [List.length_append] at read
        exact read
      let d' : FrameDecoder :=
        { d with buffer := d.buffer.drop bytes.length, pendingHeader := none, pendingHeaderEnd := 0 }
      have unchecked : d.nextUnchecked codec = .ok (some frame, d') := by
        simp only [FrameDecoder.nextUnchecked, parsed, frameEnd, if_neg part, payloads, bind,
          Except.bind, pure, Except.pure]
        rfl
      refine ⟨d', ⟨running, sameLimits, (cached.nextUnchecked unchecked).1⟩, ?_⟩
      rw [if_neg part]
      exact ⟨stepped unchecked, rfl⟩

/-- The decoder decodes frame encodings. -/
theorem decodes_frames : (FrameDecoder.stream codec).Decodes (frameBytes codec limits)
    (Encodable codec limits) (Healthy codec limits) where
  feed d chunk ok := by
    obtain ⟨running, sameLimits, cached⟩ := ok
    have fed : d.feed chunk = (.ok (), { d with buffer := d.buffer ++ chunk }) := by
      simp [FrameDecoder.feed, running]
    have cached' := cached.feed chunk
    rw [fed] at cached'
    exact ⟨_, fed, ⟨running, sameLimits, cached'⟩, rfl⟩
  take d frame rest ok := by
    rintro ⟨⟨bytes, encoded⟩, inverse⟩ split
    have isBytes : frameBytes codec limits frame = bytes := by rw [frameBytes, encoded]
    change d.buffer = _ at split
    rw [isBytes] at split
    obtain ⟨d', ok', result⟩ := next_encoding ok [] rest inverse encoded
      (by rw [split, List.append_nil])
    rw [if_neg (by rw [split, List.length_append]; omega), split, List.drop_left] at result
    exact ⟨d', result.1, ok', result.2⟩
  wait d frame ok := by
    rintro ⟨⟨bytes, encoded⟩, inverse⟩ ⟨tail, split⟩ strict
    have isBytes : frameBytes codec limits frame = bytes := by rw [frameBytes, encoded]
    change d.buffer ++ tail = _ at split
    change d.buffer ≠ _ at strict
    rw [isBytes] at split strict
    obtain ⟨d', ok', result⟩ := next_encoding ok tail [] inverse encoded
      (by rw [split, List.append_nil])
    have short : d.buffer.length < bytes.length := by
      have sizes := congrArg List.length split
      rw [List.length_append] at sizes
      have notEmpty : tail.length ≠ 0 := by
        intro none
        rw [List.length_eq_zero_iff.mp none, List.append_nil] at split
        exact strict split
      omega
    rw [if_pos short] at result
    exact ⟨d', result.1, ok', result.2⟩
  idle d ok empty := by
    change d.buffer = [] at empty
    have header : d.header codec = .ok none := by
      rw [ok.cached.header_eq, parseHeader, empty]
      rfl
    refine ⟨d, ?_, ok, empty⟩
    simp [FrameDecoder.stream, FrameDecoder.next, FrameDecoder.nextUnchecked, ok.running, header,
      bind, Except.bind, pure, Except.pure]

end Encodings

/-! ## The frame stream -/

section Stream

variable (codec) (limits : FrameLimits)

/-- Encodings fed in any chunks, with calls of `next` anywhere and enough of them
at the end, yield their frames; a prefix of them yields the frames it wholly
contains, and `finish` reports truncation exactly inside a frame. -/
structure FrameRoundTrip : Prop where
  whole : ∀ (frames : List Frame) (encodings : List Bytes),
      frames.mapM (fun frame => encodeFrame codec frame limits) = .ok encodings →
      (∀ frame ∈ frames, ParsesBack codec frame) →
    ∀ calls n, fedBy calls = encodings.flatten → frames.length ≤ n →
      ∃ d, (FrameDecoder.stream codec).run (calls ++ List.replicate n .next) { limits } =
        (.ok frames, d) ∧ d.finish.1 = .ok ()
  part : ∀ (frames : List Frame) (encodings : List Bytes),
      frames.mapM (fun frame => encodeFrame codec frame limits) = .ok encodings →
      (∀ frame ∈ frames, ParsesBack codec frame) →
    ∀ calls rest n, fedBy calls ++ rest = encodings.flatten → rest ≠ [] → frames.length ≤ n →
      ∃ d, (FrameDecoder.stream codec).run (calls ++ List.replicate n .next) { limits } =
        (.ok (frames.take (StreamDecoder.wholeCount id encodings (fedBy calls).length)), d) ∧
      ((∃ k, fedBy calls = (encodings.take k).flatten) → d.finish.1 = .ok ()) ∧
      ((∃ message, d.finish.1 = .error (.thrown ⟨.frameTruncated, message⟩)) ↔
        ¬ ∃ k, fedBy calls = (encodings.take k).flatten)

/-- A call that throws leaves the decoder failed, and a failed decoder rejects
every call and stays as it is. -/
structure FrameFailure : Prop where
  next : ∀ (d : FrameDecoder) e, (d.next codec).1 = .error e → (d.next codec).2.failed = true
  finish : ∀ (d : FrameDecoder) e, d.finish.1 = .error e → d.finish.2.failed = true
  rejects : ∀ d : FrameDecoder, d.failed = true →
    (∀ bytes, (d.feed bytes).1 = .error kAlreadyRejected) ∧
      (d.next codec).1 = .error kAlreadyRejected ∧ d.finish.1 = .error kAlreadyRejected
  stays : ∀ d d' : FrameDecoder, (FrameDecoder.system codec limits).Leads d d' → d.failed = true → d' = d

/-- Whatever bytes are fed, no size computed from a header wraps and no read
leaves the buffer. -/
structure FrameBounds : Prop where
  sizes : ∀ (d : FrameDecoder) header headerEnd, (FrameDecoder.system codec limits).Reachable d →
    d.header codec = .ok (some (header, headerEnd)) → SizesExact d.buffer header headerEnd
  reads : ∀ d : FrameDecoder, (FrameDecoder.system codec limits).Reachable d →
    (d.next codec).1 ≠ .error .overread

variable {codec limits}

theorem mapM_encodeFrame {frames : List Frame} {encodings : List Bytes}
    (encoded : frames.mapM (fun frame => encodeFrame codec frame limits) = .ok encodings) :
    encodings = frames.map (frameBytes codec limits) ∧
      ∀ frame ∈ frames, ∃ bytes, encodeFrame codec frame limits = .ok bytes := by
  induction frames generalizing encodings with
  | nil =>
    cases encoded
    exact ⟨rfl, by simp⟩
  | cons frame rest ih =>
    obtain ⟨bytes, more, head, tail, rfl⟩ := mapM_cons_eq_ok.mp encoded
    obtain ⟨rfl, all⟩ := ih tail
    refine ⟨by rw [List.map_cons, frameBytes, head], fun other mem => ?_⟩
    cases List.mem_cons.mp mem with
    | inl same => exact ⟨bytes, same ▸ head⟩
    | inr later => exact all other later

theorem healthy_fresh : Healthy codec limits { limits } :=
  ⟨rfl, rfl, fun header pending => by cases pending⟩

theorem Healthy.finish {d : FrameDecoder} (ok : Healthy codec limits d) :
    (d.buffer = [] → d.finish.1 = .ok ()) ∧
      ((∃ message, d.finish.1 = .error (.thrown ⟨.frameTruncated, message⟩)) ↔ d.buffer ≠ []) := by
  unfold FrameDecoder.finish
  rw [ok.running]
  cases buffer : d.buffer with
  | nil => simp
  | cons byte rest => simp

theorem frameRoundTrip (codec : Codec) (limits : FrameLimits) : FrameRoundTrip codec limits := by
  have drained : ∀ (frames : List Frame) (encodings : List Bytes),
      frames.mapM (fun frame => encodeFrame codec frame limits) = .ok encodings →
      (∀ frame ∈ frames, ParsesBack codec frame) →
      ∀ calls rest n, fedBy calls ++ rest = encodings.flatten → frames.length ≤ n →
        ∃ d, (FrameDecoder.stream codec).run (calls ++ List.replicate n .next) { limits } =
          (.ok (frames.take (StreamDecoder.wholeCount id encodings (fedBy calls).length)), d) ∧
        Healthy codec limits d ∧
        (d.buffer = [] ↔ ∃ k, fedBy calls = (encodings.take k).flatten) := by
    intro frames encodings encoded inverse calls rest n stream enough
    obtain ⟨rfl, all⟩ := mapM_encodeFrame encoded
    rw [← List.flatMap_def] at stream
    obtain ⟨d, ran, ok, left⟩ := decodes_frames.run_drained calls healthy_fresh rfl
      (fun frame mem => ⟨all frame mem, inverse frame mem⟩) stream enough
    have boundary := StreamDecoder.wholeCount_boundary _ frames left
    refine ⟨d, ?_, ok, ?_⟩
    · rw [StreamDecoder.wholeCount_map]
      exact ran
    · simp only [List.flatMap_def, List.map_take] at boundary
      exact boundary
  constructor
  case whole =>
    intro frames encodings encoded inverse calls n fed enough
    obtain ⟨d, ran, ok, boundary⟩ := drained frames encodings encoded inverse calls [] n
      (by rw [List.append_nil, fed]) enough
    have all : StreamDecoder.wholeCount id encodings (fedBy calls).length = frames.length := by
      obtain ⟨rfl, -⟩ := mapM_encodeFrame encoded
      rw [fed, ← List.flatMap_def, StreamDecoder.wholeCount_map, StreamDecoder.wholeCount_all]
    rw [all, List.take_length] at ran
    exact ⟨d, ran, ok.finish.1 (boundary.mpr ⟨encodings.length, by rw [fed, List.take_length]⟩)⟩
  case part =>
    intro frames encodings encoded inverse calls rest n stream _ enough
    obtain ⟨d, ran, ok, boundary⟩ := drained frames encodings encoded inverse calls rest n stream
      enough
    exact ⟨d, ran, fun ends => ok.finish.1 (boundary.mpr ends),
      ok.finish.2.trans (not_congr boundary)⟩

theorem frameFailure (codec : Codec) (limits : FrameLimits) : FrameFailure codec limits := by
  have rejects : ∀ d : FrameDecoder, d.failed = true →
      (∀ bytes, d.feed bytes = (.error kAlreadyRejected, d)) ∧
        d.next codec = (.error kAlreadyRejected, d) ∧ d.finish = (.error kAlreadyRejected, d) := by
    intro d failed
    simp [FrameDecoder.feed, FrameDecoder.next, FrameDecoder.finish, failed]
  constructor
  case next =>
    intro d e
    unfold FrameDecoder.next
    split
    · next failed => exact fun _ => failed
    · split
      · exact fun _ => rfl
      · exact fun thrown => by cases thrown
  case finish =>
    intro d e
    unfold FrameDecoder.finish
    split
    · next failed => exact fun _ => failed
    · split
      · exact fun thrown => by cases thrown
      · exact fun _ => rfl
  case rejects =>
    intro d failed
    obtain ⟨feed, next, finish⟩ := rejects d failed
    exact ⟨fun bytes => by rw [feed], by rw [next], by rw [finish]⟩
  case stays =>
    intro d d' run failed
    refine run.preserves (P := fun x => x = d) (fun x y same step => ?_) rfl
    subst same
    obtain ⟨feed, next, finish⟩ := rejects x failed
    rcases step with ⟨bytes, rfl⟩ | rfl | rfl
    · rw [feed]
    · rw [next]
    · rw [finish]

/-- The frame stream under any limits; sizes and reads under limits that fit. -/
structure FrameStreamContract (codec : Codec) (limits : FrameLimits) : Prop where
  roundTrip : FrameRoundTrip codec limits
  failure : FrameFailure codec limits
  bounds : limits.Fit → FrameBounds codec limits

theorem frame_stream (codec : Codec) (limits : FrameLimits) : FrameStreamContract codec limits where
  roundTrip := frameRoundTrip codec limits
  failure := frameFailure codec limits
  bounds fit := by
    constructor
    case sizes =>
      intro d header headerEnd reach found
      obtain ⟨cached, same⟩ := FrameDecoder.reachable_cached reach
      rw [cached.header_eq, same] at found
      exact sizesExact_of_fit codec fit found
    case reads =>
      intro d reach
      obtain ⟨cached, same⟩ := FrameDecoder.reachable_cached reach
      exact FrameDecoder.next_ne_overread cached (same ▸ fit)

/-! ## Limits that do not fit -/

/-- The JSON library on the text of one header. -/
def headerLibrary (header : FrameHeader) : JsonLibrary where
  floatText := sampleCodec.json.floatText
  floatText_plain := sampleCodec.json.floatText_plain
  parse text :=
    if text = dump sampleCodec.json (frameHeaderJson header) then .ok (frameHeaderJson header)
    else .error "parse error"

def headerCodec (header : FrameHeader) : Codec where
  blake3 := sampleCodec.blake3
  json := headerLibrary header

/-- No limit on payloads. -/
def wrapLimits : FrameLimits where
  maxPayloadBytes := 2 ^ 64 - 1
  maxTotalPayloadBytes := 2 ^ 64 - 1

/-- A header that declares a payload of 2^64 - 1 bytes. -/
def wrapHeader : FrameHeader where
  type := .heartbeat
  body := .object []
  payloads := [{ bytes := 2 ^ 64 - 1, blake3 := default }]

def wrapHeaderBytes : Bytes := dump (headerCodec wrapHeader).json (frameHeaderJson wrapHeader)

/-- The decoder that received this header and nothing else. -/
def wrapDecoder : FrameDecoder where
  limits := wrapLimits
  buffer := bigEndianU32 wrapHeaderBytes.length ++ wrapHeaderBytes

theorem wrapDecoder_reachable :
    (FrameDecoder.system (headerCodec wrapHeader) wrapLimits).Reachable wrapDecoder :=
  (System.Reachable.start rfl).next (.inl ⟨wrapDecoder.buffer, rfl⟩)

theorem wrapHeader_encodes :
    encodeFrameHeader (headerCodec wrapHeader).json wrapHeader wrapLimits = .ok wrapHeaderBytes :=
  encodeFrameHeader_intro _ rfl (by decide +kernel) rfl (by decide +kernel)

theorem headerCodec_parsesBack (header : FrameHeader) :
    (headerCodec header).json.parse (dump (headerCodec header).json (frameHeaderJson header)) =
      .ok (frameHeaderJson header) := by
  have floats : (headerCodec header).json.floatText = sampleCodec.json.floatText := rfl
  rw [dump_congr floats]
  exact if_pos rfl

theorem addSize_wraps {size : Nat} (pos : 0 < size) (small : size < 2 ^ 64) :
    addSize size (2 ^ 64 - 1) = size - 1 := by
  rw [addSize]
  omega

theorem readSpan_outside {buffer : Bytes} {offset length : Nat}
    (past : buffer.length < offset + length) :
    readSpan buffer offset length = .error .overread :=
  if_neg (Nat.not_le.mpr past)

/-- The frame's size wraps to less than is buffered, and the payload is read past
the end of the buffer. -/
theorem frame_stream_wraps : ¬ FrameBounds (headerCodec wrapHeader) wrapLimits := by
  intro bounds
  have fourBytes : (bigEndianU32 wrapHeaderBytes.length).length = kFrameLengthPrefixBytes := rfl
  have size : wrapDecoder.buffer.length = kFrameLengthPrefixBytes + wrapHeaderBytes.length := by
    rw [wrapDecoder, List.length_append, fourBytes]
  have small : wrapHeaderBytes.length ≤ wrapLimits.maxHeaderBytes := by decide +kernel
  have split : wrapDecoder.buffer ++ [] =
      bigEndianU32 wrapHeaderBytes.length ++ (wrapHeaderBytes ++ []) := by
    rw [List.append_nil, List.append_nil, wrapDecoder]
  have parsed := parseHeader_part (headerCodec_parsesBack wrapHeader) wrapHeader_encodes split
  rw [size, if_neg (Nat.lt_irrefl _)] at parsed
  have declared : declaredPayloadBytes wrapHeader.payloads = 2 ^ 64 - 1 := by decide
  have wrapped : addSize (kFrameLengthPrefixBytes + wrapHeaderBytes.length) (2 ^ 64 - 1) =
      kFrameLengthPrefixBytes + wrapHeaderBytes.length - 1 :=
    addSize_wraps (Nat.add_pos_left (by decide) _)
      ((Nat.add_le_add_left small _).trans_lt (by decide))
  have outside : readPayloads (headerCodec wrapHeader) wrapDecoder.buffer wrapHeader.payloads
      (kFrameLengthPrefixBytes + wrapHeaderBytes.length) 0 = .error .overread := by
    have span : readSpan wrapDecoder.buffer (kFrameLengthPrefixBytes + wrapHeaderBytes.length)
        (2 ^ 64 - 1) = .error .overread :=
      readSpan_outside (by rw [size]; exact Nat.lt_add_of_pos_right (by decide))
    show (readSpan _ _ (2 ^ 64 - 1) >>= _) = _
    rw [span]
    rfl
  have header : wrapDecoder.header (headerCodec wrapHeader) = .ok (some (wrapHeader,
      kFrameLengthPrefixBytes + wrapHeaderBytes.length)) := parsed
  refine bounds.reads wrapDecoder wrapDecoder_reachable ?_
  have unchecked : wrapDecoder.nextUnchecked (headerCodec wrapHeader) = .error .overread := by
    simp only [FrameDecoder.nextUnchecked, header, declared, wrapped, outside, bind, Except.bind,
      size, if_neg (Nat.not_lt.mpr (Nat.sub_le _ _))]
  have running : wrapDecoder.failed = false := rfl
  simp only [FrameDecoder.next, running, unchecked, Bool.false_eq_true, if_false]

/-! ## Two frames in three chunks -/

/-- A frame with one payload of no bytes. -/
def heartbeat : Frame where
  type := .heartbeat
  body := .object []
  payloads := [[]]

def heartbeatCodec : Codec := headerCodec (frameHeader sampleCodec heartbeat)

def heartbeatBytes : Bytes := frameBytes heartbeatCodec {} heartbeat

theorem heartbeat_encodes : encodeFrame heartbeatCodec heartbeat {} = .ok heartbeatBytes := by
  have header : encodeFrameHeader heartbeatCodec.json (frameHeader heartbeatCodec heartbeat) {} =
      .ok (dump heartbeatCodec.json (frameHeaderJson (frameHeader heartbeatCodec heartbeat))) :=
    encodeFrameHeader_intro _ rfl (by decide +kernel) rfl (by decide +kernel)
  have accepted : ∃ bytes, encodeFrame heartbeatCodec heartbeat {} = .ok bytes := by
    have fits : ¬ kMaxVectorBytes < (bigEndianU32 (dump heartbeatCodec.json
        (frameHeaderJson (frameHeader heartbeatCodec heartbeat))).length ++
        dump heartbeatCodec.json (frameHeaderJson (frameHeader heartbeatCodec heartbeat)) ++
        heartbeat.payloads.flatten).length := by
      decide +kernel
    simp only [encodeFrame, header, Abort.lift, bind, Except.bind, if_neg fits]
    exact ⟨_, rfl⟩
  obtain ⟨bytes, encoded⟩ := accepted
  rw [encoded, heartbeatBytes, frameBytes, encoded]

/-- Two frames fed in three chunks, the first of which ends inside the length. -/
theorem frame_stream_heartbeats :
    ∃ d, (FrameDecoder.stream heartbeatCodec).run
        ([.feed (heartbeatBytes.take 3), .next, .feed (heartbeatBytes.drop 3), .next,
          .feed heartbeatBytes] ++ List.replicate 2 .next) {} = (.ok [heartbeat, heartbeat], d) ∧
      d.finish.1 = .ok () := by
  refine (frame_stream heartbeatCodec {}).roundTrip.whole [heartbeat, heartbeat]
    [heartbeatBytes, heartbeatBytes] ?_ ?_ _ 2 ?_ (by decide)
  · simp [heartbeat_encodes, bind, Except.bind, pure, Except.pure]
  · intro frame mem
    obtain rfl : frame = heartbeat := by simpa using mem
    exact headerCodec_parsesBack (frameHeader sampleCodec heartbeat)
  · simp [fedBy, ← List.append_assoc]

end Stream

end Svp.Exec
