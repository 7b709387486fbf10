import Svp.Exec.Records

/-!
# Frames and their headers

A frame is a four-byte length, a canonical JSON header and the payloads the
header declares, back to back. Sizes are 64-bit; `addSize` is their sum as the
code computes it. The main results are that decoding a header inverts encoding
(`decodeFrameHeader_encodeFrameHeader`) and that the declared sizes an accepted
header adds up to are within the limits (`checkPayloadLimits_sum`).
-/

namespace Svp.Exec

/-! ## Message types -/

inductive MessageType
  | hello
  | helloAck
  | runtimeHave
  | runtimePut
  | blobHave
  | blobPut
  | calibrate
  | assign
  | accept
  | reject
  | heartbeat
  | result
  | cancel
  | drain
  | shutdown
  | unpair
  | error
  | blobGet
  | blobRelease
  | joinOffer
  | joinChallenge
  | joinAccept
  | joinDone
  | fleetMember
deriving DecidableEq

def kAllMessageTypes : List MessageType :=
  [.hello, .helloAck, .runtimeHave, .runtimePut, .blobHave, .blobPut, .calibrate, .assign,
    .accept, .reject, .heartbeat, .result, .cancel, .drain, .shutdown, .unpair, .error, .blobGet,
    .blobRelease, .joinOffer, .joinChallenge, .joinAccept, .joinDone, .fleetMember]

def messageTypeName : MessageType → String
  | .hello => "HELLO"
  | .helloAck => "HELLO_ACK"
  | .runtimeHave => "RUNTIME_HAVE"
  | .runtimePut => "RUNTIME_PUT"
  | .blobHave => "BLOB_HAVE"
  | .blobPut => "BLOB_PUT"
  | .calibrate => "CALIBRATE"
  | .assign => "ASSIGN"
  | .accept => "ACCEPT"
  | .reject => "REJECT"
  | .heartbeat => "HEARTBEAT"
  | .result => "RESULT"
  | .cancel => "CANCEL"
  | .drain => "DRAIN"
  | .shutdown => "SHUTDOWN"
  | .unpair => "UNPAIR"
  | .error => "ERROR"
  | .blobGet => "BLOB_GET"
  | .blobRelease => "BLOB_RELEASE"
  | .joinOffer => "JOIN_OFFER"
  | .joinChallenge => "JOIN_CHALLENGE"
  | .joinAccept => "JOIN_ACCEPT"
  | .joinDone => "JOIN_DONE"
  | .fleetMember => "FLEET_MEMBER"

def parseMessageType (name : String) : Option MessageType :=
  kAllMessageTypes.find? fun type => messageTypeName type == name

@[simp] theorem parseMessageType_messageTypeName (type : MessageType) :
    parseMessageType (messageTypeName type) = some type := by
  cases type <;> decide

/-! ## Limits and sizes -/

def kFrameLengthPrefixBytes : Nat := 4

def kDefaultMaxFrameHeaderBytes : Nat := 4 * 1024 * 1024

def kDefaultMaxFramePayloadBytes : Nat := 64 * 1024 * 1024

def kDefaultMaxFrameTotalPayloadBytes : Nat := 4 * kDefaultMaxFramePayloadBytes

/-- A 32-bit and two 64-bit bounds. -/
structure FrameLimits where
  maxHeaderBytes : Nat := kDefaultMaxFrameHeaderBytes
  maxPayloadBytes : Nat := kDefaultMaxFramePayloadBytes
  maxTotalPayloadBytes : Nat := kDefaultMaxFrameTotalPayloadBytes
  headerWidth : maxHeaderBytes < 2 ^ 32 := by decide
  payloadWidth : maxPayloadBytes < 2 ^ 64 := by decide
  totalWidth : maxTotalPayloadBytes < 2 ^ 64 := by decide

/-- Sum of two sizes as 64-bit unsigned integers. -/
def addSize (a b : Nat) : Nat := (a + b) % 2 ^ 64

theorem addSize_eq {a b : Nat} (fits : a + b < 2 ^ 64) : addSize a b = a + b :=
  Nat.mod_eq_of_lt fits

structure PayloadDeclaration where
  bytes : Nat
  blake3 : Blake3Digest

def declaredPayloadBytes (payloads : List PayloadDeclaration) : Nat :=
  payloads.foldl (fun total payload => addSize total payload.bytes) 0

/-- What the declarations add up to, whatever the width. -/
def declaredSum (payloads : List PayloadDeclaration) : Nat :=
  (payloads.map PayloadDeclaration.bytes).sum

theorem declaredPayloadBytes_eq {payloads : List PayloadDeclaration}
    (fits : declaredSum payloads < 2 ^ 64) : declaredPayloadBytes payloads = declaredSum payloads := by
  have fold : ∀ (payloads : List PayloadDeclaration) (total : Nat),
      total + declaredSum payloads < 2 ^ 64 →
      payloads.foldl (fun total payload => addSize total payload.bytes) total =
        total + declaredSum payloads := by
    intro payloads
    induction payloads with
    | nil => exact fun total _ => rfl
    | cons payload rest ih =>
      intro total fits
      simp only [declaredSum, List.map_cons, List.sum_cons] at fits ⊢
      rw [List.foldl_cons, addSize_eq (by omega), ih _ (by simp only [declaredSum]; omega)]
      simp only [declaredSum]
      omega
  rw [declaredPayloadBytes, fold payloads 0 (by rwa [Nat.zero_add]), Nat.zero_add]

/-- The loop of `check_payload_limits`, with the running total. -/
def checkPayloadLimitsFrom (limits : FrameLimits) (total : Nat) :
    List PayloadDeclaration → Except ExecError Unit
  | [] => .ok ()
  | payload :: rest => do
    require (payload.bytes ≤ limits.maxPayloadBytes) .framePayloadTooLarge
      ("frame payload of " ++ toString payload.bytes ++ " bytes exceeds the " ++
        toString limits.maxPayloadBytes ++ "-byte payload limit")
    require (total ≤ limits.maxTotalPayloadBytes ∧
        payload.bytes ≤ limits.maxTotalPayloadBytes - total) .framePayloadTooLarge
      ("frame payloads exceed the " ++ toString limits.maxTotalPayloadBytes ++
        "-byte per-frame limit")
    checkPayloadLimitsFrom limits (addSize total payload.bytes) rest

def checkPayloadLimits (payloads : List PayloadDeclaration) (limits : FrameLimits) :
    Except ExecError Unit :=
  checkPayloadLimitsFrom limits 0 payloads

/-- Declarations that pass the check add up to at most the limit, and the running
total never overflows. -/
theorem checkPayloadLimits_sum {payloads : List PayloadDeclaration} {limits : FrameLimits}
    (checked : checkPayloadLimits payloads limits = .ok ()) :
    declaredSum payloads ≤ limits.maxTotalPayloadBytes := by
  have fold : ∀ (payloads : List PayloadDeclaration) (total : Nat),
      total ≤ limits.maxTotalPayloadBytes →
      checkPayloadLimitsFrom limits total payloads = .ok () →
      total + declaredSum payloads ≤ limits.maxTotalPayloadBytes := by
    intro payloads
    induction payloads with
    | nil => exact fun total le _ => le
    | cons payload rest ih =>
      intro total _ checked
      obtain ⟨_, -, checked⟩ := bind_eq_ok.mp checked
      obtain ⟨_, both, checked⟩ := bind_eq_ok.mp checked
      obtain ⟨le, room⟩ := of_decide_eq_true (require_eq_ok.mp both)
      have width := limits.totalWidth
      rw [addSize_eq (by omega)] at checked
      have sum := ih _ (by omega) checked
      simp only [declaredSum, List.map_cons, List.sum_cons] at sum ⊢
      omega
  have sum := fold payloads 0 (Nat.zero_le _) checked
  rwa [Nat.zero_add] at sum

/-! ## The header codec -/

structure FrameHeader where
  type : MessageType
  body : Json
  payloads : List PayloadDeclaration

def Json.isObject : Json → Bool
  | .object _ => true
  | _ => false

def declarationJson (payload : PayloadDeclaration) : Json :=
  .object [("blake3", .string (blake3Hex payload.blake3)), ("bytes", .integer payload.bytes)]

def frameHeaderJson (header : FrameHeader) : Json :=
  .object
    [("body", header.body),
      ("payloads", .array (header.payloads.map declarationJson)),
      ("type", .string (messageTypeName header.type))]

variable (lib : JsonLibrary)

def encodeFrameHeader (header : FrameHeader) (limits : FrameLimits) : Except ExecError Bytes := do
  require header.body.isObject .wrongType "frame_header.body must be a JSON object"
  checkPayloadLimits header.payloads limits
  let bytes ← encodeCanonicalJson lib (frameHeaderJson header)
  require (bytes.length ≤ limits.maxHeaderBytes) .frameHeaderTooLarge
    ("frame header of " ++ toString bytes.length ++ " bytes exceeds the " ++
      toString limits.maxHeaderBytes ++ "-byte header limit")
  return bytes

def kFrameHeaderRoot : String := "frame_header"

def declarationFromJson (path : String) (declaration : Json) :
    Except ExecError PayloadDeclaration := do
  requireObject declaration path
  rejectUnknownFields declaration ["blake3", "bytes"] path
  let bytes ← requiredUnsigned declaration "bytes" path
  let blake3 ← requiredBlake3Hex declaration "blake3" path
  return { bytes, blake3 }

def decodeFrameHeader (bytes : Bytes) (limits : FrameLimits) : Except ExecError FrameHeader := do
  let value ← decodeCanonicalJson lib bytes
  requireObject value kFrameHeaderRoot
  rejectUnknownFields value ["body", "payloads", "type"] kFrameHeaderRoot
  let typeName ← requiredString value "type" kFrameHeaderRoot
  match parseMessageType typeName with
  | none =>
    .error ⟨.unknownMessageType,
      "frame_header.type is not a known message type: \x60" ++ typeName ++ "\x60"⟩
  | some type =>
    let body ← requiredObject value "body" kFrameHeaderRoot
    let declarations ← requiredArray value "payloads" kFrameHeaderRoot
    let payloads ← declarations.mapM
      (declarationFromJson (childPath kFrameHeaderRoot "payloads[]"))
    checkPayloadLimits payloads limits
    return { type, body, payloads }

@[simp] theorem declarationFromJson_declarationJson (path : String) (payload : PayloadDeclaration) :
    declarationFromJson path (declarationJson payload) = .ok payload := by
  have object : requireObject (declarationJson payload) path = .ok () := rfl
  have known : rejectUnknownFields (declarationJson payload) ["blake3", "bytes"] path = .ok () :=
    rejectUnknownFields_of path (by simp [declarationJson, Json.fields])
  have bytes : requiredUnsigned (declarationJson payload) "bytes" path = .ok payload.bytes :=
    requiredUnsigned_of path rfl
  have blake3 : requiredBlake3Hex (declarationJson payload) "blake3" path = .ok payload.blake3 :=
    requiredBlake3Hex_of path rfl
  simp [declarationFromJson, object, known, bytes, blake3, bind, Except.bind, pure, Except.pure]

/-- An accepted header has an object body, passes the payload limits and fits
the header limit. -/
theorem encodeFrameHeader_eq_ok {header : FrameHeader} {limits : FrameLimits} {bytes : Bytes}
    (encoded : encodeFrameHeader lib header limits = .ok bytes) :
    header.body.isObject = true ∧ checkPayloadLimits header.payloads limits = .ok () ∧
      encodeCanonicalJson lib (frameHeaderJson header) = .ok bytes ∧
      bytes.length ≤ limits.maxHeaderBytes := by
  obtain ⟨_, object, encoded⟩ := bind_eq_ok.mp encoded
  obtain ⟨_, checked, encoded⟩ := bind_eq_ok.mp encoded
  obtain ⟨text, canonical, encoded⟩ := bind_eq_ok.mp encoded
  obtain ⟨_, fits, encoded⟩ := bind_eq_ok.mp encoded
  obtain rfl : text = bytes := by simpa [pure, Except.pure] using encoded
  exact ⟨require_eq_ok.mp object, checked, canonical, of_decide_eq_true (require_eq_ok.mp fits)⟩

theorem encodeFrameHeader_intro {header : FrameHeader} {limits : FrameLimits} {bytes : Bytes}
    (object : header.body.isObject = true) (checked : checkPayloadLimits header.payloads limits = .ok ())
    (canonical : encodeCanonicalJson lib (frameHeaderJson header) = .ok bytes)
    (fits : bytes.length ≤ limits.maxHeaderBytes) :
    encodeFrameHeader lib header limits = .ok bytes := by
  simp only [encodeFrameHeader, object, checked, canonical, require, fits, decide_true, bind,
    Except.bind, pure, Except.pure, if_true]

/-- Decoding inverts encoding on the headers the JSON library parses back. -/
theorem decodeFrameHeader_encodeFrameHeader {header : FrameHeader} {limits : FrameLimits}
    {bytes : Bytes}
    (inverse : lib.parse (dump lib (frameHeaderJson header)) = .ok (frameHeaderJson header))
    (encoded : encodeFrameHeader lib header limits = .ok bytes) :
    decodeFrameHeader lib bytes limits = .ok header := by
  obtain ⟨object, checked, canonical, -⟩ := encodeFrameHeader_eq_ok lib encoded
  obtain ⟨type, body, payloads⟩ := header
  have value := decode_encode lib inverse canonical
  cases body with
  | object fields =>
    have isObject : requireObject (frameHeaderJson ⟨type, .object fields, payloads⟩)
        kFrameHeaderRoot = .ok () := rfl
    have known : rejectUnknownFields (frameHeaderJson ⟨type, .object fields, payloads⟩)
        ["body", "payloads", "type"] kFrameHeaderRoot = .ok () :=
      rejectUnknownFields_of _ (by simp [frameHeaderJson, Json.fields])
    have typeName : requiredString (frameHeaderJson ⟨type, .object fields, payloads⟩) "type"
        kFrameHeaderRoot = .ok (messageTypeName type) := requiredString_of _ rfl
    have body : requiredObject (frameHeaderJson ⟨type, .object fields, payloads⟩) "body"
        kFrameHeaderRoot = .ok (.object fields) := requiredObject_of _ rfl
    have declarations : requiredArray (frameHeaderJson ⟨type, .object fields, payloads⟩) "payloads"
        kFrameHeaderRoot = .ok (payloads.map declarationJson) := requiredArray_of _ rfl
    have readDeclarations : ∀ path, (payloads.map declarationJson).mapM
        (declarationFromJson path) = .ok payloads := fun path =>
      mapM_written fun payload _ => declarationFromJson_declarationJson path payload
    have checked : checkPayloadLimits payloads limits = .ok () := checked
    simp only [decodeFrameHeader, value, isObject, known, typeName, body, declarations,
      parseMessageType_messageTypeName, readDeclarations, checked, bind, Except.bind, pure,
      Except.pure]
  | _ => simp [Json.isObject] at object

/-- A decoded header passes the payload limits. -/
theorem decodeFrameHeader_checked {bytes : Bytes} {limits : FrameLimits} {header : FrameHeader}
    (decoded : decodeFrameHeader lib bytes limits = .ok header) :
    checkPayloadLimits header.payloads limits = .ok () := by
  obtain ⟨_, -, decoded⟩ := bind_eq_ok.mp decoded
  obtain ⟨_, -, decoded⟩ := bind_eq_ok.mp decoded
  obtain ⟨_, -, decoded⟩ := bind_eq_ok.mp decoded
  obtain ⟨typeName, -, decoded⟩ := bind_eq_ok.mp decoded
  split at decoded
  · cases decoded
  · obtain ⟨_, -, decoded⟩ := bind_eq_ok.mp decoded
    obtain ⟨_, -, decoded⟩ := bind_eq_ok.mp decoded
    obtain ⟨_, -, decoded⟩ := bind_eq_ok.mp decoded
    obtain ⟨_, checked, decoded⟩ := bind_eq_ok.mp decoded
    cases decoded
    exact checked

/-! ## Frames -/

structure Frame where
  type : MessageType
  body : Json
  payloads : List FramePayload

/-- How a call of the framing code ends when it does not return: an `ExecError`,
a vector asked to grow past its maximum size, or a read outside a buffer, which
the language does not define. -/
inductive Abort
  | thrown (error : ExecError)
  | lengthError
  | overread
deriving DecidableEq

def Abort.lift {α : Type} : Except ExecError α → Except Abort α
  | .ok a => .ok a
  | .error error => .error (.thrown error)

/-- `std::vector<std::byte>::max_size()`. -/
def kMaxVectorBytes : Nat := 2 ^ 63 - 1

def bigEndianU32 (value : Nat) : Bytes :=
  [UInt8.ofNat (value >>> 24), UInt8.ofNat (value >>> 16), UInt8.ofNat (value >>> 8),
    UInt8.ofNat value]

def readBigEndianU32 (bytes : Bytes) : Nat :=
  (bytes.take kFrameLengthPrefixBytes).foldl
    (fun value byte => (value * 256 + byte.toNat) % 2 ^ 32) 0

theorem readBigEndianU32_bigEndianU32 {value : Nat} (width : value < 2 ^ 32) (rest : Bytes) :
    readBigEndianU32 (bigEndianU32 value ++ rest) = value := by
  simp only [readBigEndianU32, bigEndianU32, kFrameLengthPrefixBytes, List.cons_append,
    List.take_succ_cons, List.take_zero, List.foldl_cons, List.foldl_nil,
    UInt8.toNat_ofNat', Nat.shiftRight_eq_div_pow]
  omega

variable (codec : Codec)

/-- The header of a frame: each payload is declared with its length and digest. -/
def frameHeader (frame : Frame) : FrameHeader where
  type := frame.type
  body := frame.body
  payloads := frame.payloads.map fun payload =>
    { bytes := payload.length, blake3 := codec.blake3 payload }

def encodeFrame (frame : Frame) (limits : FrameLimits) : Except Abort Bytes := do
  let headerBytes ← Abort.lift (encodeFrameHeader codec.json (frameHeader codec frame) limits)
  let output := bigEndianU32 headerBytes.length ++ headerBytes ++ frame.payloads.flatten
  if kMaxVectorBytes < output.length then .error .lengthError
  else .ok output

theorem declaredSum_frameHeader (frame : Frame) :
    declaredSum (frameHeader codec frame).payloads = frame.payloads.flatten.length := by
  simp [declaredSum, frameHeader, Function.comp_def, List.length_flatten]

/-- What the bytes of an accepted frame are made of. -/
theorem encodeFrame_eq_ok {frame : Frame} {limits : FrameLimits} {bytes : Bytes}
    (encoded : encodeFrame codec frame limits = .ok bytes) :
    ∃ headerBytes,
      encodeFrameHeader codec.json (frameHeader codec frame) limits = .ok headerBytes ∧
      bytes = bigEndianU32 headerBytes.length ++ headerBytes ++ frame.payloads.flatten ∧
      bytes.length < 2 ^ 64 := by
  obtain ⟨headerBytes, header, encoded⟩ := bind_eq_ok.mp encoded
  have accepted : encodeFrameHeader codec.json (frameHeader codec frame) limits =
      .ok headerBytes := by
    cases result : encodeFrameHeader codec.json (frameHeader codec frame) limits with
    | error e =>
      rw [result] at header
      cases header
    | ok text =>
      rw [result] at header
      cases header
      rfl
  refine ⟨headerBytes, accepted, ?_⟩
  simp only at encoded
  split at encoded
  · cases encoded
  · next fits =>
    cases encoded
    refine ⟨rfl, ?_⟩
    rw [kMaxVectorBytes] at fits
    omega

end Svp.Exec
