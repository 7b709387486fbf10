import Svp.Exec.Digest
import Svp.Exec.Error

/-!
# JSON values and their canonical text

`Json` is the value type of the JSON library. Its serializer is modelled as far
as the texts it writes are fixed by the format; the text of a floating-point
number and the parser are the library's own and stay parameters (`JsonLibrary`).

`encodeCanonicalJson` and `decodeCanonicalJson` are the encoder and decoder
every record and frame header goes through. The main results are that the
decoder's linear nesting scan accepts every text the encoder writes
(`requireBoundedDepth_encode`) and, where the library parses back what it
wrote, that decoding inverts encoding (`decode_encode`).
-/

namespace Svp.Exec

/-- A JSON value. Signed and unsigned integers compare by value, so they are one
constructor; a float is its IEEE 754 bits; strings are UTF-8 text; the fields of
an object are listed in key order. -/
inductive Json where
  | null
  | bool (value : Bool)
  | integer (value : Int)
  | float (bits : UInt64)
  | string (text : String)
  | array (items : List Json)
  | object (fields : List (String × Json))
  | binary (bytes : Bytes)
  | discarded

/-- What the JSON library supplies: the shortest round-trip text of a finite
float, made of digits, sign, point and exponent, and the parser. -/
structure JsonLibrary where
  floatText : UInt64 → Bytes
  floatText_plain : ∀ bits, ∀ c ∈ floatText bits,
    c ≠ 0x22 ∧ c ≠ 0x5B ∧ c ≠ 0x5D ∧ c ≠ 0x7B ∧ c ≠ 0x7D
  parse : Bytes → Except String Json

/-- A library that prints no number. -/
theorem noFloatText_plain : ∀ _ : UInt64, ∀ c ∈ ([] : Bytes),
    c ≠ 0x22 ∧ c ≠ 0x5B ∧ c ≠ 0x5D ∧ c ≠ 0x7B ∧ c ≠ 0x7D :=
  fun _ => List.forall_mem_nil _

/-- `std::isfinite` on the bits of a double. -/
def isFinite (bits : UInt64) : Bool := (bits >>> 52) &&& 0x7FF != 0x7FF

/-- The text the serializer writes for one character of a string: short escapes,
`\u00xx` for the other control characters, everything else verbatim. -/
def escapeChar (c : Char) : Bytes :=
  if c = '\x08' then [0x5C, 0x62]
  else if c = '\t' then [0x5C, 0x74]
  else if c = '\n' then [0x5C, 0x6E]
  else if c = '\x0c' then [0x5C, 0x66]
  else if c = '\r' then [0x5C, 0x72]
  else if c = '"' then [0x5C, 0x22]
  else if c = '\\' then [0x5C, 0x5C]
  else if c.toNat < 0x20 then
    [0x5C, 0x75, 0x30, 0x30] ++
      [hexDigit (c.toNat / 16), hexDigit (c.toNat % 16)].flatMap String.utf8EncodeChar
  else String.utf8EncodeChar c

def dumpString (text : String) : Bytes := 0x22 :: (text.toList.flatMap escapeChar ++ [0x22])

variable (lib : JsonLibrary)

mutual
/-- `json::dump` without indentation. -/
def dump : Json → Bytes
  | .null => utf8 "null"
  | .bool true => utf8 "true"
  | .bool false => utf8 "false"
  | .integer value => utf8 (toString value)
  | .float bits => if isFinite bits then lib.floatText bits else utf8 "null"
  | .string text => dumpString text
  | .array items => 0x5B :: (dumpItems items ++ [0x5D])
  | .object fields => 0x7B :: (dumpFields fields ++ [0x7D])
  | .binary _ => []
  | .discarded => utf8 "<discarded>"

def dumpItems : List Json → Bytes
  | [] => []
  | [item] => dump item
  | item :: rest => dump item ++ 0x2C :: dumpItems rest

def dumpFields : List (String × Json) → Bytes
  | [] => []
  | [(key, value)] => dumpString key ++ 0x3A :: dump value
  | (key, value) :: rest => dumpString key ++ 0x3A :: (dump value ++ 0x2C :: dumpFields rest)
end

example : dump lib (.object [("a", .array [.integer 1, .null])]) = utf8 "\x7b\"a\":[1,null]\x7d" := rfl

mutual
/-- Of the library, the serializer uses the text of floats only. -/
theorem dump_congr {lib lib' : JsonLibrary} (same : lib.floatText = lib'.floatText) (v : Json) :
    dump lib v = dump lib' v := by
  cases v with
  | null => rfl
  | bool value => cases value <;> rfl
  | integer value => rfl
  | float bits => rw [dump, dump, same]
  | string text => rfl
  | array items => rw [dump, dump, dumpItems_congr same items]
  | object fields => rw [dump, dump, dumpFields_congr same fields]
  | binary bytes => rfl
  | discarded => rfl

theorem dumpItems_congr {lib lib' : JsonLibrary} (same : lib.floatText = lib'.floatText)
    (items : List Json) : dumpItems lib items = dumpItems lib' items := by
  match items with
  | [] => rfl
  | [item] => exact dump_congr same item
  | item :: next :: more =>
    have head := dump_congr same item
    have tail := dumpItems_congr same (next :: more)
    simp only [dumpItems] at tail ⊢
    rw [head, tail]

theorem dumpFields_congr {lib lib' : JsonLibrary} (same : lib.floatText = lib'.floatText)
    (fields : List (String × Json)) : dumpFields lib fields = dumpFields lib' fields := by
  match fields with
  | [] => rfl
  | [(key, value)] =>
    have head := dump_congr same value
    simp only [dumpFields]
    rw [head]
  | (key, value) :: next :: more =>
    have head := dump_congr same value
    have tail := dumpFields_congr same (next :: more)
    simp only [dumpFields] at tail ⊢
    rw [head, tail]
end

/-! ## Canonical encoding and decoding -/

def kMaxCanonicalJsonDepth : Nat := 64

def kDepthError : ExecError :=
  ⟨.invalidValue, "JSON nesting exceeds the canonical depth limit"⟩

mutual
/-- Whether canonical JSON can represent the value at nesting `depth`. -/
def requireEncodable : Json → Nat → Except ExecError Unit
  | .object fields, depth =>
    if kMaxCanonicalJsonDepth ≤ depth then .error kDepthError
    else requireEncodableFields fields (depth + 1)
  | .array items, depth =>
    if kMaxCanonicalJsonDepth ≤ depth then .error kDepthError
    else requireEncodableItems items (depth + 1)
  | .float bits, _ =>
    require (isFinite bits) .nonFiniteNumber "canonical JSON cannot represent NaN or Infinity"
  | .binary _, _ =>
    .error ⟨.wrongType, "canonical JSON cannot represent binary or discarded values"⟩
  | .discarded, _ =>
    .error ⟨.wrongType, "canonical JSON cannot represent binary or discarded values"⟩
  | .null, _ => .ok ()
  | .bool _, _ => .ok ()
  | .integer _, _ => .ok ()
  | .string _, _ => .ok ()

def requireEncodableItems : List Json → Nat → Except ExecError Unit
  | [], _ => .ok ()
  | item :: rest, depth => do
    requireEncodable item depth
    requireEncodableItems rest depth

def requireEncodableFields : List (String × Json) → Nat → Except ExecError Unit
  | [], _ => .ok ()
  | (_, value) :: rest, depth => do
    requireEncodable value depth
    requireEncodableFields rest depth
end

def encodeCanonicalJson (value : Json) : Except ExecError Bytes := do
  requireEncodable value 0
  return dump lib value

/-- State of the nesting scan between two characters. -/
structure DepthScan where
  depth : Nat := 0
  inString : Bool := false
  escaped : Bool := false
deriving DecidableEq

def DepthScan.step (s : DepthScan) (character : UInt8) : Except ExecError DepthScan :=
  if s.inString then
    if s.escaped then .ok { s with escaped := false }
    else if character = 0x5C then .ok { s with escaped := true }
    else if character = 0x22 then .ok { s with inString := false }
    else .ok s
  else if character = 0x22 then .ok { s with inString := true }
  else if character = 0x7B ∨ character = 0x5B then
    if kMaxCanonicalJsonDepth < s.depth + 1 then .error kDepthError
    else .ok { s with depth := s.depth + 1 }
  else if (character = 0x7D ∨ character = 0x5D) ∧ 0 < s.depth then
    .ok { s with depth := s.depth - 1 }
  else .ok s

/-- The scan over a whole text. -/
def DepthScan.run : DepthScan → Bytes → Except ExecError DepthScan
  | s, [] => .ok s
  | s, character :: rest => do DepthScan.run (← s.step character) rest

/-- The linear scan run before parsing. -/
def requireBoundedDepth (bytes : Bytes) : Except ExecError Unit := do
  let _ ← DepthScan.run {} bytes

def decodeCanonicalJson (bytes : Bytes) : Except ExecError Json := do
  requireBoundedDepth bytes
  match lib.parse bytes with
  | .error what => .error ⟨.invalidJson, "invalid JSON: " ++ what⟩
  | .ok value =>
    if (← encodeCanonicalJson lib value) ≠ bytes then
      .error ⟨.nonCanonicalJson, "JSON bytes are not in canonical form"⟩
    else .ok value

/-! ## The nesting scan accepts encoded texts -/

theorem DepthScan.run_append (s : DepthScan) (a b : Bytes) :
    s.run (a ++ b) = s.run a >>= fun t => t.run b := by
  induction a generalizing s with
  | nil => rfl
  | cons c rest ih =>
    simp only [List.cons_append, DepthScan.run]
    cases s.step c with
    | error e => rfl
    | ok t => exact ih t

/-- Outside a string, plain text leaves the scan as it is. -/
theorem DepthScan.run_plain {s : DepthScan} (hs : s.inString = false) {text : Bytes}
    (h : ∀ c ∈ text, c ≠ 0x22 ∧ c ≠ 0x5B ∧ c ≠ 0x5D ∧ c ≠ 0x7B ∧ c ≠ 0x7D) :
    s.run text = .ok s := by
  induction text with
  | nil => rfl
  | cons c rest ih =>
    obtain ⟨h1, h2, h3, h4, h5⟩ := h c (by simp)
    have hstep : s.step c = .ok s := by simp [DepthScan.step, hs, h1, h2, h3, h4, h5]
    simp only [DepthScan.run, hstep]
    exact ih fun c hc => h c (List.mem_cons_of_mem _ hc)

/-- Inside a string, bytes other than a quote or a backslash are skipped. -/
theorem DepthScan.run_inside (d : Nat) {text : Bytes} (h : ∀ c ∈ text, c ≠ 0x22 ∧ c ≠ 0x5C) :
    DepthScan.run ⟨d, true, false⟩ text = .ok ⟨d, true, false⟩ := by
  induction text with
  | nil => rfl
  | cons c rest ih =>
    obtain ⟨h1, h2⟩ := h c (by simp)
    have hstep : DepthScan.step ⟨d, true, false⟩ c = .ok ⟨d, true, false⟩ := by
      simp [DepthScan.step, h1, h2]
    simp only [DepthScan.run, hstep]
    exact ih fun c hc => h c (List.mem_cons_of_mem _ hc)

/-- A backslash hides the byte after it from the scan. -/
theorem DepthScan.run_escape (d : Nat) (c : UInt8) (rest : Bytes) :
    DepthScan.run ⟨d, true, false⟩ (0x5C :: c :: rest) = DepthScan.run ⟨d, true, false⟩ rest := by
  simp [DepthScan.run, DepthScan.step, bind, Except.bind]

/-- The bytes of a character that is neither a quote nor a backslash contain
neither: continuation and lead bytes are all above `0x7F`. -/
theorem utf8EncodeChar_inside {c : Char} (quote : c ≠ '"') (backslash : c ≠ '\\') :
    ∀ b ∈ String.utf8EncodeChar c, b ≠ 0x22 ∧ b ≠ 0x5C := by
  have value : ∀ n m, n < 256 → m < 256 → n ≠ m → UInt8.ofNat n ≠ UInt8.ofNat m := by
    intro n m hn hm hne h
    have same := congrArg UInt8.toNat h
    rw [UInt8.toNat_ofNat_of_lt' hn, UInt8.toNat_ofNat_of_lt' hm] at same
    exact hne same
  have above : ∀ n, 0x80 ≤ n → n < 256 → UInt8.ofNat n ≠ 0x22 ∧ UInt8.ofNat n ≠ 0x5C := fun n lo hi =>
    ⟨value n 0x22 hi (by decide) (by omega), value n 0x5C hi (by decide) (by omega)⟩
  intro b mem
  simp only [String.utf8EncodeChar] at mem
  split at mem
  · next small =>
    rw [List.mem_singleton.mp mem]
    refine ⟨value _ 0x22 (by omega) (by decide) fun h => quote ?_,
      value _ 0x5C (by omega) (by decide) fun h => backslash ?_⟩
    · exact Char.ext (UInt32.toNat_inj.mp h)
    · exact Char.ext (UInt32.toNat_inj.mp h)
  · split at mem
    · simp only [List.mem_cons, List.not_mem_nil, or_false] at mem
      rcases mem with rfl | rfl <;> exact above _ (by omega) (by omega)
    · split at mem
      · simp only [List.mem_cons, List.not_mem_nil, or_false] at mem
        rcases mem with rfl | rfl | rfl <;> exact above _ (by omega) (by omega)
      · simp only [List.mem_cons, List.not_mem_nil, or_false] at mem
        rcases mem with rfl | rfl | rfl | rfl <;> exact above _ (by omega) (by omega)

theorem DepthScan.run_escapeChar (d : Nat) (c : Char) (rest : Bytes) :
    DepthScan.run ⟨d, true, false⟩ (escapeChar c ++ rest) =
      DepthScan.run ⟨d, true, false⟩ rest := by
  have short : ∀ text : Bytes, (∀ b ∈ text, b ≠ 0x22 ∧ b ≠ 0x5C) →
      DepthScan.run ⟨d, true, false⟩ (text ++ rest) = DepthScan.run ⟨d, true, false⟩ rest := by
    intro text plain
    rw [DepthScan.run_append, DepthScan.run_inside d plain]
    rfl
  unfold escapeChar
  split_ifs with h1 h2 h3 h4 h5 h6 h7 h8
  · exact DepthScan.run_escape d 0x62 rest
  · exact DepthScan.run_escape d 0x74 rest
  · exact DepthScan.run_escape d 0x6E rest
  · exact DepthScan.run_escape d 0x66 rest
  · exact DepthScan.run_escape d 0x72 rest
  · exact DepthScan.run_escape d 0x22 rest
  · exact DepthScan.run_escape d 0x5C rest
  · -- `\u00xx`: the backslash hides the `u`, the digits are plain
    have hex : ∀ n < 16, hexDigit n ≠ '"' ∧ hexDigit n ≠ '\\' := by decide
    have digits : ∀ b ∈
        [0x30, 0x30] ++ [hexDigit (c.toNat / 16), hexDigit (c.toNat % 16)].flatMap
          String.utf8EncodeChar, b ≠ 0x22 ∧ b ≠ 0x5C := by
      obtain ⟨high, high'⟩ := hex (c.toNat / 16) (by omega)
      obtain ⟨low, low'⟩ := hex (c.toNat % 16) (by omega)
      intro b mem
      simp only [List.flatMap_cons, List.flatMap_nil, List.append_nil, List.mem_append,
        List.mem_cons, List.not_mem_nil, or_false, or_self] at mem
      rcases mem with rfl | mem | mem
      · decide
      · exact utf8EncodeChar_inside high high' b mem
      · exact utf8EncodeChar_inside low low' b mem
    rw [List.append_assoc]
    change DepthScan.run _ (0x5C :: 0x75 :: ([0x30, 0x30] ++ (_ ++ rest))) = _
    rw [DepthScan.run_escape, ← List.append_assoc]
    exact short _ digits
  · exact short _ (utf8EncodeChar_inside h6 h7)

/-- A dumped string is skipped whole. -/
theorem DepthScan.run_dumpString (d : Nat) (text : String) (rest : Bytes) :
    DepthScan.run ⟨d, false, false⟩ (dumpString text ++ rest) =
      DepthScan.run ⟨d, false, false⟩ rest := by
  have body : ∀ (chars : List Char) (tail : Bytes),
      DepthScan.run ⟨d, true, false⟩ (chars.flatMap escapeChar ++ tail) =
        DepthScan.run ⟨d, true, false⟩ tail := by
    intro chars tail
    induction chars with
    | nil => rfl
    | cons c cs ih => rw [List.flatMap_cons, List.append_assoc, run_escapeChar, ih]
  change DepthScan.run ⟨d, true, false⟩ ((_ ++ [0x22]) ++ rest) = _
  rw [List.append_assoc, body]
  rfl

theorem DepthScan.run_open {d : Nat} {c : UInt8} (hc : c = 0x7B ∨ c = 0x5B)
    (hd : d < kMaxCanonicalJsonDepth) (rest : Bytes) :
    DepthScan.run ⟨d, false, false⟩ (c :: rest) = DepthScan.run ⟨d + 1, false, false⟩ rest := by
  have limit : ¬ kMaxCanonicalJsonDepth < d + 1 := by omega
  rcases hc with rfl | rfl <;> simp [DepthScan.run, DepthScan.step, limit, bind, Except.bind]

theorem DepthScan.run_close {d : Nat} {c : UInt8} (hc : c = 0x7D ∨ c = 0x5D) (rest : Bytes) :
    DepthScan.run ⟨d + 1, false, false⟩ (c :: rest) = DepthScan.run ⟨d, false, false⟩ rest := by
  rcases hc with rfl | rfl <;> simp [DepthScan.run, DepthScan.step, bind, Except.bind]

theorem DepthScan.run_comma {d : Nat} {c : UInt8} (hc : c = 0x2C ∨ c = 0x3A) (rest : Bytes) :
    DepthScan.run ⟨d, false, false⟩ (c :: rest) = DepthScan.run ⟨d, false, false⟩ rest := by
  rcases hc with rfl | rfl <;> simp [DepthScan.run, DepthScan.step, bind, Except.bind]

/-- The bytes the scan does nothing for, wherever it stands outside a string. -/
def IsPlain (text : Bytes) : Prop :=
  ∀ c ∈ text, c ≠ 0x22 ∧ c ≠ 0x5B ∧ c ≠ 0x5D ∧ c ≠ 0x7B ∧ c ≠ 0x7D

instance (text : Bytes) : Decidable (IsPlain text) :=
  inferInstanceAs (Decidable (∀ c ∈ text, c ≠ 0x22 ∧ c ≠ 0x5B ∧ c ≠ 0x5D ∧ c ≠ 0x7B ∧ c ≠ 0x7D))

theorem DepthScan.run_of_isPlain {d : Nat} {text : Bytes} (plain : IsPlain text) (rest : Bytes) :
    DepthScan.run ⟨d, false, false⟩ (text ++ rest) = DepthScan.run ⟨d, false, false⟩ rest := by
  rw [DepthScan.run_append, DepthScan.run_plain rfl plain]
  rfl

theorem isPlain_natRepr (n : Nat) : IsPlain (utf8 n.repr) := by
  have digit : ∀ c : Char, c.isDigit → ∀ b ∈ String.utf8EncodeChar c,
      b ≠ 0x22 ∧ b ≠ 0x5B ∧ b ≠ 0x5D ∧ b ≠ 0x7B ∧ b ≠ 0x7D := by
    intro c isDigit b mem
    have range : 48 ≤ c.val.toNat ∧ c.val.toNat ≤ 57 := by
      simpa [Char.isDigit, UInt32.le_iff_toNat_le] using isDigit
    have bytes : ∀ v ≤ 57, 48 ≤ v → UInt8.ofNat v ≠ 0x22 ∧ UInt8.ofNat v ≠ 0x5B ∧
        UInt8.ofNat v ≠ 0x5D ∧ UInt8.ofNat v ≠ 0x7B ∧ UInt8.ofNat v ≠ 0x7D := by decide
    have small : c.val.toNat ≤ 0x7F := by omega
    simp only [String.utf8EncodeChar, if_pos small, List.mem_singleton] at mem
    subst mem
    exact bytes _ range.2 range.1
  intro b mem
  rw [utf8, Nat.toList_repr] at mem
  obtain ⟨c, inDigits, inBytes⟩ := List.mem_flatMap.mp mem
  exact digit c (Nat.isDigit_of_mem_toDigits (by decide) (by decide) inDigits) b inBytes

theorem isPlain_integer (value : Int) : IsPlain (utf8 (toString value)) := by
  cases value with
  | ofNat n => exact isPlain_natRepr n
  | negSucc n =>
    have split : utf8 (toString (Int.negSucc n)) = utf8 "-" ++ utf8 (n + 1).repr := by
      change utf8 ("-" ++ (n + 1).repr) = _
      simp [utf8]
    intro b mem
    rw [split, List.mem_append] at mem
    rcases mem with sign | digits
    · exact (by decide +kernel : IsPlain (utf8 "-")) b sign
    · exact isPlain_natRepr (n + 1) b digits

mutual
/-- A value the encoder accepts at nesting `d` leaves the scan at `d`. -/
theorem DepthScan.run_dump (v : Json) (d : Nat) (accepted : requireEncodable v d = .ok ())
    (rest : Bytes) :
    DepthScan.run ⟨d, false, false⟩ (dump lib v ++ rest) = DepthScan.run ⟨d, false, false⟩ rest := by
  cases v with
  | null => exact run_of_isPlain (by decide +kernel : IsPlain (utf8 "null")) rest
  | bool value =>
    cases value
    · exact run_of_isPlain (by decide +kernel : IsPlain (utf8 "false")) rest
    · exact run_of_isPlain (by decide +kernel : IsPlain (utf8 "true")) rest
  | integer value => exact run_of_isPlain (isPlain_integer value) rest
  | float bits =>
    rw [dump]
    split
    · exact run_of_isPlain (lib.floatText_plain bits) rest
    · exact run_of_isPlain (by decide +kernel : IsPlain (utf8 "null")) rest
  | string text => exact run_dumpString d text rest
  | array items =>
    rw [requireEncodable] at accepted
    split at accepted
    · cases accepted
    · next shallow =>
      rw [dump, List.cons_append, List.append_assoc,
        run_open (.inr rfl) (Nat.lt_of_not_le shallow), run_dumpItems items (d + 1) accepted]
      exact run_close (.inr rfl) rest
  | object fields =>
    rw [requireEncodable] at accepted
    split at accepted
    · cases accepted
    · next shallow =>
      rw [dump, List.cons_append, List.append_assoc,
        run_open (.inl rfl) (Nat.lt_of_not_le shallow), run_dumpFields fields (d + 1) accepted]
      exact run_close (.inl rfl) rest
  | binary bytes => cases accepted
  | discarded => cases accepted

theorem DepthScan.run_dumpItems (items : List Json) (d : Nat)
    (accepted : requireEncodableItems items d = .ok ()) (rest : Bytes) :
    DepthScan.run ⟨d, false, false⟩ (dumpItems lib items ++ rest) =
      DepthScan.run ⟨d, false, false⟩ rest := by
  match items with
  | [] => rfl
  | [item] =>
    obtain ⟨u, head, _⟩ := bind_eq_ok.mp accepted
    exact run_dump item d head rest
  | item :: next :: more =>
    obtain ⟨u, head, tail⟩ := bind_eq_ok.mp accepted
    rw [dumpItems, List.append_assoc, run_dump item d head, List.cons_append,
      run_comma (.inl rfl)]
    · exact run_dumpItems (next :: more) d tail rest
    · simp

theorem DepthScan.run_dumpFields (fields : List (String × Json)) (d : Nat)
    (accepted : requireEncodableFields fields d = .ok ()) (rest : Bytes) :
    DepthScan.run ⟨d, false, false⟩ (dumpFields lib fields ++ rest) =
      DepthScan.run ⟨d, false, false⟩ rest := by
  match fields with
  | [] => rfl
  | [(key, value)] =>
    obtain ⟨u, head, _⟩ := bind_eq_ok.mp accepted
    rw [dumpFields, List.append_assoc, run_dumpString, List.cons_append, run_comma (.inr rfl)]
    exact run_dump value d head rest
  | (key, value) :: next :: more =>
    obtain ⟨u, head, tail⟩ := bind_eq_ok.mp accepted
    rw [dumpFields, List.append_assoc, run_dumpString, List.cons_append, run_comma (.inr rfl),
      List.append_assoc, run_dump value d head, List.cons_append, run_comma (.inl rfl)]
    · exact run_dumpFields (next :: more) d tail rest
    · simp
end

/-- The nesting scan passes every text the encoder writes. -/
theorem requireBoundedDepth_encode {v : Json} {bytes : Bytes}
    (encoded : encodeCanonicalJson lib v = .ok bytes) : requireBoundedDepth bytes = .ok () := by
  obtain ⟨u, accepted, written⟩ := bind_eq_ok.mp encoded
  obtain rfl : dump lib v = bytes := by simpa [pure, Except.pure] using written
  have scan := DepthScan.run_dump lib v 0 accepted []
  rw [List.append_nil] at scan
  have scan' : DepthScan.run {} (dump lib v) = .ok ⟨0, false, false⟩ := scan
  simp [requireBoundedDepth, scan', bind, Except.bind, pure, Except.pure]

/-- Decoding inverts encoding on the values the library parses back. -/
theorem decode_encode {v : Json} {bytes : Bytes} (inverse : lib.parse (dump lib v) = .ok v)
    (encoded : encodeCanonicalJson lib v = .ok bytes) : decodeCanonicalJson lib bytes = .ok v := by
  have bounded := requireBoundedDepth_encode lib encoded
  obtain ⟨u, accepted, written⟩ := bind_eq_ok.mp encoded
  obtain rfl : dump lib v = bytes := by simpa [pure, Except.pure] using written
  simp [decodeCanonicalJson, bounded, inverse, encoded, bind, Except.bind]

end Svp.Exec
