import Mathlib

/-!
# Bytes, BLAKE3 digests and their hex form

BLAKE3 itself is a library outside the repository: the modules that hash take
`blake3 : Bytes → Blake3Digest` as a parameter. What is modelled here is the
32-byte digest type and the two text forms the records use.
-/

namespace Svp.Exec

/-- A byte string. -/
abbrev Bytes := List UInt8

/-- The UTF-8 bytes of a text. -/
def utf8 (s : String) : Bytes := s.toList.flatMap String.utf8EncodeChar

/-- BLAKE3 output is exactly 32 bytes. -/
def kBlake3DigestBytes : Nat := 32

/-- JSON records store BLAKE3 as 64 lowercase hex characters. -/
def kBlake3HexChars : Nat := kBlake3DigestBytes * 2

def kB3DigestPrefix : String := "b3:"

structure Blake3Digest where
  bytes : Bytes
  size : bytes.length = kBlake3DigestBytes
deriving DecidableEq

/-- The digest all of whose bytes are `b`. -/
def Blake3Digest.fill (b : UInt8) : Blake3Digest := ⟨List.replicate 32 b, by simp [kBlake3DigestBytes]⟩

instance : Inhabited Blake3Digest := ⟨.fill 0⟩

def hexDigit (n : Nat) : Char :=
  if n < 10 then Char.ofNat (48 + n) else Char.ofNat (87 + n)

def hexValue (c : Char) : Nat :=
  if '0' ≤ c ∧ c ≤ '9' then c.toNat - 48 else c.toNat - 87

def isLowerHex (c : Char) : Bool :=
  decide ('0' ≤ c ∧ c ≤ '9') || decide ('a' ≤ c ∧ c ≤ 'f')

/-- The two hex characters of a byte. -/
def hexByte (b : UInt8) : List Char := [hexDigit (b.toNat / 16), hexDigit (b.toNat % 16)]

def blake3Hex (digest : Blake3Digest) : String :=
  String.ofList (digest.bytes.flatMap hexByte)

/-- Reads hex characters two at a time. -/
def hexPairs : List Char → Bytes
  | high :: low :: rest => UInt8.ofNat (hexValue high * 16 + hexValue low) :: hexPairs rest
  | _ => []

/-- Accepts exactly 64 lowercase hex characters. -/
def parseBlake3Hex (hex : String) : Option Blake3Digest :=
  if hex.toList.length = kBlake3HexChars ∧ hex.toList.all isLowerHex then
    let bytes := hexPairs hex.toList
    if h : bytes.length = kBlake3DigestBytes then some ⟨bytes, h⟩ else none
  else none

def blake3Prefixed (digest : Blake3Digest) : String := kB3DigestPrefix ++ blake3Hex digest

def parseBlake3Prefixed (value : String) : Option Blake3Digest :=
  match value.toList with
  | 'b' :: '3' :: ':' :: rest => parseBlake3Hex (String.ofList rest)
  | _ => none

theorem hexValue_hexDigit : ∀ n < 16, hexValue (hexDigit n) = n := by decide

theorem hexPair_byte (b : UInt8) :
    UInt8.ofNat (hexValue (hexDigit (b.toNat / 16)) * 16 + hexValue (hexDigit (b.toNat % 16))) = b := by
  have hlt := b.toNat_lt
  rw [hexValue_hexDigit _ (by omega), hexValue_hexDigit _ (by omega), Nat.div_add_mod',
    UInt8.ofNat_toNat]

theorem hexByte_lower (b : UInt8) : (hexByte b).all isLowerHex = true := by
  have hall : ∀ n < 16, isLowerHex (hexDigit n) = true := by decide
  have hlt := b.toNat_lt
  simp [hexByte, hall (b.toNat / 16) (by omega), hall (b.toNat % 16) (by omega)]

theorem hexPairs_flatMap (bytes : Bytes) : hexPairs (bytes.flatMap hexByte) = bytes := by
  induction bytes with
  | nil => rfl
  | cons b rest ih =>
    change UInt8.ofNat _ :: hexPairs (rest.flatMap hexByte) = b :: rest
    rw [hexPair_byte, ih]

theorem hexBytes_length (bytes : Bytes) : (bytes.flatMap hexByte).length = bytes.length * 2 := by
  induction bytes with
  | nil => rfl
  | cons b rest ih => simp [hexByte, ih]; omega

theorem hexBytes_lower (bytes : Bytes) : (bytes.flatMap hexByte).all isLowerHex = true := by
  rw [List.all_flatMap]
  exact List.all_eq_true.mpr fun b _ => hexByte_lower b

/-- Parsing the hex form gives the digest back. -/
@[simp] theorem parseBlake3Hex_blake3Hex (digest : Blake3Digest) :
    parseBlake3Hex (blake3Hex digest) = some digest := by
  have hlen : (digest.bytes.flatMap hexByte).length = kBlake3HexChars := by
    rw [hexBytes_length, digest.size]; rfl
  rw [parseBlake3Hex, blake3Hex, String.toList_ofList, if_pos ⟨hlen, hexBytes_lower _⟩]
  simp [hexPairs_flatMap, digest.size]

@[simp] theorem parseBlake3Prefixed_blake3Prefixed (digest : Blake3Digest) :
    parseBlake3Prefixed (blake3Prefixed digest) = some digest := by
  have h : (blake3Prefixed digest).toList = 'b' :: '3' :: ':' :: (blake3Hex digest).toList := by
    simp [blake3Prefixed, kB3DigestPrefix]
  simp [parseBlake3Prefixed, h]

theorem blake3Hex_injective : Function.Injective blake3Hex := by
  intro a b h
  have := congrArg parseBlake3Hex h
  simpa using this

end Svp.Exec
