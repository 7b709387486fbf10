import Mathlib

/-!
# Encoders and decoders that refuse

An encoder and a decoder, each of which may refuse, agree on a set of values
when every value of the set survives the round trip and the decoder returns no
other value. Re-encoding what was decoded is then possible and loses nothing.
-/

namespace Svp.Lib

variable {ε α β : Type}

/-- `encode` and `decode` are inverse on the values that satisfy `valid`. -/
structure PartialCodec (valid : α → Prop) (encode : α → Except ε β) (decode : β → Except ε α) :
    Prop where
  /-- A valid value is written, and read back as it was. -/
  roundTrip : ∀ a, valid a → ∃ b, encode a = .ok b ∧ decode b = .ok a
  /-- What is read is valid. -/
  accepted : ∀ b a, decode b = .ok a → valid a

end Svp.Lib
