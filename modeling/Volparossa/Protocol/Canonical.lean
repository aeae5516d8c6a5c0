import Volparossa.Foundations.Fallible
import Volparossa.Foundations.Protobuf.Message
import Volparossa.Protocol.Basic

/-!
# The one accepted encoding of a message

`encodeCanonical` refuses messages above a size, and `decodeCanonical` refuses every byte string
that is not the encoding of the message it decodes to: alternate encodings, duplicate singular
fields and unknown fields do not survive the re-encoding. So what is accepted determines the bytes
(`encode_of_decodeCanonical`), and the encoding of a message is accepted as that message
(`decodeCanonical_encode`).
-/

namespace Volparossa.Protocol

open Protobuf

variable {M : Type} [Message M]

/-- Encode a message of at most `maximum` bytes. -/
def encodeCanonical (m : M) (maximum : ℕ) : Except ProtocolError Bytes :=
  if (encode m).length > maximum then .error (.oversized "protobuf message" maximum)
  else .ok (encode m)

/-- Decode a message from its one accepted encoding. -/
def decodeCanonical (encoded : Bytes) (maximum : ℕ) : Except ProtocolError M := do
  refuse (encoded.length > maximum) (.oversized "protobuf message" maximum)
  let m ← orFail (decode encoded) ProtocolError.decode
  let canonical ← encodeCanonical m maximum
  refuse (canonical ≠ encoded) ProtocolError.nonCanonical
  pure m

theorem encodeCanonical_eq_ok {m : M} {maximum : ℕ} {b : Bytes} :
    encodeCanonical m maximum = .ok b ↔ (encode m).length ≤ maximum ∧ encode m = b := by
  unfold encodeCanonical
  split
  · simp; omega
  · simp; omega

/-- What is accepted determines the bytes. -/
theorem encode_of_decodeCanonical {b : Bytes} {maximum : ℕ} {m : M}
    (h : decodeCanonical b maximum = .ok m) : encode m = b ∧ b.length ≤ maximum := by
  simp only [decodeCanonical, ok_iff, encodeCanonical_eq_ok] at h
  obtain ⟨-, hlen, m', -, c, ⟨-, rfl⟩, -, hc, rfl⟩ := h
  exact ⟨not_not.mp hc, by omega⟩

/-- **The encoding of a message is accepted as that message.** -/
theorem decodeCanonical_encode [LawfulMessage M] {m : M} {maximum : ℕ} (h : Fits m)
    (hlen : (encode m).length ≤ maximum) (hmax : maximum < 2 ^ 64) :
    decodeCanonical (encode m) maximum = .ok m := by
  rw [decodeCanonical, refuse_of_not (by omega), ok_bind,
    decode_encode h (lt_of_le_of_lt hlen hmax), orFail_some, ok_bind,
    encodeCanonical_eq_ok.mpr ⟨hlen, rfl⟩, ok_bind, refuse_of_not (by simp)]
  rfl

end Volparossa.Protocol
