import Sybil.Lib.Machine

/-!
# Cryptographic primitives

The hash functions and the P-256 check come from libraries outside the repository.  The
qMDB root constructions and the WebAuthn envelope check (`key_op_auth.rs`) are the
repository's own; the verifier only compares or forwards what they return.  All of them
are parameters of the model: every statement holds for all of them, and where one needs
a property of a hash it says which.
-/

namespace Sybil

/-- A 32-byte digest. -/
abbrev Digest := FixedBytes 32

/-- The functions that the modelled code calls without looking inside. -/
structure Primitives where
  blake3 : Bytes → Digest
  sha256 : Bytes → Digest
  keccak256 : Bytes → Digest
  /-- Root of the ordered qMDB over key/value leaves. -/
  stateRootFromLeaves : List (Bytes × Bytes) → Digest
  /-- Root of the keyless qMDB over event byte strings. -/
  eventsRootFromEventBytes : List Bytes → Digest
  /-- P-256 verification of a signature over a 32-byte prehash. -/
  verifyP256Prehash : FixedBytes 33 → FixedBytes 64 → Digest → Except String Unit
  /-- Well-formedness of a WebAuthn envelope for the given canonical bytes. -/
  verifyWebauthnEnvelope : Bytes → Bytes → Bytes → Except String Unit

end Sybil
