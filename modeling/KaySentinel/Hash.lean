import KaySentinel.Bytes
import KaySentinel.Lib.Logged

/-!
# Domain-separated commitments

`Digest := BLAKE3(DomainBytes || CanonicalBytes)`.  BLAKE3 itself is a parameter of the
model; a computation that hashes logs every byte string it passes to BLAKE3.
-/

namespace KaySentinel

/-- The BLAKE3 function, from byte strings to 32-byte digests. -/
abbrev Blake3 := List UInt8 → Word

/-- A computation that may hash. -/
abbrev Hashing (α : Type) := Logged (List UInt8) α

/-- The hash domain registry. -/
inductive Domain where
  | trieLeaf
  | trieBranch
  | lifeCert
  | ssrRoot
  | gate2Replay
deriving DecidableEq

namespace Domain

def asBytes : Domain → List UInt8
  -- b"KAY_TRIE_LEAF"
  | trieLeaf => [75, 65, 89, 95, 84, 82, 73, 69, 95, 76, 69, 65, 70]
  -- b"KAY_TRIE_BRANCH"
  | trieBranch => [75, 65, 89, 95, 84, 82, 73, 69, 95, 66, 82, 65, 78, 67, 72]
  -- b"KAY_LIFE_CERT"
  | lifeCert => [75, 65, 89, 95, 76, 73, 70, 69, 95, 67, 69, 82, 84]
  -- b"KAY_SSR_ROOT"
  | ssrRoot => [75, 65, 89, 95, 83, 83, 82, 95, 82, 79, 79, 84]
  -- b"KAY_GATE2_REPLAY"
  | gate2Replay => [75, 65, 89, 95, 71, 65, 84, 69, 50, 95, 82, 69, 80, 76, 65, 89]

end Domain

def deriveCommitment (blake3 : Blake3) (domain : Domain) (canonicalBytes : List UInt8) :
    Hashing Word :=
  Logged.query blake3 (domain.asBytes ++ canonicalBytes)

/-- The function with the given digests, and zero for any other input. -/
def Blake3.ofTable (digests : List (List UInt8 × Word)) : Blake3 :=
  fun input => (digests.lookup input).getD (Bytes.zero 32)

/-- Among the given inputs BLAKE3 has no collision and never yields the zero digest. -/
structure CollisionFree (blake3 : Blake3) (inputs : List (List UInt8)) : Prop where
  injective : ∀ a ∈ inputs, ∀ b ∈ inputs, blake3 a = blake3 b → a = b
  nonzero : ∀ a ∈ inputs, blake3 a ≠ Bytes.zero 32

variable {blake3 : Blake3}

instance (inputs : List (List UInt8)) : Decidable (CollisionFree blake3 inputs) :=
  decidable_of_iff
    ((∀ a ∈ inputs, ∀ b ∈ inputs, blake3 a = blake3 b → a = b) ∧
      ∀ a ∈ inputs, blake3 a ≠ Bytes.zero 32)
    ⟨fun h => ⟨h.1, h.2⟩, fun h => ⟨h.injective, h.nonzero⟩⟩

end KaySentinel
