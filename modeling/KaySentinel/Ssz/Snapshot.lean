import KaySentinel.Merkle

/-!
# Epoch snapshots and their roots

The wire encoding of an `EpochStateSnapshot`, its split into 32-byte chunks, and the Merkle
root over the chunks.
-/

namespace KaySentinel.Ssz

open Segments

def maxEventSummaries : ℕ := 16384

inductive SszError where
  | listTooLong (max actual : ℕ)
  | unresolvedStorageRoot
deriving DecidableEq

structure CanonicalEventSummary where
  blockTimestamp : UInt64
  sequenceNonce : UInt64
  actorAddress : Address
  payloadDigest : Word
deriving DecidableEq

def CanonicalEventSummary.sszEncode (s : CanonicalEventSummary) : List UInt8 :=
  u64LeBytes s.blockTimestamp ++ (u64LeBytes s.sequenceNonce ++
    (s.actorAddress.toList ++ s.payloadDigest.toList))

def CanonicalEventSummary.encodedLen : ℕ := 8 + 8 + 20 + 32

@[simp] lemma CanonicalEventSummary.length_sszEncode (s : CanonicalEventSummary) :
    s.sszEncode.length = encodedLen := by
  simp [sszEncode, encodedLen]

lemma length_flatMap_sszEncode (summaries : List CanonicalEventSummary) :
    (summaries.flatMap CanonicalEventSummary.sszEncode).length =
      CanonicalEventSummary.encodedLen * summaries.length := by
  induction summaries with
  | nil => rfl
  | cons s summaries ih =>
    rw [List.flatMap_cons, List.length_append, CanonicalEventSummary.length_sszEncode, ih,
      List.length_cons, Nat.mul_succ, Nat.add_comm]

structure EpochStateSnapshot where
  epochIndex : UInt64
  eventSummaries : List CanonicalEventSummary
deriving DecidableEq

namespace EpochStateSnapshot

def fixedHeaderLen : UInt32 := 8 + 4

def sszEncode (s : EpochStateSnapshot) : Except SszError (List UInt8) :=
  if s.eventSummaries.length > maxEventSummaries then
    .error (.listTooLong maxEventSummaries s.eventSummaries.length)
  else
    .ok (u64LeBytes s.epochIndex ++ (u32LeBytes fixedHeaderLen ++
      s.eventSummaries.flatMap CanonicalEventSummary.sszEncode))

end EpochStateSnapshot

/-! ## Chunks -/

/-- `chunk[..n].copy_from_slice(bytes)` on a zero chunk. -/
def padChunk (bytes : List UInt8) : Word :=
  ⟨(bytes ++ List.replicate 32 0).take 32, by simp⟩

/-- `while i < bytes.len()`: one chunk, then the rest. -/
def chunkLoop : ℕ → List UInt8 → List Word
  | 0, _ => []
  | fuel + 1, bytes =>
      if bytes.isEmpty then [] else padChunk (bytes.take 32) :: chunkLoop fuel (bytes.drop 32)

def chunkify (bytes : List UInt8) : List Word :=
  if bytes.isEmpty then [Bytes.zero 32] else chunkLoop bytes.length bytes

/-- The loop of `hash_pair` over the layers is the fold that the storage roots use. -/
def merkleize (blake3 : Blake3) (chunks : List Word) : Hashing Word :=
  merkleFold blake3 .ssrRoot chunks

def ssrRoot (blake3 : Blake3) (serializedBytes : List UInt8) : Hashing Word :=
  merkleize blake3 (chunkify serializedBytes)

/-- The BLAKE3 digest of two zero chunks. -/
def zeroPairDigest : Word :=
  ⟨[69, 169, 104, 16, 91, 155, 177, 71, 160, 6, 30, 171, 93, 35, 191, 64,
    111, 204, 121, 182, 220, 239, 39, 122, 198, 126, 233, 237, 237, 172, 8, 92], rfl⟩

/-! ## The bytes of the chunks -/

lemma toList_padChunk {bytes : List UInt8} (h : bytes.length ≤ 32) :
    (padChunk bytes).toList = bytes ++ List.replicate (32 - bytes.length) 0 := by
  have htake : (padChunk bytes).toList = (bytes ++ List.replicate 32 0).take 32 := rfl
  rw [htake, List.take_append, List.take_of_length_le h, List.take_replicate,
    Nat.min_eq_left (by omega)]

/-- The bytes of a row of words. -/
def rowBytes (row : List Word) : List UInt8 := row.flatMap List.Vector.toList

@[simp] lemma length_rowBytes (row : List Word) : (rowBytes row).length = 32 * row.length := by
  induction row with
  | nil => rfl
  | cons w row ih =>
    have hcons : (rowBytes (w :: row)).length = 32 + (rowBytes row).length := by
      simp [rowBytes]
    rw [hcons, ih, List.length_cons]
    omega

lemma rowBytes_append (row row' : List Word) :
    rowBytes (row ++ row') = rowBytes row ++ rowBytes row' := List.flatMap_append

lemma rowBytes_replicate_zero (n : ℕ) :
    rowBytes (List.replicate n (Bytes.zero 32)) = List.replicate (32 * n) 0 := by
  induction n with
  | zero => rfl
  | succ n ih =>
    have hcons : rowBytes (List.replicate (n + 1) (Bytes.zero 32)) =
        List.replicate 32 0 ++ rowBytes (List.replicate n (Bytes.zero 32)) := rfl
    rw [hcons, ih, List.replicate_append_replicate, Nat.mul_succ, Nat.add_comm]

/-- A row is determined by its bytes. -/
lemma rowBytes_injective : Function.Injective rowBytes := by
  intro row row' h
  induction row generalizing row' with
  | nil =>
    have hlen := congrArg List.length h
    rw [length_rowBytes, length_rowBytes] at hlen
    exact (List.eq_nil_of_length_eq_zero (by simpa using hlen.symm)).symm
  | cons w row ih =>
    cases row' with
    | nil =>
      have hlen := congrArg List.length h
      rw [length_rowBytes, length_rowBytes] at hlen
      simp at hlen
    | cons w' row' =>
      obtain ⟨rfl, hrest⟩ := Bytes.append_inj h
      rw [ih hrest]

/-- A segment of words is a segment of bytes. -/
lemma rowBytes_segment {n m i : ℕ} {row : List Word} (h : row.length = n * m) (hi : i < m) :
    rowBytes (segment n i row) = segment (32 * n) i (rowBytes row) := by
  have := apply_segment (f := rowBytes) (b := 1) (c := 32) (n := n) Nat.one_pos
    (fun u v _ => rowBytes_append u v) (fun u _ => by rw [length_rowBytes, Nat.one_mul])
    (by rw [h, Nat.one_mul]) hi
  rwa [Nat.one_mul] at this

lemma chunkLoop_spec {fuel : ℕ} {bytes : List UInt8} (h : bytes.length ≤ fuel) :
    ∃ n, rowBytes (chunkLoop fuel bytes) = bytes ++ List.replicate n 0 ∧ n < 32 := by
  induction fuel generalizing bytes with
  | zero =>
    obtain rfl : bytes = [] := List.eq_nil_of_length_eq_zero (by omega)
    exact ⟨0, rfl, by omega⟩
  | succ fuel ih =>
    rw [chunkLoop]
    split_ifs with hempty
    · obtain rfl : bytes = [] := by simpa using hempty
      exact ⟨0, rfl, by omega⟩
    · have hpos : 0 < bytes.length := by
        rw [List.length_pos_iff]
        simpa using hempty
      have hcons : rowBytes (padChunk (bytes.take 32) :: chunkLoop fuel (bytes.drop 32)) =
          (padChunk (bytes.take 32)).toList ++ rowBytes (chunkLoop fuel (bytes.drop 32)) := rfl
      rw [hcons, toList_padChunk (by simp), List.length_take]
      by_cases hshort : bytes.length ≤ 32
      · -- the last chunk
        have hrest : rowBytes (chunkLoop fuel (bytes.drop 32)) = [] := by
          rw [List.drop_eq_nil_of_le hshort]
          cases fuel <;> rfl
        rw [hrest, List.append_nil, List.take_of_length_le hshort, Nat.min_eq_right hshort]
        exact ⟨32 - bytes.length, rfl, by omega⟩
      · have hdrop : (bytes.drop 32).length ≤ fuel := by
          rw [List.length_drop]
          omega
        obtain ⟨n, hn, hlt⟩ := ih hdrop
        refine ⟨n, ?_, hlt⟩
        rw [hn, Nat.min_eq_left (by omega), Nat.sub_self, List.replicate_zero, List.append_nil,
          ← List.append_assoc, List.take_append_drop]

/-- The chunks hold the bytes and fewer than 32 zeros after them. -/
lemma rowBytes_chunkify {bytes : List UInt8} (h : bytes ≠ []) :
    ∃ n, rowBytes (chunkify bytes) = bytes ++ List.replicate n 0 ∧ n < 32 := by
  rw [chunkify, if_neg (by simpa using h)]
  exact chunkLoop_spec le_rfl

lemma chunkify_ne_nil (bytes : List UInt8) : chunkify bytes ≠ [] := by
  rw [chunkify]
  split_ifs with hempty
  · simp
  · intro hnil
    obtain ⟨n, hn, -⟩ := chunkLoop_spec (le_refl bytes.length)
    rw [hnil] at hn
    exact hempty (by simpa using (List.append_eq_nil_iff.mp hn.symm).1)

lemma length_chunkify {bytes : List UInt8} (h : bytes ≠ []) :
    (chunkify bytes).length = (bytes.length + 31) / 32 := by
  obtain ⟨n, hn, hlt⟩ := rowBytes_chunkify h
  have hlen := congrArg List.length hn
  rw [length_rowBytes, List.length_append, List.length_replicate] at hlen
  omega

end KaySentinel.Ssz
