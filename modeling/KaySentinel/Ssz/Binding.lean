import KaySentinel.Ssz.Snapshot

/-!
# What a snapshot root binds

No length goes into the root, so the zero padding of the chunks hides trailing zero
summaries, and nothing tells a chunk from a digest: what is known of BLAKE3 does not rule out
that the chunks of one snapshot are the digests of larger blocks of another one.
`snapshotRoot_ne_iff` says exactly which pairs of snapshots this leaves with different roots.
-/

namespace KaySentinel.Ssz

open Segments

/-! ## The bytes of a snapshot -/

/-- The summary whose bytes are all zero. -/
def CanonicalEventSummary.zero : CanonicalEventSummary where
  blockTimestamp := 0
  sequenceNonce := 0
  actorAddress := Bytes.zero 20
  payloadDigest := Bytes.zero 32

namespace CanonicalEventSummary

lemma sszEncode_injective : Function.Injective sszEncode := by
  rintro ⟨timestamp, nonce, actor, digest⟩ ⟨timestamp', nonce', actor', digest'⟩ h
  simp only [sszEncode] at h
  obtain ⟨htimestamp, hrest⟩ := List.append_inj h (by simp)
  obtain ⟨hnonce, hrest'⟩ := List.append_inj hrest (by simp)
  obtain ⟨rfl, hdigest⟩ := Bytes.append_inj hrest'
  rw [u64LeBytes_injective htimestamp, u64LeBytes_injective hnonce, Bytes.toList_inj.mp hdigest]

lemma sszEncode_zero : zero.sszEncode = List.replicate 68 0 := by decide

lemma flatMap_sszEncode_zero (m : ℕ) :
    (List.replicate m zero).flatMap sszEncode = List.replicate (68 * m) 0 := by
  induction m with
  | zero => rfl
  | succ m ih =>
    rw [List.replicate_succ, List.flatMap_cons, ih, sszEncode_zero,
      List.replicate_append_replicate, Nat.mul_succ, Nat.add_comm]

/-- Summaries of zero bytes are zero summaries. -/
lemma eq_replicate_of_zero_bytes {l : List CanonicalEventSummary}
    (h : ∀ b ∈ l.flatMap sszEncode, b = 0) : l = List.replicate l.length zero := by
  refine List.eq_replicate_iff.mpr ⟨rfl, fun s hs => sszEncode_injective ?_⟩
  rw [sszEncode_zero]
  exact List.eq_replicate_iff.mpr
    ⟨length_sszEncode s, fun b hb => h b (List.mem_flatMap.mpr ⟨s, hs, hb⟩)⟩

/-- Encoded lists that agree up to trailing zeros agree up to trailing zero summaries. -/
lemma eq_append_zeros {l l' : List CanonicalEventSummary} {i j : ℕ}
    (h : l.flatMap sszEncode ++ List.replicate i 0 = l'.flatMap sszEncode ++ List.replicate j 0) :
    (∃ m, l' = l ++ List.replicate m zero) ∨ ∃ m, l = l' ++ List.replicate m zero := by
  induction l generalizing l' with
  | nil =>
    refine .inl ⟨l'.length, eq_replicate_of_zero_bytes fun b hb => ?_⟩
    refine List.eq_of_mem_replicate (n := i) ?_
    rw [List.flatMap_nil, List.nil_append] at h
    rw [h]
    exact List.mem_append_left _ hb
  | cons s l ih =>
    cases l' with
    | nil =>
      refine .inr ⟨(s :: l).length, eq_replicate_of_zero_bytes fun b hb => ?_⟩
      refine List.eq_of_mem_replicate (n := j) ?_
      rw [List.flatMap_nil, List.nil_append] at h
      rw [← h]
      exact List.mem_append_left _ hb
    | cons s' l' =>
      rw [List.flatMap_cons, List.flatMap_cons, List.append_assoc, List.append_assoc] at h
      obtain ⟨hs, hrest⟩ := List.append_inj h (by simp)
      obtain rfl := sszEncode_injective hs
      rcases ih hrest with ⟨m, rfl⟩ | ⟨m, rfl⟩
      · exact .inl ⟨m, rfl⟩
      · exact .inr ⟨m, rfl⟩

end CanonicalEventSummary

namespace EpochStateSnapshot

/-- The encoding of a snapshot that is not too long. -/
def bytes (s : EpochStateSnapshot) : List UInt8 :=
  u64LeBytes s.epochIndex ++ (u32LeBytes fixedHeaderLen ++
    s.eventSummaries.flatMap CanonicalEventSummary.sszEncode)

lemma sszEncode_eq {s : EpochStateSnapshot} (h : s.eventSummaries.length ≤ maxEventSummaries) :
    s.sszEncode = .ok s.bytes := by
  rw [sszEncode, if_neg (not_lt.mpr h), bytes]

lemma length_bytes (s : EpochStateSnapshot) :
    s.bytes.length = 12 + 68 * s.eventSummaries.length := by
  rw [bytes, List.length_append, List.length_append, length_flatMap_sszEncode, length_u64LeBytes,
    length_u32LeBytes, CanonicalEventSummary.encodedLen]
  omega

lemma bytes_ne_nil (s : EpochStateSnapshot) : s.bytes ≠ [] := by
  intro hnil
  have hlen := s.length_bytes
  rw [hnil, List.length_nil] at hlen
  omega

/-- The chunks of a snapshot. -/
def chunks (s : EpochStateSnapshot) : List Word := chunkify s.bytes

/-- The number of leaves that the chunks are padded to. -/
def paddedLeaves (s : EpochStateSnapshot) : ℕ :=
  2 ^ Nat.clog 2 ((12 + 68 * s.eventSummaries.length + 31) / 32)

lemma foldLeaves_chunks (s : EpochStateSnapshot) : foldLeaves s.chunks = s.chunks :=
  foldLeaves_of_ne_nil (chunkify_ne_nil _)

lemma length_padLayer_chunks (s : EpochStateSnapshot) :
    (padLayer s.chunks).length = s.paddedLeaves := by
  rw [length_padLayer, height, chunks, length_chunkify s.bytes_ne_nil, length_bytes, paddedLeaves]

/-- The encoding with the zeros that fill up the leaves. -/
def paddedBytes (s : EpochStateSnapshot) : List UInt8 :=
  s.bytes ++ List.replicate (32 * s.paddedLeaves - s.bytes.length) 0

lemma rowBytes_padLayer_chunks (s : EpochStateSnapshot) :
    rowBytes (padLayer s.chunks) = s.paddedBytes := by
  obtain ⟨n, hn, -⟩ := rowBytes_chunkify s.bytes_ne_nil
  have hzeros : ∃ k, rowBytes (padLayer s.chunks) = s.bytes ++ List.replicate k 0 := by
    rw [padLayer_eq, rowBytes_append, rowBytes_replicate_zero, chunks, hn, List.append_assoc,
      List.replicate_append_replicate]
    exact ⟨_, rfl⟩
  obtain ⟨k, hk⟩ := hzeros
  have hlen := congrArg List.length hk
  rw [length_rowBytes, length_padLayer_chunks, List.length_append, List.length_replicate] at hlen
  rw [hk, paddedBytes, hlen, Nat.add_sub_cancel_left]

/-- `b` is `a` followed by zero summaries, which leave the number of padded leaves as it is. -/
structure ZeroExtends (a b : EpochStateSnapshot) : Prop where
  epochIndex : b.epochIndex = a.epochIndex
  eventSummaries : ∃ m, b.eventSummaries = a.eventSummaries ++ List.replicate m .zero
  paddedLeaves : b.paddedLeaves = a.paddedLeaves

variable {a b : EpochStateSnapshot}

/-- A zero extension has the same padded row. -/
lemma ZeroExtends.padLayer_eq (h : ZeroExtends a b) : padLayer b.chunks = padLayer a.chunks := by
  obtain ⟨m, hm⟩ := h.eventSummaries
  have hbytes : b.bytes = a.bytes ++ List.replicate (68 * m) 0 := by
    rw [bytes, bytes, h.epochIndex, hm, List.flatMap_append,
      CanonicalEventSummary.flatMap_sszEncode_zero, List.append_assoc, List.append_assoc]
  have hroom : b.bytes.length ≤ 32 * b.paddedLeaves := by
    rw [← length_padLayer_chunks, ← length_rowBytes, rowBytes_padLayer_chunks, paddedBytes,
      List.length_append]
    omega
  rw [h.paddedLeaves, hbytes, List.length_append, List.length_replicate] at hroom
  refine rowBytes_injective ?_
  rw [rowBytes_padLayer_chunks, rowBytes_padLayer_chunks, paddedBytes, paddedBytes, hbytes,
    h.paddedLeaves, List.append_assoc, List.replicate_append_replicate, List.length_append,
    List.length_replicate, Nat.sub_add_eq, Nat.add_sub_cancel' (by omega)]

/-- Two snapshots share their padded row exactly if one zero-extends the other. -/
lemma padLayer_chunks_eq_iff :
    padLayer a.chunks = padLayer b.chunks ↔ ZeroExtends a b ∨ ZeroExtends b a := by
  constructor
  · intro h
    have hleaves : a.paddedLeaves = b.paddedLeaves := by
      rw [← length_padLayer_chunks, h, length_padLayer_chunks]
    have hrow := b.rowBytes_padLayer_chunks
    rw [← h, rowBytes_padLayer_chunks] at hrow
    simp only [paddedBytes, bytes, List.append_assoc] at hrow
    obtain ⟨hepoch, hrest⟩ := List.append_inj hrow (by simp)
    obtain ⟨-, hbody⟩ := List.append_inj hrest (by simp)
    have hindex := u64LeBytes_injective hepoch
    rcases CanonicalEventSummary.eq_append_zeros hbody with hm | hm
    · exact .inl ⟨hindex.symm, hm, hleaves.symm⟩
    · exact .inr ⟨hindex, hm, hleaves⟩
  · rintro (h | h)
    · exact h.padLayer_eq.symm
    · exact h.padLayer_eq

/-- The padded leaves of `a`, none of them zero, label the blocks of `2 ^ k` padded leaves
of `b`: equal blocks have equal labels, and different blocks different ones. -/
structure Labels (k : ℕ) (a b : EpochStateSnapshot) : Prop where
  paddedLeaves : b.paddedLeaves = 2 ^ k * a.paddedLeaves
  nonzero : ∀ i < a.paddedLeaves, segment 32 i a.paddedBytes ≠ List.replicate 32 0
  segment_eq_iff : ∀ i < a.paddedLeaves, ∀ j < a.paddedLeaves,
    segment 32 i a.paddedBytes = segment 32 j a.paddedBytes ↔
      segment (32 * 2 ^ k) i b.paddedBytes = segment (32 * 2 ^ k) j b.paddedBytes

/-- The bytes of a block of padded leaves. -/
lemma rowBytes_segment_chunks {n m i : ℕ} {s : EpochStateSnapshot} (h : s.paddedLeaves = n * m)
    (hi : i < m) :
    rowBytes (segment n i (padLayer s.chunks)) = segment (32 * n) i s.paddedBytes := by
  rw [← rowBytes_padLayer_chunks]
  exact rowBytes_segment (by rw [length_padLayer_chunks, h]) hi

/-- Whether a padded leaf is zero can be seen from its bytes. -/
lemma zero_notMem_padLayer_iff :
    Bytes.zero 32 ∉ padLayer a.chunks ↔
      ∀ i < a.paddedLeaves, segment 32 i a.paddedBytes ≠ List.replicate 32 0 := by
  have hleaf : ∀ i (hi : i < (padLayer a.chunks).length),
      segment 32 i a.paddedBytes = List.replicate 32 0 ↔
        (padLayer a.chunks)[i] = Bytes.zero 32 := by
    intro i hi
    have hbytes := rowBytes_segment_chunks (Nat.one_mul a.paddedLeaves).symm
      (length_padLayer_chunks a ▸ hi)
    rw [Nat.mul_one, segment_one hi] at hbytes
    have hzero : List.replicate 32 0 = rowBytes [Bytes.zero 32] := rfl
    rw [← hbytes, hzero, rowBytes_injective.eq_iff, List.singleton_inj]
  rw [← length_padLayer_chunks]
  constructor
  · intro hzero i hi heq
    exact hzero ((hleaf i hi).mp heq ▸ List.getElem_mem hi)
  · intro hnonzero hmem
    obtain ⟨i, hi, heq⟩ := List.getElem_of_mem hmem
    exact hnonzero i hi ((hleaf i hi).mpr heq)

/-- Labels of bytes are labels of words. -/
lemma labels_iff {k : ℕ} :
    PairTree.Labels (Bytes.zero 32) k (padLayer a.chunks) (padLayer b.chunks) ↔ Labels k a b := by
  have hone : a.paddedLeaves = 1 * a.paddedLeaves := (Nat.one_mul _).symm
  have hsegment : ∀ {i}, b.paddedLeaves = 2 ^ k * a.paddedLeaves → i < a.paddedLeaves → ∀ {j},
      j < a.paddedLeaves →
      ((segment 1 i (padLayer a.chunks) = segment 1 j (padLayer a.chunks) ↔
        segment (2 ^ k) i (padLayer b.chunks) = segment (2 ^ k) j (padLayer b.chunks)) ↔
      (segment 32 i a.paddedBytes = segment 32 j a.paddedBytes ↔
        segment (32 * 2 ^ k) i b.paddedBytes = segment (32 * 2 ^ k) j b.paddedBytes)) := by
    intro i hleaves hi j hj
    rw [← rowBytes_injective.eq_iff, rowBytes_segment_chunks hone hi,
      rowBytes_segment_chunks hone hj, ← rowBytes_injective.eq_iff,
      rowBytes_segment_chunks hleaves hi, rowBytes_segment_chunks hleaves hj, Nat.mul_one]
  constructor
  · rintro ⟨hlength, hzero, hlabels⟩
    rw [length_padLayer_chunks, length_padLayer_chunks] at hlength
    rw [length_padLayer_chunks] at hlabels
    exact ⟨hlength, zero_notMem_padLayer_iff.mp hzero,
      fun i hi j hj => (hsegment hlength hi hj).mp (hlabels i hi j hj)⟩
  · rintro ⟨hlength, hzero, hlabels⟩
    refine ⟨by rw [length_padLayer_chunks, length_padLayer_chunks, hlength],
      zero_notMem_padLayer_iff.mpr hzero, ?_⟩
    rw [length_padLayer_chunks]
    exact fun i hi j hj => (hsegment hlength hi hj).mpr (hlabels i hi j hj)

/-- A snapshot that is not too long has at most 65536 padded leaves. -/
lemma paddedLeaves_le {s : EpochStateSnapshot} (h : s.eventSummaries.length ≤ maxEventSummaries) :
    s.paddedLeaves ≤ 2 ^ 16 := by
  rw [maxEventSummaries] at h
  exact Nat.pow_le_pow_right two_pos (Nat.clog_le_of_le_pow (by omega))

end EpochStateSnapshot

/-! ## Snapshots with one root -/

open EpochStateSnapshot

/-- `ssr_root(&snapshot.ssz_encode()?)` -/
def snapshotRoot (blake3 : Blake3) (s : EpochStateSnapshot) : Hashing (Except SszError Word) :=
  match s.sszEncode with
  | .error e => pure (.error e)
  | .ok serializedBytes => do
      let root ← ssrRoot blake3 serializedBytes
      pure (.ok root)

lemma snapshotRoot_eq (blake3 : Blake3) {s : EpochStateSnapshot}
    (h : s.eventSummaries.length ≤ maxEventSummaries) :
    snapshotRoot blake3 s =
      ⟨some (.ok (foldRoot blake3 .ssrRoot s.chunks)),
        (foldQueries blake3 .ssrRoot s.chunks).map (pairInput .ssrRoot)⟩ := by
  rw [snapshotRoot, sszEncode_eq h]
  simp only [ssrRoot, merkleize]
  rw [Logged.bind_eq (merkleFold_eq blake3 _ _)]
  simp [Logged.pure_eq, chunks]

/-- **What a snapshot root binds.**  From the absence of collisions alone it follows that two
snapshots have different roots, exactly if neither zero-extends the other and the leaves of
neither label blocks of the other's. -/
theorem snapshotRoot_ne_iff {a b : EpochStateSnapshot}
    (ha : a.eventSummaries.length ≤ maxEventSummaries)
    (hb : b.eventSummaries.length ≤ maxEventSummaries) :
    (∀ blake3,
      CollisionFree blake3 ((snapshotRoot blake3 a).log ++ (snapshotRoot blake3 b).log) →
      (snapshotRoot blake3 a).result ≠ (snapshotRoot blake3 b).result) ↔
    ¬ ZeroExtends a b ∧ ¬ ZeroExtends b a ∧ ∀ k > 0, ¬ Labels k a b ∧ ¬ Labels k b a := by
  have hsize : 3 * ((padLayer (foldLeaves a.chunks)).length +
      (padLayer (foldLeaves b.chunks)).length) < 2 ^ 255 := by
    rw [foldLeaves_chunks, foldLeaves_chunks, length_padLayer_chunks, length_padLayer_chunks]
    have hla := paddedLeaves_le ha
    have hlb := paddedLeaves_le hb
    omega
  -- a BLAKE3 that gives both one root
  have hshared := @exists_foldRoot_eq_iff .ssrRoot _ _ hsize
  rw [foldLeaves_chunks, foldLeaves_chunks, padLayer_chunks_eq_iff] at hshared
  simp only [labels_iff] at hshared
  have hroots : (∀ blake3,
      CollisionFree blake3 ((snapshotRoot blake3 a).log ++ (snapshotRoot blake3 b).log) →
      (snapshotRoot blake3 a).result ≠ (snapshotRoot blake3 b).result) ↔
      ¬ ∃ blake3, CollisionFree blake3
        ((foldQueries blake3 .ssrRoot a.chunks ++ foldQueries blake3 .ssrRoot b.chunks).map
          (pairInput .ssrRoot)) ∧
        foldRoot blake3 .ssrRoot a.chunks = foldRoot blake3 .ssrRoot b.chunks := by
    simp only [snapshotRoot_eq _ ha, snapshotRoot_eq _ hb, List.map_append, ne_eq,
      Option.some.injEq, Except.ok.injEq, not_exists, not_and]
  rw [hroots, hshared, not_or, not_or, and_assoc]
  simp only [not_exists, not_and, not_or]

/-! ## A collision -/

/-- A summary with every field set. -/
def sampleSummary : CanonicalEventSummary where
  blockTimestamp := 171717
  sequenceNonce := 1
  actorAddress := Bytes.fill 20 0xaa
  payloadDigest := Bytes.fill 32 0xff

/-- Two summaries: 148 bytes in five chunks. -/
def twoSummaries : EpochStateSnapshot where
  epochIndex := 5
  eventSummaries := [sampleSummary, sampleSummary]

/-- The same summaries and a zero one: 216 bytes in seven chunks. -/
def zeroExtended : EpochStateSnapshot where
  epochIndex := 5
  eventSummaries := [sampleSummary, sampleSummary, .zero]

/-- The BLAKE3 digests of the seven pairs above the five chunks, row by row. -/
def chunkPairDigests : List Word := [
    ⟨[12, 224, 194, 129, 150, 97, 103, 152, 50, 220, 172, 150, 5, 124, 16, 229,
      106, 84, 188, 161, 194, 173, 195, 13, 88, 179, 162, 36, 74, 254, 216, 114], rfl⟩,
    ⟨[243, 1, 58, 103, 74, 80, 87, 112, 135, 245, 40, 10, 45, 32, 146, 17,
      22, 178, 52, 12, 48, 34, 204, 248, 194, 182, 224, 35, 139, 201, 149, 15], rfl⟩,
    ⟨[217, 194, 16, 223, 162, 221, 129, 222, 170, 165, 188, 51, 224, 188, 77, 93,
      143, 92, 91, 132, 239, 46, 23, 223, 237, 236, 201, 46, 234, 32, 234, 103], rfl⟩,
    zeroPairDigest,
    ⟨[163, 255, 43, 233, 189, 199, 70, 165, 15, 58, 58, 10, 247, 51, 147, 86,
      94, 247, 94, 11, 125, 121, 0, 87, 66, 84, 97, 222, 168, 215, 85, 18], rfl⟩,
    ⟨[72, 26, 242, 244, 152, 207, 239, 14, 248, 26, 90, 120, 246, 143, 220, 24,
      235, 86, 245, 244, 60, 23, 189, 209, 50, 95, 233, 149, 108, 134, 240, 19], rfl⟩,
    ⟨[235, 142, 47, 140, 57, 253, 105, 183, 149, 178, 40, 9, 184, 105, 106, 175,
      77, 97, 0, 254, 232, 151, 78, 120, 195, 177, 200, 141, 50, 63, 43, 215], rfl⟩]

/-- BLAKE3 on these pairs. -/
def sampleBlake3 : Blake3 :=
  let chunk (i : ℕ) : Word := twoSummaries.chunks.getD i (Bytes.zero 32)
  let digest (i : ℕ) : Word := chunkPairDigests.getD i (Bytes.zero 32)
  let pairs : List (Word × Word) :=
    [(chunk 0, chunk 1), (chunk 2, chunk 3), (chunk 4, chunk 5), (chunk 6, chunk 7),
      (digest 0, digest 1), (digest 2, digest 3), (digest 4, digest 5)]
  .ofTable ((pairs.map (pairInput .ssrRoot)).zip chunkPairDigests)

/-- The same summaries one epoch later. -/
def laterEpoch : EpochStateSnapshot := { twoSummaries with epochIndex := 6 }

lemma zeroExtends_zeroExtended : ZeroExtends twoSummaries zeroExtended where
  epochIndex := rfl
  eventSummaries := ⟨1, rfl⟩
  paddedLeaves := by decide

/-- The root does not tell the zero summary, but the epoch. -/
theorem twoSummaries_binding :
    (¬ ∀ blake3,
      CollisionFree blake3
        ((snapshotRoot blake3 twoSummaries).log ++ (snapshotRoot blake3 zeroExtended).log) →
      (snapshotRoot blake3 twoSummaries).result ≠ (snapshotRoot blake3 zeroExtended).result) ∧
    ∀ blake3,
      CollisionFree blake3
        ((snapshotRoot blake3 twoSummaries).log ++ (snapshotRoot blake3 laterEpoch).log) →
      (snapshotRoot blake3 twoSummaries).result ≠ (snapshotRoot blake3 laterEpoch).result := by
  have hleaves : ∀ k > 0, twoSummaries.paddedLeaves ≠ 2 ^ k * twoSummaries.paddedLeaves := by
    intro k hk heq
    have hlt : 1 * twoSummaries.paddedLeaves < 2 ^ k * twoSummaries.paddedLeaves :=
      Nat.mul_lt_mul_of_pos_right (Nat.one_lt_two_pow hk.ne') (Nat.two_pow_pos _)
    omega
  constructor
  · rw [snapshotRoot_ne_iff (by decide) (by decide)]
    exact fun h => h.1 zeroExtends_zeroExtended
  · refine (snapshotRoot_ne_iff (by decide) (by decide)).mpr
      ⟨fun h => absurd h.epochIndex (by decide), fun h => absurd h.epochIndex (by decide),
        fun k hk => ⟨fun h => hleaves k hk h.paddedLeaves, fun h => hleaves k hk h.paddedLeaves⟩⟩

/-- Both are padded to the same eight chunks. -/
theorem zeroExtended_collides :
    twoSummaries ≠ zeroExtended ∧
      twoSummaries.eventSummaries.length ≤ maxEventSummaries ∧
      zeroExtended.eventSummaries.length ≤ maxEventSummaries ∧
      CollisionFree sampleBlake3
        ((snapshotRoot sampleBlake3 twoSummaries).log ++
          (snapshotRoot sampleBlake3 zeroExtended).log) ∧
      (snapshotRoot sampleBlake3 twoSummaries).result =
        (snapshotRoot sampleBlake3 zeroExtended).result :=
  ⟨by decide, by decide, by decide, by decide +kernel, by decide +kernel⟩

end KaySentinel.Ssz
