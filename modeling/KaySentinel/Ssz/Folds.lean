import KaySentinel.Builder.StorageRoot
import KaySentinel.Ssz.Snapshot

/-!
# The two Merkle folds and the perfect tree

`merkleize` and the loop of the storage-root deriver are maintained apart, each with its own
hash of pairs.  Both compute the root of the perfect tree over the zero-padded leaves, so that
they agree wherever their hashes of pairs do: `merkle_folds_perfect`.
-/

namespace KaySentinel.Ssz

open PairTree Builder

/-- The perfect tree over the leaves, or over one zero leaf if there are none, padded with zero
words to the least power of two that is not below their number. -/
structure PaddedTree {k : ℕ} (t : PerfectTree Word k) (leaves : List Word) : Prop where
  leaves_eq : t.leaves =
    foldLeaves leaves ++ List.replicate (2 ^ k - (foldLeaves leaves).length) (Bytes.zero 32)
  least : IsLeast {size | (∃ j, size = 2 ^ j) ∧ (foldLeaves leaves).length ≤ size} (2 ^ k)

lemma isLeast_two_pow_clog (len : ℕ) :
    IsLeast {size | (∃ j, size = 2 ^ j) ∧ len ≤ size} (2 ^ Nat.clog 2 len) := by
  constructor
  · exact ⟨⟨_, rfl⟩, Nat.le_pow_clog (by norm_num) _⟩
  · rintro size ⟨⟨j, rfl⟩, hle⟩
    exact Nat.pow_le_pow_right (by norm_num) (Nat.clog_le_of_le_pow hle)

lemma exists_paddedTree (leaves : List Word) :
    ∃ t : PerfectTree Word (height (foldLeaves leaves)), PaddedTree t leaves := by
  obtain ⟨t, ht⟩ := PerfectTree.exists_leaves_eq (length_padLayer (foldLeaves leaves))
  refine ⟨t, ?_, isLeast_two_pow_clog _⟩
  rw [ht, padLayer_eq]

/-- With the given domain BLAKE3 hashes the pairs by `hashPair`. -/
def HashesPairs (blake3 : Blake3) (domain : Domain) (hashPair : Word → Word → Word) : Prop :=
  ∀ left right, (deriveCommitment blake3 domain (left.toList ++ right.toList)).result =
    some (hashPair left right)

lemma HashesPairs.nodeHash_eq {blake3 : Blake3} {domain : Domain} {hashPair : Word → Word → Word}
    (h : HashesPairs blake3 domain hashPair) : nodeHash blake3 domain = hashPair := by
  ext1 left
  ext1 right
  exact Option.some.inj (h left right)

/-- The fold returns the root of the padded tree. -/
theorem result_merkleFold {blake3 : Blake3} {domain : Domain} {hashPair : Word → Word → Word}
    (h : HashesPairs blake3 domain hashPair) {leaves : List Word}
    {t : PerfectTree Word (height (foldLeaves leaves))} (ht : PaddedTree t leaves) :
    (merkleFold blake3 domain leaves).result = some (t.root hashPair) := by
  rw [merkleFold_eq, foldRoot, rowRoot, h.nodeHash_eq, padLayer_eq, ← ht.leaves_eq, level_leaves]
  rfl

/-- A function whose digest of a pair, after any domain, is the given one. -/
def Blake3.ofPairs (hashPair : Word → Word → Word) : Blake3 := fun input =>
  let pair := input.drop (input.length - 64)
  hashPair (padChunk (pair.take 32)) (padChunk (pair.drop 32))

lemma padChunk_toList (w : Word) : padChunk w.toList = w := by
  rw [← Bytes.toList_inj, toList_padChunk (by simp)]
  simp

lemma hashesPairs_ofPairs (hashPair : Word → Word → Word) (domain : Domain) :
    HashesPairs (Blake3.ofPairs hashPair) domain hashPair := by
  intro left right
  have hdrop : (domain.asBytes ++ (left.toList ++ right.toList)).drop
      ((domain.asBytes ++ (left.toList ++ right.toList)).length - 64) =
        left.toList ++ right.toList := by
    rw [List.length_append, List.length_append, List.Vector.toList_length,
      List.Vector.toList_length, Nat.add_sub_cancel, List.drop_left]
  have hleft : left.toList.length = 32 := left.toList_length
  show some (Blake3.ofPairs hashPair (domain.asBytes ++ (left.toList ++ right.toList))) = _
  simp only [Blake3.ofPairs, hdrop]
  rw [List.take_left' hleft, List.drop_left' hleft, padChunk_toList, padChunk_toList]

/-- **Both Merkle folds compute the zero-padded perfect tree.**  For every hash of pairs and
all chunks, `merkleize`, the fold of the deriver and the deriver itself, where its leaf hashing
yields these chunks, return the root of one and the same tree; and every hash of pairs is that
of some BLAKE3 in both domains. -/
theorem merkle_folds_perfect (hashPair : Word → Word → Word) (chunks : List Word) :
    ∃ (k : ℕ) (t : PerfectTree Word k), PaddedTree t chunks ∧
      (∀ blake3, HashesPairs blake3 .ssrRoot hashPair →
        (merkleize blake3 chunks).result = some (t.root hashPair)) ∧
      (∀ blake3, HashesPairs blake3 .trieBranch hashPair →
        (merkleFold blake3 .trieBranch chunks).result = some (t.root hashPair) ∧
        ∀ slots, (deriveLeaves blake3 slots.toList).result = some chunks →
          ((simpleStorageRootDeriver blake3).derive slots).result =
            some (.ok (t.root hashPair))) ∧
      ∃ blake3, HashesPairs blake3 .ssrRoot hashPair ∧ HashesPairs blake3 .trieBranch hashPair := by
  obtain ⟨t, ht⟩ := exists_paddedTree chunks
  refine ⟨_, t, ht, fun blake3 h => result_merkleFold h ht, fun blake3 h => ?_,
    Blake3.ofPairs hashPair, hashesPairs_ofPairs _ _, hashesPairs_ofPairs _ _⟩
  have hfold := result_merkleFold h ht
  refine ⟨hfold, fun slots hleaves => ?_⟩
  simp only [simpleStorageRootDeriver]
  rw [Logged.result_bind_of_result hleaves, Logged.result_bind_of_result hfold]
  rfl

end KaySentinel.Ssz
