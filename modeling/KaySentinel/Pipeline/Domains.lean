import KaySentinel.Lib.PrefixCode
import KaySentinel.Pipeline.Faithfulness
import KaySentinel.Verify.Replay

/-!
# What a digest commits to

Every input of BLAKE3 starts with the tag of its domain, and no tag is a prefix of another.  So no
digest that a run computes for one purpose passes for a digest of another: `commit_separated`.
-/

namespace KaySentinel

open PrefixCode

lemma prefixFree_asBytes : PrefixFree Domain.asBytes := by
  intro d d'
  cases d <;> cases d' <;> decide

/-- The domain and the contents of an input can be read off. -/
lemma tagged_asBytes_injective : Function.Injective (tagged Domain.asBytes) :=
  tagged_injective_iff.mpr prefixFree_asBytes

/-- The input belongs to the domain. -/
def InDomain (domain : Domain) (input : List UInt8) : Prop := domain.asBytes <+: input

/-- An input belongs to one domain. -/
lemma InDomain.unique {d d' : Domain} {input : List UInt8} (h : InDomain d input)
    (h' : InDomain d' input) : d = d' := by
  obtain ⟨content, rfl⟩ := h
  obtain ⟨content', heq⟩ := h'
  have hmessage : tagged Domain.asBytes (d', content') = tagged Domain.asBytes (d, content) := heq
  exact (congrArg Prod.fst (tagged_asBytes_injective hmessage)).symm

namespace Pipeline

open Cse Builder Ssz

variable {blake3 : Blake3} {preStates : OrdMap.Map Address Bool}
  {snapshotSource : AccountSnapshotSource} {events : List CanonicalSemanticEvent}

/-! ## The inputs of a run -/

lemma inDomain_pairInput (d : Domain) (p : Word × Word) : InDomain d (pairInput d p) :=
  ⟨_, rfl⟩

/-- Storage roots hash leaves and nodes of tries. -/
lemma inDomain_slotInputs {slots : OrdMap.Map Word Word} {input : List UInt8}
    (h : input ∈ slotInputs blake3 slots) :
    InDomain .trieLeaf input ∨ InDomain .trieBranch input := by
  rcases List.mem_append.mp h with h | h
  · obtain ⟨e, -, rfl⟩ := List.mem_map.mp h
    exact .inl ⟨_, rfl⟩
  · obtain ⟨p, -, rfl⟩ := List.mem_map.mp h
    exact .inr (inDomain_pairInput _ p)

/-- Certifying hashes nothing but storage. -/
lemma inDomain_certify {input : List UInt8}
    (h : input ∈ (certify blake3 preStates snapshotSource events).log) :
    InDomain .trieLeaf input ∨ InDomain .trieBranch input := by
  rw [certify] at h
  cases hreduce : reduceStream events with
  | error e => simp [hreduce, Logged.pure_eq] at h
  | ok reduced =>
    cases reduced with
    | nil => simp [hreduce, Logged.abort] at h
    | cons bucket rest =>
      simp only [hreduce, Lifecycle.process, List.map_cons] at h
      rw [certifyBucket_eq] at h
      cases hbuild : buildCanonicalCertificates bucket.stateTable
          (Lifecycle.processBucket preStates bucket).value.generations snapshotSource with
      | error e => simp [hbuild] at h
      | ok certs =>
        simp only [hbuild, List.mem_flatMap] at h
        obtain ⟨address, -, hinput⟩ := h
        exact inDomain_slotInputs hinput

/-- A run of the pipeline hashes storage and the tree over the certificates. -/
lemma inDomain_commit {root : Word}
    (hok : (commit blake3 preStates snapshotSource events).result = some (.ok root))
    {input : List UInt8} (h : input ∈ (commit blake3 preStates snapshotSource events).log) :
    InDomain .trieLeaf input ∨ InDomain .trieBranch input ∨ InDomain .ssrRoot input := by
  obtain ⟨certs, chunks, -, -, -, hlog⟩ := commit_spec blake3 preStates snapshotSource hok
  rw [hlog] at h
  rcases List.mem_append.mp h with h | h
  · exact (inDomain_certify h).imp_right .inl
  · obtain ⟨p, -, rfl⟩ := List.mem_map.mp h
    exact .inr (.inr (inDomain_pairInput _ p))

/-- The root is zero or one of the digests. -/
lemma root_cases {root : Word}
    (hok : (commit blake3 preStates snapshotSource events).result = some (.ok root)) :
    root = Bytes.zero 32 ∨
      ∃ input ∈ (commit blake3 preStates snapshotSource events).log, root = blake3 input := by
  obtain ⟨certs, chunks, -, hchunks, hroot, hlog⟩ := commit_spec blake3 preStates snapshotSource hok
  by_cases hne : chunks = []
  · subst hne
    exact .inl hroot
  · rcases @foldRoot_cases blake3 .ssrRoot chunks hne with hsingle | ⟨p, hp, hnode⟩
    · -- a certificate has six chunks
      have hlen := length_flatChunks hchunks
      rw [hsingle, List.length_singleton] at hlen
      omega
    · refine .inr ⟨pairInput .ssrRoot p, ?_, hroot.trans hnode⟩
      rw [hlog]
      exact List.mem_append_right _ (List.mem_map_of_mem hp)

/-! ## Separation -/

/-- What is hashed for the commitment of a certificate with the encoding `bytes`. -/
def certificateInput (bytes : List UInt8) : List UInt8 := Domain.lifeCert.asBytes ++ bytes

/-- What is hashed for the check of an envelope. -/
def envelopeInput (envelope : List UInt8) : List UInt8 := Domain.gate2Replay.asBytes ++ envelope

lemma result_commitRoot {c : CanonicalAccountCertificate} {bytes : List UInt8}
    (h : encodeCertificate c = .ok bytes) :
    (commitRoot blake3 c).result = some (.ok (blake3 (certificateInput bytes))) := by
  rw [commitRoot, h]
  rfl

/-- The digest passes for the commitment of the envelope. -/
def Passes (blake3 : Blake3) (envelope : List UInt8) (digest : Word) : Prop :=
  (Verify.verifyEnvelopeIntegrity blake3 envelope digest).result = some true

lemma passes_iff {envelope : List UInt8} {digest : Word} :
    Passes blake3 envelope digest ↔ blake3 (envelopeInput envelope) = digest := by
  have hresult : (Verify.verifyEnvelopeIntegrity blake3 envelope digest).result =
      some (decide (blake3 (envelopeInput envelope) = digest)) := rfl
  rw [Passes, hresult, Option.some.injEq, decide_eq_true_eq]

/-- Free of collisions, inputs of different domains have different digests. -/
lemma digest_ne {inputs : List (List UInt8)} (hfree : CollisionFree blake3 inputs)
    {input input' : List UInt8} (hinput : input ∈ inputs) (hinput' : input' ∈ inputs)
    {d d' : Domain} (hd : InDomain d input) (hd' : InDomain d' input') (hne : d ≠ d') :
    blake3 input ≠ blake3 input' := by
  intro heq
  obtain rfl := hfree.injective _ hinput _ hinput' heq
  exact hne (hd.unique hd')

/-- The digests of a run, with the inputs `log` and the root `root`, the commitment of a
certificate and the commitment of an envelope are kept apart. -/
structure Separated (blake3 : Blake3) (log : List (List UInt8)) (root : Word)
    (c : CanonicalAccountCertificate) (envelope : List UInt8) : Prop where
  /-- No digest of the run passes for the commitment of the envelope or of the certificate. -/
  digests : ∀ input ∈ log, ¬ Passes blake3 envelope (blake3 input) ∧
    (commitRoot blake3 c).result ≠ some (.ok (blake3 input))
  root : ¬ Passes blake3 envelope root ∧ (commitRoot blake3 c).result ≠ some (.ok root)
  /-- Nor does the commitment of the certificate for that of the envelope. -/
  certificate : ∀ digest, (commitRoot blake3 c).result = some (.ok digest) →
    ¬ Passes blake3 envelope digest
  /-- Leaves, nodes of tries and nodes of the batch are kept apart too. -/
  domains : ∀ input ∈ log, ∀ input' ∈ log, ∀ d d', InDomain d input → InDomain d' input' →
    d ≠ d' → blake3 input ≠ blake3 input'

/-- **Domain separation.**  If no two inputs hashed in a run of the pipeline, for the commitment of
a certificate and for the check of an envelope collide, and no digest is zero, then no digest of
one kind passes for another. -/
theorem commit_separated {root : Word}
    (hok : (commit blake3 preStates snapshotSource events).result = some (.ok root))
    {c : CanonicalAccountCertificate} {bytes : List UInt8} (hc : encodeCertificate c = .ok bytes)
    {envelope : List UInt8}
    (hfree : CollisionFree blake3 ((commit blake3 preStates snapshotSource events).log ++
      [certificateInput bytes, envelopeInput envelope])) :
    Separated blake3 (commit blake3 preStates snapshotSource events).log root c envelope := by
  have hmem : certificateInput bytes ∈ (commit blake3 preStates snapshotSource events).log ++
      [certificateInput bytes, envelopeInput envelope] := by simp
  have hmem' : envelopeInput envelope ∈ (commit blake3 preStates snapshotSource events).log ++
      [certificateInput bytes, envelopeInput envelope] := by simp
  have hcertificate : InDomain .lifeCert (certificateInput bytes) := ⟨bytes, rfl⟩
  have henvelope : InDomain .gate2Replay (envelopeInput envelope) := ⟨envelope, rfl⟩
  have hdigests : ∀ input ∈ (commit blake3 preStates snapshotSource events).log,
      ¬ Passes blake3 envelope (blake3 input) ∧
        (commitRoot blake3 c).result ≠ some (.ok (blake3 input)) := by
    intro input hinput
    have hinput' := List.mem_append_left [certificateInput bytes, envelopeInput envelope] hinput
    rw [passes_iff, result_commitRoot hc, ne_eq, Option.some.injEq, Except.ok.injEq]
    rcases inDomain_commit hok hinput with hd | hd | hd
    · exact ⟨digest_ne hfree hmem' hinput' henvelope hd (by decide),
        digest_ne hfree hmem hinput' hcertificate hd (by decide)⟩
    · exact ⟨digest_ne hfree hmem' hinput' henvelope hd (by decide),
        digest_ne hfree hmem hinput' hcertificate hd (by decide)⟩
    · exact ⟨digest_ne hfree hmem' hinput' henvelope hd (by decide),
        digest_ne hfree hmem hinput' hcertificate hd (by decide)⟩
  refine
    { digests := hdigests
      root := ?_
      certificate := ?_
      domains := fun input hinput input' hinput' d d' hd hd' =>
        digest_ne hfree (List.mem_append_left _ hinput) (List.mem_append_left _ hinput') hd hd' }
  · rcases root_cases hok with rfl | ⟨input, hinput, rfl⟩
    · rw [passes_iff, result_commitRoot hc, ne_eq, Option.some.injEq, Except.ok.injEq]
      exact ⟨hfree.nonzero _ hmem', hfree.nonzero _ hmem⟩
    · exact hdigests input hinput
  · intro digest hdigest
    rw [result_commitRoot hc, Option.some.injEq, Except.ok.injEq] at hdigest
    subst hdigest
    rw [passes_iff]
    exact digest_ne hfree hmem' hmem henvelope hcertificate (by decide)

/-- The encoding of `slotCertificate`. -/
def slotEncoding : List UInt8 := (encodeCertificate slotCertificate).toOption.getD []

/-- BLAKE3 on what is hashed for `directWrite`, for its certificate and for an envelope with the
encoding of that certificate. -/
def separatedBlake3 : Blake3 := fun input =>
  if input = certificateInput slotEncoding then
    ⟨[46, 189, 170, 89, 111, 167, 72, 217, 63, 92, 139, 202, 137, 182, 170, 134,
      29, 224, 208, 124, 70, 6, 197, 22, 107, 229, 202, 172, 132, 190, 194, 11], rfl⟩
  else if input = envelopeInput slotEncoding then
    ⟨[91, 66, 237, 187, 208, 131, 57, 200, 1, 242, 195, 95, 115, 5, 172, 222,
      92, 194, 9, 34, 207, 45, 188, 87, 121, 63, 78, 73, 32, 229, 123, 117], rfl⟩
  else certificateBlake3 input

/-- The digests of `directWrite` are separated. -/
theorem directWrite_separated :
    Separated separatedBlake3 (commit separatedBlake3 ∅ (snapshotsOf emptyAccounts) directWrite).log
      (certificateDigests.getD 5 (Bytes.zero 32)) slotCertificate slotEncoding := by
  have hroot : (commit separatedBlake3 ∅ (snapshotsOf emptyAccounts) directWrite).result =
      some (.ok (certificateDigests.getD 5 (Bytes.zero 32))) := by decide +kernel
  exact commit_separated hroot rfl (by decide +kernel)

end Pipeline

end KaySentinel
