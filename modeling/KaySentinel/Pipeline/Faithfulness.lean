import KaySentinel.Pipeline.Run

/-!
# What a commitment says about a stream

`faithful_of_commit_eq`: without collisions, two streams with one root touch the same
accounts, leave them the same fields and write the same values to the same slots.
-/

namespace KaySentinel.Pipeline

open Cse Builder Ssz

/-- The two lists of payloads have the same effect on the accounts that they touch. -/
structure SameEffect (snapshotSource : AccountSnapshotSource) (ps ps' : List CsePayload) :
    Prop where
  written : ∀ address, Written address ps ↔ Written address ps'
  field : ∀ k : CanonicalKey, k.isField = true → Written k.address ps →
    effectiveAfter? snapshotSource ps k = effectiveAfter? snapshotSource ps' k
  slot : ∀ address slot,
    established? ps (.storage address slot) = established? ps' (.storage address slot)

variable {blake3 : Blake3} {preStates preStates' : OrdMap.Map Address Bool}
  {snapshotSource : AccountSnapshotSource} {events events' : List CanonicalSemanticEvent}

lemma keyed_of_certify (hsingle : SingleTransaction events)
    {certs : OrdMap.Map Address CanonicalAccountCertificate}
    (hok : (certify blake3 preStates snapshotSource events).result = some (.ok certs)) :
    Keyed certs := by
  obtain ⟨bucket, -, hspec, -⟩ := certify_spec blake3 preStates snapshotSource hsingle hok
  intro address c hget
  rcases hspec address with ⟨hnone, -⟩ | ⟨c', hsome, -, hcert⟩
  · rw [hnone] at hget
    exact absurd hget (by simp)
  · obtain rfl := Option.some.inj (hsome.symm.trans hget)
    exact hcert.address_eq

lemma established?_storage_of_not_written {ps : List CsePayload} {address : Address}
    (h : ¬ Written address ps) (slot : Word) : established? ps (.storage address slot) = none := by
  rw [established?_eq_none_iff]
  by_contra hne
  exact h (written_iff.mpr ⟨_, hne, rfl⟩)

/-- **What the certificates say.**  Without collisions among the inputs hashed, streams with
the same certificates have the same effect. -/
theorem sameEffect_of_certify_eq (hsingle : SingleTransaction events)
    (hsingle' : SingleTransaction events')
    {certs : OrdMap.Map Address CanonicalAccountCertificate}
    (hok : (certify blake3 preStates snapshotSource events).result = some (.ok certs))
    (hok' : (certify blake3 preStates' snapshotSource events').result = some (.ok certs))
    {inputs : List (List UInt8)} (hfree : CollisionFree blake3 inputs)
    (hlog : (certify blake3 preStates snapshotSource events).log ⊆ inputs)
    (hlog' : (certify blake3 preStates' snapshotSource events').log ⊆ inputs) :
    SameEffect snapshotSource (payloads events) (payloads events') := by
  obtain ⟨bucket, hreduced, hspec, hinputs⟩ :=
    certify_spec blake3 preStates snapshotSource hsingle hok
  obtain ⟨bucket', hreduced', hspec', hinputs'⟩ :=
    certify_spec blake3 preStates' snapshotSource hsingle' hok'
  -- an address has a certificate in both runs or in neither
  have hboth : ∀ address, (¬ Written address (payloads events) ∧
        ¬ Written address (payloads events')) ∨
      ∃ c, certs[address]? = some c ∧
        (Written address (payloads events) ∧ CertifiedAs blake3 snapshotSource
          (Lifecycle.processBucket preStates bucket).value.generations (payloads events)
          (slotsOf bucket.stateTable address) address c) ∧
        Written address (payloads events') ∧ CertifiedAs blake3 snapshotSource
          (Lifecycle.processBucket preStates' bucket').value.generations (payloads events')
          (slotsOf bucket'.stateTable address) address c := by
    intro address
    rcases hspec address with ⟨hnone, hnot⟩ | ⟨c, hsome, hwritten, hcert⟩
    · rcases hspec' address with ⟨-, hnot'⟩ | ⟨c', hsome', -, -⟩
      · exact .inl ⟨hnot, hnot'⟩
      · rw [hnone] at hsome'
        exact absurd hsome' (by simp)
    · rcases hspec' address with ⟨hnone', -⟩ | ⟨c', hsome', hwritten', hcert'⟩
      · rw [hsome] at hnone'
        exact absurd hnone' (by simp)
      · obtain rfl := Option.some.inj (hsome.symm.trans hsome')
        exact .inr ⟨c, hsome, ⟨hwritten, hcert⟩, hwritten', hcert'⟩
  refine ⟨fun address => ?_, fun k hk hwritten => ?_, fun address slot => ?_⟩
  · rcases hboth address with ⟨hnot, hnot'⟩ | ⟨c, -, ⟨hwritten, -⟩, hwritten', -⟩
    · exact iff_of_false hnot hnot'
    · exact iff_of_true hwritten hwritten'
  · rcases hboth k.address with ⟨hnot, -⟩ | ⟨c, -, ⟨-, hcert⟩, -, hcert'⟩
    · exact absurd hwritten hnot
    · rw [← hcert.field k hk rfl, hcert'.field k hk rfl]
  · rcases hboth address with ⟨hnot, hnot'⟩ | ⟨c, hget, ⟨-, hcert⟩, -, hcert'⟩
    · rw [established?_storage_of_not_written hnot, established?_storage_of_not_written hnot']
    · -- the root of the certificate binds the slots
      have hmem : address ∈ certs.keys := by
        rw [Std.ExtTreeMap.mem_keys, Std.ExtTreeMap.mem_iff_isSome_getElem?, hget]
        rfl
      have hroot : slotRoot blake3 (slotsOf bucket.stateTable address) =
          slotRoot blake3 (slotsOf bucket'.stateTable address) :=
        StorageRootState.verified.inj (hcert.storageRoot.symm.trans hcert'.storageRoot)
      have hslots := eq_of_slotRoot_eq hfree (fun x hx => hlog (hinputs ▸
        List.mem_flatMap.mpr ⟨address, hmem, hx⟩)) (fun x hx => hlog' (hinputs' ▸
        List.mem_flatMap.mpr ⟨address, hmem, hx⟩)) hroot
      rw [← hreduced.states.terminal?_eq, ← hreduced'.states.terminal?_eq,
        ← getElem?_slotsOf, ← getElem?_slotsOf,
        hslots]

/-- **Faithfulness.**  If no two inputs hashed in two runs of the pipeline collide and no
digest is zero, then runs with one root come from streams with the same effect. -/
theorem faithful_of_commit_eq (blake3 : Blake3) (preStates preStates' : OrdMap.Map Address Bool)
    (snapshotSource : AccountSnapshotSource) (hsingle : SingleTransaction events)
    (hsingle' : SingleTransaction events') {root : Word}
    (hok : (commit blake3 preStates snapshotSource events).result = some (.ok root))
    (hok' : (commit blake3 preStates' snapshotSource events').result = some (.ok root))
    (hfree : CollisionFree blake3 ((commit blake3 preStates snapshotSource events).log ++
      (commit blake3 preStates' snapshotSource events').log)) :
    SameEffect snapshotSource (payloads events) (payloads events') := by
  obtain ⟨certs, chunks, hcertify, hchunks, hroot, hlog⟩ :=
    commit_spec blake3 preStates snapshotSource hok
  obtain ⟨certs', chunks', hcertify', hchunks', hroot', hlog'⟩ :=
    commit_spec blake3 preStates' snapshotSource hok'
  rw [hlog, hlog'] at hfree
  have hkeyed := keyed_of_certify hsingle hcertify
  have hkeyed' := keyed_of_certify hsingle' hcertify'
  have hvalues := eq_of_batchRoot_eq hfree
    (fun p hp => List.mem_append_left _ (List.mem_append_right _ (List.mem_map_of_mem hp)))
    (fun p hp => List.mem_append_right _ (List.mem_append_right _ (List.mem_map_of_mem hp)))
    hkeyed.ascending_values hkeyed'.ascending_values hchunks hchunks' (hroot.symm.trans hroot')
  obtain rfl := hkeyed.eq_of_values_eq hkeyed' hvalues
  exact sameEffect_of_certify_eq hsingle hsingle' hcertify hcertify' hfree
    (fun x hx => List.mem_append_left _ (List.mem_append_left _ hx))
    (fun x hx => List.mem_append_right _ (List.mem_append_left _ hx))

/-- An account writes 2 to its slot 1, which was zero. -/
def directWrite : List CanonicalSemanticEvent :=
  plainEvents (bracketed [
    .storageSlotUpdated ⟨Bytes.last 19 1, Bytes.last 31 1, Bytes.zero 32, Bytes.last 31 2⟩])

/-- The account writes 1 first. -/
def detour : List CanonicalSemanticEvent :=
  plainEvents (bracketed [
    .storageSlotUpdated ⟨Bytes.last 19 1, Bytes.last 31 1, Bytes.zero 32, Bytes.last 31 1⟩,
    .storageSlotUpdated ⟨Bytes.last 19 1, Bytes.last 31 1, Bytes.last 31 1, Bytes.last 31 2⟩])

/-- The certificate of that account, all of whose fields are zero. -/
def slotCertificate : CanonicalAccountCertificate where
  address := Bytes.last 19 1
  generation := { key := ⟨Bytes.last 19 1, 0⟩, stateTableProofRoot := Bytes.zero 32 }
  nonce := 0
  balance := Bytes.zero 32
  codeHash := Bytes.zero 32
  storageRoot := .verified slotDigest

/-- The BLAKE3 digests of the pairs above the chunks of the certificate. -/
def certificateDigests : List Word := [
    ⟨[157, 11, 199, 218, 196, 203, 241, 201, 246, 79, 247, 69, 18, 98, 192, 214,
      106, 14, 173, 150, 231, 55, 81, 239, 239, 184, 168, 21, 249, 77, 85, 218], rfl⟩,
    zeroPairDigest,
    ⟨[142, 238, 120, 234, 68, 144, 24, 29, 220, 178, 201, 87, 114, 196, 219, 229,
      111, 253, 30, 127, 228, 179, 204, 234, 98, 43, 160, 221, 64, 162, 164, 46], rfl⟩,
    ⟨[197, 189, 133, 62, 173, 243, 47, 125, 82, 5, 35, 16, 226, 249, 22, 217,
      100, 92, 121, 197, 95, 10, 239, 189, 139, 75, 234, 140, 149, 87, 83, 144], rfl⟩,
    ⟨[6, 228, 176, 80, 3, 87, 72, 188, 54, 10, 201, 84, 67, 158, 69, 47,
      66, 79, 169, 42, 133, 236, 250, 65, 9, 194, 213, 205, 179, 184, 50, 11], rfl⟩,
    ⟨[163, 250, 253, 155, 210, 237, 67, 225, 40, 121, 67, 152, 240, 47, 60, 15,
      104, 64, 124, 217, 40, 171, 75, 207, 64, 203, 115, 39, 58, 196, 45, 185], rfl⟩]

/-- BLAKE3 on the slot and on these pairs. -/
def certificateBlake3 : Blake3 :=
  let chunks := (flatChunks [slotCertificate]).toOption.getD []
  let chunk (i : ℕ) : Word := chunks.getD i (Bytes.zero 32)
  let digest (i : ℕ) : Word := certificateDigests.getD i (Bytes.zero 32)
  let pairs : List (Word × Word) :=
    [(chunk 0, chunk 1), (chunk 2, chunk 3), (chunk 4, chunk 5),
      (digest 0, digest 1), (digest 2, digest 1), (digest 3, digest 4)]
  .ofTable ((leafInput (Bytes.last 31 1, Bytes.last 31 2), slotDigest) ::
    (pairs.map (pairInput .ssrRoot)).zip certificateDigests)

theorem detour_faithful :
    SameEffect (snapshotsOf emptyAccounts) (payloads directWrite) (payloads detour) := by
  have hroot : (commit certificateBlake3 ∅ (snapshotsOf emptyAccounts) directWrite).result =
      some (.ok (certificateDigests.getD 5 (Bytes.zero 32))) := by decide +kernel
  have hroot' : (commit certificateBlake3 ∅ (snapshotsOf emptyAccounts) detour).result =
      some (.ok (certificateDigests.getD 5 (Bytes.zero 32))) := by decide +kernel
  exact faithful_of_commit_eq certificateBlake3 ∅ ∅ (snapshotsOf emptyAccounts)
    (singleTransaction_plainEvents (by decide)) (singleTransaction_plainEvents (by decide))
    hroot hroot' (by decide +kernel)

end KaySentinel.Pipeline
