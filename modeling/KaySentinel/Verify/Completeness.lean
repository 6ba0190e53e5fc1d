import KaySentinel.Pipeline.Run
import KaySentinel.Verify.Soundness

/-!
# Gate 2 on the certificates of the pipeline

Gate 2 starts from empty accounts, the pipeline from the accounts as they are.
`replayAndVerify_certified_iff` says on which streams this makes no difference.
-/

namespace KaySentinel.Verify

open Cse Builder Pipeline

/-- The certificates of the pipeline, with the payloads of the stream. -/
def certifiedBatch (certs : OrdMap.Map Address CanonicalAccountCertificate)
    (events : List CanonicalSemanticEvent) : ExecutionBatchReplay where
  accountCertificates := OrdMap.values certs
  executionTraces := payloads events

/-- Replaying the payloads from empty accounts instead of the values `pre` goes unnoticed:
the accounts that the model touches are those with a state key, a field that is not written
was zero, and so was what a first write to an already touched account replaces. -/
structure ReplaysFromZero (pre : Journal.Store CanonicalKey.Value) (ps : List CsePayload) :
    Prop where
  touched : ∀ address, Touched address ps ↔ Written address ps
  unwritten : ∀ k : CanonicalKey, k.isField = true → Touched k.address ps →
    historyAt k ps = [] → pre k = k.zeroValue
  firsts : FirstsExpectZero ps

variable {events : List CanonicalSemanticEvent} {pre post : Journal.Store CanonicalKey.Value}

/-- The field of the model is the one that the payloads leave, if it was zero before or has
been written. -/
lemma terminal_zero_eq_iff (h : LeadsTo pre (payloads events) post) {k : CanonicalKey}
    (hk : k.isPersistent = true) :
    Journal.terminal k.zeroValue (historyAt k (payloads events)) = post k ↔
      (historyAt k (payloads events) = [] → pre k = k.zeroValue) := by
  have hpost := Journal.eq_terminal_of_chain (h.chain hk)
  by_cases hnil : historyAt k (payloads events) = []
  · rw [hnil] at hpost ⊢
    simp only [forall_true_left]
    rw [hpost]
    exact eq_comm
  · rw [hpost]
    exact iff_of_true (Journal.terminal_congr hnil _ _) fun h => absurd h hnil

/-- **Gate 2 on the certificates of the pipeline.**  When a stream starts from the values of
the snapshot source and the pipeline certifies it, Gate 2 accepts the certificates with the
payloads of the stream exactly if replaying them from empty accounts goes unnoticed. -/
theorem replayAndVerify_certified_iff (blake3 : Blake3) (preStates : OrdMap.Map Address Bool)
    {snapshotSource : AccountSnapshotSource} (hsingle : SingleTransaction events)
    (hleads : LeadsTo pre (payloads events) post) (hsource : Recovers snapshotSource pre)
    {certs : OrdMap.Map Address CanonicalAccountCertificate}
    (hok : (certify blake3 preStates snapshotSource events).result = some (.ok certs)) :
    (replayAndVerify blake3 (certifiedBatch certs events)).result = some (.ok ()) ↔
      ReplaysFromZero pre (payloads events) := by
  obtain ⟨bucket, hreduced, hspec, -⟩ := certify_spec blake3 preStates snapshotSource hsingle hok
  have hlinked : ∀ k : CanonicalKey, k.isPersistent = true →
      Journal.Linked (historyAt k (payloads events)) := fun k hk =>
    Journal.linked_of_chain (hleads.chain hk)
  have hcertified : ∀ address, (∃ c ∈ OrdMap.values certs, c.address = address) ↔
      Written address (payloads events) := by
    intro address
    constructor
    · rintro ⟨c, hc, rfl⟩
      obtain ⟨address', hget⟩ := OrdMap.mem_values_iff.mp hc
      rcases hspec address' with ⟨hnone, -⟩ | ⟨c', hsome, hwritten, hcert⟩
      · rw [hnone] at hget
        exact absurd hget (by simp)
      · obtain rfl := Option.some.inj (hsome.symm.trans hget)
        rwa [hcert.address_eq]
    · intro hwritten
      rcases hspec address with ⟨-, hnot⟩ | ⟨c, hsome, -, hcert⟩
      · exact absurd hwritten hnot
      · exact ⟨c, OrdMap.mem_values_iff.mpr ⟨address, hsome⟩, hcert.address_eq⟩
  -- a certificate holds what the payloads leave, and the root of the model's slots
  have hcert : ∀ c ∈ OrdMap.values certs,
      (∀ k : CanonicalKey, k.isField = true → k.address = c.address → c.at? k = some (post k)) ∧
        c.storageRoot = .verified (slotRoot blake3
          ((replayTraces (payloads events)).account c.address).storage) := by
    intro c hc
    obtain ⟨address, hget⟩ := OrdMap.mem_values_iff.mp hc
    rcases hspec address with ⟨hnone, -⟩ | ⟨c', hsome, -, hcert⟩
    · rw [hnone] at hget
      exact absurd hget (by simp)
    · obtain rfl := Option.some.inj (hsome.symm.trans hget)
      have haddress := hcert.address_eq
      subst haddress
      refine ⟨fun k hk hka => ?_, ?_⟩
      · rw [hcert.field k hk hka, hleads.effectiveAfter? hsource hk]
      · rw [hcert.storageRoot, storage_eq_slotsOf ((replayed (payloads events)).holds c'.address)
          hreduced.states fun _ => rfl]
  rw [replayAndVerify_eq_ok_iff, onlineConsistent_iff]
  simp only [certifiedBatch, hcertified]
  constructor
  · rintro ⟨⟨-, hfirsts⟩, htouched, hfields⟩
    refine ⟨htouched, fun k hk htouch hnil => ?_, hfirsts⟩
    obtain ⟨c, hc, haddress⟩ := (hcertified k.address).mpr ((htouched k.address).mp htouch)
    have hfield := (hfields c hc).1 k hk haddress.symm
    rw [(hcert c hc).1 k hk haddress.symm] at hfield
    exact (terminal_zero_eq_iff hleads (CanonicalKey.isPersistent_of_isField hk)).mp
      (Option.some.inj hfield).symm hnil
  · intro h
    refine ⟨⟨hlinked, h.firsts⟩, h.touched, fun c hc => ⟨fun k hk hka => ?_, (hcert c hc).2⟩⟩
    rw [(hcert c hc).1 k hk hka]
    refine congrArg some (Eq.symm ?_)
    rw [terminal_zero_eq_iff hleads (CanonicalKey.isPersistent_of_isField hk)]
    refine h.unwritten k hk ?_
    rw [h.touched, hka, ← hcertified]
    exact ⟨c, hc, rfl⟩

/-- A new account receives 1 and writes 2 to its slot 1. -/
def firstWrites : List CanonicalSemanticEvent :=
  plainEvents (bracketed [
    .balanceChanged ⟨Bytes.last 19 1, Bytes.zero 32, Bytes.last 31 1⟩,
    .storageSlotUpdated ⟨Bytes.last 19 1, Bytes.last 31 1, Bytes.zero 32, Bytes.last 31 2⟩])

theorem firstWrites_certified :
    ∃ certs, (certify slotBlake3 ∅ (snapshotsOf emptyAccounts) firstWrites).result =
        some (.ok certs) ∧
      ((replayAndVerify slotBlake3 (certifiedBatch certs firstWrites)).result = some (.ok ()) ↔
        ReplaysFromZero emptyAccounts (payloads firstWrites)) := by
  have hsingle : SingleTransaction firstWrites := singleTransaction_plainEvents (by decide)
  obtain ⟨post, hleads⟩ : ∃ post, LeadsTo emptyAccounts (payloads firstWrites) post := ⟨_, rfl⟩
  exact ⟨_, rfl, replayAndVerify_certified_iff slotBlake3 ∅ hsingle hleads
    (recovers_snapshotsOf emptyAccounts) rfl⟩

/-- Every account has sent five transactions and holds 100. -/
def liveAccounts : Journal.Store CanonicalKey.Value
  | .nonce _ => 5
  | .balance _ => Bytes.last 31 100
  | .code _ => Bytes.zero 32
  | .storage _ _ => Bytes.zero 32
  | .transient _ _ => Bytes.zero 32

/-- An account pays 10. -/
def payment : List CanonicalSemanticEvent :=
  plainEvents (bracketed
    [.balanceChanged ⟨Bytes.last 19 1, Bytes.last 31 100, Bytes.last 31 90⟩])

/-- The certificate has the nonce of the snapshot, the model has zero. -/
theorem payment_rejected :
    SingleTransaction payment ∧ (∃ post, LeadsTo liveAccounts (payloads payment) post) ∧
      Recovers (snapshotsOf liveAccounts) liveAccounts ∧
      ∃ certs, (certify (fun _ => Bytes.zero 32) ∅ (snapshotsOf liveAccounts) payment).result =
          some (.ok certs) ∧
        (replayAndVerify (fun _ => Bytes.zero 32) (certifiedBatch certs payment)).result =
          some (.error [.certificateMismatch (Bytes.last 19 1) [.nonce 0 5]]) :=
  ⟨singleTransaction_plainEvents (by decide), ⟨_, rfl⟩, recovers_snapshotsOf _, _, rfl, rfl⟩

end KaySentinel.Verify
