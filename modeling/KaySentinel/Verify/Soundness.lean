import KaySentinel.Verify.Lineage

/-!
# Soundness of Gate 2

If Gate 2 accepts a batch, the builder accepts its payloads too, and the certificates are
what the builder's tables say: `replayAndVerify_sound`.
-/

namespace KaySentinel.Verify

open Cse Builder

/-! ## The state updates of a list of payloads -/

/-- Dropping what is no state update keeps the transitions of persistent state. -/
lemma historyAt_filter_isStateUpdate {k : CanonicalKey} (hk : k.isPersistent = true)
    (ps : List CsePayload) : historyAt k (ps.filter isStateUpdate) = historyAt k ps := by
  induction ps using List.reverseRecOn with
  | nil => rfl
  | append_singleton ps p ih =>
    rw [List.filter_append, historyAt_append, ih, historyAt_append]
    congr 1
    cases hp : isStateUpdate p with
    | true => rw [List.filter_cons_of_pos hp, List.filter_nil]
    | false =>
      -- only a transient write is a write and no state update
      have hnone : ∀ w, transition? p = some w → w.key ≠ k := by
        rintro w hw rfl
        cases p with
        | transientStorageUpdated p =>
          obtain rfl := Option.some.inj hw
          simp [CanonicalKey.isPersistent] at hk
        | balanceChanged p | nonceUpdated p | codeUpdated p | storageSlotUpdated p =>
          simp [isStateUpdate] at hp
        | _ => simp [transition?] at hw
      have hlast := historyAt_append_of_none hnone []
      rw [List.nil_append] at hlast
      rw [hlast, List.filter_cons_of_neg (by simp [hp])]
      rfl

lemma continuous_stateUpdates {ps : List CsePayload} (h : OnlineConsistent ps) :
    Continuous (ps.filter isStateUpdate) where
  states k := by
    by_cases hnil : historyAt k (ps.filter isStateUpdate) = []
    · rw [hnil]
      trivial
    · obtain ⟨w, hw, rfl⟩ := Journal.history_ne_nil_iff.mp hnil
      obtain ⟨p, hp, hpw⟩ := List.mem_filterMap.mp hw
      have hk := isPersistent_of_isStateUpdate (List.mem_filter.mp hp).2 hpw
      rw [historyAt_filter_isStateUpdate hk]
      exact (onlineConsistent_iff.mp h).1 _ hk
  gasRefunds := by
    rw [gasRefunds_eq_nil fun p hp => (List.mem_filter.mp hp).2]
    trivial

/-! ## The model and the table -/

variable {ps : List CsePayload} {table : OrdMap.Map CanonicalKey ReducedVariant}

/-- The value that the model holds is the terminal one of the table. -/
lemma terminal_eq_terminal? (htab : Tabulates ps table) (k : CanonicalKey) (v : k.Value) :
    Journal.terminal v (historyAt k ps) = (terminal? table k).getD v := by
  rw [htab.terminal?_eq, Journal.terminal, established?]

/-- The slots that the model holds are those of a table of the same storage writes. -/
lemma storage_eq_slotsOf {ps' : List CsePayload} {acct : AccountState} {address : Address}
    (h : Holds acct address ps) (htab : Tabulates ps' table)
    (hslots : ∀ slot,
      historyAt (.storage address slot) ps' = historyAt (.storage address slot) ps) :
    acct.storage = slotsOf table address := by
  refine Std.ExtTreeMap.ext_getElem? fun slot => ?_
  rw [h.slot, getElem?_slotsOf, htab.terminal?_eq, established?, hslots]

/-- The certificates of a batch say what the reduced transaction says. -/
structure Certifies (blake3 : Blake3) (batch : ExecutionBatchReplay)
    (bucket : ReducedTransactionBucket) : Prop where
  addresses : ∀ address, (∃ c ∈ batch.accountCertificates, c.address = address) ↔
    Touched address batch.executionTraces
  nonce : ∀ c ∈ batch.accountCertificates,
    c.nonce = (terminal? bucket.stateTable (.nonce c.address)).getD 0
  balance : ∀ c ∈ batch.accountCertificates,
    c.balance = (terminal? bucket.stateTable (.balance c.address)).getD (Bytes.zero 32)
  codeHash : ∀ c ∈ batch.accountCertificates,
    c.codeHash = (terminal? bucket.stateTable (.code c.address)).getD (Bytes.zero 32)
  storageRoot : ∀ c ∈ batch.accountCertificates, ∃ r, c.storageRoot = .verified r ∧
    ((simpleStorageRootDeriver blake3).derive
      (slotsOf bucket.stateTable c.address)).result = some (.ok r)

/-- **Soundness of Gate 2.**  If it accepts a batch, then the account and storage updates of
the batch, bracketed as one transaction, are accepted by partition and reduction; the
certified accounts are those that the batch touches; and every certificate carries the
reduced terminal values, zero where there is none, and the root of its reduced slots. -/
theorem replayAndVerify_sound (blake3 : Blake3) (batch : ExecutionBatchReplay)
    (events : List CanonicalSemanticEvent)
    (hok : (replayAndVerify blake3 batch).result = some (.ok ()))
    (hevents : payloads events = bracketed (batch.executionTraces.filter isStateUpdate)) :
    ∃ rawIr bucket, Partition.process events = .ok rawIr ∧ Reduce.process rawIr = .ok [bucket] ∧
      Certifies blake3 batch bucket := by
  obtain ⟨hconsistent, hcertified, hcerts⟩ := (replayAndVerify_eq_ok_iff blake3 batch).mp hok
  have hboundary : ∀ p ∈ batch.executionTraces.filter isStateUpdate, p.isBoundary = false :=
    fun p hp => isBoundary_of_isStateUpdate (List.mem_filter.mp hp).2
  rcases Reduce.process_bracketed_cases hevents hboundary with
    ⟨ctx, body, bucket, -, hraw, hreduce, -, htab, -⟩ | ⟨rawIr, previous, current, -, -, hcont⟩
  · have hfield : ∀ c ∈ batch.accountCertificates, ∀ k : CanonicalKey, k.isField = true →
        k.address = c.address →
          c.at? k = some ((terminal? bucket.stateTable k).getD k.zeroValue) := by
      intro c hc k hk haddress
      rw [(hcerts c hc).1 k hk haddress,
        ← historyAt_filter_isStateUpdate (CanonicalKey.isPersistent_of_isField hk),
        terminal_eq_terminal? htab]
    refine ⟨_, bucket, hraw, hreduce, ?_⟩
    refine ⟨fun address => (hcertified address).symm, fun c hc => ?_, fun c hc => ?_,
      fun c hc => ?_, fun c hc => ⟨_, (hcerts c hc).2, ?_⟩⟩
    · exact Option.some.inj (hfield c hc (.nonce c.address) rfl rfl)
    · exact Option.some.inj (hfield c hc (.balance c.address) rfl rfl)
    · exact Option.some.inj (hfield c hc (.code c.address) rfl rfl)
    · have hslots := storage_eq_slotsOf ((replayed batch.executionTraces).holds c.address) htab
        fun slot => historyAt_filter_isStateUpdate rfl batch.executionTraces
      rw [hslots, derive_simpleStorageRootDeriver]
  · exact absurd (continuous_stateUpdates hconsistent) hcont

/-- BLAKE3 on the leaf of slot 1 with the value 2. -/
def slotBlake3 : Blake3 :=
  .ofTable [(leafInput (Bytes.last 31 1, Bytes.last 31 2), slotDigest)]

/-- A batch that writes 2 to slot 1 of a new contract, and its certificate. -/
def slotBatch : ExecutionBatchReplay where
  accountCertificates := [
    { address := Bytes.last 19 1
      generation := { key := ⟨Bytes.last 19 1, 0⟩, stateTableProofRoot := Bytes.zero 32 }
      nonce := 0
      balance := Bytes.zero 32
      codeHash := Bytes.zero 32
      storageRoot := .verified slotDigest }]
  executionTraces := [
    .contractCreated ⟨Bytes.last 19 1, Bytes.last 19 9⟩,
    .storageSlotUpdated ⟨Bytes.last 19 1, Bytes.last 31 1, Bytes.zero 32, Bytes.last 31 2⟩]

theorem slotBatch_sound :
    ∃ rawIr bucket,
      Partition.process (plainEvents (bracketed (slotBatch.executionTraces.filter isStateUpdate))) =
        .ok rawIr ∧ Reduce.process rawIr = .ok [bucket] ∧
      Certifies slotBlake3 slotBatch bucket :=
  replayAndVerify_sound _ slotBatch _ rfl (payloads_plainEvents _)

end KaySentinel.Verify
