import KaySentinel.Verify.Accounts

/-!
# The report of Gate 2

Gate 2 answers with a list of errors.  `report_exact` says which errors these are, and in which
order, for any batch: either one for each payload that does not fit those before it, or one for
each account that is on one side only and those of every certificate.
-/

namespace KaySentinel.Verify

open Cse Builder

/-! ## The traces -/

/-- The error of a payload that does not fit those before it. -/
def inconsistency : CsePayload → List ReplayError
  | .balanceChanged p => [.traceInconsistency p.address
      "BalanceChanged.previous_balance did not match prior state"]
  | .nonceUpdated p => [.traceInconsistency p.address
      "NonceUpdated.previous_nonce did not match prior state"]
  | .codeUpdated p => [.traceInconsistency p.address
      "CodeUpdated.previous_code_hash did not match prior state"]
  | .storageSlotUpdated p => [.traceInconsistency p.address
      ("StorageSlotUpdated.previous_value mismatch at slot " ++ p.slot.debug)]
  | _ => []

/-- The errors that the replay loop adds for a payload. -/
lemma traceErrors_replayStep (s : ReplayState) (p : CsePayload) :
    (∃ w, transition? p = some w ∧ w.key.isPersistent = true ∧
        (replayStep s p).traceErrors =
          if (s.account w.key.address).touched = true ∧
              (s.account w.key.address).valueAt w.key ≠ w.before then
            s.traceErrors ++ inconsistency p
          else s.traceErrors) ∨
      ((∀ w, transition? p = some w → w.key.isPersistent = false) ∧
        (replayStep s p).traceErrors = s.traceErrors) := by
  have hupdate : ∀ (w : Journal.Write CanonicalKey.Value) (detail : String),
      (s.update w.key.address (fun acct => acct.valueAt w.key = w.before) detail
        fun acct => acct.write w.key w.after).traceErrors =
      if (s.account w.key.address).touched = true ∧
          (s.account w.key.address).valueAt w.key ≠ w.before then
        s.traceErrors ++ [.traceInconsistency w.key.address detail]
      else s.traceErrors := by
    intro w detail
    have hcond : ((s.account w.key.address).touched &&
          !decide ((s.account w.key.address).valueAt w.key = w.before)) = true ↔
        (s.account w.key.address).touched = true ∧
          (s.account w.key.address).valueAt w.key ≠ w.before := by
      rw [Bool.and_eq_true, Bool.not_eq_true', decide_eq_false_iff_not]
    exact if_congr hcond rfl rfl
  cases p with
  | balanceChanged p => exact .inl ⟨_, rfl, rfl, hupdate ⟨.balance p.address, _, _⟩ _⟩
  | nonceUpdated p => exact .inl ⟨_, rfl, rfl, hupdate ⟨.nonce p.address, _, _⟩ _⟩
  | codeUpdated p => exact .inl ⟨_, rfl, rfl, hupdate ⟨.code p.address, _, _⟩ _⟩
  | storageSlotUpdated p =>
    exact .inl ⟨_, rfl, rfl, hupdate ⟨.storage p.address p.slot, _, _⟩ _⟩
  | transientStorageUpdated p => exact .inr ⟨by rintro w ⟨⟩; rfl, rfl⟩
  | _ => exact .inr ⟨by rintro w ⟨⟩, rfl⟩

/-- The replay loop reports the payloads that do not fit, in order. -/
lemma failures_replayTraces (ps : List CsePayload) :
    Pointwise.Failures Fits inconsistency ps (replayTraces ps).traceErrors := by
  induction ps using List.reverseRecOn with
  | nil => exact .nil
  | append_singleton ps p ih =>
    have hstep : replayTraces (ps ++ [p]) = replayStep (replayTraces ps) p := by
      simp [replayTraces]
    have hreplayed := replayed ps
    rw [hstep]
    rcases traceErrors_replayStep (replayTraces ps) p with ⟨w, hw, hk, herrors⟩ | ⟨hw, herrors⟩
    · have hfits : Fits ps p ↔ ¬ (((replayTraces ps).account w.key.address).touched = true ∧
          ((replayTraces ps).account w.key.address).valueAt w.key ≠ w.before) := by
        rw [hreplayed.touched_account, valueAt_eq_terminal (hreplayed.holds _) hk rfl, not_and,
          not_not]
        constructor
        · exact fun hp htouched => hp w hw hk htouched
        · intro hp w' hw' _ htouched
          obtain rfl := Option.some.inj (hw.symm.trans hw')
          exact hp htouched
      rw [herrors]
      split_ifs with hcond
      · exact .fail ih fun hp => hfits.mp hp hcond
      · exact .pass ih (hfits.mpr hcond)
    · rw [herrors]
      refine .pass ih fun w hw' hk => ?_
      rw [hw w hw'] at hk
      cases hk

/-! ## The certificates -/

/-- The value that payloads leave at a key, zero where there is none. -/
def leftAt (ps : List CsePayload) (k : CanonicalKey) : k.Value :=
  Journal.terminal k.zeroValue (historyAt k ps)

/-- The slots of an account that payloads write, with the values that they leave. -/
def IsSlotsOf (ps : List CsePayload) (address : Address) (slots : OrdMap.Map Word Word) : Prop :=
  ∀ slot : Word, slots[slot]? = (historyAt (.storage address slot) ps).getLast?.map Prod.snd

/-- The fields in which a certificate differs from what the payloads leave. -/
def fieldDifferences (ps : List CsePayload) (c : CanonicalAccountCertificate) :
    List FieldMismatch :=
  (if leftAt ps (.nonce c.address) ≠ c.nonce then
    [.nonce (leftAt ps (.nonce c.address)) c.nonce] else []) ++
  (if leftAt ps (.balance c.address) ≠ c.balance then
    [.balance (leftAt ps (.balance c.address)) c.balance] else []) ++
  (if leftAt ps (.code c.address) ≠ c.codeHash then
    [.codeHash (leftAt ps (.code c.address)) c.codeHash] else [])

/-- One error for some differences, none for none. -/
def mismatchReport (address : Address) (differences : List FieldMismatch) : List ReplayError :=
  if differences = [] then [] else [.certificateMismatch address differences]

/-- The errors of a certificate of an account that payloads touch. -/
inductive CertificateReport (blake3 : Blake3) (ps : List CsePayload)
    (c : CanonicalAccountCertificate) : List ReplayError → Prop
  | untouched (h : ¬ Touched c.address ps) : CertificateReport blake3 ps c []
  | awaiting (h : Touched c.address ps) (hroot : c.storageRoot = .awaitingDerivation) :
      CertificateReport blake3 ps c
        (.unresolvedStorageRoot c.address :: mismatchReport c.address (fieldDifferences ps c))
  | verified (h : Touched c.address ps) {slots : OrdMap.Map Word Word} {claimed : Word}
      (hslots : IsSlotsOf ps c.address slots) (hroot : c.storageRoot = .verified claimed) :
      CertificateReport blake3 ps c (mismatchReport c.address (fieldDifferences ps c ++
        if slotRoot blake3 slots ≠ claimed then
          [.storageRoot (slotRoot blake3 slots) (.verified claimed)] else []))

variable (blake3 : Blake3)

lemma mismatchReport_eq (address : Address) (differences : List FieldMismatch) :
    (if differences.isEmpty = true then []
      else [ReplayError.certificateMismatch address differences]) =
      mismatchReport address differences := by
  rw [mismatchReport]
  exact if_congr List.isEmpty_iff rfl rfl

lemma fieldMismatches_eq {ps : List CsePayload} {c : CanonicalAccountCertificate}
    {acct : AccountState} (h : Holds acct c.address ps) :
    fieldMismatches acct c = fieldDifferences ps c := by
  have hnonce : acct.nonce = leftAt ps (.nonce c.address) := h.field (.nonce c.address) rfl rfl
  have hbalance : acct.balance = leftAt ps (.balance c.address) :=
    h.field (.balance c.address) rfl rfl
  have hcode : acct.codeHash = leftAt ps (.code c.address) := h.field (.code c.address) rfl rfl
  rw [fieldMismatches, fieldDifferences, hnonce, hbalance, hcode]

lemma certificateReport (ps : List CsePayload) (c : CanonicalAccountCertificate) :
    CertificateReport blake3 ps c (certificateErrors blake3 (replayTraces ps).state c) := by
  have hreplayed := replayed ps
  rw [certificateErrors]
  cases hacct : (replayTraces ps).state[c.address]? with
  | none =>
    refine .untouched fun htouched => ?_
    rw [← hreplayed.isSome_iff, hacct] at htouched
    cases htouched
  | some acct =>
    have htouched : Touched c.address ps := by
      rw [← hreplayed.isSome_iff, hacct]
      rfl
    have hholds : Holds acct c.address ps := by
      have h := hreplayed.holds c.address
      rwa [ReplayState.account, hacct, Option.getD_some] at h
    simp only [mismatchReport_eq, fieldMismatches_eq hholds]
    cases hroot : c.storageRoot with
    | awaitingDerivation => exact .awaiting htouched hroot
    | verified claimed => exact .verified htouched hholds.slot hroot

/-! ## The report -/

/-- The errors of a batch whose payloads fit: the touched accounts without a certificate and the
certified accounts that are not touched, both in ascending order, and the errors of the
certificates in theirs. -/
def Report (batch : ExecutionBatchReplay) (errors : List ReplayError) : Prop :=
  ∃ (missing untouched : List Address) (reports : List (List ReplayError)),
    errors = missing.map .missingCertificate ++ untouched.map .untouchedCertificate ++
      reports.flatten ∧
    missing.Pairwise (fun a b => compare a b = .lt) ∧
    untouched.Pairwise (fun a b => compare a b = .lt) ∧
    (∀ address, address ∈ missing ↔ Touched address batch.executionTraces ∧
      ∀ c ∈ batch.accountCertificates, c.address ≠ address) ∧
    (∀ address, address ∈ untouched ↔ ¬ Touched address batch.executionTraces ∧
      ∃ c ∈ batch.accountCertificates, c.address = address) ∧
    List.Forall₂ (CertificateReport blake3 batch.executionTraces) batch.accountCertificates reports

lemma report_verificationErrors (batch : ExecutionBatchReplay) :
    Report blake3 batch (verificationErrors blake3 batch) := by
  have hreplayed := replayed batch.executionTraces
  have hkeys : ((replayTraces batch.executionTraces).state.toList.map (·.1)).Pairwise
      fun a b => compare a b = .lt := by
    rw [Std.ExtTreeMap.map_fst_toList_eq_keys]
    exact Std.ExtTreeMap.ordered_keys
  refine ⟨_, _, batch.accountCertificates.map
    (certificateErrors blake3 (replayTraces batch.executionTraces).state), rfl, ?_, ?_, ?_, ?_, ?_⟩
  · exact (hkeys.sublist (List.filter_sublist.map _)).filter _
  · exact List.Pairwise.filter _ Std.ExtTreeMap.ordered_keys
  · intro address
    rw [List.mem_filter, mem_touchedAddresses hreplayed, decide_eq_true_eq, mem_certifiedAddresses]
    simp
  · intro address
    rw [List.mem_filter, mem_certifiedAddresses, decide_eq_true_eq, mem_touchedAddresses hreplayed,
      and_comm]
  · rw [List.forall₂_map_right_iff, List.forall₂_same]
    exact fun c _ => certificateReport blake3 batch.executionTraces c

/-- **The report, exactly.**  Gate 2 answers every batch.  If some payload does not fit those
before it, the answer holds an error for each such payload, in order, and no other; if all fit, it
is the report of the accounts and certificates, and acceptance if that is empty. -/
theorem report_exact (batch : ExecutionBatchReplay) :
    (¬ OnlineConsistent batch.executionTraces ∧ ∃ errors, errors ≠ [] ∧
        (replayAndVerify blake3 batch).result = some (.error errors) ∧
        Pointwise.Failures Fits inconsistency batch.executionTraces errors) ∨
      (OnlineConsistent batch.executionTraces ∧ ∃ errors, Report blake3 batch errors ∧
        (replayAndVerify blake3 batch).result =
          some (if errors = [] then .ok () else .error errors)) := by
  have herrors := (replayed batch.executionTraces).errors
  rw [result_replayAndVerify]
  by_cases htrace : (replayTraces batch.executionTraces).traceErrors = []
  · refine .inr ⟨herrors.mp htrace, _, report_verificationErrors blake3 batch, ?_⟩
    rw [if_neg (by simp [htrace])]
    exact congrArg some (if_congr List.isEmpty_iff rfl rfl)
  · refine .inl ⟨fun h => htrace (herrors.mpr h), _, htrace, ?_,
      failures_replayTraces batch.executionTraces⟩
    rw [if_pos (by simpa using htrace)]

end KaySentinel.Verify
