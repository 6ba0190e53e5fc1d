import KaySentinel.Lib.Pointwise
import KaySentinel.Verify.Replay

/-!
# The replay model, one key at a time

`replayed` describes the accounts and the errors of the replay loop after any list of
payloads; `replayAndVerify_eq_ok_iff` and `reportsInconsistency_iff` say what it accepts
and what it reports.
-/

namespace KaySentinel.Verify

open Cse Builder

namespace AccountState

/-- The current value at a key. -/
def valueAt (acct : AccountState) : (k : CanonicalKey) → k.Value
  | .balance _ => acct.balance
  | .nonce _ => acct.nonce
  | .code _ => acct.codeHash
  | .storage _ slot => acct.storage[slot]?.getD (Bytes.zero 32)
  | .transient _ _ => Bytes.zero 32

/-- Write a value at a key. -/
def write (acct : AccountState) : (k : CanonicalKey) → k.Value → AccountState
  | .balance _, value => { acct with balance := value }
  | .nonce _, value => { acct with nonce := value }
  | .code _, value => { acct with codeHash := value }
  | .storage _ slot, value => { acct with storage := acct.storage.insert slot value }
  | .transient _ _, _ => acct

lemma valueAt_write_self (acct : AccountState) {k : CanonicalKey} (hk : k.isField = true)
    (value : k.Value) : (acct.write k value).valueAt k = value := by
  cases k <;> first | rfl | exact absurd hk (by simp [CanonicalKey.isField])

lemma valueAt_write_of_ne (acct : AccountState) {k k' : CanonicalKey} (hne : k' ≠ k)
    (haddress : k'.address = k.address) (hk : k.isField = true) (value : k'.Value) :
    (acct.write k' value).valueAt k = acct.valueAt k := by
  cases k <;> cases k' <;> simp_all [CanonicalKey.address, CanonicalKey.isField, valueAt, write]

lemma storage_write_self (acct : AccountState) (address : Address) (slot value : Word) :
    (acct.write (.storage address slot) value).storage[slot]? = some value := by
  simp [write]

lemma storage_write_of_ne (acct : AccountState) {k : CanonicalKey} {address : Address}
    {slot : Word} (haddress : k.address = address) (hne : k ≠ .storage address slot)
    (value : k.Value) : (acct.write k value).storage[slot]? = acct.storage[slot]? := by
  subst haddress
  cases k with
  | storage address' slot' =>
    have hslot : slot' ≠ slot := by
      rintro rfl
      exact hne rfl
    simp [write, OrdMap.getElem?_insert, hslot]
  | _ => rfl

end AccountState

/-- The address that a payload touches. -/
def touchedAddress? : CsePayload → Option Address
  | .balanceChanged p => some p.address
  | .nonceUpdated p => some p.address
  | .codeUpdated p => some p.address
  | .storageSlotUpdated p => some p.address
  | .contractCreated p => some p.address
  | .contractDestroyed p => some p.address
  | _ => none

/-- A write to persistent state touches the account. -/
lemma touchedAddress?_of_write {p : CsePayload} {w : Journal.Write CanonicalKey.Value}
    (hw : transition? p = some w) (hk : w.key.isPersistent = true) :
    touchedAddress? p = some w.key.address := by
  cases p with
  | balanceChanged p | nonceUpdated p | codeUpdated p | storageSlotUpdated p =>
    obtain rfl := Option.some.inj hw
    rfl
  | transientStorageUpdated p =>
    obtain rfl := Option.some.inj hw
    simp [CanonicalKey.isPersistent] at hk
  | _ => simp [transition?] at hw

/-- Some payload touches the address. -/
def Touched (address : Address) (ps : List CsePayload) : Prop :=
  ∃ p ∈ ps, touchedAddress? p = some address

lemma touched_append_singleton {address : Address} {ps : List CsePayload} {p : CsePayload} :
    Touched address (ps ++ [p]) ↔ Touched address ps ∨ touchedAddress? p = some address := by
  simp [Touched, or_and_right, exists_or]

/-- What the payloads do to an account of the model: a write to persistent state, a mere
touch, or nothing. -/
lemma replayStep_cases (s : ReplayState) (p : CsePayload) :
    (∃ w detail, transition? p = some w ∧ w.key.isPersistent = true ∧
        touchedAddress? p = some w.key.address ∧
        replayStep s p = s.update w.key.address (fun acct => acct.valueAt w.key = w.before) detail
          fun acct => acct.write w.key w.after) ∨
      (∃ address, transition? p = none ∧ touchedAddress? p = some address ∧
        replayStep s p = s.touch address) ∨
      ((∀ w, transition? p = some w → w.key.isPersistent = false) ∧ touchedAddress? p = none ∧
        replayStep s p = s) := by
  cases p with
  | balanceChanged p => exact .inl ⟨_, _, rfl, rfl, rfl, rfl⟩
  | nonceUpdated p => exact .inl ⟨_, _, rfl, rfl, rfl, rfl⟩
  | codeUpdated p => exact .inl ⟨_, _, rfl, rfl, rfl, rfl⟩
  | storageSlotUpdated p => exact .inl ⟨_, _, rfl, rfl, rfl, rfl⟩
  | contractCreated p => exact .inr (.inl ⟨_, rfl, rfl, rfl⟩)
  | contractDestroyed p => exact .inr (.inl ⟨_, rfl, rfl, rfl⟩)
  | transientStorageUpdated p => exact .inr (.inr ⟨by rintro w ⟨⟩; rfl, rfl, rfl⟩)
  | _ => exact .inr (.inr ⟨by rintro w ⟨⟩, rfl, rfl⟩)

/-! ## The model after any list of payloads -/

/-- The account of an address, the default one if it has none. -/
def ReplayState.account (s : ReplayState) (address : Address) : AccountState :=
  s.state[address]?.getD .default

/-- The payload's previous value is the current one, if its account is touched already. -/
def Fits (pre : List CsePayload) (p : CsePayload) : Prop :=
  ∀ w, transition? p = some w → w.key.isPersistent = true → Touched w.key.address pre →
    Journal.terminal w.key.zeroValue (historyAt w.key pre) = w.before

/-- Every payload fits those before it. -/
def OnlineConsistent (ps : List CsePayload) : Prop := Pointwise.EachStep Fits ps

/-- An account holds the terminal values of its keys: zero for a field never written, and
no slot that was never written. -/
structure Holds (acct : AccountState) (address : Address) (ps : List CsePayload) : Prop where
  field : ∀ k : CanonicalKey, k.isField = true → k.address = address →
    acct.valueAt k = Journal.terminal k.zeroValue (historyAt k ps)
  slot : ∀ slot : Word,
    acct.storage[slot]? = (historyAt (.storage address slot) ps).getLast?.map Prod.snd

/-- The replay model after the payloads `ps`. -/
structure Replayed (ps : List CsePayload) (s : ReplayState) : Prop where
  isSome_iff : ∀ address : Address, s.state[address]?.isSome = true ↔ Touched address ps
  flag : ∀ (address : Address) (acct : AccountState),
    s.state[address]? = some acct → acct.touched = true
  holds : ∀ address, Holds (s.account address) address ps
  errors : s.traceErrors = [] ↔ OnlineConsistent ps
  kind : ∀ e ∈ s.traceErrors, ∃ address detail, e = .traceInconsistency address detail

variable {ps : List CsePayload} {s : ReplayState}

lemma Replayed.touched_account (h : Replayed ps s) (address : Address) :
    (s.account address).touched = true ↔ Touched address ps := by
  rw [← h.isSome_iff, ReplayState.account]
  cases hs : s.state[address]? with
  | none => simp [AccountState.default]
  | some acct => simpa using h.flag address acct hs

lemma valueAt_eq_terminal {acct : AccountState} {address : Address} (h : Holds acct address ps)
    {k : CanonicalKey} (hk : k.isPersistent = true) (haddress : k.address = address) :
    acct.valueAt k = Journal.terminal k.zeroValue (historyAt k ps) := by
  cases k with
  | storage address' slot =>
    obtain rfl : address' = address := haddress
    rw [AccountState.valueAt, h.slot slot]
    rfl
  | transient address' slot => exact absurd hk (by simp [CanonicalKey.isPersistent])
  | _ => exact h.field _ rfl haddress

lemma historyAt_append_write {p : CsePayload} {w : Journal.Write CanonicalKey.Value}
    (hw : transition? p = some w) (ps : List CsePayload) (k : CanonicalKey) :
    historyAt k (ps ++ [p]) = historyAt k ps ++ (w.at? k).toList := by
  rw [historyAt_append]
  congr 1
  cases hk : w.at? k <;> simp [historyAt, writesOf, Journal.writes, Journal.history, hw, hk]

lemma historyAt_append_of_none {p : CsePayload} {k : CanonicalKey}
    (h : ∀ w, transition? p = some w → w.key ≠ k) (ps : List CsePayload) :
    historyAt k (ps ++ [p]) = historyAt k ps := by
  cases hw : transition? p with
  | none => simp [historyAt, writesOf, Journal.writes, hw]
  | some w =>
    rw [historyAt_append_write hw, Journal.Write.at?_of_ne (h w hw)]
    simp

/-- A write keeps every account at its terminal values. -/
lemma Holds.write {acct : AccountState} {address : Address} (h : Holds acct address ps)
    {p : CsePayload} {w : Journal.Write CanonicalKey.Value} (hw : transition? p = some w)
    (haddress : w.key.address = address) :
    Holds (acct.write w.key w.after) address (ps ++ [p]) where
  field k hk hka := by
    rw [historyAt_append_write hw]
    by_cases hkey : w.key = k
    · subst hkey
      rw [AccountState.valueAt_write_self acct hk]
      simp
    · rw [AccountState.valueAt_write_of_ne acct hkey (haddress.trans hka.symm) hk,
        Journal.Write.at?_of_ne hkey, h.field k hk hka]
      simp
  slot slot := by
    rw [historyAt_append_write hw]
    by_cases hkey : w.key = .storage address slot
    · obtain ⟨key, before, after⟩ := w
      subst hkey
      rw [AccountState.storage_write_self, Journal.Write.at?_self]
      simp
    · rw [AccountState.storage_write_of_ne acct haddress hkey, Journal.Write.at?_of_ne hkey,
        h.slot slot]
      simp

lemma Holds.of_historyAt_eq {acct acct' : AccountState} {address : Address} {ps' : List CsePayload}
    (h : Holds acct address ps) (hat : ∀ k, acct'.valueAt k = acct.valueAt k)
    (hstorage : acct'.storage = acct.storage)
    (hhist : ∀ k : CanonicalKey, k.isPersistent = true → k.address = address →
      historyAt k ps' = historyAt k ps) : Holds acct' address ps' where
  field k hk haddress := by
    rw [hat, h.field k hk haddress, hhist k (CanonicalKey.isPersistent_of_isField hk) haddress]
  slot slot := by
    rw [hstorage, h.slot, hhist (.storage address slot) rfl rfl]

lemma account_insert (s : ReplayState) (address address' : Address) (acct : AccountState)
    (errors : List ReplayError) :
    (ReplayState.mk (s.state.insert address acct) errors).account address' =
      if address = address' then acct else s.account address' := by
  rw [ReplayState.account, OrdMap.getElem?_insert]
  split <;> rfl

lemma Replayed.update (h : Replayed ps s) {p : CsePayload}
    {w : Journal.Write CanonicalKey.Value} (hw : transition? p = some w)
    (hpersistent : w.key.isPersistent = true)
    (htouch : touchedAddress? p = some w.key.address) (detail : String) :
    Replayed (ps ++ [p]) (s.update w.key.address (fun acct => acct.valueAt w.key = w.before)
      detail fun acct => acct.write w.key w.after) where
  isSome_iff address := by
    rw [touched_append_singleton, htouch, ← h.isSome_iff, ReplayState.update,
      OrdMap.getElem?_insert]
    split_ifs with haddress
    · simp [haddress]
    · simp [haddress]
  flag address acct hacct := by
    rw [ReplayState.update, OrdMap.getElem?_insert] at hacct
    split_ifs at hacct with haddress
    · rw [← Option.some.inj hacct]
    · exact h.flag address acct hacct
  holds address := by
    rw [ReplayState.update, account_insert]
    split_ifs with haddress
    · subst haddress
      refine ((h.holds _).write hw rfl).of_historyAt_eq (fun k => ?_) rfl fun _ _ _ => rfl
      cases k <;> rfl
    · refine (h.holds address).of_historyAt_eq (fun _ => rfl) rfl fun k _ hk => ?_
      refine historyAt_append_of_none (fun w' hw' hkey => haddress ?_) ps
      obtain rfl := Option.some.inj (hw.symm.trans hw')
      rw [hkey, hk]
  errors := by
    rw [OnlineConsistent, Pointwise.eachStep_append_singleton,
      ← OnlineConsistent, ← h.errors]
    have hcurrent : (s.account w.key.address).valueAt w.key =
        Journal.terminal w.key.zeroValue (historyAt w.key ps) :=
      valueAt_eq_terminal (h.holds _) hpersistent rfl
    have hfits : Fits ps p ↔ ¬ ((s.account w.key.address).touched &&
        !decide ((s.account w.key.address).valueAt w.key = w.before)) = true := by
      rw [hcurrent]
      simp only [Bool.and_eq_true, h.touched_account, Bool.not_eq_true', decide_eq_false_iff_not,
        not_and, not_not]
      constructor
      · exact fun hp ht => hp w hw hpersistent ht
      · intro hp w' hw' _ ht
        obtain rfl := Option.some.inj (hw.symm.trans hw')
        exact hp ht
    rw [hfits]
    change (if ((s.account w.key.address).touched &&
        !decide ((s.account w.key.address).valueAt w.key = w.before)) = true then _ else _) = [] ↔ _
    split_ifs with hcond
    · simp [hcond]
    · simp [hcond]
  kind e he := by
    rw [ReplayState.update] at he
    simp only at he
    split_ifs at he
    · rcases List.mem_append.mp he with he | he
      · exact h.kind e he
      · exact ⟨_, _, List.mem_singleton.mp he⟩
    · exact h.kind e he

lemma Replayed.touch (h : Replayed ps s) {p : CsePayload} {address : Address}
    (hw : transition? p = none) (htouch : touchedAddress? p = some address) :
    Replayed (ps ++ [p]) (s.touch address) where
  isSome_iff address' := by
    rw [touched_append_singleton, htouch, ← h.isSome_iff, ReplayState.touch,
      OrdMap.getElem?_insert]
    split_ifs with haddress
    · simp [haddress]
    · simp [haddress]
  flag address' acct hacct := by
    rw [ReplayState.touch, OrdMap.getElem?_insert] at hacct
    split_ifs at hacct with haddress
    · rw [← Option.some.inj hacct]
    · exact h.flag address' acct hacct
  holds address' := by
    have hhist : ∀ k : CanonicalKey, historyAt k (ps ++ [p]) = historyAt k ps := fun k =>
      historyAt_append_of_none (by simp [hw]) ps
    rw [ReplayState.touch, account_insert]
    split_ifs with haddress
    · subst haddress
      refine (h.holds _).of_historyAt_eq (fun k => ?_) rfl fun k _ _ => hhist k
      cases k <;> rfl
    · exact (h.holds address').of_historyAt_eq (fun _ => rfl) rfl fun k _ _ => hhist k
  errors := by
    rw [OnlineConsistent, Pointwise.eachStep_append_singleton,
      ← OnlineConsistent, ← h.errors]
    have hfits : Fits ps p := by simp [Fits, hw]
    simp [ReplayState.touch, hfits]
  kind := h.kind

lemma Replayed.skip (h : Replayed ps s) {p : CsePayload}
    (hw : ∀ w, transition? p = some w → w.key.isPersistent = false)
    (htouch : touchedAddress? p = none) : Replayed (ps ++ [p]) s where
  isSome_iff address := by
    rw [touched_append_singleton, htouch, ← h.isSome_iff]
    simp
  flag := h.flag
  holds address := by
    refine (h.holds address).of_historyAt_eq (fun _ => rfl) rfl fun k hk _ => ?_
    refine historyAt_append_of_none (fun w hw' hkey => ?_) ps
    rw [← hkey, hw w hw'] at hk
    exact absurd hk (by simp)
  errors := by
    rw [OnlineConsistent, Pointwise.eachStep_append_singleton,
      ← OnlineConsistent, ← h.errors]
    have hfits : Fits ps p := by
      intro w hw' hpersistent
      rw [hw w hw'] at hpersistent
      exact absurd hpersistent (by simp)
    simp [hfits]
  kind := h.kind

/-- After any payloads the model holds the terminal value of every key, and has reported
every payload that does not fit. -/
theorem replayed (ps : List CsePayload) : Replayed ps (replayTraces ps) := by
  induction ps using List.reverseRecOn with
  | nil =>
    refine ⟨fun address => ?_, by simp [replayTraces], fun address => ⟨?_, ?_⟩, ?_, ?_⟩
    · simp [replayTraces, Touched]
    · intro k hk haddress
      cases k <;> rfl
    · simp [replayTraces, ReplayState.account, AccountState.default, historyAt, writesOf,
        Journal.writes]
    · simp [replayTraces, OnlineConsistent, Pointwise.eachStep_nil]
    · simp [replayTraces]
  | append_singleton ps p ih =>
    have hstep : replayTraces (ps ++ [p]) = replayStep (replayTraces ps) p := by
      simp [replayTraces]
    rw [hstep]
    rcases replayStep_cases (replayTraces ps) p with
      ⟨w, detail, hw, hpersistent, htouch, heq⟩ | ⟨address, hw, htouch, heq⟩ | ⟨hw, htouch, heq⟩
    · rw [heq]
      exact ih.update hw hpersistent htouch detail
    · rw [heq]
      exact ih.touch hw htouch
    · rw [heq]
      exact ih.skip hw htouch

/-! ## What Gate 2 answers -/

variable (blake3 : Blake3)

/-- The errors of one certificate. -/
def certificateErrors (state : OrdMap.Map Address AccountState)
    (cert : CanonicalAccountCertificate) : List ReplayError :=
  match state[cert.address]? with
  | none => []
  | some derived =>
      let report (mismatches : List FieldMismatch) : List ReplayError :=
        if mismatches.isEmpty then [] else [.certificateMismatch cert.address mismatches]
      match cert.storageRoot with
      | .awaitingDerivation =>
          .unresolvedStorageRoot cert.address :: report (fieldMismatches derived cert)
      | .verified claimedRoot =>
          report (fieldMismatches derived cert ++
            if slotRoot blake3 derived.storage ≠ claimedRoot then
              [.storageRoot (slotRoot blake3 derived.storage) cert.storageRoot]
            else [])

lemma result_checkCertificate (state : OrdMap.Map Address AccountState)
    (cert : CanonicalAccountCertificate) :
    (checkCertificate (simpleStorageRootDeriver blake3) state cert).result =
      some (certificateErrors blake3 state cert) := by
  rw [checkCertificate, certificateErrors]
  cases state[cert.address]? with
  | none => rfl
  | some derived =>
    cases hroot : cert.storageRoot with
    | awaitingDerivation => rfl
    | verified claimedRoot =>
      simp only
      rw [Logged.bind_eq (derive_simpleStorageRootDeriver blake3 _)]
      rfl

lemma result_checkCertificates (state : OrdMap.Map Address AccountState)
    (certs : List CanonicalAccountCertificate) :
    (checkCertificates (simpleStorageRootDeriver blake3) state certs).result =
      some (certs.flatMap (certificateErrors blake3 state)) := by
  induction certs with
  | nil => rfl
  | cons cert certs ih =>
    rw [checkCertificates, Logged.result_bind_eq_some]
    refine ⟨_, result_checkCertificate blake3 state cert, ?_⟩
    rw [Logged.result_bind_eq_some]
    exact ⟨_, ih, rfl⟩

lemma fieldMismatches_eq_nil_iff {derived : AccountState} {cert : CanonicalAccountCertificate} :
    fieldMismatches derived cert = [] ↔
      derived.nonce = cert.nonce ∧ derived.balance = cert.balance ∧
        derived.codeHash = cert.codeHash := by
  simp [fieldMismatches]

lemma certificateErrors_eq_nil_iff {state : OrdMap.Map Address AccountState}
    {cert : CanonicalAccountCertificate} {derived : AccountState}
    (h : state[cert.address]? = some derived) :
    certificateErrors blake3 state cert = [] ↔
      fieldMismatches derived cert = [] ∧
        cert.storageRoot = .verified (slotRoot blake3 derived.storage) := by
  rw [certificateErrors, h]
  cases hroot : cert.storageRoot with
  | awaitingDerivation => simp
  | verified claimedRoot =>
    by_cases hclaim : slotRoot blake3 derived.storage = claimedRoot
    · simp [hclaim]
    · simp [hclaim, Ne.symm hclaim]

/-- The errors beyond those of the traces: accounts on one side only, and certificates that
disagree. -/
def verificationErrors (batch : ExecutionBatchReplay) : List ReplayError :=
  let s := replayTraces batch.executionTraces
  let touchedAddresses := (s.state.toList.filter (·.2.touched)).map (·.1)
  let certified := (certifiedAddresses batch.accountCertificates).keys
  (touchedAddresses.filter (· ∉ certified)).map ReplayError.missingCertificate ++
    (certified.filter (· ∉ touchedAddresses)).map ReplayError.untouchedCertificate ++
      batch.accountCertificates.flatMap (certificateErrors blake3 s.state)

/-- Gate 2 always answers. -/
theorem result_replayAndVerify (batch : ExecutionBatchReplay) :
    (replayAndVerify blake3 batch).result = some (
      if (!(replayTraces batch.executionTraces).traceErrors.isEmpty) = true then
        .error (replayTraces batch.executionTraces).traceErrors
      else if (verificationErrors blake3 batch).isEmpty then .ok ()
      else .error (verificationErrors blake3 batch)) := by
  rw [replayAndVerify]
  by_cases htrace : (!(replayTraces batch.executionTraces).traceErrors.isEmpty) = true
  · simp only [if_pos htrace]
    rfl
  · simp only [if_neg htrace]
    rw [Logged.result_bind_eq_some]
    exact ⟨_, result_checkCertificates blake3 _ _, rfl⟩

lemma mem_touchedAddresses {address : Address} (h : Replayed ps s) :
    address ∈ (s.state.toList.filter (·.2.touched)).map (·.1) ↔ Touched address ps := by
  rw [← h.isSome_iff, Option.isSome_iff_exists]
  simp only [List.mem_map, List.mem_filter, Prod.exists, exists_and_right, exists_eq_right]
  constructor
  · rintro ⟨acct, hmem, -⟩
    exact ⟨acct, OrdMap.mem_toList_iff.mp hmem⟩
  · rintro ⟨acct, hacct⟩
    exact ⟨acct, OrdMap.mem_toList_iff.mpr hacct, h.flag address acct hacct⟩

lemma mem_certifiedAddresses {certs : List CanonicalAccountCertificate} {address : Address} :
    address ∈ (certifiedAddresses certs).keys ↔ ∃ c ∈ certs, c.address = address := by
  rw [Std.ExtTreeMap.mem_keys]
  induction certs using List.reverseRecOn with
  | nil => simp [certifiedAddresses]
  | append_singleton certs c ih =>
    rw [certifiedAddresses, List.foldl_append, ← certifiedAddresses, List.foldl_cons,
      List.foldl_nil, Std.ExtTreeMap.mem_insert, ih]
    simp [Std.LawfulEqCmp.compare_eq_iff_eq, or_comm]

/-- The certificate says what the model holds after the payloads. -/
def Agrees (ps : List CsePayload) (c : CanonicalAccountCertificate) : Prop :=
  (∀ k : CanonicalKey, k.isField = true → k.address = c.address →
    c.at? k = some (Journal.terminal k.zeroValue (historyAt k ps))) ∧
  c.storageRoot = .verified (slotRoot blake3 ((replayTraces ps).account c.address).storage)

/-- **What Gate 2 accepts.**  The payloads fit one after the other, the certified accounts
are the touched ones, and every certificate agrees with the account of the model. -/
theorem replayAndVerify_eq_ok_iff (batch : ExecutionBatchReplay) :
    (replayAndVerify blake3 batch).result = some (.ok ()) ↔
      OnlineConsistent batch.executionTraces ∧
      (∀ address, Touched address batch.executionTraces ↔
        ∃ c ∈ batch.accountCertificates, c.address = address) ∧
      ∀ c ∈ batch.accountCertificates, Agrees blake3 batch.executionTraces c := by
  have hreplayed := replayed batch.executionTraces
  have hsets : verificationErrors blake3 batch = [] ↔
      (∀ address, Touched address batch.executionTraces ↔
        ∃ c ∈ batch.accountCertificates, c.address = address) ∧
      ∀ c ∈ batch.accountCertificates,
        certificateErrors blake3 (replayTraces batch.executionTraces).state c = [] := by
    simp only [verificationErrors, List.append_eq_nil_iff, List.map_eq_nil_iff,
      List.filter_eq_nil_iff, List.flatMap_eq_nil_iff, decide_eq_true_eq, not_not,
      mem_touchedAddresses hreplayed, mem_certifiedAddresses]
    constructor
    · rintro ⟨⟨hmissing, huntouched⟩, hcerts⟩
      exact ⟨fun address => ⟨hmissing address, huntouched address⟩, hcerts⟩
    · rintro ⟨hiff, hcerts⟩
      exact ⟨⟨fun address => (hiff address).mp, fun address => (hiff address).mpr⟩, hcerts⟩
  have hok : (replayAndVerify blake3 batch).result = some (.ok ()) ↔
      (replayTraces batch.executionTraces).traceErrors = [] ∧
        verificationErrors blake3 batch = [] := by
    rw [result_replayAndVerify]
    split_ifs <;> simp_all
  rw [hok, hreplayed.errors, hsets]
  refine and_congr_right fun _ => and_congr_right fun hiff => ?_
  refine forall_congr' fun c => forall_congr' fun hc => ?_
  -- a certified account is in the model
  obtain ⟨acct, hacct⟩ := Option.isSome_iff_exists.mp
    ((hreplayed.isSome_iff c.address).mpr ((hiff c.address).mpr ⟨c, hc, rfl⟩))
  have haccount : (replayTraces batch.executionTraces).account c.address = acct := by
    rw [ReplayState.account, hacct]
    rfl
  have hfields := (hreplayed.holds c.address).field
  rw [certificateErrors_eq_nil_iff blake3 hacct, Agrees, haccount, fieldMismatches_eq_nil_iff]
  rw [haccount] at hfields
  refine and_congr_left fun _ => ?_
  have hbalance := hfields (.balance c.address) rfl rfl
  have hnonce := hfields (.nonce c.address) rfl rfl
  have hcode := hfields (.code c.address) rfl rfl
  constructor
  · rintro ⟨hn, hb, hcd⟩ k hk haddress
    rw [← hfields k hk haddress]
    cases k with
    | balance a => exact congrArg some hb.symm
    | nonce a => exact congrArg some hn.symm
    | code a => exact congrArg some hcd.symm
    | storage a slot => exact absurd hk (by simp [CanonicalKey.isField])
    | transient a slot => exact absurd hk (by simp [CanonicalKey.isField])
  · intro h
    refine ⟨?_, ?_, ?_⟩
    · exact (hnonce.trans (Option.some.inj (h (.nonce c.address) rfl rfl)).symm)
    · exact (hbalance.trans (Option.some.inj (h (.balance c.address) rfl rfl)).symm)
    · exact (hcode.trans (Option.some.inj (h (.code c.address) rfl rfl)).symm)

/-- Gate 2 reports an inconsistency of the traces. -/
def ReportsInconsistency (batch : ExecutionBatchReplay) : Prop :=
  ∃ errors, (replayAndVerify blake3 batch).result = some (.error errors) ∧
    ∃ address detail, .traceInconsistency address detail ∈ errors

lemma no_inconsistency_of_certificate {state : OrdMap.Map Address AccountState}
    {cert : CanonicalAccountCertificate} {address : Address} {detail : String} :
    .traceInconsistency address detail ∉ certificateErrors blake3 state cert := by
  rw [certificateErrors]
  cases state[cert.address]? with
  | none => simp
  | some derived =>
    cases cert.storageRoot with
    | awaitingDerivation =>
      simp only
      split <;> simp
    | verified claimedRoot =>
      simp only
      split <;> simp

/-- **What Gate 2 reports.**  An inconsistency of the traces exactly if some payload does
not fit those before it, whatever the certificates are. -/
theorem reportsInconsistency_iff (batch : ExecutionBatchReplay) :
    ReportsInconsistency blake3 batch ↔ ¬ OnlineConsistent batch.executionTraces := by
  have hreplayed := replayed batch.executionTraces
  rw [← hreplayed.errors, ReportsInconsistency, result_replayAndVerify]
  constructor
  · rintro ⟨errors, hresult, address, detail, hmem⟩ htrace
    rw [if_neg (by simp [htrace])] at hresult
    split_ifs at hresult
    · exact absurd hresult (by simp)
    obtain rfl : verificationErrors blake3 batch = errors :=
      Except.error.inj (Option.some.inj hresult)
    simp only [verificationErrors, List.mem_append, List.mem_map, List.mem_flatMap] at hmem
    rcases hmem with (⟨_, -, heq⟩ | ⟨_, -, heq⟩) | ⟨cert, -, hcert⟩
    · exact absurd heq (by simp)
    · exact absurd heq (by simp)
    · exact no_inconsistency_of_certificate blake3 hcert
  · intro htrace
    refine ⟨_, by rw [if_pos (by simpa using htrace)], ?_⟩
    obtain ⟨e, rest, hcons⟩ := List.exists_cons_of_ne_nil htrace
    obtain ⟨address, detail, rfl⟩ := hreplayed.kind e (by simp [hcons])
    exact ⟨address, detail, by simp [hcons]⟩

end KaySentinel.Verify
