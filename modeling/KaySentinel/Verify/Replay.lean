import KaySentinel.Builder.StorageRoot

/-!
# Gate 2: semantic replay

`replayAndVerify` runs the payloads of a batch against an in-memory model of the accounts
and compares the result with the batch's certificates.
-/

namespace KaySentinel.Verify

open Cse Builder

structure ExecutionBatchReplay where
  accountCertificates : List CanonicalAccountCertificate
  executionTraces : List CsePayload
deriving DecidableEq

/-- The integrity of the envelope alone: it does not look at the contents. -/
def verifyEnvelopeIntegrity (blake3 : Blake3) (rawSszBytes : List UInt8)
    (expectedCommitment : Word) : Hashing Bool := do
  let computed ← deriveCommitment blake3 .gate2Replay rawSszBytes
  pure (computed = expectedCommitment)

inductive FieldMismatch where
  | nonce (expected found : UInt64)
  | balance (expected found : Word)
  | codeHash (expected found : Word)
  | storageRoot (expected : Word) (found : StorageRootState)
deriving DecidableEq

inductive ReplayError where
  | traceInconsistency (address : Address) (detail : String)
  | missingCertificate (address : Address)
  | untouchedCertificate (address : Address)
  | certificateMismatch (address : Address) (mismatches : List FieldMismatch)
  | unresolvedStorageRoot (address : Address)
deriving DecidableEq

structure AccountState where
  nonce : UInt64
  balance : Word
  codeHash : Word
  storage : OrdMap.Map Word Word
  touched : Bool

/-- `AccountState::default()`. -/
def AccountState.default : AccountState where
  nonce := 0
  balance := Bytes.zero 32
  codeHash := Bytes.zero 32
  storage := ∅
  touched := false

/-- The state of the replay loop. -/
structure ReplayState where
  state : OrdMap.Map Address AccountState
  traceErrors : List ReplayError

/-- `state.entry(address).or_default()`, then: report a previous value that differs from the
current one of a touched account, write the new value, and mark the account as touched. -/
def ReplayState.update (s : ReplayState) (address : Address) (matchesPrevious : AccountState → Bool)
    (detail : String) (write : AccountState → AccountState) : ReplayState :=
  let acct := s.state[address]?.getD .default
  { state := s.state.insert address { write acct with touched := true }
    traceErrors :=
      if acct.touched && !matchesPrevious acct then
        s.traceErrors ++ [.traceInconsistency address detail]
      else
        s.traceErrors }

/-- `state.entry(address).or_default().touched = true;` -/
def ReplayState.touch (s : ReplayState) (address : Address) : ReplayState :=
  { s with state :=
    s.state.insert address { s.state[address]?.getD .default with touched := true } }

def replayStep (s : ReplayState) (payload : CsePayload) : ReplayState :=
  match payload with
  | .balanceChanged p =>
      s.update p.address (fun acct => acct.balance = p.previousBalance)
        "BalanceChanged.previous_balance did not match prior state"
        (fun acct => { acct with balance := p.currentBalance })
  | .nonceUpdated p =>
      s.update p.address (fun acct => acct.nonce = p.previousNonce)
        "NonceUpdated.previous_nonce did not match prior state"
        (fun acct => { acct with nonce := p.currentNonce })
  | .codeUpdated p =>
      s.update p.address (fun acct => acct.codeHash = p.previousCodeHash)
        "CodeUpdated.previous_code_hash did not match prior state"
        (fun acct => { acct with codeHash := p.currentCodeHash })
  | .storageSlotUpdated p =>
      s.update p.address (fun acct => acct.storage[p.slot]?.getD (Bytes.zero 32) = p.previousValue)
        ("StorageSlotUpdated.previous_value mismatch at slot " ++ p.slot.debug)
        (fun acct => { acct with storage := acct.storage.insert p.slot p.currentValue })
  | .contractCreated p => s.touch p.address
  | .contractDestroyed p => s.touch p.address
  -- transient storage is not part of persistent state
  | .transientStorageUpdated _ => s
  | .beginTransaction => s
  | .endTransaction => s
  | .logEmitted _ => s
  | .gasRefundChanged _ => s
  | .accessListTouched _ => s

def replayTraces (payloads : List CsePayload) : ReplayState :=
  payloads.foldl replayStep { state := ∅, traceErrors := [] }

/-- The fields on which a certificate disagrees with the derived state. -/
def fieldMismatches (derived : AccountState) (cert : CanonicalAccountCertificate) :
    List FieldMismatch :=
  (if derived.nonce ≠ cert.nonce then [.nonce derived.nonce cert.nonce] else []) ++
  (if derived.balance ≠ cert.balance then [.balance derived.balance cert.balance] else []) ++
  (if derived.codeHash ≠ cert.codeHash then [.codeHash derived.codeHash cert.codeHash] else [])

/-- The body of the loop over the certificates: the errors of one of them. -/
def checkCertificate (deriver : StorageRootDeriver Empty) (state : OrdMap.Map Address AccountState)
    (cert : CanonicalAccountCertificate) : Hashing (List ReplayError) :=
  match state[cert.address]? with
  -- already reported
  | none => pure []
  | some derived => do
      let mismatches := fieldMismatches derived cert
      let report (mismatches : List FieldMismatch) : List ReplayError :=
        if mismatches.isEmpty then [] else [.certificateMismatch cert.address mismatches]
      match cert.storageRoot with
      | .awaitingDerivation =>
          pure (.unresolvedStorageRoot cert.address :: report mismatches)
      | .verified claimedRoot =>
          match ← deriver.derive derived.storage with
          -- `.expect("SimpleStorageRootDeriver::derive is infallible for any input")`
          | .error _ => .abort
          | .ok expectedRoot =>
              pure (report (mismatches ++
                if expectedRoot ≠ claimedRoot then [.storageRoot expectedRoot cert.storageRoot]
                else []))

def checkCertificates (deriver : StorageRootDeriver Empty)
    (state : OrdMap.Map Address AccountState) :
    List CanonicalAccountCertificate → Hashing (List ReplayError)
  | [] => pure []
  | cert :: rest => do
      let errors ← checkCertificate deriver state cert
      let others ← checkCertificates deriver state rest
      pure (errors ++ others)

/-- The certificates by address: the keys of this map are the set of certified addresses. -/
def certifiedAddresses (certificates : List CanonicalAccountCertificate) :
    OrdMap.Map Address Unit :=
  certificates.foldl (fun acc c => acc.insert c.address ()) ∅

def replayAndVerify (blake3 : Blake3) (batch : ExecutionBatchReplay) :
    Hashing (Except (List ReplayError) Unit) := do
  let s := replayTraces batch.executionTraces
  if !s.traceErrors.isEmpty then
    return .error s.traceErrors
  let touchedAddresses := (s.state.toList.filter (·.2.touched)).map (·.1)
  let certified := (certifiedAddresses batch.accountCertificates).keys
  let missing := (touchedAddresses.filter (· ∉ certified)).map ReplayError.missingCertificate
  let untouched := (certified.filter (· ∉ touchedAddresses)).map ReplayError.untouchedCertificate
  let mismatches ←
    checkCertificates (simpleStorageRootDeriver blake3) s.state batch.accountCertificates
  let errors := missing ++ untouched ++ mismatches
  return if errors.isEmpty then .ok () else .error errors

end KaySentinel.Verify
