import KaySentinel.Bytes

/-!
# Canonical semantic events

The CSE-V1 event ABI: the payloads a traced execution can carry and the context
each of them travels with.
-/

namespace KaySentinel.Cse

/-- Normative execution metadata: the only context field that any invariant check of
the builder reads. -/
structure NormativeContext where
  sequenceNumber : UInt64
deriving DecidableEq

/-- Metadata gathered into a transaction bucket, and read by nothing after that. -/
structure ProvisionalContext where
  chainId : UInt64
  blockHash : Word
  blockNumber : UInt64
  transactionHash : Word
  transactionIndex : UInt32
deriving DecidableEq

/-- Diagnostic telemetry about the call frame of an event. -/
structure TraceContext where
  callFrameId : UInt32
  callDepth : UInt32
deriving DecidableEq

/-- The environment of a `CanonicalSemanticEvent`. -/
structure ExecutionContext where
  normative : NormativeContext
  provisional : ProvisionalContext
  trace : TraceContext
deriving DecidableEq

/-! ## Payloads -/

structure BalanceChanged where
  address : Address
  previousBalance : Word
  currentBalance : Word
deriving DecidableEq

structure StorageSlotUpdated where
  address : Address
  slot : Word
  previousValue : Word
  currentValue : Word
deriving DecidableEq

structure TransientStorageUpdated where
  address : Address
  slot : Word
  previousValue : Word
  currentValue : Word
deriving DecidableEq

structure NonceUpdated where
  address : Address
  previousNonce : UInt64
  currentNonce : UInt64
deriving DecidableEq

structure ContractCreated where
  address : Address
  creator : Address
deriving DecidableEq

structure CodeUpdated where
  address : Address
  previousCodeHash : Word
  currentCodeHash : Word
deriving DecidableEq

structure ContractDestroyed where
  address : Address
  refundTarget : Address
deriving DecidableEq

structure LogEmitted where
  address : Address
  topics : List Word
  data : List UInt8
deriving DecidableEq

structure GasRefundChanged where
  previousRefund : UInt64
  currentRefund : UInt64
deriving DecidableEq

structure AccessListTouched where
  address : Address
  slot : Option Word
deriving DecidableEq

/-- The version tag of an event. -/
inductive CseVersion where
  | v1
deriving DecidableEq

/-- What happened: a transaction boundary or one semantic mutation. -/
inductive CsePayload where
  | beginTransaction
  | endTransaction
  | balanceChanged (p : BalanceChanged)
  | storageSlotUpdated (p : StorageSlotUpdated)
  | transientStorageUpdated (p : TransientStorageUpdated)
  | nonceUpdated (p : NonceUpdated)
  | contractCreated (p : ContractCreated)
  | codeUpdated (p : CodeUpdated)
  | contractDestroyed (p : ContractDestroyed)
  | logEmitted (p : LogEmitted)
  | gasRefundChanged (p : GasRefundChanged)
  | accessListTouched (p : AccessListTouched)
deriving DecidableEq

/-- One event of a CSE stream. -/
structure CanonicalSemanticEvent where
  version : CseVersion
  context : ExecutionContext
  payload : CsePayload
deriving DecidableEq

/-- The payload is one of the two transaction boundary markers. -/
def CsePayload.isBoundary : CsePayload → Bool
  | .beginTransaction | .endTransaction => true
  | _ => false

/-- Payloads between the two boundary markers of a transaction. -/
def bracketed (payloads : List CsePayload) : List CsePayload :=
  .beginTransaction :: (payloads ++ [.endTransaction])

/-- A stream of one transaction: `BeginTransaction`, events that are no boundary
markers, `EndTransaction`. -/
def SingleTransaction (events : List CanonicalSemanticEvent) : Prop :=
  ∃ begin body fin, events = begin :: (body ++ [fin]) ∧
    begin.payload = .beginTransaction ∧ fin.payload = .endTransaction ∧
    ∀ e ∈ body, e.payload.isBoundary = false

end KaySentinel.Cse
