import KaySentinel.Bytes

/-!
# The tracer's event stream

The events of the Go tracer after the bridge has parsed their tagged JSON form.
-/

namespace KaySentinel.Bridge

/-- The `FrameID` that stands for "no frame": `u64::MAX`. -/
def noFrame : UInt64 := 0xFFFFFFFFFFFFFFFF

structure BlockStartData where
  number : UInt64
deriving DecidableEq

structure TransactionStartData where
  txIndex : UInt64
  hash : Word
deriving DecidableEq

structure TransactionEndData where
  txIndex : UInt64
  reverted : Bool
deriving DecidableEq

structure FrameEnterData where
  frameId : UInt64
  parentFrameId : UInt64
  depth : UInt64
deriving DecidableEq

structure FrameExitData where
  frameId : UInt64
  reverted : Bool
deriving DecidableEq

structure BalanceMutationData where
  frameId : UInt64
  address : Address
  before : Word
  after : Word
deriving DecidableEq

structure NonceMutationData where
  frameId : UInt64
  address : Address
  before : UInt64
  after : UInt64
deriving DecidableEq

structure CodeMutationData where
  frameId : UInt64
  address : Address
  before : Word
  after : Word
deriving DecidableEq

structure StorageMutationData where
  frameId : UInt64
  address : Address
  slot : Word
  before : Word
  after : Word
deriving DecidableEq

structure AccountCreatedData where
  frameId : UInt64
  address : Address
  creator : Address
deriving DecidableEq

structure SelfDestructData where
  frameId : UInt64
  address : Address
  beneficiary : Address
deriving DecidableEq

/-- One event of the tracer's stream.  `BlockCommit` carries no data here: block-level
events are dropped at the bridge. -/
inductive GoEvent where
  | blockStart (data : BlockStartData)
  | transactionStart (data : TransactionStartData)
  | frameEnter (data : FrameEnterData)
  | frameExit (data : FrameExitData)
  | transactionEnd (data : TransactionEndData)
  | blockCommit
  | balanceMutation (data : BalanceMutationData)
  | nonceMutation (data : NonceMutationData)
  | codeMutation (data : CodeMutationData)
  | storageMutation (data : StorageMutationData)
  | accountCreated (data : AccountCreatedData)
  | selfDestruct (data : SelfDestructData)
deriving DecidableEq

end KaySentinel.Bridge
