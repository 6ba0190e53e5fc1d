import KaySentinel.Bridge.Wire

/-!
# The execution mutation events

The EMES-V1 event taxonomy as the Go packages pass it on, and what the bridge reads of it
after the tagged JSON form has been parsed.
-/

namespace KaySentinel.Emes

/-- A panic of the Go program, which ends it. -/
structure Panic where
  msg : String
deriving DecidableEq

/-- `BigToHash` of an absent or arbitrarily large integer.  `FillBytes` writes the absolute
value and panics if it does not fit. -/
def bigToHash : Option ℤ → Except Panic Word
  | none => .ok (Bytes.zero 32)
  | some v =>
      if v.natAbs < 2 ^ 256 then .ok (Bytes.bigEndian 32 v.natAbs)
      else .error ⟨"math/big: buffer too small to fit value"⟩

inductive FrameType where
  | frameCall
  | frameCallCode
  | frameDelegateCall
  | frameStaticCall
  | frameCreate
  | frameCreate2
  | framePrecompile
deriving DecidableEq

structure BlockStartEvent where
  emesVersion : String
  number : UInt64
  timestamp : UInt64
deriving DecidableEq

/-- `to_` is absent for an explicit contract deployment. -/
structure TransactionStartEvent where
  txIndex : UInt64
  hash : Word
  from_ : Address
  to_ : Option Address
  value : Word
  gasLimit : UInt64
  gasPrice : Word
  nonce : UInt64
deriving DecidableEq

structure FrameEnterEvent where
  frameId : UInt64
  parentFrameId : UInt64
  depth : UInt64
  type : FrameType
  from_ : Address
  to_ : Address
deriving DecidableEq

structure FrameExitEvent where
  frameId : UInt64
  reverted : Bool
deriving DecidableEq

structure TransactionEndEvent where
  txIndex : UInt64
  reverted : Bool
deriving DecidableEq

structure BlockCommitEvent where
  stateRoot : Word
deriving DecidableEq

structure BalanceMutationEvent where
  frameId : UInt64
  address : Address
  before : Word
  after : Word
deriving DecidableEq

structure NonceMutationEvent where
  frameId : UInt64
  address : Address
  before : UInt64
  after : UInt64
deriving DecidableEq

structure CodeMutationEvent where
  frameId : UInt64
  address : Address
  before : Word
  after : Word
deriving DecidableEq

structure StorageMutationEvent where
  frameId : UInt64
  address : Address
  slot : Word
  before : Word
  after : Word
deriving DecidableEq

structure AccountCreatedEvent where
  frameId : UInt64
  address : Address
  creator : Address
deriving DecidableEq

structure SelfDestructEvent where
  frameId : UInt64
  address : Address
  beneficiary : Address
deriving DecidableEq

/-- The concrete event types, without the `base` that they all embed. -/
inductive EventData where
  | blockStart (ev : BlockStartEvent)
  | transactionStart (ev : TransactionStartEvent)
  | frameEnter (ev : FrameEnterEvent)
  | frameExit (ev : FrameExitEvent)
  | transactionEnd (ev : TransactionEndEvent)
  | blockCommit (ev : BlockCommitEvent)
  | balanceMutation (ev : BalanceMutationEvent)
  | nonceMutation (ev : NonceMutationEvent)
  | codeMutation (ev : CodeMutationEvent)
  | storageMutation (ev : StorageMutationEvent)
  | accountCreated (ev : AccountCreatedEvent)
  | selfDestruct (ev : SelfDestructEvent)
deriving DecidableEq

/-- An event: the embedded `base` and the data of its type. -/
structure Event where
  sequence : UInt64
  data : EventData
deriving DecidableEq

def EventData.isMutation : EventData → Bool
  | .balanceMutation _ | .nonceMutation _ | .codeMutation _ | .storageMutation _
  | .accountCreated _ | .selfDestruct _ => true
  | _ => false

open Bridge in
/-- What the bridge parses out of the JSON form of an event. -/
def EventData.goEvent : EventData → GoEvent
  | .blockStart ev => .blockStart { number := ev.number }
  | .transactionStart ev => .transactionStart { txIndex := ev.txIndex, hash := ev.hash }
  | .frameEnter ev => .frameEnter
      { frameId := ev.frameId, parentFrameId := ev.parentFrameId, depth := ev.depth }
  | .frameExit ev => .frameExit { frameId := ev.frameId, reverted := ev.reverted }
  | .transactionEnd ev => .transactionEnd { txIndex := ev.txIndex, reverted := ev.reverted }
  | .blockCommit _ => .blockCommit
  | .balanceMutation ev => .balanceMutation
      { frameId := ev.frameId, address := ev.address, before := ev.before, after := ev.after }
  | .nonceMutation ev => .nonceMutation
      { frameId := ev.frameId, address := ev.address, before := ev.before, after := ev.after }
  | .codeMutation ev => .codeMutation
      { frameId := ev.frameId, address := ev.address, before := ev.before, after := ev.after }
  | .storageMutation ev => .storageMutation
      { frameId := ev.frameId, address := ev.address, slot := ev.slot, before := ev.before,
        after := ev.after }
  | .accountCreated ev => .accountCreated
      { frameId := ev.frameId, address := ev.address, creator := ev.creator }
  | .selfDestruct ev => .selfDestruct
      { frameId := ev.frameId, address := ev.address, beneficiary := ev.beneficiary }

/-- The stream that the bridge sees. -/
def goEvents (stream : List Event) : List Bridge.GoEvent := stream.map (·.data.goEvent)

end KaySentinel.Emes
