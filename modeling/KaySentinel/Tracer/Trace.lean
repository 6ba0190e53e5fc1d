import KaySentinel.Bridge.Translate
import KaySentinel.Lib.Forest
import KaySentinel.Tracer.Hooks

/-!
# Bracketed runs and their traces

A bracketed run is a list of blocks, each a list of transactions, each a forest of mutation
hooks and frames.  Its trace numbers the frames of each transaction and turns the hooks into
events.
-/

namespace KaySentinel

open Emes NestedLog

/-! ## Bracketed runs -/

/-- A frame of a run: the arguments of its `OnEnter`, the flag of its `OnExit`. -/
structure FrameCalls where
  enter : EnterArgs
  reverted : Bool

/-- The mutation hooks and frames of a transaction. -/
abbrev HookForest := Forest MutationHook FrameCalls

def HookForest.calls : HookForest → List Hook
  | .nil => []
  | .leaf hook rest => .mutation hook :: HookForest.calls rest
  | .node frame inner rest =>
      .onEnter frame.enter ::
        (HookForest.calls inner ++ .onExit frame.reverted :: HookForest.calls rest)

structure TxCalls where
  tx : TracedTransaction
  from_ : Address
  body : HookForest
  fin : TxEndArgs

def TxCalls.calls (tx : TxCalls) : List Hook :=
  .onTxStart tx.tx tx.from_ :: (tx.body.calls ++ [.onTxEnd tx.fin])

structure BlockCalls where
  header : BlockHeader
  txs : List TxCalls

def BlockCalls.calls (b : BlockCalls) : List Hook :=
  .onBlockStart b.header :: (b.txs.flatMap TxCalls.calls ++ [.onBlockEnd])

/-- The streams that `Events` returns after each `OnBlockEnd` of a run over blocks. -/
def Tracer.streams (t : Tracer) : List BlockCalls → Except Panic (List (List Event))
  | [] => .ok []
  | b :: blocks => do
      let t' ← t.run b.calls
      let rest ← t'.streams blocks
      return t'.events :: rest

/-! ## The trace of a run -/

/-- The value of `BigToHash` where it does not panic. -/
def hashOf : Option ℤ → Word
  | none => Bytes.zero 32
  | some v => Bytes.bigEndian 32 v.natAbs

/-- The integer fits 256 bits. -/
def FitsWord (v : Option ℤ) : Prop := ∀ x ∈ v, x.natAbs < 2 ^ 256

/-- A recorded mutation, without the frame it is stamped with. -/
inductive Change where
  | balance (address : Address) (before after : Word)
  | nonce (address : Address) (before after : UInt64)
  | code (address : Address) (before after : Word)
  | storage (address : Address) (slot before after : Word)
  | selfDestruct (address beneficiary : Address)

def Change.event (frameId : UInt64) : Change → EventData
  | .balance address before after =>
      .balanceMutation { frameId := frameId, address := address, before := before, after := after }
  | .nonce address before after =>
      .nonceMutation { frameId := frameId, address := address, before := before, after := after }
  | .code address before after =>
      .codeMutation { frameId := frameId, address := address, before := before, after := after }
  | .storage address slot before after => .storageMutation
      { frameId := frameId, address := address, slot := slot, before := before, after := after }
  | .selfDestruct address beneficiary =>
      .selfDestruct { frameId := frameId, address := address, beneficiary := beneficiary }

/-- A recorded frame. -/
structure TracedFrame where
  frameId : UInt64
  depth : UInt64
  type : FrameType
  from_ : Address
  to_ : Address
  reverted : Bool

def TracedFrame.enterEvent (parentFrameId : UInt64) (frame : TracedFrame) : EventData :=
  .frameEnter
    { frameId := frame.frameId
      parentFrameId := parentFrameId
      depth := frame.depth
      type := frame.type
      from_ := frame.from_
      to_ := frame.to_ }

def TracedFrame.exitEvent (frame : TracedFrame) : EventData :=
  .frameExit { frameId := frame.frameId, reverted := frame.reverted }

/-- What the tracer records of a transaction. -/
abbrev TraceForest := Forest Change TracedFrame

/-- The events of a trace in the frame `current`. -/
def TraceForest.events : UInt64 → TraceForest → List EventData
  | _, .nil => []
  | current, .leaf change rest => change.event current :: TraceForest.events current rest
  | current, .node frame inner rest =>
      frame.enterEvent current ::
        (TraceForest.events frame.frameId inner ++
          frame.exitEvent :: TraceForest.events current rest)

/-- The changes that a mutation hook records in a frame in which the account `pending` waits to
be destroyed. -/
def MutationHook.changes (pending : Option Address) : MutationHook → List Change
  | .onBalanceChange addr prev new reason =>
      .balance addr (hashOf prev) (hashOf new) ::
        if reason = .balanceIncreaseSelfdestruct then
          pending.toList.map (Change.selfDestruct · addr)
        else []
  | .onNonceChangeV2 addr prev new => [.nonce addr prev new]
  | .onCodeChangeV2 addr prevCodeHash codeHash _ => [.code addr prevCodeHash codeHash]
  | .onStorageChange addr slot prev new => [.storage addr slot prev new]

/-- The account that waits to be destroyed after the hook. -/
def MutationHook.pendingAfter (pending : Option Address) : MutationHook → Option Address
  | .onBalanceChange _ _ _ .balanceIncreaseSelfdestruct => none
  | .onCodeChangeV2 addr _ _ .codeChangeSelfDestruct => some addr
  | _ => pending

/-- The integers that the hook is given fit 256 bits. -/
def MutationHook.Fits : MutationHook → Prop
  | .onBalanceChange _ prev new _ => FitsWord prev ∧ FitsWord new
  | _ => True

/-- The frame counter and the accounts that wait to be destroyed, for each frame. -/
structure Ids where
  nextFrameId : UInt64
  pending : UInt64 → Option Address

namespace Ids

/-- The next frame takes its id. -/
def enter (ids : Ids) : Ids := { ids with nextFrameId := ids.nextFrameId + 1 }

/-- Now `pending` waits in a frame. -/
def wait (ids : Ids) (frameId : UInt64) (pending : Option Address) : Ids :=
  { ids with pending := Function.update ids.pending frameId pending }

@[simp] lemma nextFrameId_enter (ids : Ids) : ids.enter.nextFrameId = ids.nextFrameId + 1 := rfl

@[simp] lemma pending_enter (ids : Ids) : ids.enter.pending = ids.pending := rfl

@[simp] lemma pending_wait_self (ids : Ids) (frameId : UInt64) (pending : Option Address) :
    (ids.wait frameId pending).pending frameId = pending := Function.update_self _ _ _

lemma pending_wait_of_ne (ids : Ids) {frameId id : UInt64} (h : id ≠ frameId)
    (pending : Option Address) : (ids.wait frameId pending).pending id = ids.pending id :=
  Function.update_of_ne h _ _

end Ids

/-- What the tracer records of a frame. -/
def FrameCalls.traced (env : Option EnvironmentDescriptor) (frameId : UInt64)
    (frame : FrameCalls) : TracedFrame where
  frameId := frameId
  depth := frame.enter.depth.toUInt64
  type := frameType env frame.enter
  from_ := frame.enter.from_
  to_ := frame.enter.to_
  reverted := frame.reverted

/-- The trace of hooks in the frame `current`. -/
def trace (env : Option EnvironmentDescriptor) :
    UInt64 → HookForest → Ids → TraceForest × Ids
  | _, .nil, ids => (.nil, ids)
  | current, .leaf hook rest, ids =>
      let traced := trace env current rest
        (ids.wait current (hook.pendingAfter (ids.pending current)))
      (.prepend (hook.changes (ids.pending current)) traced.1, traced.2)
  | current, .node frame inner rest, ids =>
      let tracedInner := trace env ids.nextFrameId inner ids.enter
      let traced := trace env current rest tracedInner.2
      (.node (frame.traced env ids.nextFrameId) tracedInner.1 traced.1, traced.2)

/-! ## The events of a run -/

/-- The integers that the hooks are given fit 256 bits. -/
def HookForest.Fits (hooks : HookForest) : Prop := ∀ hook ∈ hooks.leaves, hook.Fits

/-- The flag of `OnTxEnd`. -/
def TxEndArgs.reverted (args : TxEndArgs) : Bool :=
  args.err.isSome || args.receipt.any (·.status = receiptStatusFailed)

/-- The trace of a transaction. -/
def TxCalls.trace (env : Option EnvironmentDescriptor) (tx : TxCalls) : TraceForest × Ids :=
  KaySentinel.trace env noParentFrame tx.body ⟨0, fun _ => none⟩

/-- The event of `OnTxStart`. -/
def TxCalls.startEvent (tx : TxCalls) : EventData :=
  .transactionStart
    { txIndex := 0
      hash := tx.tx.hash
      from_ := tx.from_
      to_ := tx.tx.to_
      value := hashOf tx.tx.value
      gasLimit := tx.tx.gas
      gasPrice := hashOf tx.tx.gasPrice
      nonce := tx.tx.nonce }

/-- The events of a transaction. -/
def TxCalls.events (env : Option EnvironmentDescriptor) (tx : TxCalls) : List EventData :=
  tx.startEvent ::
    (TraceForest.events noParentFrame (tx.trace env).1 ++
      [.transactionEnd { txIndex := 0, reverted := tx.fin.reverted }])

/-- The event of `OnBlockStart`. -/
def BlockCalls.startEvent (b : BlockCalls) : EventData :=
  .blockStart { emesVersion := "EMES-V1", number := b.header.number, timestamp := b.header.time }

/-- The events of a block. -/
def BlockCalls.events (env : Option EnvironmentDescriptor) (b : BlockCalls) : List EventData :=
  b.startEvent ::
    (b.txs.flatMap (TxCalls.events env) ++ [.blockCommit { stateRoot := b.header.root }])

/-- The integers of a transaction fit 256 bits. -/
def TxCalls.Fits (tx : TxCalls) : Prop :=
  FitsWord tx.tx.value ∧ FitsWord tx.tx.gasPrice ∧ tx.body.Fits

def BlockCalls.Fits (b : BlockCalls) : Prop := ∀ tx ∈ b.txs, tx.Fits

/-- Number events from `seq` on. -/
def stamp : UInt64 → List EventData → List Event
  | _, [] => []
  | seq, e :: es => ⟨seq, e⟩ :: stamp (seq + 1) es

/-- The streams of blocks, numbered by one counter. -/
def numbered (env : Option EnvironmentDescriptor) : UInt64 → List BlockCalls → List (List Event)
  | _, [] => []
  | seq, b :: blocks =>
      stamp seq (b.events env) ::
        numbered env (seq + UInt64.ofNat (b.events env).length) blocks

/-! ## What is read of a trace -/

/-- The payload of a recorded mutation. -/
def Change.payload : Change → Cse.CsePayload
  | .balance address before after => .balanceChanged
      { address := address, previousBalance := before, currentBalance := after }
  | .nonce address before after => .nonceUpdated
      { address := address, previousNonce := before, currentNonce := after }
  | .code address before after => .codeUpdated
      { address := address, previousCodeHash := before, currentCodeHash := after }
  | .storage address slot before after => .storageSlotUpdated
      { address := address, slot := slot, previousValue := before, currentValue := after }
  | .selfDestruct address beneficiary => .contractDestroyed
      { address := address, refundTarget := beneficiary }

lemma Change.mutation?_event (change : Change) (frameId : UInt64) :
    (change.event frameId).goEvent.mutation? = some (frameId, change.payload) := by
  cases change <;> rfl

lemma goEvents_stamp (seq : UInt64) (es : List EventData) :
    goEvents (stamp seq es) = es.map EventData.goEvent := by
  induction es generalizing seq with
  | nil => rfl
  | cons e es ih => exact congrArg (e.goEvent :: ·) (ih (seq + 1))

end KaySentinel
