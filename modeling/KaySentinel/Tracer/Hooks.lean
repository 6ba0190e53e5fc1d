import KaySentinel.Emes.Event

/-!
# The tracer

The hooks that go-ethereum calls while it executes a block, and the tracer that turns the calls
into a stream of events.  Arguments of a hook that the tracer does not read are left out.
-/

namespace KaySentinel

open Emes

/-! ## What the hooks are given -/

/-- What the tracer reads of the header of a block. -/
structure BlockHeader where
  root : Word
  number : UInt64
  time : UInt64

/-- What the tracer reads of a transaction. -/
structure TracedTransaction where
  hash : Word
  to_ : Option Address
  value : Option ℤ
  gas : UInt64
  gasPrice : Option ℤ
  nonce : UInt64

structure Receipt where
  status : UInt64

/-- `types.ReceiptStatusFailed` -/
def receiptStatusFailed : UInt64 := 0

/-- The reasons of a balance change, as far as the tracer tells them apart. -/
inductive BalanceChangeReason where
  | balanceIncreaseSelfdestruct
  | other
deriving DecidableEq

/-- The reasons of a code change, as far as the tracer tells them apart. -/
inductive CodeChangeReason where
  | codeChangeSelfDestruct
  | other
deriving DecidableEq

/-- A call of a state mutation hook. -/
inductive MutationHook where
  | onBalanceChange (addr : Address) (prev new : Option ℤ) (reason : BalanceChangeReason)
  | onNonceChangeV2 (addr : Address) (prev new : UInt64)
  | onCodeChangeV2 (addr : Address) (prevCodeHash codeHash : Word) (reason : CodeChangeReason)
  | onStorageChange (addr : Address) (slot prev new : Word)

/-- The arguments of `OnEnter`. -/
structure EnterArgs where
  depth : Int64
  typ : UInt8
  from_ : Address
  to_ : Address

/-- The arguments of `OnTxEnd`. -/
structure TxEndArgs where
  receipt : Option Receipt
  err : Option String

/-- A call of a hook. -/
inductive Hook where
  | onBlockStart (block : BlockHeader)
  | onBlockEnd
  | onTxStart (tx : TracedTransaction) (from_ : Address)
  | onTxEnd (args : TxEndArgs)
  | onEnter (args : EnterArgs)
  | onExit (reverted : Bool)
  | mutation (hook : MutationHook)

/-! ## The state of the tracer -/

inductive InternalErrorCode where
  | errEmptyFrameStack
  | errDuplicateExit
  | errUnexpectedExit
  | errSequenceOverflow
deriving DecidableEq

structure InternalTracerError where
  code : InternalErrorCode
  frameId : UInt64
  sequence : UInt64
  message : String

/-- What the tracer asks of the environment. -/
structure EnvironmentDescriptor where
  isPrecompile : Address → Bool

structure FrameCtx where
  frameId : UInt64
  parentFrameId : UInt64
  depth : UInt64
  addr : Address

/-- `^uint64(0)` -/
def noParentFrame : UInt64 := 0xFFFFFFFFFFFFFFFF

/-- The innermost frame is the head of `frameStack`. -/
structure Tracer where
  env : Option EnvironmentDescriptor
  globalSequence : UInt64
  nextFrameId : UInt64
  frameStack : List FrameCtx
  events : List Event
  errorLog : List InternalTracerError
  pendingSelfDestruct : UInt64 → Option Address
  blockRoot : Word

/-- `mapOpcodeToFrameType` -/
def mapOpcodeToFrameType (typ : UInt8) : FrameType :=
  if typ = 0xf0 then .frameCreate
  else if typ = 0xf1 then .frameCall
  else if typ = 0xf2 then .frameCallCode
  else if typ = 0xf4 then .frameDelegateCall
  else if typ = 0xf5 then .frameCreate2
  else if typ = 0xfa then .frameStaticCall
  else .frameCall

/-- The frame type of a call. -/
def frameType (env : Option EnvironmentDescriptor) (args : EnterArgs) : FrameType :=
  match env with
  | some env =>
      if env.isPrecompile args.to_ then .framePrecompile else mapOpcodeToFrameType args.typ
  | none => mapOpcodeToFrameType args.typ

namespace Tracer

def new (env : Option EnvironmentDescriptor) : Tracer where
  env := env
  globalSequence := 0
  nextFrameId := 0
  frameStack := []
  events := []
  errorLog := []
  pendingSelfDestruct := fun _ => none
  blockRoot := Bytes.zero 32

def logError (t : Tracer) (code : InternalErrorCode) (frameId : UInt64) (msg : String) : Tracer :=
  { t with errorLog := t.errorLog ++ [⟨code, frameId, t.globalSequence, msg⟩] }

/-- Assign the next sequence number and append the event.  The tracer panics rather than let
the counter wrap around. -/
def emit (t : Tracer) (e : EventData) : Except Panic Tracer :=
  if t.globalSequence + 1 = 0 then
    .error ⟨"kaysentinel: EMES sequence counter overflowed uint64 -- aborting per EMES-V1 §2.1"⟩
  else
    .ok { t with
      globalSequence := t.globalSequence + 1
      events := t.events ++ [⟨t.globalSequence, e⟩] }

def currentFrameId (t : Tracer) : UInt64 :=
  match t.frameStack with
  | [] => noParentFrame
  | top :: _ => top.frameId

/-! ### Chain and VM hooks -/

def onBlockStart (t : Tracer) (block : BlockHeader) : Except Panic Tracer :=
  emit { t with events := [], errorLog := [], blockRoot := block.root }
    (.blockStart { emesVersion := "EMES-V1", number := block.number, timestamp := block.time })

def onBlockEnd (t : Tracer) : Except Panic Tracer :=
  t.emit (.blockCommit { stateRoot := t.blockRoot })

def onTxStart (t : Tracer) (tx : TracedTransaction) (from_ : Address) : Except Panic Tracer := do
  let t := { t with nextFrameId := 0, frameStack := [] }
  let value ← bigToHash tx.value
  let gasPrice ← bigToHash tx.gasPrice
  -- the event's transaction index is never set
  t.emit (.transactionStart
    { txIndex := 0
      hash := tx.hash
      from_ := from_
      to_ := tx.to_
      value := value
      gasLimit := tx.gas
      gasPrice := gasPrice
      nonce := tx.nonce })

def onTxEnd (t : Tracer) (args : TxEndArgs) : Except Panic Tracer := do
  let reverted := args.err.isSome || args.receipt.any (·.status = receiptStatusFailed)
  let t ← t.emit (.transactionEnd { txIndex := 0, reverted := reverted })
  let t :=
    if t.frameStack.length ≠ 0 then
      t.logError .errUnexpectedExit t.currentFrameId
        "transaction ended with unclosed frames still on the stack"
    else t
  return { t with frameStack := [], pendingSelfDestruct := fun _ => none }

def onEnter (t : Tracer) (args : EnterArgs) : Except Panic Tracer :=
  let fc : FrameCtx :=
    { frameId := t.nextFrameId
      parentFrameId := t.currentFrameId
      depth := args.depth.toUInt64
      addr := args.to_ }
  emit { t with frameStack := fc :: t.frameStack, nextFrameId := t.nextFrameId + 1 }
    (.frameEnter
      { frameId := fc.frameId
        parentFrameId := fc.parentFrameId
        depth := fc.depth
        type := frameType t.env args
        from_ := args.from_
        to_ := args.to_ })

def onExit (t : Tracer) (reverted : Bool) : Except Panic Tracer :=
  match t.frameStack with
  | [] =>
      .ok (t.logError .errEmptyFrameStack noParentFrame
        "ExitHook fired with no matching EnterHook on the frame stack")
  | fc :: rest =>
      emit { t with frameStack := rest }
        (.frameExit { frameId := fc.frameId, reverted := reverted })

/-! ### State mutation hooks -/

def onBalanceChange (t : Tracer) (addr : Address) (prev new : Option ℤ)
    (reason : BalanceChangeReason) : Except Panic Tracer := do
  let frameId := t.currentFrameId
  let before ← bigToHash prev
  let after ← bigToHash new
  let t ← t.emit (.balanceMutation
    { frameId := frameId, address := addr, before := before, after := after })
  if reason = .balanceIncreaseSelfdestruct then
    match t.pendingSelfDestruct frameId with
    | some destructed =>
        let t ← t.emit (.selfDestruct
          { frameId := frameId, address := destructed, beneficiary := addr })
        return { t with pendingSelfDestruct := Function.update t.pendingSelfDestruct frameId none }
    | none => return t
  else return t

def onNonceChangeV2 (t : Tracer) (addr : Address) (prev new : UInt64) : Except Panic Tracer :=
  t.emit (.nonceMutation
    { frameId := t.currentFrameId, address := addr, before := prev, after := new })

def onCodeChangeV2 (t : Tracer) (addr : Address) (prevCodeHash codeHash : Word)
    (reason : CodeChangeReason) : Except Panic Tracer := do
  let frameId := t.currentFrameId
  let t ← t.emit (.codeMutation
    { frameId := frameId, address := addr, before := prevCodeHash, after := codeHash })
  if reason = .codeChangeSelfDestruct then
    return { t with
      pendingSelfDestruct := Function.update t.pendingSelfDestruct frameId (some addr) }
  else return t

def onStorageChange (t : Tracer) (addr : Address) (slot prev new : Word) : Except Panic Tracer :=
  t.emit (.storageMutation
    { frameId := t.currentFrameId, address := addr, slot := slot, before := prev, after := new })

/-! ### Runs -/

def onMutation (t : Tracer) : MutationHook → Except Panic Tracer
  | .onBalanceChange addr prev new reason => t.onBalanceChange addr prev new reason
  | .onNonceChangeV2 addr prev new => t.onNonceChangeV2 addr prev new
  | .onCodeChangeV2 addr prevCodeHash codeHash reason =>
      t.onCodeChangeV2 addr prevCodeHash codeHash reason
  | .onStorageChange addr slot prev new => t.onStorageChange addr slot prev new

/-- One call of a hook. -/
def call (t : Tracer) : Hook → Except Panic Tracer
  | .onBlockStart block => t.onBlockStart block
  | .onBlockEnd => t.onBlockEnd
  | .onTxStart tx from_ => t.onTxStart tx from_
  | .onTxEnd args => t.onTxEnd args
  | .onEnter args => t.onEnter args
  | .onExit reverted => t.onExit reverted
  | .mutation hook => t.onMutation hook

/-- The calls of a run, one after the other. -/
def run (t : Tracer) (calls : List Hook) : Except Panic Tracer := calls.foldlM call t

end Tracer

end KaySentinel
