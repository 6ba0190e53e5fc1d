import KaySentinel.Cse.Event
import KaySentinel.Bridge.Wire
import KaySentinel.Lib.Fallible

/-!
# Translating the tracer's stream

The bridge turns the tracer's events into canonical semantic events.  Mutations inside
a call frame are buffered until the frame exits: a committed frame's buffer is merged
into its parent's, a reverted frame's is dropped.
-/

namespace KaySentinel.Bridge

open Cse

inductive BridgeError where
  | unbalancedFrames (at_ : ℕ)
  | transactionStartWhileOpen (at_ : ℕ)
  | eventOutsideTransaction (at_ : ℕ)
  | frameIdOverflow (value : UInt64)
deriving DecidableEq

/-- What the tracer's stream does not carry. -/
structure BridgeConfig where
  chainId : UInt64
deriving DecidableEq

structure FrameBuffer where
  frameId : UInt64
  depth : UInt64
  events : List CanonicalSemanticEvent
deriving DecidableEq

/-- `u32::MAX`, the frame id of an event outside all frames. -/
def u32Max : UInt32 := 0xFFFFFFFF

/-- `usize::MAX`. -/
def usizeMax : ℕ := 2 ^ 64 - 1

/-- The event of a payload, its sequence number still to be assigned. -/
def makeEvent (config : BridgeConfig) (blockNumber : UInt64) (txHash : Word) (txIndex : UInt64)
    (callFrameId callDepth : UInt32) (payload : CsePayload) : CanonicalSemanticEvent where
  version := .v1
  context :=
    { normative := { sequenceNumber := 0 }
      provisional :=
        { chainId := config.chainId
          blockHash := Bytes.zero 32
          blockNumber := blockNumber
          transactionHash := txHash
          -- `tx_index as u32`
          transactionIndex := txIndex.toUInt32 }
      trace := { callFrameId := callFrameId, callDepth := callDepth } }
  payload := payload

def boundaryEvent (payload : CsePayload) (config : BridgeConfig) (blockNumber : UInt64)
    (txHash : Word) (txIndex : UInt64) : CanonicalSemanticEvent :=
  makeEvent config blockNumber txHash txIndex u32Max 0 payload

/-- `u32::try_from(value).map_err(..)?` -/
def toU32 (value : UInt64) : Except BridgeError UInt32 :=
  if value.toNat < 2 ^ 32 then .ok value.toUInt32 else .error (.frameIdOverflow value)

/-- The state of the loop of `translate`.  The innermost frame is the head of
`frameStack`. -/
structure TranslateState where
  finalOutput : List CanonicalSemanticEvent
  txOpen : Bool
  txOutput : List CanonicalSemanticEvent
  frameStack : List FrameBuffer
  blockNumber : UInt64
  txIndex : UInt64
  txHash : Word
deriving DecidableEq

/-- The state before the first event. -/
def TranslateState.init : TranslateState where
  finalOutput := []
  txOpen := false
  txOutput := []
  frameStack := []
  blockNumber := 0
  txIndex := 0
  txHash := Bytes.zero 32

def appendMutation (config : BridgeConfig) (s : TranslateState) (frameId : UInt64)
    (payload : CsePayload) : Except BridgeError TranslateState := do
  let (callFrameId, callDepth) ←
    if frameId = noFrame then
      pure (u32Max, 0)
    else
      match s.frameStack with
      | top :: _ => do pure (← toU32 top.frameId, ← toU32 top.depth)
      | [] => pure (u32Max, 0)
  let event := makeEvent config s.blockNumber s.txHash s.txIndex callFrameId callDepth payload
  if frameId = noFrame then
    return { s with txOutput := s.txOutput ++ [event] }
  else
    match s.frameStack with
    | top :: rest =>
        return { s with frameStack := { top with events := top.events ++ [event] } :: rest }
    | [] => throw (.unbalancedFrames usizeMax)

/-- The frame stamp and the payload of a mutation event. -/
def GoEvent.mutation? : GoEvent → Option (UInt64 × CsePayload)
  | .balanceMutation data => some (data.frameId, .balanceChanged
      { address := data.address, previousBalance := data.before, currentBalance := data.after })
  | .nonceMutation data => some (data.frameId, .nonceUpdated
      { address := data.address, previousNonce := data.before, currentNonce := data.after })
  | .codeMutation data => some (data.frameId, .codeUpdated
      { address := data.address, previousCodeHash := data.before, currentCodeHash := data.after })
  | .storageMutation data => some (data.frameId, .storageSlotUpdated
      { address := data.address, slot := data.slot, previousValue := data.before,
        currentValue := data.after })
  | .accountCreated data => some (data.frameId, .contractCreated
      { address := data.address, creator := data.creator })
  | .selfDestruct data => some (data.frameId, .contractDestroyed
      { address := data.address, refundTarget := data.beneficiary })
  | _ => none

/-- An event is a mutation or one of the six markers. -/
@[elab_as_elim]
lemma GoEvent.casesByKind {motive : GoEvent → Prop} (event : GoEvent)
    (mutation : ∀ event m, event.mutation? = some m → motive event)
    (blockStart : ∀ data, motive (.blockStart data))
    (blockCommit : motive .blockCommit)
    (transactionStart : ∀ data, motive (.transactionStart data))
    (transactionEnd : ∀ data, motive (.transactionEnd data))
    (frameEnter : ∀ data, motive (.frameEnter data))
    (frameExit : ∀ data, motive (.frameExit data)) : motive event := by
  cases event with
  | blockStart data => exact blockStart data
  | blockCommit => exact blockCommit
  | transactionStart data => exact transactionStart data
  | transactionEnd data => exact transactionEnd data
  | frameEnter data => exact frameEnter data
  | frameExit data => exact frameExit data
  | balanceMutation data => exact mutation _ _ rfl
  | nonceMutation data => exact mutation _ _ rfl
  | codeMutation data => exact mutation _ _ rfl
  | storageMutation data => exact mutation _ _ rfl
  | accountCreated data => exact mutation _ _ rfl
  | selfDestruct data => exact mutation _ _ rfl

/-- The body of the loop of `translate`, on the event at index `i`. -/
def translateStep (config : BridgeConfig) (i : ℕ) (s : TranslateState) (event : GoEvent) :
    Except BridgeError TranslateState :=
  match event with
  | .blockStart data => .ok { s with blockNumber := data.number }
  | .blockCommit => .ok s
  | .transactionStart data =>
      if s.txOpen then
        .error (.transactionStartWhileOpen i)
      else
        .ok { s with
          txOpen := true
          txIndex := data.txIndex
          txHash := data.hash
          txOutput := [boundaryEvent .beginTransaction config s.blockNumber data.hash data.txIndex]
          frameStack := [] }
  | .transactionEnd _ =>
      if !s.txOpen then
        .error (.eventOutsideTransaction i)
      else if !s.frameStack.isEmpty then
        .error (.unbalancedFrames i)
      else
        let fin := boundaryEvent .endTransaction config s.blockNumber s.txHash s.txIndex
        .ok { s with
          finalOutput := s.finalOutput ++ (s.txOutput ++ [fin])
          txOutput := []
          txOpen := false }
  | .frameEnter data =>
      if !s.txOpen then
        .error (.eventOutsideTransaction i)
      else
        .ok { s with
          frameStack := { frameId := data.frameId, depth := data.depth, events := [] } ::
            s.frameStack }
  | .frameExit data =>
      if !s.txOpen then
        .error (.eventOutsideTransaction i)
      else
        match s.frameStack with
        | [] => .error (.unbalancedFrames i)
        | popped :: rest =>
            if popped.frameId ≠ data.frameId then
              .error (.unbalancedFrames i)
            else if data.reverted then
              .ok { s with frameStack := rest }
            else
              match rest with
              | parent :: outer =>
                  .ok { s with
                    frameStack := { parent with events := parent.events ++ popped.events } ::
                      outer }
              | [] => .ok { s with frameStack := [], txOutput := s.txOutput ++ popped.events }
  | event =>
      match event.mutation? with
      | some (frameId, payload) => appendMutation config s frameId payload
      | none => .ok s

/-- The loop of `translate`, from the event at index `i` on. -/
def translateLoop (config : BridgeConfig) : ℕ → TranslateState → List GoEvent →
    Except BridgeError TranslateState
  | _, s, [] => .ok s
  | i, s, event :: events => do
      let s' ← translateStep config i s event
      translateLoop config (i + 1) s' events

/-- Assign the sequence number. -/
def withSequence (seq : ℕ) (event : CanonicalSemanticEvent) : CanonicalSemanticEvent :=
  { event with context :=
    { event.context with normative := { sequenceNumber := UInt64.ofNat seq } } }

def translate (events : List GoEvent) (config : BridgeConfig) :
    Except BridgeError (List CanonicalSemanticEvent) := do
  let s ← translateLoop config 0 .init events
  if s.txOpen then
    throw (.eventOutsideTransaction events.length)
  return s.finalOutput.mapIdx withSequence

/-! ## What a step does -/

variable {config : BridgeConfig} {i : ℕ} {s s' : TranslateState} {event : GoEvent}

/-- The frame id and depth of a buffer fit the `u32` fields of a `TraceContext`. -/
def FrameBuffer.Fits (frame : FrameBuffer) : Prop :=
  frame.frameId.toNat < 2 ^ 32 ∧ frame.depth.toNat < 2 ^ 32

lemma translateStep_mutation {frameId : UInt64} {payload : CsePayload}
    (h : event.mutation? = some (frameId, payload)) :
    translateStep config i s event = appendMutation config s frameId payload := by
  cases event <;> first | cases h; rfl | exact absurd h (by simp [GoEvent.mutation?])

lemma appendMutation_noFrame (payload : CsePayload) :
    appendMutation config s noFrame payload = .ok { s with
      txOutput := s.txOutput ++
        [makeEvent config s.blockNumber s.txHash s.txIndex u32Max 0 payload] } := by
  simp [appendMutation, pure, Except.pure, bind, Except.bind]

/-- A mutation stamped with a frame is rejected when no frame is open. -/
lemma appendMutation_nil {frameId : UInt64} (hf : frameId ≠ noFrame) (hs : s.frameStack = [])
    (payload : CsePayload) :
    appendMutation config s frameId payload = .error (.unbalancedFrames usizeMax) := by
  simp only [appendMutation, if_neg hf, hs]
  rfl

lemma appendMutation_cons {frameId : UInt64} (hf : frameId ≠ noFrame) {top : FrameBuffer}
    {rest : List FrameBuffer} (hs : s.frameStack = top :: rest) (hfits : top.Fits)
    (payload : CsePayload) :
    appendMutation config s frameId payload = .ok { s with
      frameStack := { top with events := top.events ++
        [makeEvent config s.blockNumber s.txHash s.txIndex top.frameId.toUInt32
          top.depth.toUInt32 payload] } :: rest } := by
  simp only [appendMutation, if_neg hf, hs, toU32, if_pos hfits.1, if_pos hfits.2]
  rfl

lemma fits_of_appendMutation {frameId : UInt64} (hf : frameId ≠ noFrame) {top : FrameBuffer}
    {rest : List FrameBuffer} (hs : s.frameStack = top :: rest) {payload : CsePayload}
    (h : appendMutation config s frameId payload = .ok s') : top.Fits := by
  by_contra hnot
  simp only [appendMutation, if_neg hf, hs, toU32] at h
  by_cases h1 : top.frameId.toNat < 2 ^ 32
  · have h2 : ¬ top.depth.toNat < 2 ^ 32 := fun h2 => hnot ⟨h1, h2⟩
    simp only [if_pos h1, if_neg h2, bind, Except.bind, reduceCtorEq] at h
  · simp only [if_neg h1, bind, Except.bind, reduceCtorEq] at h

/-- A recorded mutation goes to the transaction's output if it is stamped "no frame",
and else to the innermost open frame, whose id and depth then fit. -/
lemma appendMutation_cases {frameId : UInt64} {payload : CsePayload}
    (h : appendMutation config s frameId payload = .ok s') :
    (frameId = noFrame ∧ s' = { s with txOutput := s.txOutput ++
        [makeEvent config s.blockNumber s.txHash s.txIndex u32Max 0 payload] }) ∨
    (frameId ≠ noFrame ∧ ∃ top rest, s.frameStack = top :: rest ∧ top.Fits ∧
      s' = { s with frameStack := { top with events := top.events ++
        [makeEvent config s.blockNumber s.txHash s.txIndex top.frameId.toUInt32
          top.depth.toUInt32 payload] } :: rest }) := by
  by_cases hf : frameId = noFrame
  · subst hf
    rw [appendMutation_noFrame] at h
    exact .inl ⟨rfl, (Except.ok.inj h).symm⟩
  · cases hs : s.frameStack with
    | nil =>
      rw [appendMutation_nil hf hs] at h
      exact absurd h (by simp)
    | cons top rest =>
      have hfits := fits_of_appendMutation hf hs h
      rw [appendMutation_cons hf hs hfits] at h
      exact .inr ⟨hf, top, rest, rfl, hfits, (Except.ok.inj h).symm⟩

lemma translateLoop_cons_eq_ok {events : List GoEvent} :
    translateLoop config i s (event :: events) = .ok s' ↔
      ∃ mid, translateStep config i s event = .ok mid ∧
        translateLoop config (i + 1) mid events = .ok s' := by
  rw [translateLoop]
  exact Fallible.bind_eq_ok_iff

lemma translate_eq_ok {events : List GoEvent} {out : List CanonicalSemanticEvent} :
    translate events config = .ok out ↔
      ∃ s, translateLoop config 0 .init events = .ok s ∧ s.txOpen = false ∧
        out = s.finalOutput.mapIdx withSequence := by
  simp only [translate]
  cases translateLoop config 0 .init events with
  | error e => simp [bind, Except.bind]
  | ok s =>
    cases hopen : s.txOpen with
    | true => simp [bind, Except.bind, throw, throwThe, MonadExceptOf.throw, hopen]
    | false =>
      simp only [bind, Except.bind, hopen, Bool.false_eq_true, if_false, pure, Except.pure,
        Except.ok.injEq]
      constructor
      · rintro rfl
        exact ⟨s, rfl, hopen, rfl⟩
      · rintro ⟨_, rfl, -, rfl⟩
        rfl

@[simp] lemma payload_withSequence (seq : ℕ) (e : CanonicalSemanticEvent) :
    (withSequence seq e).payload = e.payload := rfl

@[simp] lemma payload_makeEvent (blockNumber : UInt64) (txHash : Word) (txIndex : UInt64)
    (callFrameId callDepth : UInt32) (payload : CsePayload) :
    (makeEvent config blockNumber txHash txIndex callFrameId callDepth payload).payload =
      payload := rfl

@[simp] lemma payload_boundaryEvent (payload : CsePayload) (blockNumber : UInt64)
    (txHash : Word) (txIndex : UInt64) :
    (boundaryEvent payload config blockNumber txHash txIndex).payload = payload := rfl

lemma map_payload_mapIdx_withSequence (l : List CanonicalSemanticEvent) :
    (l.mapIdx withSequence).map (·.payload) = l.map (·.payload) := by
  apply List.ext_getElem <;> simp

end KaySentinel.Bridge
