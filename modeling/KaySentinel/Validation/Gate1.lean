import KaySentinel.Emes.Event

/-!
# Gate 1

`verifyGate1Invariants` checks the structure of an event stream in one pass, with a frame
stack, a counter of root frames and a few flags.
-/

namespace KaySentinel.Validation

open Emes

structure Gate1Error where
  index : ℤ
  rule : String
  msg : String
deriving DecidableEq

/-- `^uint64(0)` -/
def sentinel : UInt64 := 0xFFFFFFFFFFFFFFFF

/-- The variables of the loop.  The innermost frame is the head of `frameStack`. -/
structure Gate1State where
  prevSeq : UInt64
  seqInitialized : Bool
  txOpen : Bool
  frameStack : List UInt64
  rootFrameCount : ℕ
  rootFrameReverted : Bool
deriving DecidableEq

def Gate1State.init : Gate1State where
  prevSeq := 0
  seqInitialized := false
  txOpen := false
  frameStack := []
  rootFrameCount := 0
  rootFrameReverted := false

/-- The `switch` of the loop, on event `i` of `len`. -/
def gate1Switch (len i : ℕ) (s : Gate1State) : EventData → Except Gate1Error Gate1State
  | .blockStart _ =>
      if i ≠ 0 then
        .error ⟨i, "block-encapsulation", "BlockStartEvent may only appear as the first event"⟩
      else .ok s
  | .blockCommit _ =>
      if i ≠ len - 1 then
        .error ⟨i, "block-encapsulation", "BlockCommitEvent may only appear as the terminal event"⟩
      else if s.txOpen then
        .error ⟨i, "tx-encapsulation", "BlockCommitEvent seen while a transaction is still open"⟩
      else .ok s
  | .transactionStart _ =>
      if s.txOpen then
        .error ⟨i, "tx-encapsulation",
          "TransactionStartEvent seen while a transaction is already open"⟩
      else
        .ok { s with
          txOpen := true, frameStack := [], rootFrameCount := 0, rootFrameReverted := false }
  | .transactionEnd ev =>
      if !s.txOpen then
        .error ⟨i, "tx-encapsulation", "TransactionEndEvent seen with no open transaction"⟩
      else if s.frameStack.length ≠ 0 then
        .error ⟨i, "frame-balance",
          "transaction ended with " ++ toString s.frameStack.length ++ " unclosed frame(s)"⟩
      else if s.rootFrameCount > 1 then
        .error ⟨i, "t1-consistency", "transaction contains " ++ toString s.rootFrameCount ++
          " root frames; exactly one is required when any root frame is present"⟩
      else if s.rootFrameCount = 1 ∧ ev.reverted ≠ s.rootFrameReverted then
        .error ⟨i, "t1-consistency", "TransactionEndEvent.Reverted (" ++ toString ev.reverted ++
          ") does not match root FrameExitEvent.Reverted (" ++
          toString s.rootFrameReverted ++ ")"⟩
      else .ok { s with txOpen := false }
  | .frameEnter ev =>
      if !s.txOpen then
        .error ⟨i, "tx-encapsulation", "FrameEnterEvent seen outside any transaction"⟩
      else
        match s.frameStack with
        | [] =>
            if ev.parentFrameId ≠ sentinel then
              .error ⟨i, "frame-topology",
                "FrameID 0's ParentFrameID must be the 0xFFFF...FFFF sentinel"⟩
            else
              .ok { s with
                rootFrameCount := s.rootFrameCount + 1, frameStack := [ev.frameId] }
        | top :: rest =>
            if ev.parentFrameId ≠ top then
              .error ⟨i, "frame-topology",
                "ParentFrameID does not match the currently open parent frame"⟩
            else .ok { s with frameStack := ev.frameId :: top :: rest }
  | .frameExit ev =>
      if !s.txOpen then
        .error ⟨i, "tx-encapsulation", "FrameExitEvent seen outside any transaction"⟩
      else
        match s.frameStack with
        | [] => .error ⟨i, "frame-balance", "FrameExitEvent with no matching open frame"⟩
        | top :: rest =>
            if top ≠ ev.frameId then
              .error ⟨i, "frame-balance", "FrameExitEvent for frame " ++
                toString ev.frameId.toNat ++ " does not match innermost open frame " ++
                toString top.toNat⟩
            else
              .ok { s with
                rootFrameReverted := if rest = [] then ev.reverted else s.rootFrameReverted
                frameStack := rest }
  | _ => .ok s

/-- The body of the loop. -/
def gate1Step (len i : ℕ) (s : Gate1State) (e : Event) : Except Gate1Error Gate1State :=
  if s.seqInitialized ∧ e.sequence ≤ s.prevSeq then
    .error ⟨i, "sequence-monotonic", "sequence " ++ toString e.sequence.toNat ++
      " did not strictly increase from " ++ toString s.prevSeq.toNat⟩
  else gate1Switch len i { s with prevSeq := e.sequence, seqInitialized := true } e.data

/-- The loop, from event `i` on. -/
def gate1Loop (len : ℕ) : ℕ → Gate1State → List Event → Except Gate1Error Gate1State
  | _, s, [] => .ok s
  | i, s, e :: stream => do
      let s' ← gate1Step len i s e
      gate1Loop len (i + 1) s' stream

def verifyGate1Invariants (stream : List Event) : Except Gate1Error Unit :=
  match stream.head? with
  | none => .error ⟨-1, "block-encapsulation", "empty event stream"⟩
  | some first =>
      match first.data with
      | .blockStart _ =>
          if first.sequence ≠ 0 then
            .error ⟨0, "block-encapsulation", "BlockStartEvent must have Sequence 0"⟩
          else
            match stream.getLast?.map Event.data with
            | some (EventData.blockCommit _) => do
                let s ← gate1Loop stream.length 0 .init stream
                if s.txOpen then
                  throw ⟨stream.length - 1, "tx-encapsulation",
                    "stream ended with an open transaction (missing TransactionEndEvent)"⟩
            | _ =>
                .error ⟨stream.length - 1, "block-encapsulation",
                  "stream must end with BlockCommitEvent"⟩
      | _ =>
          .error ⟨0, "block-encapsulation", "stream must begin with BlockStartEvent"⟩

end KaySentinel.Validation
