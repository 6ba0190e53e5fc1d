import KaySentinel.Bridge.Translate
import KaySentinel.Lib.NestedLog

/-!
# Which mutations survive the bridge

Inside a transaction the loop of `translate` is the buffered implementation of a log
with nested commit and rollback, so its output is described by the survivors of that
log.  `translate_keeps_survivors` states this for whole streams.
-/

namespace KaySentinel.Bridge

open Cse NestedLog

/-! ## Transactions of a stream -/

def GoEvent.isTransactionStart : GoEvent → Bool
  | .transactionStart _ => true
  | _ => false

def GoEvent.isTransactionEnd : GoEvent → Bool
  | .transactionEnd _ => true
  | _ => false

/-- The bodies of the transactions of a stream: what follows each `TransactionStart` up
to the next `TransactionEnd`. -/
def transactions : List GoEvent → List (List GoEvent)
  | [] => []
  | event :: events =>
      if event.isTransactionStart then
        events.takeWhile (!·.isTransactionEnd) :: transactions events
      else
        transactions events

/-- A transaction of a stream: its first event, what follows, and the event that ends it. -/
structure TransactionSpan where
  start : TransactionStartData
  body : List GoEvent
  fin : TransactionEndData

/-- The transactions of a stream that end. -/
def spans : List GoEvent → List TransactionSpan
  | [] => []
  | .transactionStart start :: events =>
      match events.dropWhile (!·.isTransactionEnd) with
      | .transactionEnd fin :: _ =>
          { start := start, body := events.takeWhile (!·.isTransactionEnd), fin := fin } ::
            spans events
      | _ => spans events
  | _ :: events => spans events

/-- The block number after an event. -/
def GoEvent.numberAfter (number : UInt64) : GoEvent → UInt64
  | .blockStart data => data.number
  | _ => number

/-- The block number after a list of events. -/
def numberAfter (number : UInt64) (events : List GoEvent) : UInt64 :=
  events.foldl GoEvent.numberAfter number

/-- The transactions of a stream that end, each with the number of the last `BlockStart`
before it. -/
def blockSpans : UInt64 → List GoEvent → List (UInt64 × TransactionSpan)
  | _, [] => []
  | number, .transactionStart start :: events =>
      match events.dropWhile (!·.isTransactionEnd) with
      | .transactionEnd fin :: _ =>
          (number,
              { start := start, body := events.takeWhile (!·.isTransactionEnd), fin := fin }) ::
            blockSpans number events
      | _ => blockSpans number events
  | number, event :: events => blockSpans (event.numberAfter number) events

/-- The `TransactionStart` events of a stream. -/
def starts (events : List GoEvent) : List TransactionStartData :=
  events.filterMap fun event =>
    match event with
    | .transactionStart start => some start
    | _ => none

/-- A mutation as the bridge sees it: its frame stamp and its payload. -/
abbrev Mutation := UInt64 × CsePayload

/-- The operation of the nested log that an event is: a mutation is logged, directly if
it is stamped "no frame". -/
def GoEvent.op? (event : GoEvent) : Option (Op Mutation) :=
  match event with
  | .frameEnter _ => some .enter
  | .frameExit data => some (.exit data.reverted)
  | event => event.mutation?.map fun m => .item m (m.1 = noFrame)

/-- The operations of a transaction body. -/
def ops (body : List GoEvent) : List (Op Mutation) := body.filterMap GoEvent.op?

lemma op?_mutation {event : GoEvent} {m : Mutation} (h : event.mutation? = some m) :
    event.op? = some (.item m (m.1 = noFrame)) := by
  cases event <;> simp_all [GoEvent.op?, GoEvent.mutation?]

/-- The mutations of a transaction body that survive it: those stamped "no frame" and
those around which every open frame is later closed by a `FrameExit` that is not
reverted. -/
def surviving (body : List GoEvent) : List Mutation := survivors 0 (ops body)

/-- In the body, mutations stamped "no frame" occur only while no frame is open. -/
def FramelessOutside (body : List GoEvent) : Prop := DirectOutside 0 (ops body)

/-- The operations of a transaction body, each mutation with the block number current at
it. -/
def numberedOps : UInt64 → List GoEvent → List (Op (UInt64 × Mutation))
  | _, [] => []
  | number, event :: body =>
      (event.op?.map (Op.map fun m => (number, m))).toList ++
        numberedOps (event.numberAfter number) body

lemma map_snd_numberedOps (number : UInt64) (body : List GoEvent) :
    (numberedOps number body).map (Op.map Prod.snd) = ops body := by
  induction body generalizing number with
  | nil => rfl
  | cons event body ih =>
    rw [numberedOps, List.map_append, ih, ops, ops, List.filterMap_cons]
    rcases event.op? with _ | _ | _ | _ <;> rfl

/-! ## What is recorded -/

/-- The context stamped on an event of the transaction while the block number is `number`. -/
def provisionalOf (config : BridgeConfig) (number : UInt64) (start : TransactionStartData) :
    ProvisionalContext where
  chainId := config.chainId
  blockHash := Bytes.zero 32
  blockNumber := number
  transactionHash := start.hash
  transactionIndex := start.txIndex.toUInt32

/-- What is recorded of a mutation of the transaction: the context and the payload of the
event made of it. -/
def record (config : BridgeConfig) (start : TransactionStartData) (m : UInt64 × Mutation) :
    ProvisionalContext × CsePayload :=
  (provisionalOf config m.1 start, m.2.2)

/-- The context and the payload of an event. -/
def recorded (e : CanonicalSemanticEvent) : ProvisionalContext × CsePayload :=
  (e.context.provisional, e.payload)

/-- The operations of a transaction body on what is recorded. -/
def recordedOps (config : BridgeConfig) (start : TransactionStartData) (number : UInt64)
    (body : List GoEvent) : List (Op (ProvisionalContext × CsePayload)) :=
  (numberedOps number body).map (Op.map (record config start))

/-! ## One step inside a transaction -/

/-- What the loop holds for the open transaction. -/
def buffers (out : List CanonicalSemanticEvent) (stack : List FrameBuffer) :
    Buffers (ProvisionalContext × CsePayload) :=
  ⟨out.map recorded, stack.map fun frame => frame.events.map recorded⟩

/-- The operations of an event on payloads. -/
def payloadOps (body : List GoEvent) : List (Op CsePayload) := (ops body).map (Op.map Prod.snd)

lemma ops_cons (event : GoEvent) (body : List GoEvent) :
    ops (event :: body) = ops [event] ++ ops body := by
  simp only [ops, ← List.filterMap_append, List.singleton_append]

lemma ops_append (body body' : List GoEvent) : ops (body ++ body') = ops body ++ ops body' :=
  List.filterMap_append

lemma payloadOps_append (body body' : List GoEvent) :
    payloadOps (body ++ body') = payloadOps body ++ payloadOps body' := by
  rw [payloadOps, ops_append, List.map_append]
  rfl

lemma payloadOps_cons (event : GoEvent) (body : List GoEvent) :
    payloadOps (event :: body) = payloadOps [event] ++ payloadOps body :=
  payloadOps_append [event] body

lemma map_snd_recordedOps (config : BridgeConfig) (start : TransactionStartData)
    (number : UInt64) (body : List GoEvent) :
    (recordedOps config start number body).map (Op.map Prod.snd) = payloadOps body := by
  rw [recordedOps, payloadOps, ← map_snd_numberedOps number, List.map_map, List.map_map]
  refine List.map_congr_left fun op _ => ?_
  simp [Op.map_map, Function.comp_def, record]

lemma recordedOps_cons (config : BridgeConfig) (start : TransactionStartData) (number : UInt64)
    (event : GoEvent) (body : List GoEvent) :
    recordedOps config start number (event :: body) =
      recordedOps config start number [event] ++
        recordedOps config start (event.numberAfter number) body := by
  simp only [recordedOps, numberedOps, List.append_nil, List.map_append]

variable {config : BridgeConfig} {i : ℕ} {s s' : TranslateState} {event : GoEvent}

lemma not_boundary_of_mutation {m : Mutation} (hm : event.mutation? = some m) :
    event.isTransactionStart = false ∧ event.isTransactionEnd = false := by
  cases event with
  | transactionStart data => simp [GoEvent.mutation?] at hm
  | transactionEnd data => simp [GoEvent.mutation?] at hm
  | _ => exact ⟨rfl, rfl⟩

lemma numberAfter_of_mutation {m : Mutation} (hm : event.mutation? = some m) (number : UInt64) :
    event.numberAfter number = number := by
  cases event with
  | blockStart data => simp [GoEvent.mutation?] at hm
  | _ => rfl

/-- The `TransactionStart` that the loop remembers. -/
def TranslateState.start (s : TranslateState) : TransactionStartData where
  txIndex := s.txIndex
  hash := s.txHash

/-- What a step inside a transaction leaves as it is, and the block number it sets. -/
structure Continues (event : GoEvent) (s s' : TranslateState) : Prop where
  txOpen : s'.txOpen = true
  finalOutput : s'.finalOutput = s.finalOutput
  start : s'.start = s.start
  blockNumber : s'.blockNumber = event.numberAfter s.blockNumber

/-- Inside a transaction every step is the step of the nested log, and touches neither
the finished output nor the transaction's first event. -/
lemma translateStep_inside {begin : CanonicalSemanticEvent} {out : List CanonicalSemanticEvent}
    (hopen : s.txOpen = true) (hout : s.txOutput = begin :: out)
    (hend : event.isTransactionEnd = false) (h : translateStep config i s event = .ok s') :
    event.isTransactionStart = false ∧ Continues event s s' ∧
      ∃ out', s'.txOutput = begin :: out' ∧
        (buffers out s.frameStack).run (recordedOps config s.start s.blockNumber [event]) =
          some (buffers out' s'.frameStack) := by
  cases event using GoEvent.casesByKind with
  | mutation event m hm =>
    obtain ⟨frameId, payload⟩ := m
    rw [translateStep_mutation hm] at h
    have hops : recordedOps config s.start s.blockNumber [event] =
        [.item (provisionalOf config s.blockNumber s.start, payload) (frameId = noFrame)] := by
      simp [recordedOps, numberedOps, op?_mutation hm, Op.map, record]
    have hstart := (not_boundary_of_mutation hm).1
    have hnumber := (numberAfter_of_mutation hm s.blockNumber).symm
    rw [hops, Buffers.run_singleton]
    rcases appendMutation_cases h with ⟨rfl, rfl⟩ | ⟨hf, top, rest, hs, -, rfl⟩
    · refine ⟨hstart, ⟨hopen, rfl, rfl, hnumber⟩, _, by rw [hout, List.cons_append], ?_⟩
      simp [Buffers.step, buffers, recorded, makeEvent, provisionalOf, TranslateState.start]
    · refine ⟨hstart, ⟨hopen, rfl, rfl, hnumber⟩, out, hout, ?_⟩
      simp [Buffers.step, Buffers.append, buffers, hf, hs, recorded, makeEvent, provisionalOf,
        TranslateState.start]
  | blockStart data =>
    obtain rfl := Except.ok.inj h
    exact ⟨rfl, ⟨hopen, rfl, rfl, rfl⟩, out, hout, rfl⟩
  | blockCommit =>
    obtain rfl := Except.ok.inj h
    exact ⟨rfl, ⟨hopen, rfl, rfl, rfl⟩, out, hout, rfl⟩
  | transactionStart data => simp [translateStep, hopen] at h
  | transactionEnd data => simp [GoEvent.isTransactionEnd] at hend
  | frameEnter data =>
    simp only [translateStep, hopen, Bool.not_true, Bool.false_eq_true, if_false,
      Except.ok.injEq] at h
    subst h
    exact ⟨rfl, ⟨rfl, rfl, rfl, rfl⟩, out, hout, rfl⟩
  | frameExit data =>
    simp only [translateStep, hopen, Bool.not_true, Bool.false_eq_true, if_false] at h
    have hops : recordedOps config s.start s.blockNumber [.frameExit data] =
        [.exit data.reverted] := rfl
    rw [hops, Buffers.run_singleton]
    rcases hs : s.frameStack with _ | ⟨popped, rest⟩
    · simp [hs] at h
    · simp only [hs] at h
      split_ifs at h with hid hrev
      · obtain rfl := Except.ok.inj h
        exact ⟨rfl, ⟨rfl, rfl, rfl, rfl⟩, out, hout, by simp [Buffers.step, buffers, hrev]⟩
      · rcases rest with _ | ⟨parent, outer⟩
        · obtain rfl := Except.ok.inj h
          refine ⟨rfl, ⟨rfl, rfl, rfl, rfl⟩, out ++ popped.events, by simp [hout], ?_⟩
          simp [Buffers.step, Buffers.append, buffers, hrev]
        · obtain rfl := Except.ok.inj h
          refine ⟨rfl, ⟨rfl, rfl, rfl, rfl⟩, out, hout, ?_⟩
          simp [Buffers.step, Buffers.append, buffers, hrev]

/-! ## Whole transactions and whole streams -/

/-- From inside a transaction the loop reaches the `TransactionEnd` that closes it, with
every frame closed, and appends one segment to the output. -/
lemma translateLoop_inside {events : List GoEvent} {begin : CanonicalSemanticEvent}
    {out : List CanonicalSemanticEvent} (hopen : s.txOpen = true)
    (hout : s.txOutput = begin :: out) (h : translateLoop config i s events = .ok s')
    (hclosed : s'.txOpen = false) :
    ∃ body fin rest kept last j mid, events = body ++ .transactionEnd fin :: rest ∧
      (∀ e ∈ body, e.isTransactionEnd = false ∧ e.isTransactionStart = false) ∧
      (buffers out s.frameStack).run (recordedOps config s.start s.blockNumber body) =
        some ⟨kept.map recorded, []⟩ ∧
      mid.txOpen = false ∧ mid.frameStack = [] ∧
      mid.blockNumber = numberAfter s.blockNumber body ∧
      recorded last = (provisionalOf config (numberAfter s.blockNumber body) s.start,
        .endTransaction) ∧
      mid.finalOutput = s.finalOutput ++ (begin :: (kept ++ [last])) ∧
      translateLoop config j mid rest = .ok s' := by
  induction events generalizing i s out with
  | nil =>
    obtain rfl := Except.ok.inj h
    rw [hopen] at hclosed
    exact absurd hclosed (by simp)
  | cons event events ih =>
    obtain ⟨mid, hstep, hloop⟩ := translateLoop_cons_eq_ok.mp h
    cases hend : event.isTransactionEnd with
    | true =>
      cases event with
      | transactionEnd fin =>
        simp only [translateStep, hopen, Bool.not_true, Bool.false_eq_true, if_false] at hstep
        split_ifs at hstep with hstack
        obtain rfl := Except.ok.inj hstep
        have hnil : s.frameStack = [] := by simpa using hstack
        refine ⟨[], fin, events, out,
          boundaryEvent .endTransaction config s.blockNumber s.txHash s.txIndex, i + 1, _, rfl,
          by simp, ?_, ?_, ?_, ?_, ?_, ?_, hloop⟩
        · simp [recordedOps, numberedOps, buffers, hnil]
        · rfl
        · exact hnil
        · rfl
        · rfl
        · rw [hout]
          rfl
      | _ => simp [GoEvent.isTransactionEnd] at hend
    | false =>
      obtain ⟨hstart, hmid, out', hout', hrun⟩ := translateStep_inside hopen hout hend hstep
      obtain ⟨body, fin, rest, kept, last, j, mid', rfl, hbody, hkept, hclosed', hstack,
        hnumber, hlast, hfinal, hrest⟩ := ih hmid.txOpen hout' hloop
      rw [hmid.start, hmid.blockNumber] at hkept hlast
      rw [hmid.blockNumber] at hnumber
      rw [hmid.finalOutput] at hfinal
      refine ⟨event :: body, fin, rest, kept, last, j, mid', rfl, ?_, ?_, hclosed', hstack,
        hnumber, hlast, hfinal, hrest⟩
      · rintro e (_ | ⟨_, he⟩)
        · exact ⟨hend, hstart⟩
        · exact hbody e he
      · rw [recordedOps_cons, Buffers.run_append, hrun]
        exact hkept

lemma transactions_append {body : List GoEvent} (rest : List GoEvent)
    (h : ∀ e ∈ body, e.isTransactionStart = false) :
    transactions (body ++ rest) = transactions rest := by
  induction body with
  | nil => rfl
  | cons e body ih =>
    have he : e.isTransactionStart = false := h e (by simp)
    simp only [List.cons_append, transactions, he, Bool.false_eq_true, if_false]
    exact ih fun e' he' => h e' (by simp [he'])

lemma spans_cons_of_not_start {event : GoEvent} (events : List GoEvent)
    (h : event.isTransactionStart = false) : spans (event :: events) = spans events := by
  cases event with
  | transactionStart data => simp [GoEvent.isTransactionStart] at h
  | _ => rfl

lemma map_snd_blockSpans (number : UInt64) (events : List GoEvent) :
    (blockSpans number events).map Prod.snd = spans events := by
  induction events generalizing number with
  | nil => rfl
  | cons event events ih =>
    cases event with
    | transactionStart data =>
      simp only [blockSpans, spans]
      split
      · exact congrArg _ (ih number)
      · exact ih number
    | _ => exact ih _

lemma blockSpans_cons_of_not_start {event : GoEvent} (number : UInt64) (events : List GoEvent)
    (h : event.isTransactionStart = false) :
    blockSpans number (event :: events) = blockSpans (event.numberAfter number) events := by
  cases event with
  | transactionStart data => simp [GoEvent.isTransactionStart] at h
  | _ => rfl

lemma blockSpans_append {body : List GoEvent} (number : UInt64) (rest : List GoEvent)
    (h : ∀ e ∈ body, e.isTransactionStart = false) :
    blockSpans number (body ++ rest) = blockSpans (numberAfter number body) rest := by
  induction body generalizing number with
  | nil => rfl
  | cons e body ih =>
    rw [List.cons_append, blockSpans_cons_of_not_start _ _ (h e (by simp))]
    exact ih _ fun e' he' => h e' (by simp [he'])

lemma starts_cons_of_not_start {event : GoEvent} (events : List GoEvent)
    (h : event.isTransactionStart = false) : starts (event :: events) = starts events := by
  cases event with
  | transactionStart data => simp [GoEvent.isTransactionStart] at h
  | _ => rfl

lemma starts_append {body : List GoEvent} (rest : List GoEvent)
    (h : ∀ e ∈ body, e.isTransactionStart = false) : starts (body ++ rest) = starts rest := by
  induction body with
  | nil => rfl
  | cons e body ih =>
    rw [List.cons_append, starts_cons_of_not_start _ (h e (by simp))]
    exact ih fun e' he' => h e' (by simp [he'])

section

variable {data : TransactionStartData} {fin : TransactionEndData} {body : List GoEvent}
  (rest : List GoEvent) (h : ∀ e ∈ body, e.isTransactionEnd = false ∧ e.isTransactionStart = false)

include h

lemma takeWhile_body :
    (body ++ GoEvent.transactionEnd fin :: rest).takeWhile (!·.isTransactionEnd) = body := by
  rw [List.takeWhile_append_of_pos fun e he => by simp [(h e he).1]]
  simp [GoEvent.isTransactionEnd]

/-- A transaction starts with its first event's body and goes on after its end. -/
lemma transactions_start :
    transactions (.transactionStart data :: (body ++ .transactionEnd fin :: rest)) =
      body :: transactions rest := by
  have hrest : transactions (body ++ GoEvent.transactionEnd fin :: rest) = transactions rest := by
    rw [transactions_append _ fun e he => (h e he).2]
    rfl
  rw [transactions, hrest, takeWhile_body rest h]
  rfl

lemma starts_start :
    starts (.transactionStart data :: (body ++ .transactionEnd fin :: rest)) =
      data :: starts rest := by
  have hrest : starts (body ++ GoEvent.transactionEnd fin :: rest) = starts rest := by
    rw [starts_append _ fun e he => (h e he).2]
    rfl
  rw [← hrest]
  rfl

lemma blockSpans_start (number : UInt64) :
    blockSpans number (.transactionStart data :: (body ++ .transactionEnd fin :: rest)) =
      (number, { start := data, body := body, fin := fin }) ::
        blockSpans (numberAfter number body) rest := by
  have hdrop : (body ++ GoEvent.transactionEnd fin :: rest).dropWhile (!·.isTransactionEnd) =
      .transactionEnd fin :: rest := by
    rw [List.dropWhile_append_of_pos fun e he => by simp [(h e he).1]]
    simp [GoEvent.isTransactionEnd]
  have hrest : blockSpans number (body ++ GoEvent.transactionEnd fin :: rest) =
      blockSpans (numberAfter number body) rest := by
    rw [blockSpans_append _ _ fun e he => (h e he).2]
    rfl
  rw [blockSpans, hdrop, hrest, takeWhile_body rest h]

lemma spans_start :
    spans (.transactionStart data :: (body ++ .transactionEnd fin :: rest)) =
      { start := data, body := body, fin := fin } :: spans rest := by
  rw [← map_snd_blockSpans 0, blockSpans_start rest h, List.map_cons, map_snd_blockSpans]

end

/-- What the nested log keeps of a transaction body. -/
def Keeps (body : List GoEvent) (kept : List CsePayload) : Prop :=
  (⟨[], []⟩ : Buffers CsePayload).run (payloadOps body) = some ⟨kept, []⟩

/-- The segment of the output that a transaction becomes: a `BeginTransaction` stamped with
the transaction, what the nested log keeps of its body, an `EndTransaction`. -/
def Segment (span : TransactionSpan) (segment : List CanonicalSemanticEvent) : Prop :=
  ∃ begin kept last, segment = begin :: (kept ++ [last]) ∧ begin.payload = .beginTransaction ∧
    begin.context.provisional.transactionHash = span.start.hash ∧
    begin.context.provisional.transactionIndex = span.start.txIndex.toUInt32 ∧
    last.payload = .endTransaction ∧ Keeps span.body (kept.map (·.payload))

/-- What the nested log keeps of a transaction body that starts while the block number is
`number`. -/
def KeepsRecorded (config : BridgeConfig) (number : UInt64) (span : TransactionSpan)
    (kept : List (ProvisionalContext × CsePayload)) : Prop :=
  (⟨[], []⟩ : Buffers (ProvisionalContext × CsePayload)).run
    (recordedOps config span.start number span.body) = some ⟨kept, []⟩

/-- The segment of the output that a transaction becomes, with the contexts of its events. -/
def StampedSegment (config : BridgeConfig) (span : UInt64 × TransactionSpan)
    (segment : List CanonicalSemanticEvent) : Prop :=
  ∃ begin kept last, segment = begin :: (kept ++ [last]) ∧
    recorded begin = (provisionalOf config span.1 span.2.start, .beginTransaction) ∧
    recorded last =
      (provisionalOf config (numberAfter span.1 span.2.body) span.2.start, .endTransaction) ∧
    KeepsRecorded config span.1 span.2 (kept.map recorded)

lemma KeepsRecorded.keeps {number : UInt64} {span : TransactionSpan}
    {kept : List (ProvisionalContext × CsePayload)} (h : KeepsRecorded config number span kept) :
    Keeps span.body (kept.map Prod.snd) := by
  have hrun := congrArg (Option.map (Buffers.map Prod.snd)) h
  rwa [← Buffers.run_map, map_snd_recordedOps] at hrun

lemma StampedSegment.segment {span : UInt64 × TransactionSpan}
    {segment : List CanonicalSemanticEvent} (h : StampedSegment config span segment) :
    Segment span.2 segment := by
  obtain ⟨begin, kept, last, rfl, hbegin, hlast, hkept⟩ := h
  obtain ⟨hcontext, hpayload⟩ := Prod.mk.inj hbegin
  have hkeeps := hkept.keeps
  rw [List.map_map] at hkeeps
  exact ⟨begin, kept, last, rfl, hpayload, by rw [hcontext]; rfl, by rw [hcontext]; rfl,
    (Prod.mk.inj hlast).2, hkeeps⟩

/-- From outside a transaction the loop appends one segment for each transaction. -/
lemma translateLoop_outside {events : List GoEvent} (hopen : s.txOpen = false)
    (hstack : s.frameStack = []) (h : translateLoop config i s events = .ok s')
    (hclosed : s'.txOpen = false) :
    ((spans events).map (·.body) = transactions events ∧
        (spans events).map (·.start) = starts events) ∧
      ∃ segments, List.Forall₂ (StampedSegment config) (blockSpans s.blockNumber events) segments ∧
        s'.finalOutput = s.finalOutput ++ segments.flatten := by
  -- a transaction is consumed as a whole, so the induction is on the length
  induction hn : events.length using Nat.strong_induction_on generalizing i s events with
  | _ n ih =>
  subst hn
  cases events with
  | nil =>
    obtain rfl := Except.ok.inj h
    exact ⟨⟨rfl, rfl⟩, [], .nil, by simp⟩
  | cons event events =>
    obtain ⟨mid, hstep, hloop⟩ := translateLoop_cons_eq_ok.mp h
    have hskip : event.isTransactionStart = false → mid.txOpen = false → mid.frameStack = [] →
        mid.finalOutput = s.finalOutput → mid.blockNumber = event.numberAfter s.blockNumber →
        ((spans (event :: events)).map (·.body) = transactions (event :: events) ∧
            (spans (event :: events)).map (·.start) = starts (event :: events)) ∧
          ∃ segments, List.Forall₂ (StampedSegment config)
              (blockSpans s.blockNumber (event :: events)) segments ∧
            s'.finalOutput = s.finalOutput ++ segments.flatten := by
      intro hstart hopen' hstack' hfinal hnumber
      rw [spans_cons_of_not_start _ hstart, starts_cons_of_not_start _ hstart, transactions,
        blockSpans_cons_of_not_start _ _ hstart, hstart, ← hfinal, ← hnumber]
      exact ih _ (by simp) hopen' hstack' hloop rfl
    cases event using GoEvent.casesByKind with
    | mutation event m hm =>
      obtain ⟨frameId, payload⟩ := m
      rw [translateStep_mutation hm] at hstep
      have hstart := (not_boundary_of_mutation hm).1
      have hnumber := (numberAfter_of_mutation hm s.blockNumber).symm
      rcases appendMutation_cases hstep with ⟨rfl, rfl⟩ | ⟨-, top, rest, hs, -, -⟩
      · exact hskip hstart hopen hstack rfl hnumber
      · rw [hstack] at hs
        exact absurd hs (by simp)
    | blockStart data =>
      obtain rfl := Except.ok.inj hstep
      exact hskip rfl hopen hstack rfl rfl
    | blockCommit =>
      obtain rfl := Except.ok.inj hstep
      exact hskip rfl hopen hstack rfl rfl
    | transactionStart data =>
      simp only [translateStep, hopen, Bool.false_eq_true, if_false, Except.ok.injEq] at hstep
      subst hstep
      obtain ⟨body, fin, rest, kept, last, j, mid, rfl, hbody, hkept, hopen', hstack', hnumber,
        hlast, hfinal, hrest⟩ := translateLoop_inside rfl rfl hloop hclosed
      obtain ⟨⟨hbodies, hstarts⟩, segments, hsegments, hout⟩ :=
        ih rest.length (by simp; omega) hopen' hstack' hrest rfl
      rw [hnumber] at hsegments
      rw [spans_start rest hbody, transactions_start rest hbody, starts_start rest hbody,
        blockSpans_start rest hbody, List.map_cons, List.map_cons, hbodies, hstarts]
      have hsegment : StampedSegment config
          (s.blockNumber, { start := data, body := body, fin := fin })
          (boundaryEvent .beginTransaction config s.blockNumber data.hash data.txIndex ::
            (kept ++ [last])) := ⟨_, kept, last, rfl, rfl, hlast, hkept⟩
      refine ⟨⟨rfl, rfl⟩, _, .cons hsegment hsegments, ?_⟩
      rw [hout, hfinal, List.flatten_cons, List.append_assoc]
    | transactionEnd data => simp [translateStep, hopen] at hstep
    | frameEnter data => simp [translateStep, hopen] at hstep
    | frameExit data => simp [translateStep, hopen] at hstep

/-- The output of `translate` is one segment for each transaction, in order, with its events
renumbered. -/
theorem translate_blockSpans {events : List GoEvent} {out : List CanonicalSemanticEvent}
    (h : translate events config = .ok out) :
    ((spans events).map (·.body) = transactions events ∧
        (spans events).map (·.start) = starts events) ∧
      ∃ segments, List.Forall₂ (StampedSegment config) (blockSpans 0 events) segments ∧
        out = segments.flatten.mapIdx withSequence := by
  obtain ⟨s, hloop, hclosed, rfl⟩ := translate_eq_ok.mp h
  obtain ⟨hbodies, segments, hsegments, hout⟩ := translateLoop_outside rfl rfl hloop hclosed
  refine ⟨hbodies, segments, hsegments, ?_⟩
  rw [hout]
  rfl

/-- The same without the block numbers and the contexts. -/
theorem translate_spans {events : List GoEvent} {out : List CanonicalSemanticEvent}
    (h : translate events config = .ok out) :
    ((spans events).map (·.body) = transactions events ∧
        (spans events).map (·.start) = starts events) ∧
      ∃ segments, List.Forall₂ Segment (spans events) segments ∧
        out = segments.flatten.mapIdx withSequence := by
  obtain ⟨hbodies, segments, hsegments, hout⟩ := translate_blockSpans h
  refine ⟨hbodies, segments, ?_, hout⟩
  rw [← map_snd_blockSpans 0, List.forall₂_map_left_iff]
  exact hsegments.imp fun _ _ hsegment => hsegment.segment

lemma Segment.payloads {span : TransactionSpan} {segment : List CanonicalSemanticEvent}
    (h : Segment span segment) :
    ∃ kept, segment.map (·.payload) = bracketed kept ∧ Keeps span.body kept := by
  obtain ⟨begin, kept, last, rfl, hbegin, -, -, hlast, hkept⟩ := h
  exact ⟨kept.map (·.payload), by simp [bracketed, hbegin, hlast], hkept⟩

/-- The payloads of the output are one segment for each transaction, in order, holding what
the nested log keeps of its body. -/
theorem translate_segments {events : List GoEvent} {out : List CanonicalSemanticEvent}
    (h : translate events config = .ok out) :
    ∃ segments, List.Forall₂ Keeps (transactions events) segments ∧
      out.map (·.payload) = segments.flatMap bracketed := by
  obtain ⟨⟨hbodies, -⟩, segments, hsegments, rfl⟩ := translate_spans h
  rw [map_payload_mapIdx_withSequence, ← hbodies]
  clear h hbodies
  generalize spans events = txs at hsegments
  induction hsegments with
  | nil => exact ⟨[], .nil, rfl⟩
  | cons hsegment _ ih =>
    obtain ⟨kept, hpayloads, hkept⟩ := hsegment.payloads
    obtain ⟨payloads, hrest, heq⟩ := ih
    refine ⟨kept :: payloads, .cons hkept hrest, ?_⟩
    rw [List.flatten_cons, List.map_append, hpayloads, heq, List.flatMap_cons]

lemma Keeps.perm {body : List GoEvent} {kept : List CsePayload} (h : Keeps body kept) :
    kept.Perm ((surviving body).map Prod.snd) := by
  have := run_perm h
  rwa [payloadOps, pending, survivors_map] at this

lemma Keeps.eq {body : List GoEvent} {kept : List CsePayload} (h : Keeps body kept)
    (hd : FramelessOutside body) : kept = (surviving body).map Prod.snd := by
  have := run_eq h ((directOutside_map _ _ _).mpr hd)
  rwa [payloadOps, pending, survivors_map] at this

/-- **Survival.**  For every accepted stream the output consists of one segment for each
transaction, in order: `BeginTransaction`, payloads, `EndTransaction`.  The payloads of a
segment are those of the mutations of the transaction that survive it, each exactly once;
if mutations stamped "no frame" occur only while no frame is open, they are in the order
of the input. -/
theorem translate_keeps_survivors {events : List GoEvent} {out : List CanonicalSemanticEvent}
    (h : translate events config = .ok out) :
    ∃ segments, out.map (·.payload) = segments.flatMap bracketed ∧
      List.Forall₂ (fun body kept =>
          kept.Perm ((surviving body).map Prod.snd) ∧
            (FramelessOutside body → kept = (surviving body).map Prod.snd))
        (transactions events) segments := by
  obtain ⟨segments, hsegments, hout⟩ := translate_segments h
  exact ⟨segments, hout, hsegments.imp fun _ _ hk => ⟨hk.perm, hk.eq⟩⟩

/-- A stream of one transaction: a root frame that commits, around a frame that reverts
and one that commits, and a frameless mutation outside them. -/
def nestedStream : List GoEvent :=
  [.transactionStart { txIndex := 0, hash := Bytes.zero 32 },
    .nonceMutation { frameId := noFrame, address := Bytes.fill 20 1, before := 0, after := 1 },
    .frameEnter { frameId := 1, parentFrameId := noFrame, depth := 0 },
    .balanceMutation { frameId := 1, address := Bytes.fill 20 1,
                       before := Bytes.last 31 9, after := Bytes.last 31 8 },
    .frameEnter { frameId := 2, parentFrameId := 1, depth := 1 },
    .balanceMutation { frameId := 2, address := Bytes.fill 20 2,
                       before := Bytes.zero 32, after := Bytes.last 31 1 },
    .frameExit { frameId := 2, reverted := true },
    .frameEnter { frameId := 3, parentFrameId := 1, depth := 1 },
    .storageMutation { frameId := 3, address := Bytes.fill 20 3, slot := Bytes.zero 32,
                       before := Bytes.zero 32, after := Bytes.last 31 5 },
    .frameExit { frameId := 3, reverted := false },
    .frameExit { frameId := 1, reverted := false },
    .transactionEnd { txIndex := 0, reverted := false }]

/-- Of the four mutations of `nestedStream` only that of the reverted frame is dropped. -/
theorem nestedStream_survival :
    ∃ out segments, translate nestedStream ⟨1⟩ = .ok out ∧
      out.map (·.payload) = segments.flatMap bracketed ∧
      List.Forall₂ (fun body kept =>
          kept.Perm ((surviving body).map Prod.snd) ∧
            (FramelessOutside body → kept = (surviving body).map Prod.snd))
        (transactions nestedStream) segments ∧
      (transactions nestedStream).map (fun body => (surviving body).map (·.1)) =
        [[noFrame, 1, 3]] := by
  have haccepted : ∃ out, translate nestedStream ⟨1⟩ = .ok out := ⟨_, rfl⟩
  obtain ⟨out, hout⟩ := haccepted
  obtain ⟨segments, hsegments, hkept⟩ := translate_keeps_survivors hout
  exact ⟨out, segments, hout, hsegments, hkept, by decide⟩

end KaySentinel.Bridge
