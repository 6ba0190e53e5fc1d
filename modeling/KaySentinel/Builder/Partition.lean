import KaySentinel.Builder.Timeline

/-!
# Partitioning a stream into transaction buckets

`Partition.process` splits a CSE stream at its boundary markers and sorts the events of
each transaction into tables.
-/

namespace KaySentinel.Builder

open Cse

inductive BuilderError where
  | eventOutsideTransaction
  | unexpectedTransactionBoundary
  | duplicateTransactionBoundary
  | timelineFailure (error : TimelineError)
deriving DecidableEq

structure TransactionMetadata where
  chainId : UInt64
  blockNumber : UInt64
  blockHash : Word
  transactionHash : Word
  transactionIndex : UInt32
deriving DecidableEq

/-- The flat relational tables of one transaction. -/
structure TransactionBucket where
  metadata : TransactionMetadata
  stateTables : OrdMap.Map CanonicalKey TimelineVariant
  lifecycleTable : OrdMap.Map Address (List ObservedLifecycle)
  logTable : OrdMap.Map Address (List ObservedLog)
  gasRefundTimeline : Option (Timeline UInt64)

abbrev RawIr := List TransactionBucket

def traceProvenanceFrom (ctx : ExecutionContext) : TraceProvenance where
  traceOrdinal := ctx.normative.sequenceNumber
  txIndex := ctx.provisional.transactionIndex.toUInt64
  frameId := ctx.trace.callFrameId.toNat
  callDepth := ctx.trace.callDepth.toNat
  frameOrdinal := 0

namespace TransactionBucket

/-- The bucket that `BeginTransaction` opens. -/
def new (ctx : ExecutionContext) : TransactionBucket where
  metadata :=
    { chainId := ctx.provisional.chainId
      blockNumber := ctx.provisional.blockNumber
      blockHash := ctx.provisional.blockHash
      transactionHash := ctx.provisional.transactionHash
      transactionIndex := ctx.provisional.transactionIndex }
  stateTables := ∅
  lifecycleTable := ∅
  logTable := ∅
  gasRefundTimeline := none

/-- `state_tables.entry(key).or_insert_with(..)`, then push onto the timeline. -/
def pushTransition (bucket : TransactionBucket) (key : CanonicalKey) (before after : key.Value)
    (eventId : EventId) : TransactionBucket :=
  { bucket with
    stateTables := bucket.stateTables.alter key fun entry =>
      some (TimelineVariant.push key before after eventId (entry.getD (.of key .new))) }

def pushLifecycle (bucket : TransactionBucket) (address : Address)
    (observation : ObservedLifecycle) : TransactionBucket :=
  { bucket with
    lifecycleTable := bucket.lifecycleTable.alter address fun entry =>
      some (entry.getD [] ++ [observation]) }

def pushLog (bucket : TransactionBucket) (address : Address) (observation : ObservedLog) :
    TransactionBucket :=
  { bucket with
    logTable := bucket.logTable.alter address fun entry =>
      some (entry.getD [] ++ [observation]) }

def pushGasRefund (bucket : TransactionBucket) (before after : UInt64) (eventId : EventId) :
    TransactionBucket :=
  { bucket with
    gasRefundTimeline := some ((bucket.gasRefundTimeline.getD .new).push before after eventId) }

/-- What an event inside a transaction adds to its bucket. -/
def record (bucket : TransactionBucket) (event : CanonicalSemanticEvent) : TransactionBucket :=
  let eventId : EventId := ⟨event.context.normative.sequenceNumber⟩
  match event.payload with
  | .balanceChanged p =>
      bucket.pushTransition (.balance p.address) p.previousBalance p.currentBalance eventId
  | .nonceUpdated p =>
      bucket.pushTransition (.nonce p.address) p.previousNonce p.currentNonce eventId
  | .codeUpdated p =>
      bucket.pushTransition (.code p.address) p.previousCodeHash p.currentCodeHash eventId
  | .storageSlotUpdated p =>
      bucket.pushTransition (.storage p.address p.slot) p.previousValue p.currentValue eventId
  | .transientStorageUpdated p =>
      bucket.pushTransition (.transient p.address p.slot) p.previousValue p.currentValue eventId
  | .contractCreated p =>
      bucket.pushLifecycle p.address
        { payload := .created p, eventId := eventId,
          traceProvenance := traceProvenanceFrom event.context }
  | .contractDestroyed p =>
      bucket.pushLifecycle p.address
        { payload := .destroyed p, eventId := eventId,
          traceProvenance := traceProvenanceFrom event.context }
  | .logEmitted p => bucket.pushLog p.address { payload := p, eventId := eventId }
  | .gasRefundChanged p => bucket.pushGasRefund p.previousRefund p.currentRefund eventId
  | .accessListTouched _ => bucket
  -- `unreachable!()`: the boundary markers are handled before
  | .beginTransaction => bucket
  | .endTransaction => bucket

end TransactionBucket

namespace Partition

structure State where
  buckets : List TransactionBucket
  currentBucket : Option TransactionBucket

def step (s : State) (event : CanonicalSemanticEvent) : Except BuilderError State :=
  match event.payload with
  | .beginTransaction =>
      if s.currentBucket.isSome then
        .error .duplicateTransactionBoundary
      else
        .ok { s with currentBucket := some (.new event.context) }
  | .endTransaction =>
      match s.currentBucket with
      | none => .error .unexpectedTransactionBoundary
      | some bucket => .ok { buckets := s.buckets ++ [bucket], currentBucket := none }
  | _ =>
      match s.currentBucket with
      | none => .error .eventOutsideTransaction
      | some bucket => .ok { s with currentBucket := some (bucket.record event) }

def process (events : List CanonicalSemanticEvent) : Except BuilderError RawIr := do
  let s ← events.foldlM step { buckets := [], currentBucket := none }
  if s.currentBucket.isSome then
    throw .unexpectedTransactionBoundary
  return s.buckets

end Partition

/-! ## Where the boundaries fall -/

/-- The payloads of a list of events. -/
def payloads (events : List CanonicalSemanticEvent) : List CsePayload := events.map (·.payload)

/-- An event with the given payload in the first block. -/
def plainEvent (p : CsePayload) : CanonicalSemanticEvent where
  version := .v1
  context :=
    { normative := ⟨0⟩
      provisional := ⟨1, Bytes.zero 32, 1, Bytes.zero 32, 0⟩
      trace := ⟨0, 0⟩ }
  payload := p

/-- Events with the given payloads, all stamped alike. -/
def plainEvents (ps : List CsePayload) : List CanonicalSemanticEvent := ps.map plainEvent

lemma payloads_plainEvents (ps : List CsePayload) : payloads (plainEvents ps) = ps := by
  rw [payloads, plainEvents, List.map_map]
  exact List.map_id ps

lemma singleTransaction_plainEvents {ps : List CsePayload}
    (h : ∀ p ∈ ps, p.isBoundary = false) : SingleTransaction (plainEvents (bracketed ps)) := by
  refine ⟨plainEvent .beginTransaction, plainEvents ps, plainEvent .endTransaction, ?_, rfl, rfl,
    fun e he => ?_⟩
  · simp [bracketed, plainEvents]
  · obtain ⟨p, hp, rfl⟩ := List.mem_map.mp he
    exact h p hp

/-- The bucket of a transaction that starts in `ctx` and whose other events are `body`. -/
def bucketOf (ctx : ExecutionContext) (body : List CanonicalSemanticEvent) : TransactionBucket :=
  body.foldl TransactionBucket.record (.new ctx)

namespace Partition

variable {s : State} {event : CanonicalSemanticEvent}

lemma step_begin (h : event.payload = .beginTransaction) (hs : s.currentBucket = none) :
    step s event = .ok { s with currentBucket := some (.new event.context) } := by
  simp [step, h, hs]

lemma step_end (h : event.payload = .endTransaction) {bucket : TransactionBucket}
    (hs : s.currentBucket = some bucket) :
    step s event = .ok { buckets := s.buckets ++ [bucket], currentBucket := none } := by
  simp [step, h, hs]

lemma step_record (h : event.payload.isBoundary = false) {bucket : TransactionBucket}
    (hs : s.currentBucket = some bucket) :
    step s event = .ok { s with currentBucket := some (bucket.record event) } := by
  cases hp : event.payload with
  | beginTransaction => simp [hp, CsePayload.isBoundary] at h
  | endTransaction => simp [hp, CsePayload.isBoundary] at h
  | _ => simp [step, hp, hs]

/-- The events between two boundary markers are recorded one after the other. -/
lemma foldlM_record {body : List CanonicalSemanticEvent} (buckets : List TransactionBucket)
    (bucket : TransactionBucket) (h : ∀ e ∈ body, e.payload.isBoundary = false) :
    body.foldlM step { buckets := buckets, currentBucket := some bucket } =
      .ok { buckets := buckets
            currentBucket := some (body.foldl TransactionBucket.record bucket) } := by
  induction body generalizing bucket with
  | nil => rfl
  | cons event body ih =>
    rw [List.foldlM_cons, step_record (h event (by simp)) rfl]
    exact ih _ fun e he => h e (by simp [he])

/-- A transaction of the stream becomes one bucket. -/
lemma foldlM_transaction {begin fin : CanonicalSemanticEvent}
    {body : List CanonicalSemanticEvent} (buckets : List TransactionBucket)
    (hbegin : begin.payload = .beginTransaction) (hfin : fin.payload = .endTransaction)
    (h : ∀ e ∈ body, e.payload.isBoundary = false) :
    (begin :: (body ++ [fin])).foldlM step { buckets := buckets, currentBucket := none } =
      .ok { buckets := buckets ++ [bucketOf begin.context body], currentBucket := none } := by
  rw [List.foldlM_cons, step_begin hbegin rfl]
  change List.foldlM step _ (body ++ [fin]) = _
  rw [List.foldlM_append, foldlM_record buckets _ h]
  change List.foldlM step _ [fin] = _
  rw [List.foldlM_cons, step_end hfin rfl]
  rfl

/-- A stream that is a sequence of segments, each between two boundary markers, becomes one
bucket for each segment. -/
theorem process_segments {events : List CanonicalSemanticEvent}
    {segments : List (List CsePayload)} (h : payloads events = segments.flatMap bracketed)
    (hseg : ∀ seg ∈ segments, ∀ p ∈ seg, p.isBoundary = false) :
    ∃ raw, process events = .ok raw ∧
      List.Forall₂ (fun bucket seg => ∃ ctx body, bucket = bucketOf ctx body ∧
        payloads body = seg) raw segments := by
  have hfold : ∀ buckets, ∃ raw,
      events.foldlM step { buckets := buckets, currentBucket := none } =
          .ok { buckets := buckets ++ raw, currentBucket := none } ∧
        List.Forall₂ (fun bucket seg => ∃ ctx body, bucket = bucketOf ctx body ∧
          payloads body = seg) raw segments := by
    induction segments generalizing events with
    | nil =>
      obtain rfl : events = [] := by simpa [payloads] using h
      exact fun buckets => ⟨[], by simp [pure, Except.pure], .nil⟩
    | cons seg segments ih =>
      intro buckets
      rw [List.flatMap_cons] at h
      obtain ⟨first, rest, rfl, hfirst, hrest⟩ := List.map_eq_append_iff.mp h
      obtain ⟨begin, tail, rfl, hbegin, htail⟩ := List.map_eq_cons_iff.mp hfirst
      obtain ⟨body, last, rfl, hbody, hlast⟩ := List.map_eq_append_iff.mp htail
      obtain ⟨fin, rfl, hfin⟩ := List.map_eq_singleton_iff.mp hlast
      have hb : ∀ e ∈ body, e.payload.isBoundary = false := fun e he =>
        hseg seg (by simp) _ (hbody ▸ List.mem_map_of_mem he)
      obtain ⟨raw, hraw, hbuckets⟩ := ih hrest (fun seg' hmem => hseg seg' (by simp [hmem]))
        (buckets ++ [bucketOf begin.context body])
      refine ⟨bucketOf begin.context body :: raw, ?_, .cons ⟨_, _, rfl, hbody⟩ hbuckets⟩
      rw [List.foldlM_append, foldlM_transaction buckets hbegin hfin hb]
      change List.foldlM step _ rest = _
      rw [hraw, List.append_assoc, List.singleton_append]
  obtain ⟨raw, hraw, hbuckets⟩ := hfold []
  refine ⟨raw, ?_, hbuckets⟩
  rw [process, hraw]
  rfl

/-- The transactions of a stream: the context of each `BeginTransaction` and the events after
it, up to the next `EndTransaction`. -/
def spans : List CanonicalSemanticEvent → List (ExecutionContext × List CanonicalSemanticEvent)
  | [] => []
  | event :: events =>
      if event.payload = .beginTransaction then
        (event.context, events.takeWhile (·.payload ≠ .endTransaction)) :: spans events
      else
        spans events

/-- What an accepted event does. -/
lemma step_cases {s' : State} (h : step s event = .ok s') :
    (event.payload = .beginTransaction ∧ s.currentBucket = none ∧
        s' = { s with currentBucket := some (.new event.context) }) ∨
      (∃ bucket, event.payload = .endTransaction ∧ s.currentBucket = some bucket ∧
        s' = { buckets := s.buckets ++ [bucket], currentBucket := none }) ∨
      ∃ bucket, event.payload.isBoundary = false ∧ s.currentBucket = some bucket ∧
        s' = { s with currentBucket := some (bucket.record event) } := by
  have hrecord : ∀ bucket, event.payload.isBoundary = false → s.currentBucket = some bucket →
      s' = { s with currentBucket := some (bucket.record event) } := by
    intro bucket hboundary hs
    rw [step_record hboundary hs] at h
    exact (Except.ok.inj h).symm
  cases hs : s.currentBucket with
  | none =>
    cases hp : event.payload with
    | beginTransaction =>
      rw [step_begin hp hs] at h
      exact .inl ⟨rfl, rfl, (Except.ok.inj h).symm⟩
    | _ => simp [step, hp, hs] at h
  | some bucket =>
    cases hp : event.payload with
    | beginTransaction => simp [step, hp, hs] at h
    | endTransaction =>
      rw [step_end hp hs] at h
      exact .inr (.inl ⟨bucket, rfl, rfl, (Except.ok.inj h).symm⟩)
    | _ => exact .inr (.inr ⟨bucket, rfl, rfl, hrecord bucket (by rw [hp]; rfl) hs⟩)

/-- The loop finishes the open bucket and adds one bucket for each transaction. -/
lemma foldlM_spans {events : List CanonicalSemanticEvent} {raw : List TransactionBucket}
    (h : events.foldlM step s = .ok { buckets := raw, currentBucket := none }) :
    raw = s.buckets ++ (s.currentBucket.toList.map fun bucket =>
        (events.takeWhile (·.payload ≠ .endTransaction)).foldl TransactionBucket.record bucket) ++
      (spans events).map fun span => bucketOf span.1 span.2 := by
  induction events generalizing s with
  | nil =>
    obtain rfl := Except.ok.inj h
    simp [spans]
  | cons event events ih =>
    obtain ⟨mid, hstep, hfold⟩ := Fallible.foldlM_cons_eq_ok.mp h
    have hrest := ih hfold
    rcases step_cases hstep with ⟨hp, hs, rfl⟩ | ⟨bucket, hp, hs, rfl⟩ | ⟨bucket, hp, hs, rfl⟩
    · simp [hrest, spans, hp, hs, bucketOf]
    · simp [hrest, spans, hp, hs]
    · have hbegin : event.payload ≠ .beginTransaction := by
        intro hbegin
        simp [hbegin, CsePayload.isBoundary] at hp
      have hend : event.payload ≠ .endTransaction := by
        intro hend
        simp [hend, CsePayload.isBoundary] at hp
      simp [hrest, spans, hbegin, hend, hs]

/-- The loop ends outside a transaction on an accepted stream. -/
lemma foldlM_of_process {events : List CanonicalSemanticEvent} {raw : RawIr}
    (h : process events = .ok raw) :
    events.foldlM step { buckets := [], currentBucket := none } =
      .ok { buckets := raw, currentBucket := none } := by
  rw [process] at h
  obtain ⟨⟨buckets, currentBucket⟩, hfold, hend⟩ := Fallible.bind_eq_ok_iff.mp h
  cases currentBucket with
  | some bucket => cases hend
  | none =>
    obtain rfl := Except.ok.inj hend
    exact hfold

/-- An accepted stream becomes one bucket for each of its transactions. -/
theorem process_eq_map {events : List CanonicalSemanticEvent} {raw : RawIr}
    (h : process events = .ok raw) :
    raw = (spans events).map fun span => bucketOf span.1 span.2 := by
  simpa using foldlM_spans (foldlM_of_process h)

end Partition

/-! ## What the tables hold -/

/-- The write to a canonical key that a payload makes. -/
def transition? : CsePayload → Option (Journal.Write CanonicalKey.Value)
  | .balanceChanged p => some
      { key := .balance p.address, before := p.previousBalance, after := p.currentBalance }
  | .nonceUpdated p => some
      { key := .nonce p.address, before := p.previousNonce, after := p.currentNonce }
  | .codeUpdated p => some
      { key := .code p.address, before := p.previousCodeHash, after := p.currentCodeHash }
  | .storageSlotUpdated p => some
      { key := .storage p.address p.slot, before := p.previousValue, after := p.currentValue }
  | .transientStorageUpdated p => some
      { key := .transient p.address p.slot, before := p.previousValue, after := p.currentValue }
  | _ => none

/-- The address and the payload of a lifecycle event. -/
def lifecycle? : CsePayload → Option (Address × CseLifecyclePayload)
  | .contractCreated p => some (p.address, .created p)
  | .contractDestroyed p => some (p.address, .destroyed p)
  | _ => none

def gasRefund? : CsePayload → Option (UInt64 × UInt64)
  | .gasRefundChanged p => some (p.previousRefund, p.currentRefund)
  | _ => none

/-- The writes of a list of payloads to canonical keys. -/
def writesOf (ps : List CsePayload) : List (Journal.Write CanonicalKey.Value) :=
  Journal.writes transition? ps

/-- The transitions of a list of payloads at a canonical key. -/
def historyAt (k : CanonicalKey) (ps : List CsePayload) : List (k.Value × k.Value) :=
  Journal.history k (writesOf ps)

/-- The value that the payloads have established at a key, if they write it. -/
def established? (ps : List CsePayload) (k : CanonicalKey) : Option k.Value :=
  (historyAt k ps).getLast?.map Prod.snd

lemma established?_eq_none_iff {ps : List CsePayload} {k : CanonicalKey} :
    established? ps k = none ↔ historyAt k ps = [] := by
  simp [established?]

/-- The lifecycle payloads of an address. -/
def lifecyclesAt (address : Address) (ps : List CsePayload) : List CseLifecyclePayload :=
  ps.filterMap fun p => (lifecycle? p).bind fun l => if l.1 = address then some l.2 else none

/-- The gas refund transitions. -/
def gasRefunds (ps : List CsePayload) : List (UInt64 × UInt64) := ps.filterMap gasRefund?

lemma historyAt_append (k : CanonicalKey) (ps ps' : List CsePayload) :
    historyAt k (ps ++ ps') = historyAt k ps ++ historyAt k ps' := by
  simp only [historyAt, writesOf, Journal.writes, List.filterMap_append, Journal.history_append]

lemma metadata_record (bucket : TransactionBucket) (event : CanonicalSemanticEvent) :
    (bucket.record event).metadata = bucket.metadata := by
  cases hp : event.payload <;> simp [TransactionBucket.record, hp] <;> rfl

/-- The metadata of a bucket are those of the event that opened it. -/
lemma metadata_bucketOf (ctx : ExecutionContext) (body : List CanonicalSemanticEvent) :
    (bucketOf ctx body).metadata = (TransactionBucket.new ctx).metadata := by
  induction body using List.reverseRecOn with
  | nil => rfl
  | append_singleton body event ih =>
    rw [bucketOf, List.foldl_append, List.foldl_cons, List.foldl_nil, metadata_record]
    exact ih

lemma bucketOf_append_singleton (ctx : ExecutionContext) (body : List CanonicalSemanticEvent)
    (event : CanonicalSemanticEvent) :
    bucketOf ctx (body ++ [event]) = (bucketOf ctx body).record event := by
  simp [bucketOf]

lemma stateTables_record (bucket : TransactionBucket) (event : CanonicalSemanticEvent) :
    (bucket.record event).stateTables =
      match transition? event.payload with
      | none => bucket.stateTables
      | some w => (bucket.pushTransition w.key w.before w.after
          ⟨event.context.normative.sequenceNumber⟩).stateTables := by
  cases hp : event.payload <;> simp [TransactionBucket.record, hp, transition?] <;> rfl

/-- What an event adds to the timeline at `k`. -/
def observation? (k : CanonicalKey) (event : CanonicalSemanticEvent) :
    Option (ObservedTransition k.Value) :=
  ((transition? event.payload).bind (·.at? k)).map fun t =>
    { before := t.1, after := t.2, eventId := ⟨event.context.normative.sequenceNumber⟩ }

/-- The observations at a canonical key. -/
def observedAt (k : CanonicalKey) (body : List CanonicalSemanticEvent) :
    List (ObservedTransition k.Value) := body.filterMap (observation? k)

lemma transitions_observedAt (k : CanonicalKey) (body : List CanonicalSemanticEvent) :
    Timeline.transitions ⟨observedAt k body⟩ = historyAt k (payloads body) := by
  simp only [Timeline.transitions, observedAt, historyAt, writesOf, Journal.writes,
    Journal.history, payloads, List.map_filterMap, List.filterMap_filterMap, List.filterMap_map]
  refine List.filterMap_congr fun event _ => ?_
  rw [observation?, Option.map_map]
  exact Option.map_id'

/-- The entry of the state table at `k` is the timeline of the observations at `k`, if there
are any. -/
theorem stateTables_bucketOf (ctx : ExecutionContext) (body : List CanonicalSemanticEvent)
    (k : CanonicalKey) :
    (bucketOf ctx body).stateTables[k]? =
      if observedAt k body = [] then none else some (.of k ⟨observedAt k body⟩) := by
  induction body using List.reverseRecOn with
  | nil => simp [bucketOf, TransactionBucket.new, observedAt]
  | append_singleton body event ih =>
    rw [bucketOf_append_singleton, stateTables_record, observedAt, List.filterMap_append,
      ← observedAt]
    cases hw : transition? event.payload with
    | none => simpa [observation?, hw] using ih
    | some w =>
      simp only [TransactionBucket.pushTransition, OrdMap.getElem?_alter]
      by_cases hk : w.key = k
      · subst hk
        have hpush : (bucketOf ctx body).stateTables[w.key]?.getD (.of w.key .new) =
            .of w.key ⟨observedAt w.key body⟩ := by
          rw [ih]
          split_ifs with hnil
          · rw [hnil]
            rfl
          · rfl
        simp [hpush, observation?, hw, Timeline.push]
      · rw [if_neg hk, ih]
        simp [observation?, hw, Journal.Write.at?_of_ne hk]

lemma lifecycleTable_record (bucket : TransactionBucket) (event : CanonicalSemanticEvent) :
    (bucket.record event).lifecycleTable =
      match lifecycle? event.payload with
      | none => bucket.lifecycleTable
      | some l => (bucket.pushLifecycle l.1
          { payload := l.2, eventId := ⟨event.context.normative.sequenceNumber⟩,
            traceProvenance := traceProvenanceFrom event.context }).lifecycleTable := by
  cases hp : event.payload <;> simp [TransactionBucket.record, hp, lifecycle?] <;> rfl

/-- What a lifecycle event adds to the lifecycle table, and where. -/
def lifecycleObservation? (event : CanonicalSemanticEvent) : Option (Address × ObservedLifecycle) :=
  (lifecycle? event.payload).map fun l =>
    (l.1, { payload := l.2, eventId := ⟨event.context.normative.sequenceNumber⟩,
            traceProvenance := traceProvenanceFrom event.context })

/-- The entry of the lifecycle table at an address lists the observations of the address, if
there are any. -/
theorem lifecycleTable_bucketOf (ctx : ExecutionContext) (body : List CanonicalSemanticEvent)
    (address : Address) :
    (bucketOf ctx body).lifecycleTable[address]? =
      if OrdMap.valuesAt lifecycleObservation? address body = [] then none
      else some (OrdMap.valuesAt lifecycleObservation? address body) := by
  refine OrdMap.getElem?_foldl_pushEntry TransactionBucket.lifecycleTable rfl
    (fun bucket event => ?_) body address
  rw [lifecycleTable_record, lifecycleObservation?]
  cases lifecycle? event.payload <;> rfl

lemma map_payload_lifecycleObservations (address : Address)
    (body : List CanonicalSemanticEvent) :
    (OrdMap.valuesAt lifecycleObservation? address body).map (·.payload) =
      lifecyclesAt address (payloads body) := by
  simp only [OrdMap.valuesAt, lifecyclesAt, payloads, List.map_filterMap, List.filterMap_map]
  refine List.filterMap_congr fun event _ => ?_
  cases hl : lifecycle? event.payload with
  | none => simp [lifecycleObservation?, hl]
  | some l =>
    by_cases haddress : l.1 = address
    · simp [lifecycleObservation?, hl, haddress]
    · simp [lifecycleObservation?, hl, haddress]

/-- The entry of the lifecycle table at an address lists its lifecycle payloads, if there
are any. -/
theorem getElem?_lifecycleTable (ctx : ExecutionContext) (body : List CanonicalSemanticEvent)
    (address : Address) :
    ∃ observations : List ObservedLifecycle,
      observations.map (·.payload) = lifecyclesAt address (payloads body) ∧
        (bucketOf ctx body).lifecycleTable[address]? =
          if observations = [] then none else some observations :=
  ⟨_, map_payload_lifecycleObservations address body, lifecycleTable_bucketOf ctx body address⟩

/-- The address of a log event and what it adds to the log table. -/
def logObservation? (event : CanonicalSemanticEvent) : Option (Address × ObservedLog) :=
  match event.payload with
  | .logEmitted p => some
      (p.address, { payload := p, eventId := ⟨event.context.normative.sequenceNumber⟩ })
  | _ => none

lemma logTable_record (bucket : TransactionBucket) (event : CanonicalSemanticEvent) :
    (bucket.record event).logTable =
      (logObservation? event).elim bucket.logTable fun o =>
        OrdMap.pushEntry bucket.logTable o.1 o.2 := by
  cases hp : event.payload <;> simp [TransactionBucket.record, hp, logObservation?] <;> rfl

/-- The entry of the log table at an address lists its logs, if there are any. -/
theorem logTable_bucketOf (ctx : ExecutionContext) (body : List CanonicalSemanticEvent)
    (address : Address) :
    (bucketOf ctx body).logTable[address]? =
      if OrdMap.valuesAt logObservation? address body = [] then none
      else some (OrdMap.valuesAt logObservation? address body) :=
  OrdMap.getElem?_foldl_pushEntry TransactionBucket.logTable rfl logTable_record body address

lemma gasRefundTimeline_record (bucket : TransactionBucket) (event : CanonicalSemanticEvent) :
    (bucket.record event).gasRefundTimeline =
      match gasRefund? event.payload with
      | none => bucket.gasRefundTimeline
      | some g => (bucket.pushGasRefund g.1 g.2
          ⟨event.context.normative.sequenceNumber⟩).gasRefundTimeline := by
  cases hp : event.payload <;> simp [TransactionBucket.record, hp, gasRefund?] <;> rfl

/-- The observations of the gas refund counter. -/
def gasObserved (body : List CanonicalSemanticEvent) : List (ObservedTransition UInt64) :=
  body.filterMap fun event => (gasRefund? event.payload).map fun g =>
    { before := g.1, after := g.2, eventId := ⟨event.context.normative.sequenceNumber⟩ }

lemma transitions_gasObserved (body : List CanonicalSemanticEvent) :
    Timeline.transitions ⟨gasObserved body⟩ = gasRefunds (payloads body) := by
  simp only [Timeline.transitions, gasObserved, gasRefunds, payloads, List.map_filterMap,
    List.filterMap_map]
  refine List.filterMap_congr fun event _ => ?_
  rw [Option.map_map]
  exact Option.map_id'

/-- The gas refund timeline holds the observations of the counter, if there are any. -/
theorem gasRefundTimeline_eq (ctx : ExecutionContext) (body : List CanonicalSemanticEvent) :
    (bucketOf ctx body).gasRefundTimeline =
      if gasObserved body = [] then none else some ⟨gasObserved body⟩ := by
  induction body using List.reverseRecOn with
  | nil => simp [bucketOf, TransactionBucket.new, gasObserved]
  | append_singleton body event ih =>
    rw [bucketOf_append_singleton, gasRefundTimeline_record, gasObserved, List.filterMap_append,
      ← gasObserved]
    cases hg : gasRefund? event.payload with
    | none => simpa [hg] using ih
    | some g =>
      have hpush : (bucketOf ctx body).gasRefundTimeline.getD .new = ⟨gasObserved body⟩ := by
        rw [ih]
        split_ifs with hnil
        · rw [hnil]
          rfl
        · rfl
      simp [TransactionBucket.pushGasRefund, hpush, hg, Timeline.push]

end KaySentinel.Builder
