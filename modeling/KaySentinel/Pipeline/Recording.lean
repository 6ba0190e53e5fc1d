import KaySentinel.Bridge.Fixture
import KaySentinel.Lib.Patch
import KaySentinel.Pipeline.Run
import KaySentinel.Tracer.Ledger

/-!
# From the hooks to the tables

The way from the hooks of a client to the reduced tables: the tracer, the fixture, the bridge,
partition and reduction.  `ledger_recorded` says that the tables of a run are the changes of the
ledger behind the hooks; `ledger_reconstructed` that they lead from the first ledger to the last
one and back.
-/

namespace KaySentinel.Pipeline

open Bridge Builder Cse Emes Journal

/-- A stream of transactions with continuous timelines reduces, transaction by transaction. -/
lemma reduce_segments {events : List CanonicalSemanticEvent} {segments : List (List CsePayload)}
    (h : payloads events = segments.flatMap bracketed)
    (hboundary : ∀ seg ∈ segments, ∀ p ∈ seg, p.isBoundary = false)
    (hcont : ∀ seg ∈ segments, Continuous seg) :
    ∃ reduced, reduceStream events = .ok reduced ∧ List.Forall₂ Reduced segments reduced := by
  obtain ⟨raw, hraw, hbuckets⟩ := Partition.process_segments h hboundary
  have hreduce : List.Forall₂ (fun bucket seg => ∃ reduced,
      Reduce.processBucket bucket = .ok reduced ∧ Reduced seg reduced) raw segments := by
    refine (Pointwise.forall_right hbuckets hcont).imp ?_
    rintro bucket seg ⟨⟨ctx, body, rfl, rfl⟩, hseg⟩
    rcases Reduce.processBucket_cases ctx body with
      ⟨reduced, hok, -, htab, hlife⟩ | ⟨_, _, -, hnot⟩
    · refine ⟨reduced, hok, hseg, htab, fun address => ?_⟩
      rw [hlife]
      exact getElem?_lifecycleTable ctx body address
    · exact absurd hseg hnot
  obtain ⟨reduced, hreduced, hsegments⟩ := Pointwise.choose hreduce
  refine ⟨reduced, ?_, Pointwise.symm hsegments⟩
  simp only [reduceStream, hraw, bind, Except.bind, Reduce.process_eq_ok hreduced]

/-! ## Tables as patches -/

/-- The values that a variant leads from and to, if it is one of the key. -/
def spanAt? : (k : CanonicalKey) → ReducedVariant → Option (k.Value × k.Value)
  | .balance _, .balance t => some (t.initial, t.terminal)
  | .nonce _, .nonce t => some (t.initial, t.terminal)
  | .code _, .code t => some (t.initial, t.terminal)
  | .storage _ _, .storage t => some (t.initial, t.terminal)
  | .transient _ _, .transient t => some (t.initial, t.terminal)
  | _, _ => none

@[simp] lemma spanAt?_of (k : CanonicalKey) (t : ReducedTransition k.Value) :
    spanAt? k (.of k t) = some (t.initial, t.terminal) := by
  cases k <;> rfl

/-- The state table of a bucket. -/
def patchOf (bucket : ReducedTransactionBucket) : Patch CanonicalKey.Value :=
  fun k => bucket.stateTable[k]?.bind (spanAt? k)

lemma carries_of_records {bucket : ReducedTransactionBucket} {span : KeyStore × KeyStore}
    (h : Records bucket.stateTable span) : (patchOf bucket).Carries span.1 span.2 := by
  intro k
  have hk := h k
  cases hentry : bucket.stateTable[k]? with
  | none =>
    rw [hentry] at hk
    exact .inl ⟨by rw [patchOf, hentry]; rfl, hk.symm⟩
  | some variant =>
    rw [hentry] at hk
    obtain ⟨t, rfl, hinitial, hterminal⟩ := hk
    refine .inr ?_
    rw [patchOf, hentry, Option.bind_some, spanAt?_of, hinitial, hterminal]

/-! ## One block -/

/-- The document is a fixture of the stream, whatever its metadata and errors are. -/
def IsFixtureOf (document : Json) (stream : List Event) : Prop :=
  ∃ f : FixtureEnvelope, f.events = stream ∧ f.marshalJson = document

/-- The bridge makes of the document a stream of transactions with these payloads, and the
builder these buckets. -/
def Yields (config : BridgeConfig) (document : Json) (traces : List (List CsePayload))
    (reduced : ReducedIr) : Prop :=
  ∃ events out, parseEventStream document = some (.ok events) ∧
    translate events config = .ok out ∧ payloads out = traces.flatMap bracketed ∧
      reduceStream out = .ok reduced

/-- The bridge and the builder make these buckets of the document. -/
def ReducesTo (config : BridgeConfig) (document : Json) (reduced : ReducedIr) : Prop :=
  ∃ traces, Yields config document traces reduced

/-- A transaction of a ledger: the ledger before and after it, its hooks, and its bucket. -/
structure TxRecord where
  span : Ledger × Ledger
  hooks : HookForest
  bucket : ReducedTransactionBucket

/-- What is kept of the hooks. -/
def TxRecord.trace (r : TxRecord) : List CsePayload := r.hooks.keptPayloads none

/-- The writes of the transaction that are not undone. -/
def TxRecord.writes (r : TxRecord) : List (Write CanonicalKey.Value) := r.hooks.keptWrites

lemma TxRecord.writesOf_trace (r : TxRecord) : writesOf r.trace = r.writes :=
  r.hooks.writesOf_keptPayloads none

/-- The records are those of the transactions of the block, each with the ledger before it and
after it. -/
structure RecordsOf (b : BlockCalls) (spans : List (Ledger × Ledger)) (records : List TxRecord) :
    Prop where
  hooks : records.map (·.hooks) = b.txs.map (·.body)
  spans : records.map (·.span) = spans

/-- The hooks tell how the ledger changes, and the bucket is the reduction of what is kept of
them. -/
structure TxRecord.Faithful (r : TxRecord) : Prop where
  executes : Ledger.Executes r.span.1 r.hooks r.span.2
  reduced : Reduced r.trace r.bucket

lemma TxRecord.Faithful.replay_trace {r : TxRecord} (h : r.Faithful) :
    replay r.span.1.store (writesOf r.trace) = some r.span.2.store :=
  h.executes.replay_keptPayloads none

lemma TxRecord.Faithful.records {r : TxRecord} (h : r.Faithful) :
    Records r.bucket.stateTable (r.span.1.store, r.span.2.store) :=
  .of_tabulates h.reduced.states h.replay_trace

/-- Put together what is known of each transaction. -/
lemma exists_records {txs : List TxCalls} {spans : List (Ledger × Ledger)} {reduced : ReducedIr}
    (hspans : List.Forall₂ (fun (tx : TxCalls) span => Ledger.Executes span.1 tx.body span.2)
      txs spans)
    (hreduced : List.Forall₂ (fun (tx : TxCalls) bucket =>
      Reduced (tx.body.keptPayloads none) bucket) txs reduced) :
    ∃ records : List TxRecord, records.map (·.hooks) = txs.map (·.body) ∧
      records.map (·.span) = spans ∧ records.map (·.bucket) = reduced ∧
      ∀ r ∈ records, r.Faithful := by
  induction hspans generalizing reduced with
  | nil =>
    cases hreduced
    exact ⟨[], rfl, rfl, rfl, by simp⟩
  | @cons tx span txs spans hspan _ ih =>
    cases hreduced with
    | @cons _ bucket _ reduced hbucket hrest =>
      obtain ⟨records, hhooks, rfl, rfl, hfaithful⟩ := ih hrest
      refine ⟨⟨span, tx.body, bucket⟩ :: records, ?_, rfl, rfl, ?_⟩
      · rw [List.map_cons, List.map_cons, hhooks]
      · exact List.forall_mem_cons.mpr ⟨⟨hspan, hbucket⟩, hfaithful⟩

lemma parseEventStream_fixture {document : Json} {stream : List Event}
    (h : IsFixtureOf document stream) :
    parseEventStream document = some (.ok (goEvents stream)) := by
  obtain ⟨f, rfl, rfl⟩ := h
  exact parseEventStream_of_deserialize (deserialize_marshalJson f)

variable {env : Option EnvironmentDescriptor} (config : BridgeConfig)

/-- The document yields a record of each transaction. -/
def YieldsRecords (document : Json) (records : List TxRecord) : Prop :=
  Yields config document (records.map (·.trace)) (records.map (·.bucket)) ∧
    ∀ r ∈ records, r.Faithful

/-- The fixture of a block of a ledger yields a record of each transaction. -/
lemma yieldsRecords_block {b : BlockCalls} {l l' : Ledger} {spans : List (Ledger × Ledger)}
    (hruns : Ledger.RunsTxs l b.txs spans l') (hsmall : ∀ tx ∈ b.txs, tx.Small) (seq : UInt64)
    {document : Json} (hdocument : IsFixtureOf document (stamp seq (b.events env))) :
    ∃ records : List TxRecord, RecordsOf b spans records ∧
      YieldsRecords config document records := by
  obtain ⟨out, hout, hpayloads⟩ := @keepsUnreverted_stamp env config b hsmall seq
  have hsegments : payloads out =
      (b.txs.map fun tx => tx.body.keptPayloads none).flatMap bracketed := by
    rw [payloads, hpayloads, List.flatMap_map]
  have hexecutes := hruns.executes
  obtain ⟨reduced, hreduced, hbuckets⟩ := reduce_segments hsegments
    (fun seg hseg p hp => by
      obtain ⟨tx, -, rfl⟩ := List.mem_map.mp hseg
      obtain ⟨change, rfl⟩ := HookForest.exists_change hp
      exact change.isBoundary_payload)
    (fun seg hseg => by
      obtain ⟨tx, htx, rfl⟩ := List.mem_map.mp hseg
      obtain ⟨span, -, hspan⟩ := Pointwise.exists_left (Pointwise.symm hexecutes) htx
      exact hspan.continuous)
  rw [List.forall₂_map_left_iff] at hbuckets
  obtain ⟨records, hhooks, hspans, rfl, hfaithful⟩ := exists_records hexecutes hbuckets
  refine ⟨records, ⟨hhooks, hspans⟩,
    ⟨_, out, parseEventStream_fixture hdocument, hout, ?_, hreduced⟩, hfaithful⟩
  have htraces : records.map (·.trace) = b.txs.map fun tx => tx.body.keptPayloads none := by
    have := congrArg (List.map fun hooks : HookForest => hooks.keptPayloads none) hhooks
    rwa [List.map_map, List.map_map] at this
  rw [hsegments, htraces]

/-- The tables of the transactions of a ledger lead through the ledgers. -/
lemma leads_block {l l' : Ledger} {txs : List TxCalls} {spans : List (Ledger × Ledger)}
    (hruns : Ledger.RunsTxs l txs spans l') {records : List TxRecord}
    (hspans : records.map (·.span) = spans) (hfaithful : ∀ r ∈ records, r.Faithful) :
    Patch.Leads l.store (records.map fun r => patchOf r.bucket) (spans.map (·.2.store))
      l'.store := by
  induction hruns generalizing records with
  | nil l =>
    obtain rfl := List.map_eq_nil_iff.mp hspans
    exact .nil _
  | cons _ _ ih =>
    obtain ⟨r, records, rfl, hspan, hrest⟩ := List.map_eq_cons_iff.mp hspans
    obtain ⟨hr, hrecords⟩ := List.forall_mem_cons.mp hfaithful
    have hcarries := carries_of_records hr.records
    rw [hspan] at hcarries
    exact .cons hcarries (ih hrest hrecords)

/-! ## Runs -/

/-- The table records the transaction: its entries are the keys that the writes of the transaction
touch, with the values before the transaction and after it. -/
structure TxRecord.Recorded (r : TxRecord) : Prop where
  entries : ∀ k, (∃ variant, r.bucket.stateTable[k]? = some variant) ↔ ∃ w ∈ r.writes, w.key = k
  values : Records r.bucket.stateTable (r.span.1.store, r.span.2.store)

lemma TxRecord.Faithful.recorded {r : TxRecord} (h : r.Faithful) : r.Recorded where
  entries k := by
    rw [← r.writesOf_trace, ← history_ne_nil_iff, ← historyAt]
    rcases h.reduced.states k with ⟨hnil, hnone⟩ | ⟨v, a, rest, t, hcons, hsome, -, -⟩
    · simp [hnil, hnone]
    · simp [hcons, hsome]
  values := h.records

/-- Whatever fixture is written for the stream of a block, it yields a record of each of its
transactions, and `P` holds of it. -/
def YieldsAll (P : TxRecord → Prop) (block : BlockCalls × List (Ledger × Ledger))
    (stream : List Event) : Prop :=
  ∀ document, IsFixtureOf document stream → ∃ records : List TxRecord,
    RecordsOf block.1 block.2 records ∧ YieldsRecords config document records ∧
      ∀ r ∈ records, P r

/-- The run is one of the ledger: the values and gas prices of its transactions fit 256 bits,
the transactions are small, and there are fewer than `2 ^ 64` events. -/
structure LedgerRun (env : Option EnvironmentDescriptor) (blocks : List BlockCalls) (l : Ledger)
    (spans : List (List (Ledger × Ledger))) (l' : Ledger) : Prop where
  runs : l.RunsBlocks blocks spans l'
  fits : ∀ b ∈ blocks, ∀ tx ∈ b.txs, FitsWord tx.tx.value ∧ FitsWord tx.tx.gasPrice
  small : ∀ b ∈ blocks, ∀ tx ∈ b.txs, tx.Small
  events : (blocks.flatMap (BlockCalls.events env)).length < 2 ^ 64

namespace LedgerRun

variable {blocks : List BlockCalls} {l l' : Ledger} {spans : List (List (Ledger × Ledger))}

lemma streams_eq (h : LedgerRun env blocks l spans l') :
    (Tracer.new env).streams blocks = .ok (numbered env 0 blocks) := by
  refine (Tracer.new_streams_eq_ok_iff env).mpr ⟨fun b hb tx htx => ?_, h.events, rfl⟩
  obtain ⟨span, hspan, l₁, l₂, hruns⟩ := Pointwise.exists_left (Pointwise.symm h.runs.each) hb
  obtain ⟨txspan, -, hexecutes⟩ := Pointwise.exists_left (Pointwise.symm hruns.executes) htx
  obtain ⟨hvalue, hprice⟩ := h.fits b hb tx htx
  exact ⟨hvalue, hprice, hexecutes.fits⟩

/-- Fixtures of the streams yield records of the transactions. -/
lemma yieldsRecords (h : LedgerRun env blocks l spans l') :
    List.Forall₂ (YieldsAll config TxRecord.Faithful) (blocks.zip spans)
      (numbered env 0 blocks) := by
  have hstreams : List.Forall₂ (fun (b : BlockCalls) stream => ∀ (spans : List (Ledger × Ledger))
      (l l' : Ledger), Ledger.RunsTxs l b.txs spans l' →
        YieldsAll config TxRecord.Faithful (b, spans) stream)
      blocks (numbered env 0 blocks) := by
    refine forall₂_numbered (fun b hb seq spans l l' hruns document hdocument => ?_) 0
    obtain ⟨records, hrecords, hyields⟩ :=
      yieldsRecords_block config hruns (h.small b hb) seq hdocument
    exact ⟨records, hrecords, hyields, hyields.2⟩
  refine (Pointwise.zip h.runs.each hstreams).imp ?_
  rintro ⟨b, spans⟩ stream ⟨⟨l, l', hruns⟩, hstream⟩
  exact hstream spans l l' hruns

/-- What holds of a faithful record holds of every transaction of the run. -/
lemma yieldsAll (h : LedgerRun env blocks l spans l') {P : TxRecord → Prop}
    (hP : ∀ r : TxRecord, r.Faithful → P r) :
    ∃ streams, (Tracer.new env).streams blocks = .ok streams ∧
      List.Forall₂ (YieldsAll config P) (blocks.zip spans) streams := by
  refine ⟨_, h.streams_eq, (h.yieldsRecords config).imp fun block stream hstream => ?_⟩
  intro document hdocument
  obtain ⟨records, hrecords, hyields, hfaithful⟩ := hstream document hdocument
  exact ⟨records, hrecords, hyields, fun r hr => hP r (hfaithful r hr)⟩

end LedgerRun

/-- The tables of all blocks lead through the ledgers of the run. -/
lemma leads_blocks {blocks : List BlockCalls} {l l' : Ledger}
    {spans : List (List (Ledger × Ledger))} (hruns : Ledger.RunsBlocks l blocks spans l')
    {recordss : List (List TxRecord)}
    (h : List.Forall₂ (fun spans (records : List TxRecord) => records.map (·.span) = spans ∧
      ∀ r ∈ records, r.Faithful) spans recordss) :
    Patch.Leads l.store (recordss.flatten.map fun r => patchOf r.bucket)
      (spans.flatten.map (·.2.store)) l'.store := by
  induction hruns generalizing recordss with
  | nil l =>
    cases h
    exact .nil _
  | cons hb _ ih =>
    cases h with
    | cons hrecords hrest =>
      rw [List.flatten_cons, List.map_append, List.flatten_cons, List.map_append]
      exact (leads_block hb hrecords.1 hrecords.2).append (ih hrest)

variable {blocks : List BlockCalls} {l l' : Ledger} {spans : List (List (Ledger × Ledger))}

/-- **The tables record the ledger.**  The tracer completes every run of a ledger, and whatever
fixture is written for the stream of a block, the bridge and the builder make of it one table for
each transaction.  Its entries are the keys that the transaction writes outside reverted frames,
with the values before the transaction and after it. -/
theorem ledger_recorded (h : LedgerRun env blocks l spans l') :
    ∃ streams, (Tracer.new env).streams blocks = .ok streams ∧
      List.Forall₂ (YieldsAll config TxRecord.Recorded) (blocks.zip spans) streams :=
  h.yieldsAll config fun _ hr => hr.recorded

lemma ledgerBlocks_run :
    ∃ spans l', LedgerRun none ledgerBlocks smallLedger spans l' := by
  obtain ⟨spans, l', hruns⟩ := smallLedger_runs
  refine ⟨spans, l', hruns, ?_, ?_, by decide⟩
  · simp [ledgerBlocks, callingTx, returningTx, FitsWord]
  · have hdepths : (0 : Int64).toUInt64.toNat < 2 ^ 32 ∧ (1 : Int64).toUInt64.toNat < 2 ^ 32 := by
      decide
    simpa [ledgerBlocks, callingTx, returningTx, TxCalls.Small, NestedLog.Forest.frames]
      using hdepths

/-- The run of `ledgerBlocks` is recorded. -/
theorem ledgerBlocks_recorded :
    ∃ spans l', smallLedger.RunsBlocks ledgerBlocks spans l' ∧
      ∃ streams, (Tracer.new none).streams ledgerBlocks = .ok streams ∧
        List.Forall₂ (YieldsAll ⟨1⟩ TxRecord.Recorded) (ledgerBlocks.zip spans) streams := by
  obtain ⟨spans, l', h⟩ := ledgerBlocks_run
  exact ⟨spans, l', h.runs, ledger_recorded ⟨1⟩ h⟩

/-- **Reconstruction.**  From the fixtures of a run alone: the tables of all its transactions,
written in order over the first ledger, give the ledger after every transaction, and taken back in
reverse order from the last ledger they give the same ledgers. -/
theorem ledger_reconstructed (h : LedgerRun env blocks l spans l') :
    ∃ streams, (Tracer.new env).streams blocks = .ok streams ∧
      ∀ documents, List.Forall₂ IsFixtureOf documents streams →
        ∃ tables, List.Forall₂ (ReducesTo config) documents tables ∧
          (tables.flatten.map patchOf).scanl (fun s p => p.forward s) l.store =
            l.store :: spans.flatten.map (·.2.store) ∧
          (tables.flatten.map patchOf).scanr (fun p s => p.backward s) l'.store =
            l.store :: spans.flatten.map (·.2.store) := by
  refine ⟨_, h.streams_eq, fun documents hdocuments => ?_⟩
  have hyields : List.Forall₂ (fun document spans => ∃ records : List TxRecord,
      YieldsRecords config document records ∧ records.map (·.span) = spans ∧
        ∀ r ∈ records, r.Faithful) documents spans := by
    have hlength : blocks.length = spans.length := h.runs.each.length_eq
    rw [← List.map_snd_zip hlength.ge, List.forall₂_map_right_iff]
    refine (Pointwise.trans hdocuments (Pointwise.symm (h.yieldsRecords config))).imp ?_
    rintro document block ⟨stream, hdocument, hstream⟩
    obtain ⟨records, hrecords, hyields, hfaithful⟩ := hstream document hdocument
    exact ⟨records, hyields, hrecords.spans, hfaithful⟩
  obtain ⟨recordss, hdocs, hspans⟩ := Pointwise.choose hyields
  have hleads := leads_blocks h.runs (Pointwise.symm hspans)
  have hflatten : (recordss.map (List.map TxRecord.bucket)).flatten.map patchOf =
      recordss.flatten.map fun r => patchOf r.bucket := by
    rw [← List.map_flatten, List.map_map]
    rfl
  refine ⟨recordss.map (List.map TxRecord.bucket), ?_, ?_, ?_⟩
  · rw [List.forall₂_map_right_iff]
    exact hdocs.imp fun _ _ hyields => ⟨_, hyields.1⟩
  · rw [hflatten, hleads.scanl_forward]
  · rw [hflatten, hleads.scanr_backward]

/-- The ledgers of `ledgerBlocks` can be reconstructed. -/
theorem ledgerBlocks_reconstructed :
    ∃ spans l', smallLedger.RunsBlocks ledgerBlocks spans l' ∧
      ∃ streams, (Tracer.new none).streams ledgerBlocks = .ok streams ∧
        ∀ documents, List.Forall₂ IsFixtureOf documents streams →
          ∃ tables, List.Forall₂ (ReducesTo ⟨1⟩) documents tables ∧
            (tables.flatten.map patchOf).scanl (fun s p => p.forward s) smallLedger.store =
              smallLedger.store :: spans.flatten.map (·.2.store) ∧
            (tables.flatten.map patchOf).scanr (fun p s => p.backward s) l'.store =
              smallLedger.store :: spans.flatten.map (·.2.store) := by
  obtain ⟨spans, l', h⟩ := ledgerBlocks_run
  exact ⟨spans, l', h.runs, ledger_reconstructed ⟨1⟩ h⟩

end KaySentinel.Pipeline
