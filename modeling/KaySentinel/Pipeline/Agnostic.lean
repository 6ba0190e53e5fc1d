import KaySentinel.Pipeline.Recording

/-!
# What does not reach the pipeline

Two clients may describe one execution differently: the environment, the addresses and opcodes of
calls, gas, the sender and the receipts of transactions, the state roots and times of blocks.  None
of that reaches the canonical events: `client_agnostic`.
-/

namespace KaySentinel

open Bridge Emes NestedLog

/-! ## Anonymous runs -/

/-- Of a frame the bridge sees the depth and whether it is reverted. -/
def FrameCalls.anonymous (frame : FrameCalls) : FrameCalls where
  enter :=
    { depth := frame.enter.depth
      typ := 0
      from_ := Bytes.zero 20
      to_ := Bytes.zero 20 }
  reverted := frame.reverted

/-- Of a transaction the bridge sees the hash, the mutations and the frames. -/
def TxCalls.anonymous (tx : TxCalls) : TxCalls where
  tx :=
    { hash := tx.tx.hash
      to_ := none
      value := none
      gas := 0
      gasPrice := none
      nonce := 0 }
  from_ := Bytes.zero 20
  body := tx.body.mapFrames FrameCalls.anonymous
  fin := { receipt := none, err := none }

/-- Of a block the bridge sees the number and the transactions. -/
def BlockCalls.anonymous (b : BlockCalls) : BlockCalls where
  header := { root := Bytes.zero 32, number := b.header.number, time := 0 }
  txs := b.txs.map TxCalls.anonymous

/-! ## What the bridge reads -/

namespace Bridge

/-- The event without the flag of the end of a transaction. -/
def GoEvent.forget : GoEvent → GoEvent
  | .transactionEnd data => .transactionEnd { data with reverted := false }
  | event => event

variable {config : BridgeConfig}

lemma translateStep_forget (i : ℕ) (s : TranslateState) (event : GoEvent) :
    translateStep config i s event.forget = translateStep config i s event := by
  cases event <;> rfl

lemma translateLoop_forget (i : ℕ) (s : TranslateState) (events : List GoEvent) :
    translateLoop config i s (events.map GoEvent.forget) = translateLoop config i s events := by
  induction events generalizing i s with
  | nil => rfl
  | cons event events ih =>
    rw [List.map_cons, translateLoop, translateStep_forget, translateLoop]
    exact congrArg (translateStep config i s event >>= ·) (funext fun mid => ih (i + 1) mid)

/-- The bridge does not look at the flag. -/
lemma translate_forget (events : List GoEvent) :
    translate (events.map GoEvent.forget) config = translate events config := by
  rw [translate, translateLoop_forget, List.length_map, translate]

end Bridge

/-- What the bridge reads of recorded events. -/
def readOf (events : List EventData) : List GoEvent := events.map fun e => e.goEvent.forget

lemma readOf_cons (e : EventData) (events : List EventData) :
    readOf (e :: events) = e.goEvent.forget :: readOf events := rfl

lemma readOf_append (events events' : List EventData) :
    readOf (events ++ events') = readOf events ++ readOf events' := List.map_append

variable (env : Option EnvironmentDescriptor)

/-- The trace of anonymous hooks reads like that of the hooks, with the same frame ids. -/
lemma readOf_trace (current : UInt64) (hooks : HookForest) (ids : Ids) :
    readOf (TraceForest.events current (trace env current hooks ids).1) =
        readOf (TraceForest.events current
          (trace none current (hooks.mapFrames FrameCalls.anonymous) ids).1) ∧
      (trace env current hooks ids).2 =
        (trace none current (hooks.mapFrames FrameCalls.anonymous) ids).2 := by
  induction hooks generalizing current ids with
  | nil => exact ⟨rfl, rfl⟩
  | leaf hook rest ih =>
    obtain ⟨hevents, hids⟩ := ih current
      (ids.wait current (hook.pendingAfter (ids.pending current)))
    refine ⟨?_, hids⟩
    rw [Forest.mapFrames, trace, trace, TraceForest.events_prepend, readOf_append, hevents,
      TraceForest.events_prepend, readOf_append]
  | node frame inner rest ihinner ihrest =>
    obtain ⟨hinner, hinnerIds⟩ := ihinner ids.nextFrameId ids.enter
    obtain ⟨hrest, hrestIds⟩ := ihrest current (trace env ids.nextFrameId inner ids.enter).2
    rw [hinnerIds] at hrest hrestIds
    rw [Forest.mapFrames, trace, trace]
    refine ⟨?_, ?_⟩
    · simp only [TraceForest.events, readOf_cons, readOf_append, FrameCalls.traced]
      rw [hinner, hinnerIds, hrest]
      rfl
    · simp only [hinnerIds]
      exact hrestIds

lemma readOf_tx (tx : TxCalls) :
    readOf (tx.events env) = readOf (tx.anonymous.events none) := by
  rw [TxCalls.events, TxCalls.events, readOf_cons, readOf_cons, readOf_append, readOf_append,
    TxCalls.trace, TxCalls.trace, (readOf_trace env noParentFrame tx.body _).1]
  rfl

lemma readOf_block (b : BlockCalls) :
    readOf (b.events env) = readOf (b.anonymous.events none) := by
  have htxs : readOf (b.txs.flatMap (TxCalls.events env)) =
      readOf ((b.txs.map TxCalls.anonymous).flatMap (TxCalls.events none)) := by
    rw [readOf, List.map_flatMap, readOf, List.map_flatMap, List.flatMap_map]
    exact List.flatMap_congr fun tx _ => readOf_tx env tx
  rw [BlockCalls.events, BlockCalls.events, readOf_cons, readOf_cons, readOf_append, readOf_append,
    htxs]
  rfl

namespace Pipeline

/-- The bridge makes the same of both documents, whatever they are fixtures of. -/
def BridgedAlike (document document' : Json) : Prop :=
  ∃ events events', parseEventStream document = some (.ok events) ∧
    parseEventStream document' = some (.ok events') ∧
      ∀ config, translate events config = translate events' config

variable {env} in
lemma translate_stamp (config : BridgeConfig) (b : BlockCalls) (seq : UInt64) :
    translate (goEvents (stamp seq (b.events env))) config =
      translate (readOf (b.anonymous.events none)) config := by
  rw [goEvents_stamp, ← readOf_block env, ← translate_forget, List.map_map]
  rfl

variable {env env' : Option EnvironmentDescriptor}

/-- **The pipeline is agnostic of the client.**  Take two runs of new tracers in any environments
that complete and agree, block by block, in the number, in the transactions' hashes, in the
mutation hooks and in the depths and outcomes of the frames.  Whatever fixtures are written for
their streams, the bridge makes of them the same canonical events, or fails with the same error. -/
theorem client_agnostic {blocks blocks' : List BlockCalls} {streams streams' : List (List Event)}
    (hsame : blocks.map BlockCalls.anonymous = blocks'.map BlockCalls.anonymous)
    (h : (Tracer.new env).streams blocks = .ok streams)
    (h' : (Tracer.new env').streams blocks' = .ok streams') :
    List.Forall₂ (fun stream stream' => ∀ document document', IsFixtureOf document stream →
      IsFixtureOf document' stream' → BridgedAlike document document') streams streams' := by
  obtain ⟨-, -, rfl⟩ := (Tracer.new_streams_eq_ok_iff env).mp h
  obtain ⟨-, -, rfl⟩ := (Tracer.new_streams_eq_ok_iff env').mp h'
  have hread : ∀ (env : Option EnvironmentDescriptor) (blocks : List BlockCalls),
      List.Forall₂ (fun b stream => ∀ config, translate (goEvents stream) config =
        translate (readOf (b.anonymous.events none)) config) blocks (numbered env 0 blocks) :=
    fun env blocks => forall₂_numbered (fun b _ seq config => translate_stamp config b seq) 0
  rw [← List.forall₂_eq_eq_eq, List.forall₂_map_left_iff, List.forall₂_map_right_iff] at hsame
  have hstreams := Pointwise.trans (Pointwise.trans (Pointwise.symm (hread env blocks)) hsame)
    (hread env' blocks')
  refine hstreams.imp ?_
  rintro stream stream' ⟨b', ⟨b, hstream, hb⟩, hstream'⟩ document document' hdoc hdoc'
  refine ⟨_, _, parseEventStream_fixture hdoc, parseEventStream_fixture hdoc', fun config => ?_⟩
  rw [hstream, hstream', hb]

/-- Another client's description of the run of `destroyingBlocks`. -/
def foreignBlocks : List BlockCalls :=
  [{ header := { root := Bytes.fill 32 9, number := 1, time := 11 }
     txs := [
      { tx := { hash := Bytes.fill 32 7, to_ := none, value := some 5, gas := 1, gasPrice := none,
                nonce := 3 }
        from_ := Bytes.fill 20 6
        body := destroyingTx.body.mapFrames FrameCalls.anonymous
        fin := { receipt := none, err := some "out of gas" } }] },
    { header := { root := Bytes.zero 32, number := 2, time := 0 }, txs := [] }]

/-- The bridge makes the same of `foreignBlocks` and `destroyingBlocks`. -/
theorem foreignBlocks_agnostic :
    ∃ streams streams', (Tracer.new none).streams destroyingBlocks = .ok streams ∧
      (Tracer.new (some ⟨fun _ => true⟩)).streams foreignBlocks = .ok streams' ∧
      List.Forall₂ (fun stream stream' => ∀ document document', IsFixtureOf document stream →
        IsFixtureOf document' stream' → BridgedAlike document document') streams streams' := by
  have hrun : ∃ streams, (Tracer.new none).streams destroyingBlocks = .ok streams := ⟨_, rfl⟩
  have hrun' : ∃ streams,
      (Tracer.new (some ⟨fun _ => true⟩)).streams foreignBlocks = .ok streams := ⟨_, rfl⟩
  have hsame : destroyingBlocks.map BlockCalls.anonymous =
      foreignBlocks.map BlockCalls.anonymous := by
    simp [destroyingBlocks, foreignBlocks, destroyingTx, BlockCalls.anonymous, TxCalls.anonymous,
      Forest.mapFrames, FrameCalls.anonymous]
  obtain ⟨streams, hstreams⟩ := hrun
  obtain ⟨streams', hstreams'⟩ := hrun'
  exact ⟨streams, streams', hstreams, hstreams', client_agnostic hsame hstreams hstreams'⟩

end Pipeline

end KaySentinel
