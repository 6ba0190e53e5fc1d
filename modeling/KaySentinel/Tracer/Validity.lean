import KaySentinel.Tracer.Runs
import KaySentinel.Validation.Walk

/-!
# Gate 1 on the streams of the tracer

The transactions of a run walk as Gate 1 wants them to.  Only the first block passes, since
`OnBlockStart` does not reset the sequence counter.
-/

namespace KaySentinel

open Emes NestedLog Validation

/-! ## The walk over a trace -/

namespace TraceForest

/-- Inside a frame the walk over a trace comes back to that frame. -/
lemma walk_inside (top : UInt64) (rest : List UInt64) (count : ℕ) (reverted : Bool)
    (f : TraceForest) :
    walk (some ⟨top :: rest, count, reverted⟩) ((f.events top).map EventData.goEvent) =
      some (some ⟨top :: rest, count, reverted⟩) := by
  induction f generalizing top rest with
  | nil => rfl
  | leaf change f ih =>
    rw [TraceForest.events, List.map_cons, walk_cons,
      walkStep_mutation (change.mutation?_event top)]
    exact ih top rest
  | node frame inner f ihinner ihrest =>
    have henter : walkStep (some ⟨top :: rest, count, reverted⟩) (frame.enterEvent top).goEvent =
        some (some ⟨frame.frameId :: top :: rest, count, reverted⟩) := if_pos rfl
    have hexit : walkStep (some ⟨frame.frameId :: top :: rest, count, reverted⟩)
        frame.exitEvent.goEvent = some (some ⟨top :: rest, count, reverted⟩) := if_pos rfl
    rw [TraceForest.events, List.map_cons, walk_cons, henter, Option.bind_some, List.map_append,
      walk_append, ihinner, Option.bind_some, List.map_cons, walk_cons, hexit]
    exact ihrest top rest

/-- Outside all frames the walk over a trace counts the root frames and keeps the flag of the
last one. -/
lemma walk_outside (count : ℕ) (reverted : Bool) (f : TraceForest) :
    walk (some ⟨[], count, reverted⟩) ((f.events noParentFrame).map EventData.goEvent) =
      some (some ⟨[], count + f.roots.length,
        (f.roots.map TracedFrame.reverted).getLastD reverted⟩) := by
  induction f generalizing count reverted with
  | nil => rfl
  | leaf change f ih =>
    rw [TraceForest.events, List.map_cons, walk_cons,
      walkStep_mutation (change.mutation?_event noParentFrame)]
    exact ih count reverted
  | node frame inner f _ ihrest =>
    have henter : walkStep (some ⟨[], count, reverted⟩)
        (frame.enterEvent noParentFrame).goEvent =
        some (some ⟨[frame.frameId], count + 1, reverted⟩) := by
      rw [TracedFrame.enterEvent, EventData.goEvent, walkStep]
      exact if_pos rfl
    have hexit : walkStep (some ⟨[frame.frameId], count + 1, reverted⟩) frame.exitEvent.goEvent =
        some (some ⟨[], count + 1, frame.reverted⟩) := if_pos rfl
    rw [TraceForest.events, List.map_cons, walk_cons, henter, Option.bind_some, List.map_append,
      walk_append, walk_inside, Option.bind_some, List.map_cons, walk_cons, hexit,
      Option.bind_some, ihrest, Forest.roots, List.map_cons, List.getLastD_cons,
      List.length_cons, add_assoc, add_comm 1]

end TraceForest

/-- The root frames of a trace are those of the hooks, with the same flags. -/
lemma roots_trace (env : Option EnvironmentDescriptor) (current : UInt64) (hooks : HookForest)
    (ids : Ids) :
    (trace env current hooks ids).1.roots.map TracedFrame.reverted =
      hooks.roots.map FrameCalls.reverted := by
  induction hooks generalizing current ids with
  | nil => rfl
  | leaf hook rest ih =>
    rw [trace, Forest.roots_prepend]
    exact ih current _
  | node frame inner rest _ ihrest => exact congrArg (frame.reverted :: ·) (ihrest current _)

/-! ## The walk over a block -/

/-- At most one root frame.  If there is one, `OnTxEnd` reports no error, and a failed receipt
exactly if the frame was reverted. -/
def TxCalls.Conforms (tx : TxCalls) : Prop :=
  tx.body.roots.length ≤ 1 ∧ ∀ root ∈ tx.body.roots, tx.fin.err = none ∧
    tx.fin.receipt.any (·.status = receiptStatusFailed) = root.reverted

def BlockCalls.Conforms (b : BlockCalls) : Prop := ∀ tx ∈ b.txs, tx.Conforms

variable {env : Option EnvironmentDescriptor}

lemma walk_tx {tx : TxCalls} (h : tx.Conforms) :
    walk none ((tx.events env).map EventData.goEvent) = some none := by
  obtain ⟨hcount, hroot⟩ := h
  have hroots : (tx.trace env).1.roots.map TracedFrame.reverted =
      tx.body.roots.map FrameCalls.reverted := roots_trace env noParentFrame tx.body _
  have hlen : (tx.trace env).1.roots.length = tx.body.roots.length := by
    simpa using congrArg List.length hroots
  have hend : walkStep (some ⟨[], 0 + (tx.trace env).1.roots.length,
        ((tx.trace env).1.roots.map TracedFrame.reverted).getLastD false⟩)
      (EventData.transactionEnd { txIndex := 0, reverted := tx.fin.reverted }).goEvent =
        some none := by
    refine if_pos ⟨rfl, ?_, fun hone => ?_⟩
    · rwa [zero_add, hlen]
    · rw [zero_add, hlen] at hone
      obtain ⟨root, hbody⟩ := List.length_eq_one_iff.mp hone
      obtain ⟨herr, hstatus⟩ := hroot root (by simp [hbody])
      rw [hroots, hbody]
      simpa [TxEndArgs.reverted, herr] using hstatus
  have hstart : walkStep none tx.startEvent.goEvent = some (some .start) := rfl
  rw [TxCalls.events, List.map_cons, walk_cons, hstart, Option.bind_some, List.map_append,
    walk_append, OpenTransaction.start, TraceForest.walk_outside, Option.bind_some, List.map_cons,
    walk_cons, hend]
  rfl

lemma walk_txs {txs : List TxCalls} (h : ∀ tx ∈ txs, tx.Conforms) :
    walk none ((txs.flatMap (TxCalls.events env)).map EventData.goEvent) = some none := by
  induction txs with
  | nil => rfl
  | cons tx txs ih =>
    obtain ⟨htx, htxs⟩ := List.forall_mem_cons.mp h
    rw [List.flatMap_cons, List.map_append, walk_append, walk_tx htx]
    exact ih htxs

/-! ## Which streams pass -/

/-- Sequence numbers grow while the counter does not wrap around. -/
lemma increasing_stamp {seq : UInt64} {es : List EventData}
    (h : seq.toNat + es.length < 2 ^ 64) : Increasing (stamp seq es) := by
  induction es generalizing seq with
  | nil => exact .nil
  | cons e es ih =>
    cases es with
    | nil => exact .singleton _
    | cons e' es =>
      have hlt : seq.toNat + 1 < 2 ^ 64 := by
        simp only [List.length_cons] at h
        omega
      have hsucc : (seq + 1).toNat = seq.toNat + 1 := toNat_add_ofNat hlt
      refine .cons_cons ?_ (ih ?_)
      · rw [UInt64.lt_iff_toNat_lt, hsucc]
        exact Nat.lt_succ_self _
      · rw [hsucc]
        simp only [List.length_cons] at h ⊢
        omega

/-- The stream of a block passes exactly if it starts at sequence number zero. -/
lemma verify_block_iff {b : BlockCalls} {seq : UInt64} (hconforms : b.Conforms)
    (hroom : seq.toNat + (b.events env).length < 2 ^ 64) :
    verifyGate1Invariants (stamp seq (b.events env)) = .ok () ↔ seq = 0 := by
  have hstream : stamp seq (b.events env) =
      ⟨seq, b.startEvent⟩ :: (stamp (seq + 1) (b.txs.flatMap (TxCalls.events env)) ++
        [⟨seq + 1 + UInt64.ofNat (b.txs.flatMap (TxCalls.events env)).length,
          .blockCommit { stateRoot := b.header.root }⟩]) := by
    rw [BlockCalls.events, stamp, stamp_append]
    rfl
  rw [verifyGate1Invariants_iff_walks]
  constructor
  · rintro ⟨start, interior, seq', commit, heq, -⟩
    rw [hstream] at heq
    exact congrArg Event.sequence (List.cons_eq_cons.mp heq).1
  · rintro rfl
    refine ⟨_, _, _, _, hstream, increasing_stamp hroom, ?_⟩
    rw [goEvents_stamp]
    exact walk_txs hconforms

lemma length_events_pos (b : BlockCalls) : 0 < (b.events env).length := Nat.succ_pos _

/-- In the streams of a run only the first passes, and only if the counter started at zero. -/
lemma verify_numbered_iff {blocks : List BlockCalls} {seq : UInt64}
    (hconforms : ∀ b ∈ blocks, b.Conforms)
    (hroom : seq.toNat + (blocks.flatMap (BlockCalls.events env)).length < 2 ^ 64) {k : ℕ}
    {stream : List Event} (h : (numbered env seq blocks)[k]? = some stream) :
    verifyGate1Invariants stream = .ok () ↔ seq = 0 ∧ k = 0 := by
  induction blocks generalizing seq k with
  | nil => simp [numbered] at h
  | cons b blocks ih =>
    obtain ⟨hb, hblocks⟩ := List.forall_mem_cons.mp hconforms
    rw [List.flatMap_cons, List.length_append] at hroom
    cases k with
    | zero =>
      obtain rfl := Option.some.inj h
      rw [verify_block_iff hb (by omega), and_iff_left rfl]
    | succ k =>
      have hseq : (seq + UInt64.ofNat (b.events env).length).toNat =
          seq.toNat + (b.events env).length := toNat_add_ofNat (by omega)
      -- the counter has moved on by at least the two events of a block
      have hne : seq + UInt64.ofNat (b.events env).length ≠ 0 := by
        intro hzero
        have hpos : 0 < (b.events env).length := length_events_pos b
        rw [hzero] at hseq
        simp only [UInt64.reduceToNat] at hseq
        omega
      rw [ih hblocks (by rw [hseq]; omega) h]
      exact iff_of_false (fun h => hne h.1) fun h => Nat.succ_ne_zero k h.2

lemma length_numbered (seq : UInt64) (blocks : List BlockCalls) :
    (numbered env seq blocks).length = blocks.length := by
  induction blocks generalizing seq with
  | nil => rfl
  | cons b blocks ih => exact congrArg (· + 1) (ih _)

/-- **Gate 1, exactly.**  Of the streams that a tracer returns for the blocks of a run, Gate 1
accepts the first and no other: `OnBlockStart` clears the events and the error log, but the
sequence counter goes on from the block before. -/
theorem Tracer.streams_accepted_iff (env : Option EnvironmentDescriptor)
    {blocks : List BlockCalls} (hconforms : ∀ b ∈ blocks, b.Conforms) :
    ((∃ streams, (Tracer.new env).streams blocks = .ok streams) ↔
        (∀ b ∈ blocks, b.Fits) ∧ (blocks.flatMap (BlockCalls.events env)).length < 2 ^ 64) ∧
      ∀ streams, (Tracer.new env).streams blocks = .ok streams →
        streams.length = blocks.length ∧
          ∀ k stream, streams[k]? = some stream →
            (verifyGate1Invariants stream = .ok () ↔ k = 0) := by
  refine ⟨Tracer.exists_streams_iff env, fun streams hstreams => ?_⟩
  obtain ⟨-, hevents, rfl⟩ := (Tracer.new_streams_eq_ok_iff env).mp hstreams
  refine ⟨length_numbered _ _, fun k stream hstream => ?_⟩
  rw [verify_numbered_iff hconforms (by rwa [UInt64.toNat_zero, zero_add]) hstream]
  exact and_iff_right rfl

/-- Two blocks.  The transaction of the first fails in its root frame. -/
def twoBlocks : List BlockCalls :=
  [{ header := { root := Bytes.fill 32 1, number := 1, time := 10 }
     txs :=
      [{ tx := { hash := Bytes.fill 32 7, to_ := some (Bytes.fill 20 2), value := some 3,
                 gas := 21000, gasPrice := some 1, nonce := 0 }
         from_ := Bytes.fill 20 1
         body :=
          .leaf (.onNonceChangeV2 (Bytes.fill 20 1) 0 1)
            (.node { enter := { depth := 0, typ := 0xf1, from_ := Bytes.fill 20 1,
                                to_ := Bytes.fill 20 2 }, reverted := true }
              (.leaf (.onBalanceChange (Bytes.fill 20 1) (some 9) (some 6) .other) .nil) .nil)
         fin := { receipt := some { status := receiptStatusFailed }, err := none } }] },
    { header := { root := Bytes.fill 32 2, number := 2, time := 20 }, txs := [] }]

/-- Gate 1 accepts the first of `twoBlocks` and rejects the second. -/
theorem twoBlocks_accepted :
    ∃ first second, (Tracer.new none).streams twoBlocks = .ok [first, second] ∧
      verifyGate1Invariants first = .ok () ∧ verifyGate1Invariants second ≠ .ok () := by
  have hrun : ∃ first second, (Tracer.new none).streams twoBlocks = .ok [first, second] :=
    ⟨_, _, rfl⟩
  have hconforms : ∀ b ∈ twoBlocks, b.Conforms := by
    simp [twoBlocks, BlockCalls.Conforms, TxCalls.Conforms, Forest.roots]
  obtain ⟨first, second, hstreams⟩ := hrun
  obtain ⟨-, haccepted⟩ := (Tracer.streams_accepted_iff none hconforms).2 _ hstreams
  exact ⟨first, second, hstreams, (haccepted 0 first rfl).mpr rfl,
    fun h => absurd ((haccepted 1 second rfl).mp h) (by decide)⟩

/-- A block without transactions. -/
def emptyBlock (number : UInt64) : BlockCalls :=
  { header := { root := Bytes.zero 32, number := number, time := 0 }, txs := [] }

/-- The second of two empty blocks starts at sequence number two. -/
theorem emptyBlocks_second_rejected :
    ∃ first second, (∀ b ∈ [emptyBlock 1, emptyBlock 2], b.Conforms) ∧
      (Tracer.new none).streams [emptyBlock 1, emptyBlock 2] = .ok [first, second] ∧
      second.map (·.sequence) = [2, 3] ∧
      verifyGate1Invariants second =
        .error ⟨0, "block-encapsulation", "BlockStartEvent must have Sequence 0"⟩ := by
  refine ⟨_, _, ?_, rfl, rfl, rfl⟩
  simp [emptyBlock, BlockCalls.Conforms]

end KaySentinel
