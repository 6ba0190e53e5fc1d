import KaySentinel.Bridge.Metadata
import KaySentinel.Builder.Lossless
import KaySentinel.Tracer.SelfDestruct

/-!
# Transaction positions

The bridge stamps the events of a transaction with the index of its `TransactionStart`, and the
partition copies it to the bucket.  The tracer never sets the index: every bucket has index zero,
as `Tracer.positions_iff` says.
-/

namespace KaySentinel

open Bridge Builder Cse Emes NestedLog

/-! ## Positions -/

/-- The bucket belongs to the transaction at a place of the block with this number. -/
structure Positioned (number : UInt64) (place : TxCalls × ℕ) (bucket : TransactionBucket) :
    Prop where
  blockNumber : bucket.metadata.blockNumber = number
  transactionHash : bucket.metadata.transactionHash = place.1.tx.hash
  transactionIndex : bucket.metadata.transactionIndex.toNat = place.2

/-- The bridge and the partition make one bucket of each transaction of the block, with its place
in the block; its end is marked with the index of its start, and no two buckets share one. -/
def PositionsSurvive (config : BridgeConfig) (b : BlockCalls) (stream : List Event) : Prop :=
  ∃ out raw, translate (goEvents stream) config = .ok out ∧ Partition.process out = .ok raw ∧
    List.Forall₂ (Positioned b.header.number) b.txs.zipIdx raw ∧
    (∀ span ∈ spans (goEvents stream), span.fin.txIndex = span.start.txIndex) ∧
    (raw.map fun bucket => bucket.metadata.transactionIndex).Nodup

/-! ## The transactions of a stream -/

variable {env : Option EnvironmentDescriptor}

/-- What the bridge sees of a transaction. -/
def TxCalls.span (env : Option EnvironmentDescriptor) (tx : TxCalls) : TransactionSpan where
  start := { txIndex := 0, hash := tx.tx.hash }
  body := tx.goBody env
  fin := { txIndex := 0, reverted := tx.fin.reverted }

/-- No block starts in a trace. -/
lemma TraceForest.numberAfter_events (number current : UInt64) (f : TraceForest) :
    numberAfter number ((f.events current).map EventData.goEvent) = number := by
  induction f generalizing current with
  | nil => rfl
  | leaf change f ih =>
    have hchange := numberAfter_of_mutation (change.mutation?_event current) number
    rw [TraceForest.events, List.map_cons, numberAfter, List.foldl_cons, hchange]
    exact ih current
  | node frame inner f ihinner ihrest =>
    have hinner := ihinner frame.frameId
    have hrest := ihrest current
    rw [numberAfter] at hinner hrest
    rw [TraceForest.events, List.map_cons, List.map_append, List.map_cons, numberAfter,
      List.foldl_cons, List.foldl_append]
    show List.foldl _ (List.foldl _ number _) _ = number
    rw [hinner]
    exact hrest

/-- The transactions of a block, each after the number of the block. -/
lemma blockSpans_block (b : BlockCalls) :
    blockSpans 0 ((b.events env).map EventData.goEvent) =
      b.txs.map fun tx => (b.header.number, tx.span env) := by
  have htx : ∀ (tx : TxCalls) rest,
      blockSpans b.header.number ((tx.events env).map EventData.goEvent ++ rest) =
        (b.header.number, tx.span env) :: blockSpans b.header.number rest := by
    intro tx rest
    have hinside : Inside (tx.goBody env) := TraceForest.inside_events _ _
    have hnumber : numberAfter b.header.number (tx.goBody env) = b.header.number :=
      TraceForest.numberAfter_events _ _ _
    rw [goEvents_tx_append, blockSpans_start _ hinside, hnumber]
    rfl
  have hstart : blockSpans 0 ((b.events env).map EventData.goEvent) = blockSpans b.header.number
      ((b.txs.flatMap fun tx => (tx.events env).map EventData.goEvent) ++ [.blockCommit]) := by
    rw [goEvents_block]
    rfl
  rw [hstart, read_flatMap htx]
  exact List.append_nil _

/-- The indices of the markers agree: all of them are zero. -/
lemma txIndex_spans (b : BlockCalls) :
    ∀ span ∈ spans ((b.events env).map EventData.goEvent),
      span.fin.txIndex = span.start.txIndex := by
  rw [← map_snd_blockSpans 0, blockSpans_block, List.map_map]
  intro span hspan
  obtain ⟨tx, -, rfl⟩ := List.mem_map.mp hspan
  rfl

/-! ## The buckets of a stream -/

/-- The metadata of the bucket of a transaction. -/
def TxCalls.metadata (config : BridgeConfig) (number : UInt64) (tx : TxCalls) :
    TransactionMetadata where
  chainId := config.chainId
  blockNumber := number
  blockHash := Bytes.zero 32
  transactionHash := tx.tx.hash
  transactionIndex := 0

/-- **The buckets of a block.**  The partition makes one bucket of each transaction, and every
bucket has the index zero. -/
lemma metadata_block {config : BridgeConfig} {b : BlockCalls} {out : List CanonicalSemanticEvent}
    (h : translate ((b.events env).map EventData.goEvent) config = .ok out) :
    ∃ raw, Partition.process out = .ok raw ∧
      raw.map (·.metadata) = b.txs.map (TxCalls.metadata config b.header.number) := by
  obtain ⟨txs, rfl, hstamped⟩ := stamped_of_translate h
  refine ⟨_, Partition.process_flatMap txs, ?_⟩
  rw [blockSpans_block, List.forall₂_map_left_iff] at hstamped
  rw [← List.forall₂_eq_eq_eq, List.map_map, List.forall₂_map_left_iff,
    List.forall₂_map_right_iff]
  refine (Pointwise.symm hstamped).imp fun t tx hs => ?_
  have hbegin : t.begin.context.provisional =
      provisionalOf config b.header.number (tx.span env).start := hs.begin
  rw [Function.comp_apply, metadata_bucketOf, TransactionBucket.new, hbegin]
  rfl

/-! ## Runs -/

/-- Buckets in their places have different indices. -/
lemma nodup_of_positioned {number : UInt64} {txs : List TxCalls} {raw : RawIr}
    (h : List.Forall₂ (Positioned number) txs.zipIdx raw) :
    (raw.map (·.metadata.transactionIndex)).Nodup := by
  have hindices : raw.map (·.metadata.transactionIndex.toNat) = List.range' 0 txs.length := by
    rw [← List.zipIdx_map_snd 0 txs, ← List.forall₂_eq_eq_eq, List.forall₂_map_left_iff,
      List.forall₂_map_right_iff]
    exact (Pointwise.symm h).imp fun _ _ hplace => hplace.transactionIndex
  refine List.Nodup.of_map UInt32.toNat ?_
  rw [List.map_map]
  exact hindices ▸ List.nodup_range'

/-- Indices that are all zero are positions in a list of at most one. -/
lemma positioned_iff {config : BridgeConfig} {number : UInt64} {txs : List TxCalls} {raw : RawIr}
    (h : raw.map (·.metadata) = txs.map (TxCalls.metadata config number)) :
    List.Forall₂ (Positioned number) txs.zipIdx raw ↔ txs.length ≤ 1 := by
  rcases txs with _ | ⟨tx, _ | ⟨next, txs⟩⟩
  · obtain rfl : raw = [] := List.map_eq_nil_iff.mp h
    exact iff_of_true .nil (Nat.zero_le _)
  · obtain ⟨bucket, rfl, hbucket⟩ := List.map_eq_singleton_iff.mp h
    have hmetadata : bucket.metadata = tx.metadata config number := hbucket
    refine iff_of_true (.cons ⟨?_, ?_, ?_⟩ .nil) le_rfl <;> rw [hmetadata] <;> rfl
  · obtain ⟨bucket, rest, rfl, -, hrest⟩ := List.map_eq_cons_iff.mp h
    obtain ⟨bucket', rest', rfl, hbucket, -⟩ := List.map_eq_cons_iff.mp hrest
    have hmetadata : bucket'.metadata = next.metadata config number := hbucket
    refine iff_of_false ?_ (by simp)
    intro hpositioned
    -- the second bucket is the one with index one
    have hindex := (List.forall₂_cons.mp (List.forall₂_cons.mp hpositioned).2).1.transactionIndex
    rw [hmetadata] at hindex
    exact absurd hindex (by simp [TxCalls.metadata])

lemma positionsSurvive_stamp_iff (config : BridgeConfig) {b : BlockCalls}
    (h : (b.events env).length < 2 ^ 64) (seq : UInt64) :
    PositionsSurvive config b (stamp seq (b.events env)) ↔
      b.txs.length ≤ 1 ∧ ∀ tx ∈ b.txs, tx.body.Stampable 0 := by
  have hlength : ∀ tx ∈ b.txs, tx.body.frames.length < 2 ^ 64 := fun tx htx =>
    length_frames_lt (Nat.lt_of_le_of_lt (length_tx_events_le htx) h)
  have haccepted := (translate_isOk_iff config).trans (@bracketed_block_iff env b hlength)
  rw [PositionsSurvive, goEvents_stamp]
  constructor
  · rintro ⟨out, raw, hout, hraw, hpositioned, -, -⟩
    obtain ⟨raw', hraw', hmetadata⟩ := metadata_block hout
    obtain rfl := Except.ok.inj (hraw.symm.trans hraw')
    exact ⟨(positioned_iff hmetadata).mp hpositioned, haccepted.mp ⟨out, hout⟩⟩
  · rintro ⟨hle, hstampable⟩
    obtain ⟨out, hout⟩ := haccepted.mpr hstampable
    obtain ⟨raw, hraw, hmetadata⟩ := metadata_block hout
    have hpositioned := (positioned_iff hmetadata).mpr hle
    exact ⟨out, raw, hout, hraw, hpositioned, txIndex_spans b, nodup_of_positioned hpositioned⟩

/-- **Transaction positions, exactly.**  In a completed run the buckets of a block carry the
positions of its transactions if and only if the bridge accepts the stream of the block and there
is at most one transaction in it. -/
theorem Tracer.positions_iff (env : Option EnvironmentDescriptor) (config : BridgeConfig)
    {blocks : List BlockCalls} {streams : List (List Event)}
    (h : (Tracer.new env).streams blocks = .ok streams) :
    List.Forall₂ (fun b stream => PositionsSurvive config b stream ↔
      b.txs.length ≤ 1 ∧ ∀ tx ∈ b.txs, tx.body.Stampable 0) blocks streams := by
  obtain ⟨-, hevents, rfl⟩ := (Tracer.new_streams_eq_ok_iff env).mp h
  refine forall₂_numbered (fun b hb => positionsSurvive_stamp_iff config ?_) 0
  exact Nat.lt_of_le_of_lt (length_le_length_flatMap hb) hevents

/-- The one transaction of the first block of `destroyingBlocks` keeps its position. -/
theorem destroyingBlocks_positioned :
    ∃ first second, (Tracer.new none).streams destroyingBlocks = .ok [first, second] ∧
      PositionsSurvive ⟨1⟩ { header := { root := Bytes.fill 32 1, number := 1, time := 10 },
                             txs := [destroyingTx] } first := by
  have hrun : ∃ first second, (Tracer.new none).streams destroyingBlocks = .ok [first, second] :=
    ⟨_, _, rfl⟩
  obtain ⟨first, second, hstreams⟩ := hrun
  refine ⟨first, second, hstreams, ?_⟩
  refine (List.forall₂_cons.mp (Tracer.positions_iff none ⟨1⟩ hstreams)).1.mpr ⟨le_rfl, ?_⟩
  rw [List.forall_mem_singleton]
  exact destroyingTx_small.stampable

/-- A transaction of the same sender after `destroyingTx`. -/
def nextTx : TxCalls :=
  { destroyingTx with
    tx := { destroyingTx.tx with hash := Bytes.fill 32 8, nonce := 1 }
    body := .leaf (.onNonceChangeV2 (Bytes.fill 20 1) 1 2) .nil }

def twoTxBlock : BlockCalls :=
  { header := { root := Bytes.fill 32 1, number := 1, time := 10 }, txs := [destroyingTx, nextTx] }

/-- Both buckets have the index zero. -/
theorem twoTxBlock_conflated :
    ∃ stream out raw, (Tracer.new none).streams [twoTxBlock] = .ok [stream] ∧
      translate (goEvents stream) ⟨1⟩ = .ok out ∧ Partition.process out = .ok raw ∧
      raw.map (·.metadata.transactionIndex) = [0, 0] ∧
      ¬ PositionsSurvive ⟨1⟩ twoTxBlock stream := by
  have hrun : ∃ stream out raw, (Tracer.new none).streams [twoTxBlock] = .ok [stream] ∧
      translate (goEvents stream) ⟨1⟩ = .ok out ∧ Partition.process out = .ok raw ∧
      raw.map (·.metadata.transactionIndex) = [0, 0] := by
    refine ⟨_, _, _, rfl, rfl, rfl, ?_⟩
    decide
  obtain ⟨stream, out, raw, hstream, hout, hraw, hindices⟩ := hrun
  refine ⟨stream, out, raw, hstream, hout, hraw, hindices, ?_⟩
  rintro ⟨out', raw', hout', hraw', -, -, hnodup⟩
  obtain rfl := Except.ok.inj (hout.symm.trans hout')
  obtain rfl := Except.ok.inj (hraw.symm.trans hraw')
  rw [hindices] at hnodup
  exact absurd hnodup (by decide)

end KaySentinel
