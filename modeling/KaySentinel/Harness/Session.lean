import KaySentinel.Harness.Store
import KaySentinel.Tracer.Validity

/-!
# Recording sessions

A tracer records blocks one after another, and after each of them the harness is given the events.
The sequence counter of the tracer goes on from block to block while Gate 1 asks for streams that
start at zero.  So a tracer is good for one block: the harness turns away every later one, and the
store is what the first blocks make it (`sessions_keep_first`).
-/

namespace KaySentinel.Harness

open Emes Validation

variable {env : Option KaySentinel.EnvironmentDescriptor}

/-! ## Later blocks -/

/-- What Gate 1 says of a stream that does not start at zero. -/
def staleSequence : Gate1Error where
  index := 0
  rule := "block-encapsulation"
  msg := "BlockStartEvent must have Sequence 0"

lemma verify_stamp_of_ne_zero (b : BlockCalls) {seq : UInt64} (hseq : seq ≠ 0) :
    verifyGate1Invariants (stamp seq (b.events env)) = .error staleSequence := by
  rw [BlockCalls.events, stamp, verifyGate1Invariants]
  exact if_pos hseq

/-- Of the streams of one tracer Gate 1 accepts the first and turns away the others. -/
lemma verify_streams {blocks : List BlockCalls} {streams : List (List Event)}
    (hconforms : ∀ b ∈ blocks, b.Conforms)
    (hstreams : (Tracer.new env).streams blocks = .ok streams) {k : ℕ} {stream : List Event}
    (hk : streams[k]? = some stream) :
    verifyGate1Invariants stream = if k = 0 then .ok () else .error staleSequence := by
  obtain ⟨-, hroom, rfl⟩ := (Tracer.new_streams_eq_ok_iff env).mp hstreams
  have haccepted := verify_numbered_iff hconforms (by rwa [UInt64.toNat_zero, zero_add]) hk
  by_cases hzero : k = 0
  · rw [if_pos hzero]
    exact haccepted.mpr ⟨rfl, hzero⟩
  rw [if_neg hzero]
  -- a later stream is that of a block, and its counter has moved on
  have hall : List.Forall₂ (fun b stream => ∃ seq, stream = stamp seq (b.events env)) blocks
      (numbered env 0 blocks) := forall₂_numbered (fun b _ seq => ⟨seq, rfl⟩) 0
  obtain ⟨b, hb, seq, rfl⟩ := Pointwise.exists_left hall (List.mem_of_getElem? hk)
  refine verify_stamp_of_ne_zero b ?_
  rintro rfl
  have hlen : (b.events env).length ≤ (blocks.flatMap (BlockCalls.events env)).length :=
    (List.sublist_flatten_of_mem (List.mem_map_of_mem hb)).length_le
  refine hzero (haccepted.mp ((verify_block_iff (hconforms b hb) ?_).mpr rfl)).2
  rw [UInt64.toNat_zero, zero_add]
  exact hlen.trans_lt hroom

/-! ## Sessions -/

open ConformanceHarness

/-- A tracer records some blocks, and the harness is called with the events of each. -/
structure Session where
  env : Option KaySentinel.EnvironmentDescriptor
  blocks : List BlockCalls
  calls : List Call
  conforms : ∀ b ∈ blocks, b.Conforms
  traced : (Tracer.new env).streams blocks = .ok (calls.map fun c => c.1.producer.events)

/-- What the harness returns for a stream that Gate 1 accepts. -/
def accepted (c : Call) : Except String Unit :=
  match c.2 with
  | .mkdirAllFails err => .error ("failed to create fixture directory: " ++ err)
  | .writeFileFails err _ => .error ("failed to write fixture: " ++ err)
  | .succeeds => .ok ()

/-- What the harness returns for the later blocks of a tracer. -/
def turnedAway (c : Call) : Except String Unit :=
  .error ("gate 1 structural verification failed for " ++ c.1.scenarioId ++
    ": gate1: event[0]: block-encapsulation: BlockStartEvent must have Sequence 0")

variable (h : ConformanceHarness) {c : Call}

lemma result_of_accepted (hgate : verifyGate1Invariants c.1.producer.events = .ok ()) :
    h.result c = accepted c := by
  obtain ⟨s, answer⟩ := c
  rw [result, processAndSerialize.eq_def, hgate]
  cases answer <;> rfl

lemma result_of_stale
    (hgate : verifyGate1Invariants c.1.producer.events = .error staleSequence) :
    h.result c = turnedAway c := by
  rw [result, processAndSerialize.eq_def, hgate, turnedAway]
  show Except.error _ = Except.error _
  rw [String.append_assoc]
  rfl

lemma writes_of_error {err : Gate1Error}
    (hgate : verifyGate1Invariants c.1.producer.events = .error err) : h.writes c = none := by
  rw [writes_eq_none_iff, Touches, hgate]
  exact fun htouches => absurd htouches.1 (by simp)

namespace Session

variable (σ : Session)

lemma verify_call {k : ℕ} (hk : σ.calls[k]? = some c) :
    verifyGate1Invariants c.1.producer.events =
      if k = 0 then .ok () else .error staleSequence := by
  refine verify_streams σ.conforms σ.traced ?_
  rw [List.getElem?_map, hk, Option.map_some]

/-- What the calls of a session return. -/
def results : List (Except String Unit) :=
  (σ.calls.take 1).map accepted ++ (σ.calls.drop 1).map turnedAway

/-- Calls after the first are turned away. -/
lemma verify_later {later : Call} (hlater : later ∈ σ.calls.drop 1) :
    verifyGate1Invariants later.1.producer.events = .error staleSequence := by
  obtain ⟨k, hk⟩ := List.mem_iff_getElem?.mp hlater
  rw [List.getElem?_drop] at hk
  rw [σ.verify_call hk, if_neg (by omega)]

lemma verify_first {first : Call} (hfirst : first ∈ σ.calls.take 1) :
    verifyGate1Invariants first.1.producer.events = .ok () := by
  obtain ⟨k, hk⟩ := List.mem_iff_getElem?.mp hfirst
  rw [List.getElem?_take] at hk
  obtain ⟨hlt, hk⟩ := Option.ite_none_right_eq_some.mp hk
  rw [σ.verify_call hk, if_pos (by omega)]

lemma map_result : σ.calls.map h.result = σ.results := by
  rw [results, ← List.map_congr_left fun c hc => result_of_accepted h (σ.verify_first hc),
    ← List.map_congr_left fun c hc => result_of_stale h (σ.verify_later hc), ← List.map_append,
    List.take_append_drop]

/-- The calls after the first leave the store alone. -/
lemma foldl_step (files : Files) :
    σ.calls.foldl (LastWrite.step h.writes) files =
      (σ.calls.take 1).foldl (LastWrite.step h.writes) files := by
  conv_lhs => rw [← List.take_append_drop 1 σ.calls, List.foldl_append]
  exact LastWrite.foldl_step_of_forall_none
    (fun _ hlater => writes_of_error h (σ.verify_later hlater)) _

end Session

/-- **A tracer is good for one block.**  Of the blocks that a tracer records, the harness turns away
all but the first, whatever the file system answers, and the store is what the calls for first
blocks alone make it. -/
theorem sessions_keep_first (sessions : List Session) (files : Files) :
    (h.run (sessions.flatMap Session.calls) files).1 = sessions.flatMap Session.results ∧
      (h.run (sessions.flatMap Session.calls) files).2 =
        (h.run (sessions.flatMap fun σ => σ.calls.take 1) files).2 := by
  simp only [run_eq]
  refine ⟨?_, ?_⟩
  · rw [List.map_flatMap]
    exact List.flatMap_congr fun σ _ => σ.map_result h
  · rw [List.foldl_flatMap, List.foldl_flatMap]
    simp only [Session.foldl_step]

/-- The events of the second of two blocks without transactions. -/
def secondEvents : List Event :=
  [⟨2, .blockStart { emesVersion := "EMES-V1", number := 2, timestamp := 20 }⟩,
    ⟨3, .blockCommit { stateRoot := Bytes.zero 32 }⟩]

/-- One tracer for two blocks without transactions. -/
def emptySession : Session where
  env := none
  blocks :=
    [{ header := { root := Bytes.zero 32, number := 1, time := 10 }, txs := [] },
      { header := { root := Bytes.zero 32, number := 2, time := 20 }, txs := [] }]
  calls :=
    [(emptyScenario "a", .succeeds),
      ({ emptyScenario "b" with producer := { events := secondEvents, errorLog := [] } },
        .succeeds)]
  conforms := by simp [BlockCalls.Conforms]
  traced := rfl

theorem emptySession_results : (sepolia.run emptySession.calls fun _ => none).1 =
    [.ok (), .error ("gate 1 structural verification failed for " ++ "b" ++
      ": gate1: event[0]: block-encapsulation: BlockStartEvent must have Sequence 0")] := by
  have h := (sessions_keep_first sepolia [emptySession] fun _ => none).1
  rw [List.flatMap_singleton, List.flatMap_singleton] at h
  exact h

end KaySentinel.Harness
