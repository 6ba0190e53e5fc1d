import KaySentinel.Lib.Fallible
import KaySentinel.Tracer.Trace

/-!
# Runs of the tracer

`streams_eq_ok_iff` says when a bracketed run completes and which streams it returns: those of
its trace, under one sequence counter for all blocks.
-/

namespace KaySentinel

open Emes NestedLog

/-! ## What a call records -/

lemma bigToHash_eq_ok_iff {v : Option ℤ} {w : Word} :
    bigToHash v = .ok w ↔ FitsWord v ∧ w = hashOf v := by
  cases v with
  | none =>
    rw [bigToHash, Except.ok.injEq, eq_comm, hashOf]
    exact (and_iff_right (by simp [FitsWord])).symm
  | some x =>
    have hfits : FitsWord (some x) ↔ x.natAbs < 2 ^ 256 :=
      ⟨fun h => h x rfl, fun h y hy => Option.some.inj hy ▸ h⟩
    rw [hfits, bigToHash, hashOf]
    by_cases hx : x.natAbs < 2 ^ 256
    · rw [if_pos hx, Except.ok.injEq, eq_comm, and_iff_right hx]
    · rw [if_neg hx]
      exact iff_of_false (by simp) fun h => hx h.1

lemma toNat_add_ofNat {seq : UInt64} {n : ℕ} (h : seq.toNat + n < 2 ^ 64) :
    (seq + UInt64.ofNat n).toNat = seq.toNat + n := by
  have hn : n < 2 ^ 64 := Nat.lt_of_le_of_lt (Nat.le_add_left _ _) h
  rw [UInt64.toNat_add, UInt64.toNat_ofNat_of_lt' hn]
  exact Nat.mod_eq_of_lt h

lemma stamp_append (seq : UInt64) (es es' : List EventData) :
    stamp seq (es ++ es') = stamp seq es ++ stamp (seq + UInt64.ofNat es.length) es' := by
  induction es generalizing seq with
  | nil => simp [stamp]
  | cons e es ih =>
    have hseq : seq + 1 + UInt64.ofNat es.length = seq + UInt64.ofNat (es.length + 1) := by
      rw [UInt64.ofNat_add, add_assoc, add_comm 1]
      rfl
    rw [List.cons_append, stamp, ih, hseq]
    rfl

namespace Tracer

/-- The tracer after it has recorded events. -/
def log (t : Tracer) (es : List EventData) : Tracer :=
  { t with
    globalSequence := t.globalSequence + UInt64.ofNat es.length
    events := t.events ++ stamp t.globalSequence es }

/-- The sequence counter does not wrap around over the events. -/
def Room (t : Tracer) (es : List EventData) : Prop :=
  t.globalSequence.toNat + es.length < 2 ^ 64

def ids (t : Tracer) : Ids := ⟨t.nextFrameId, t.pendingSelfDestruct⟩

def withIds (t : Tracer) (ids : Ids) : Tracer :=
  { t with nextFrameId := ids.nextFrameId, pendingSelfDestruct := ids.pending }

variable {t t' : Tracer}

lemma log_log (t : Tracer) (es es' : List EventData) : (t.log es).log es' = t.log (es ++ es') := by
  have hseq : t.globalSequence + UInt64.ofNat es.length + UInt64.ofNat es'.length =
      t.globalSequence + UInt64.ofNat (es ++ es').length := by
    rw [List.length_append, UInt64.ofNat_add, add_assoc]
  simp only [log, stamp_append, hseq, List.append_assoc]

lemma toNat_globalSequence_log {es : List EventData} (h : t.Room es) :
    (t.log es).globalSequence.toNat = t.globalSequence.toNat + es.length := toNat_add_ofNat h

lemma room_append {es es' : List EventData} :
    t.Room (es ++ es') ↔ t.Room es ∧ (t.log es).Room es' := by
  constructor
  · intro h
    have hes : t.Room es := by
      rw [Room, List.length_append] at h
      exact Nat.lt_of_le_of_lt (by omega) h
    refine ⟨hes, ?_⟩
    rw [Room, toNat_globalSequence_log hes, add_assoc, ← List.length_append]
    exact h
  · rintro ⟨hes, hes'⟩
    rw [Room, toNat_globalSequence_log hes, add_assoc, ← List.length_append] at hes'
    exact hes'

lemma emit_eq_ok_iff {e : EventData} : t.emit e = .ok t' ↔ t.Room [e] ∧ t' = t.log [e] := by
  have hwrap : t.globalSequence + 1 = 0 ↔ ¬ t.Room [e] := by
    have hlt := t.globalSequence.toNat_lt
    rw [← UInt64.toNat_inj, UInt64.toNat_add, Room, List.length_singleton]
    simp only [UInt64.reduceToNat, Nat.not_lt]
    omega
  rw [emit]
  by_cases hroom : t.Room [e]
  · rw [if_neg (fun h => hwrap.mp h hroom), Except.ok.injEq, eq_comm, and_iff_right hroom]
    rfl
  · rw [if_pos (hwrap.mpr hroom)]
    exact iff_of_false (by simp) fun h => hroom h.1

lemma run_cons_eq_ok {call : Hook} {calls : List Hook} :
    t.run (call :: calls) = .ok t' ↔ ∃ mid, t.call call = .ok mid ∧ mid.run calls = .ok t' :=
  Fallible.foldlM_cons_eq_ok

lemma run_append_eq_ok {calls calls' : List Hook} :
    t.run (calls ++ calls') = .ok t' ↔ ∃ mid, t.run calls = .ok mid ∧ mid.run calls' = .ok t' :=
  Fallible.foldlM_append_eq_ok

/-- What comes after an event runs on the tracer that has recorded it. -/
lemma emit_bind_eq_ok_iff {e : EventData} {f : Tracer → Except Panic Tracer} :
    t.emit e >>= f = .ok t' ↔ t.Room [e] ∧ f (t.log [e]) = .ok t' := by
  rw [Fallible.bind_eq_ok_iff]
  constructor
  · rintro ⟨mid, hemit, hrest⟩
    obtain ⟨hroom, rfl⟩ := emit_eq_ok_iff.mp hemit
    exact ⟨hroom, hrest⟩
  · rintro ⟨hroom, hrest⟩
    exact ⟨_, emit_eq_ok_iff.mpr ⟨hroom, rfl⟩, hrest⟩

lemma ok_eq_ok_iff {a b : Tracer} : (Except.ok a : Except Panic Tracer) = .ok b ↔ b = a :=
  ⟨fun h => (Except.ok.inj h).symm, fun h => h ▸ rfl⟩

/-- Two integers that are read first must fit. -/
lemma bind_hashes_eq_ok_iff {v w : Option ℤ} {f : Word → Word → Except Panic Tracer} :
    (do f (← bigToHash v) (← bigToHash w)) = .ok t' ↔
      (FitsWord v ∧ FitsWord w) ∧ f (hashOf v) (hashOf w) = .ok t' := by
  simp only [Fallible.bind_eq_ok_iff, bigToHash_eq_ok_iff]
  constructor
  · rintro ⟨_, ⟨hv, rfl⟩, _, ⟨hw, rfl⟩, hrest⟩
    exact ⟨⟨hv, hw⟩, hrest⟩
  · rintro ⟨⟨hv, hw⟩, hrest⟩
    exact ⟨_, ⟨hv, rfl⟩, _, ⟨hw, rfl⟩, hrest⟩

/-- The events that a mutation hook emits. -/
def emitted (t : Tracer) (hook : MutationHook) : List EventData :=
  (hook.changes (t.pendingSelfDestruct t.currentFrameId)).map (Change.event t.currentFrameId)

/-- The frame counter and the pending accounts after a mutation hook. -/
def idsAfter (t : Tracer) (hook : MutationHook) : Ids :=
  t.ids.wait t.currentFrameId (hook.pendingAfter (t.pendingSelfDestruct t.currentFrameId))

lemma idsAfter_of_same {hook : MutationHook}
    (h : hook.pendingAfter (t.pendingSelfDestruct t.currentFrameId) =
      t.pendingSelfDestruct t.currentFrameId) : t.idsAfter hook = t.ids := by
  rw [idsAfter, h, Ids.wait]
  exact congrArg (Ids.mk t.nextFrameId) (Function.update_eq_self _ _)

lemma onBalanceChange_eq_ok_iff {addr : Address} {prev new : Option ℤ}
    {reason : BalanceChangeReason} :
    t.onBalanceChange addr prev new reason = .ok t' ↔
      (FitsWord prev ∧ FitsWord new) ∧ t.Room (t.emitted (.onBalanceChange addr prev new reason)) ∧
        t' = (t.log (t.emitted (.onBalanceChange addr prev new reason))).withIds
          (t.idsAfter (.onBalanceChange addr prev new reason)) := by
  refine bind_hashes_eq_ok_iff.trans (and_congr_right fun _ => emit_bind_eq_ok_iff.trans ?_)
  have hmutation : (Change.balance addr (hashOf prev) (hashOf new)).event t.currentFrameId =
      .balanceMutation { frameId := t.currentFrameId, address := addr, before := hashOf prev,
                         after := hashOf new } := rfl
  rw [← hmutation]
  cases reason with
  | other =>
    rw [idsAfter_of_same rfl]
    exact and_congr_right fun _ => ok_eq_ok_iff
  | balanceIncreaseSelfdestruct =>
    rw [if_pos rfl]
    cases hpending : t.pendingSelfDestruct t.currentFrameId with
    | none =>
      have hemitted : t.emitted (.onBalanceChange addr prev new .balanceIncreaseSelfdestruct) =
          [(Change.balance addr (hashOf prev) (hashOf new)).event t.currentFrameId] := by
        simp [emitted, MutationHook.changes, hpending]
      have hids : t.idsAfter (.onBalanceChange addr prev new .balanceIncreaseSelfdestruct) =
          t.ids := idsAfter_of_same hpending.symm
      rw [hemitted, hids]
      simp only [log, hpending]
      exact and_congr_right fun _ => ok_eq_ok_iff
    | some destructed =>
      -- the destruction is a second event
      have hemitted : t.emitted (.onBalanceChange addr prev new .balanceIncreaseSelfdestruct) =
          [(Change.balance addr (hashOf prev) (hashOf new)).event t.currentFrameId] ++
            [(Change.selfDestruct destructed addr).event t.currentFrameId] := by
        simp [emitted, MutationHook.changes, hpending]
      rw [hemitted, room_append, ← log_log, and_assoc]
      refine and_congr_right fun _ => ?_
      have hdestroy : (t.log [(Change.balance addr (hashOf prev) (hashOf new)).event
          t.currentFrameId]).pendingSelfDestruct t.currentFrameId = some destructed := hpending
      rw [hdestroy]
      exact emit_bind_eq_ok_iff.trans (and_congr_right fun _ => ok_eq_ok_iff)

/-- A mutation hook completes if its integers fit and the sequence counter has room for what it
emits. -/
lemma onMutation_eq_ok_iff {hook : MutationHook} :
    t.onMutation hook = .ok t' ↔ hook.Fits ∧ t.Room (t.emitted hook) ∧
      t' = (t.log (t.emitted hook)).withIds (t.idsAfter hook) := by
  cases hook with
  | onBalanceChange addr prev new reason => exact onBalanceChange_eq_ok_iff
  | onNonceChangeV2 addr prev new =>
    rw [onMutation, onNonceChangeV2, emit_eq_ok_iff, idsAfter_of_same rfl]
    exact (and_iff_right trivial).symm
  | onCodeChangeV2 addr prevCodeHash codeHash reason =>
    have hcases : t.onCodeChangeV2 addr prevCodeHash codeHash reason = .ok t' ↔
        t.Room (t.emitted (.onCodeChangeV2 addr prevCodeHash codeHash reason)) ∧
          t' = (t.log (t.emitted (.onCodeChangeV2 addr prevCodeHash codeHash reason))).withIds
            (t.idsAfter (.onCodeChangeV2 addr prevCodeHash codeHash reason)) := by
      refine emit_bind_eq_ok_iff.trans (and_congr_right fun _ => ?_)
      cases reason with
      | codeChangeSelfDestruct => exact ok_eq_ok_iff
      | other =>
        rw [idsAfter_of_same rfl]
        exact ok_eq_ok_iff
    exact hcases.trans (and_iff_right trivial).symm
  | onStorageChange addr slot prev new =>
    rw [onMutation, onStorageChange, emit_eq_ok_iff, idsAfter_of_same rfl]
    exact (and_iff_right trivial).symm

/-! ## What a forest records -/

/-- The trace of hooks that are called now. -/
def traced (t : Tracer) (hooks : HookForest) : TraceForest × Ids :=
  trace t.env t.currentFrameId hooks t.ids

/-- The events of the trace. -/
def tracedEvents (t : Tracer) (hooks : HookForest) : List EventData :=
  (t.traced hooks).1.events t.currentFrameId

end Tracer

lemma TraceForest.events_prepend (current : UInt64) (changes : List Change) (f : TraceForest) :
    TraceForest.events current (.prepend changes f) =
      changes.map (Change.event current) ++ TraceForest.events current f := by
  induction changes with
  | nil => rfl
  | cons change changes ih =>
    rw [Forest.prepend_cons, TraceForest.events, ih]
    rfl

namespace Tracer

variable {t t' : Tracer}

@[simp] lemma log_nil (t : Tracer) : t.log [] = t := by
  simp [log, stamp]

/-- The tracer after a mutation hook. -/
def afterHook (t : Tracer) (hook : MutationHook) : Tracer :=
  (t.log (t.emitted hook)).withIds (t.idsAfter hook)

lemma tracedEvents_leaf (hook : MutationHook) (rest : HookForest) :
    t.tracedEvents (.leaf hook rest) =
      t.emitted hook ++ (t.afterHook hook).tracedEvents rest :=
  TraceForest.events_prepend _ _ _

/-- The tracer in the frame that `OnEnter` opens. -/
def entered (t : Tracer) (args : EnterArgs) : Tracer :=
  { t with
    frameStack :=
      { frameId := t.nextFrameId
        parentFrameId := t.currentFrameId
        depth := args.depth.toUInt64
        addr := args.to_ } :: t.frameStack
    nextFrameId := t.nextFrameId + 1 }

/-- The event of `OnEnter`. -/
def enterEvent (t : Tracer) (frame : FrameCalls) : EventData :=
  (frame.traced t.env t.nextFrameId).enterEvent t.currentFrameId

/-- The event of `OnExit` of that frame. -/
def exitEvent (t : Tracer) (frame : FrameCalls) : EventData :=
  (frame.traced t.env t.nextFrameId).exitEvent

lemma onEnter_eq_ok_iff {frame : FrameCalls} :
    t.onEnter frame.enter = .ok t' ↔
      t.Room [t.enterEvent frame] ∧ t' = (t.entered frame.enter).log [t.enterEvent frame] :=
  emit_eq_ok_iff

/-- The tracer inside a frame, after the `OnEnter` and the hooks inside. -/
def inside (t : Tracer) (frame : FrameCalls) (inner : HookForest) : Tracer :=
  let entered := (t.entered frame.enter).log [t.enterEvent frame]
  (entered.log (entered.tracedEvents inner)).withIds (entered.traced inner).2

/-- The tracer after a frame. -/
def afterFrame (t : Tracer) (frame : FrameCalls) (inner : HookForest) : Tracer :=
  Tracer.log { t.inside frame inner with frameStack := t.frameStack } [t.exitEvent frame]

lemma onExit_inside_eq_ok_iff {frame : FrameCalls} {inner : HookForest} :
    (t.inside frame inner).onExit frame.reverted = .ok t' ↔
      (t.inside frame inner).Room [t.exitEvent frame] ∧ t' = t.afterFrame frame inner :=
  emit_eq_ok_iff

lemma tracedEvents_node (frame : FrameCalls) (inner rest : HookForest) :
    t.tracedEvents (.node frame inner rest) =
      [t.enterEvent frame] ++ ((t.entered frame.enter).tracedEvents inner ++
        ([t.exitEvent frame] ++ (t.afterFrame frame inner).tracedEvents rest)) := rfl

lemma calls_leaf (hook : MutationHook) (rest : HookForest) :
    HookForest.calls (.leaf hook rest) = .mutation hook :: HookForest.calls rest := rfl

lemma calls_node (frame : FrameCalls) (inner rest : HookForest) :
    HookForest.calls (.node frame inner rest) = .onEnter frame.enter ::
      (HookForest.calls inner ++ .onExit frame.reverted :: HookForest.calls rest) := rfl

lemma fits_leaf {hook : MutationHook} {rest : HookForest} :
    HookForest.Fits (.leaf hook rest) ↔ hook.Fits ∧ HookForest.Fits rest := by
  simp [HookForest.Fits, Forest.leaves]

lemma fits_node {frame : FrameCalls} {inner rest : HookForest} :
    HookForest.Fits (.node frame inner rest) ↔ HookForest.Fits inner ∧ HookForest.Fits rest := by
  simp [HookForest.Fits, Forest.leaves, or_imp, forall_and]

/-- Hooks complete if their integers fit and the sequence counter has room for their trace. -/
lemma run_hooks_eq_ok_iff {hooks : HookForest} :
    t.run hooks.calls = .ok t' ↔ hooks.Fits ∧ t.Room (t.tracedEvents hooks) ∧
      t' = (t.log (t.tracedEvents hooks)).withIds (t.traced hooks).2 := by
  induction hooks generalizing t t' with
  | nil =>
    have hfits : HookForest.Fits .nil := by simp [HookForest.Fits, Forest.leaves]
    have hroom : t.Room (t.tracedEvents .nil) := t.globalSequence.toNat_lt
    have hsame : (t.log (t.tracedEvents .nil)).withIds (t.traced .nil).2 = t := log_nil t
    rw [hsame, and_iff_right hroom, and_iff_right hfits]
    exact ⟨fun h => (Except.ok.inj h).symm, fun h => h ▸ rfl⟩
  | leaf hook rest ih =>
    rw [calls_leaf, run_cons_eq_ok, tracedEvents_leaf, room_append, fits_leaf, ← log_log]
    constructor
    · rintro ⟨mid, hcall, hrun⟩
      obtain ⟨hfits, hroom, rfl⟩ := onMutation_eq_ok_iff.mp hcall
      obtain ⟨hfits', hroom', rfl⟩ := ih.mp hrun
      exact ⟨⟨hfits, hfits'⟩, ⟨hroom, hroom'⟩, rfl⟩
    · rintro ⟨⟨hfits, hfits'⟩, ⟨hroom, hroom'⟩, rfl⟩
      exact ⟨t.afterHook hook, onMutation_eq_ok_iff.mpr ⟨hfits, hroom, rfl⟩,
        ih.mpr ⟨hfits', hroom', rfl⟩⟩
  | node frame inner rest ihinner ihrest =>
    rw [calls_node, run_cons_eq_ok, tracedEvents_node, fits_node]
    simp only [room_append, ← log_log]
    constructor
    · rintro ⟨mid, henter, hrun⟩
      obtain ⟨hroom₁, rfl⟩ := onEnter_eq_ok_iff.mp henter
      obtain ⟨mid, hinner, hrun⟩ := run_append_eq_ok.mp hrun
      obtain ⟨hfits, hroom₂, rfl⟩ := ihinner.mp hinner
      obtain ⟨mid, hexit, hrun⟩ := run_cons_eq_ok.mp hrun
      obtain ⟨hroom₃, rfl⟩ := onExit_inside_eq_ok_iff.mp hexit
      obtain ⟨hfits', hroom₄, rfl⟩ := ihrest.mp hrun
      exact ⟨⟨hfits, hfits'⟩, ⟨hroom₁, hroom₂, hroom₃, hroom₄⟩, rfl⟩
    · rintro ⟨⟨hfits, hfits'⟩, ⟨hroom₁, hroom₂, hroom₃, hroom₄⟩, rfl⟩
      refine ⟨_, onEnter_eq_ok_iff.mpr ⟨hroom₁, rfl⟩, run_append_eq_ok.mpr
        ⟨t.inside frame inner, ihinner.mpr ⟨hfits, hroom₂, rfl⟩, run_cons_eq_ok.mpr
          ⟨t.afterFrame frame inner, onExit_inside_eq_ok_iff.mpr ⟨hroom₃, rfl⟩, ?_⟩⟩⟩
      exact ihrest.mpr ⟨hfits', hroom₄, rfl⟩

end Tracer

/-! ## What a run records -/

namespace Tracer

variable {t t' : Tracer}

/-- Between transactions. -/
def Idle (t : Tracer) : Prop := t.frameStack = [] ∧ t.pendingSelfDestruct = fun _ => none

lemma onTxStart_eq_ok_iff {tx : TracedTransaction} {from_ : Address} :
    t.onTxStart tx from_ = .ok t' ↔ (FitsWord tx.value ∧ FitsWord tx.gasPrice) ∧
      emit { t with nextFrameId := 0, frameStack := [] } (.transactionStart
        { txIndex := 0, hash := tx.hash, from_ := from_, to_ := tx.to_,
          value := hashOf tx.value, gasLimit := tx.gas, gasPrice := hashOf tx.gasPrice,
          nonce := tx.nonce }) = .ok t' := bind_hashes_eq_ok_iff

lemma onTxEnd_eq_ok_iff {args : TxEndArgs} (h : t.frameStack = []) :
    t.onTxEnd args = .ok t' ↔
      t.Room [.transactionEnd { txIndex := 0, reverted := args.reverted }] ∧
        t' = { t.log [.transactionEnd { txIndex := 0, reverted := args.reverted }] with
          pendingSelfDestruct := fun _ => none } := by
  refine emit_bind_eq_ok_iff.trans (and_congr_right fun _ => ?_)
  refine ok_eq_ok_iff.trans ?_
  simp only [log, h, List.length_nil, ne_eq, not_true_eq_false, if_false]
  rfl

/-- The tracer after a transaction. -/
def afterTx (t : Tracer) (tx : TxCalls) : Tracer :=
  { t.log (tx.events t.env) with nextFrameId := (tx.trace t.env).2.nextFrameId }

lemma Idle.afterTx (h : t.Idle) (tx : TxCalls) : (t.afterTx tx).Idle := h

/-- A transaction completes if its integers fit and the sequence counter has room for it. -/
lemma run_tx_eq_ok_iff {tx : TxCalls} (hidle : t.Idle) :
    t.run tx.calls = .ok t' ↔ tx.Fits ∧ t.Room (tx.events t.env) ∧ t' = t.afterTx tx := by
  obtain ⟨env, seq, next, stack, events, errors, pending, root⟩ := t
  obtain ⟨hstack, hpending⟩ := hidle
  obtain rfl : stack = [] := hstack
  obtain rfl : pending = fun _ => none := hpending
  have hevents : tx.events env = [tx.startEvent] ++
      (TraceForest.events noParentFrame (tx.trace env).1 ++
        [.transactionEnd { txIndex := 0, reverted := tx.fin.reverted }]) := rfl
  rw [TxCalls.calls, run_cons_eq_ok, afterTx, hevents]
  simp only [room_append, ← log_log]
  constructor
  · rintro ⟨mid, hstart, hrun⟩
    obtain ⟨⟨hvalue, hprice⟩, hemit⟩ := onTxStart_eq_ok_iff.mp hstart
    obtain ⟨hroom₁, rfl⟩ := emit_eq_ok_iff.mp hemit
    obtain ⟨mid, hbody, hrun⟩ := run_append_eq_ok.mp hrun
    obtain ⟨hfits, hroom₂, rfl⟩ := run_hooks_eq_ok_iff.mp hbody
    obtain ⟨mid, hend, hrun⟩ := run_cons_eq_ok.mp hrun
    obtain ⟨hroom₃, rfl⟩ := (onTxEnd_eq_ok_iff rfl).mp hend
    obtain rfl := Except.ok.inj hrun
    exact ⟨⟨hvalue, hprice, hfits⟩, ⟨hroom₁, hroom₂, hroom₃⟩, rfl⟩
  · rintro ⟨⟨hvalue, hprice, hfits⟩, ⟨hroom₁, hroom₂, hroom₃⟩, rfl⟩
    refine ⟨_, onTxStart_eq_ok_iff.mpr ⟨⟨hvalue, hprice⟩, emit_eq_ok_iff.mpr ⟨hroom₁, rfl⟩⟩, ?_⟩
    refine run_append_eq_ok.mpr ⟨_, run_hooks_eq_ok_iff.mpr ⟨hfits, hroom₂, rfl⟩, ?_⟩
    exact run_cons_eq_ok.mpr ⟨_, (onTxEnd_eq_ok_iff rfl).mpr ⟨hroom₃, rfl⟩, rfl⟩

/-- The tracer after transactions. -/
def afterTxs (t : Tracer) (txs : List TxCalls) : Tracer :=
  { t.log (txs.flatMap (TxCalls.events t.env)) with
    nextFrameId := txs.foldl (fun _ tx => (tx.trace t.env).2.nextFrameId) t.nextFrameId }

lemma run_txs_eq_ok_iff {txs : List TxCalls} (hidle : t.Idle) :
    t.run (txs.flatMap TxCalls.calls) = .ok t' ↔
      (∀ tx ∈ txs, tx.Fits) ∧ t.Room (txs.flatMap (TxCalls.events t.env)) ∧
        t' = t.afterTxs txs := by
  induction txs generalizing t with
  | nil =>
    have hroom : t.Room [] := t.globalSequence.toNat_lt
    have hsame : t.afterTxs [] = t := log_nil t
    rw [hsame, List.flatMap_nil, List.flatMap_nil, and_iff_right hroom, and_iff_right (by simp)]
    exact ⟨fun h => (Except.ok.inj h).symm, fun h => h ▸ rfl⟩
  | cons tx txs ih =>
    have hafter : t.afterTxs (tx :: txs) = (t.afterTx tx).afterTxs txs := by
      rw [afterTxs, List.flatMap_cons, ← log_log]
      rfl
    rw [List.flatMap_cons, List.flatMap_cons, run_append_eq_ok, room_append, hafter,
      List.forall_mem_cons]
    constructor
    · rintro ⟨mid, htx, hrun⟩
      obtain ⟨hfits, hroom, rfl⟩ := (run_tx_eq_ok_iff hidle).mp htx
      obtain ⟨hfits', hroom', rfl⟩ := (ih (hidle.afterTx tx)).mp hrun
      exact ⟨⟨hfits, hfits'⟩, ⟨hroom, hroom'⟩, rfl⟩
    · rintro ⟨⟨hfits, hfits'⟩, ⟨hroom, hroom'⟩, rfl⟩
      exact ⟨t.afterTx tx, (run_tx_eq_ok_iff hidle).mpr ⟨hfits, hroom, rfl⟩,
        (ih (hidle.afterTx tx)).mpr ⟨hfits', hroom', rfl⟩⟩

/-- The tracer after a block, whose events alone it holds. -/
def afterBlock (t : Tracer) (b : BlockCalls) : Tracer :=
  { t with
    globalSequence := t.globalSequence + UInt64.ofNat (b.events t.env).length
    nextFrameId := b.txs.foldl (fun _ tx => (tx.trace t.env).2.nextFrameId) t.nextFrameId
    events := stamp t.globalSequence (b.events t.env)
    errorLog := []
    blockRoot := b.header.root }

lemma Idle.afterBlock (h : t.Idle) (b : BlockCalls) : (t.afterBlock b).Idle := h

/-- The tracer that `OnBlockStart` leaves to record its event. -/
def cleared (t : Tracer) (b : BlockCalls) : Tracer :=
  { t with events := [], errorLog := [], blockRoot := b.header.root }

lemma onBlockStart_eq_ok_iff {b : BlockCalls} :
    t.onBlockStart b.header = .ok t' ↔
      t.Room [b.startEvent] ∧ t' = (t.cleared b).log [b.startEvent] := emit_eq_ok_iff

/-- A block completes if its integers fit and the sequence counter has room for it. -/
lemma run_block_eq_ok_iff {b : BlockCalls} (hidle : t.Idle) :
    t.run b.calls = .ok t' ↔ b.Fits ∧ t.Room (b.events t.env) ∧ t' = t.afterBlock b := by
  have hevents : b.events t.env = [b.startEvent] ++
      (b.txs.flatMap (TxCalls.events t.env) ++ [.blockCommit { stateRoot := b.header.root }]) := rfl
  have hafter : t.afterBlock b = { (t.cleared b).log (b.events t.env) with
      nextFrameId := b.txs.foldl (fun _ tx => (tx.trace t.env).2.nextFrameId) t.nextFrameId } := rfl
  have hstarted : ((t.cleared b).log [b.startEvent]).Idle := hidle
  rw [BlockCalls.calls, run_cons_eq_ok, hafter, hevents]
  simp only [room_append, ← log_log]
  constructor
  · rintro ⟨mid, hstart, hrun⟩
    obtain ⟨hroom₁, rfl⟩ := onBlockStart_eq_ok_iff.mp hstart
    obtain ⟨mid, htxs, hrun⟩ := run_append_eq_ok.mp hrun
    obtain ⟨hfits, hroom₂, rfl⟩ := (run_txs_eq_ok_iff hstarted).mp htxs
    obtain ⟨mid, hend, hrun⟩ := run_cons_eq_ok.mp hrun
    obtain ⟨hroom₃, rfl⟩ := emit_eq_ok_iff.mp hend
    obtain rfl := Except.ok.inj hrun
    exact ⟨hfits, ⟨hroom₁, hroom₂, hroom₃⟩, rfl⟩
  · rintro ⟨hfits, ⟨hroom₁, hroom₂, hroom₃⟩, rfl⟩
    refine ⟨_, onBlockStart_eq_ok_iff.mpr ⟨hroom₁, rfl⟩, ?_⟩
    refine run_append_eq_ok.mpr ⟨_, (run_txs_eq_ok_iff hstarted).mpr ⟨hfits, hroom₂, rfl⟩, ?_⟩
    exact run_cons_eq_ok.mpr ⟨_, emit_eq_ok_iff.mpr ⟨hroom₃, rfl⟩, rfl⟩

end Tracer

/-- **Runs.**  A run over blocks completes exactly if its integers fit and the sequence counter
has room for all its events, and returns the streams of its blocks, numbered throughout. -/
theorem Tracer.streams_eq_ok_iff {t : Tracer} {blocks : List BlockCalls}
    {streams : List (List Event)} (hidle : t.Idle) :
    t.streams blocks = .ok streams ↔ (∀ b ∈ blocks, b.Fits) ∧
      t.Room (blocks.flatMap (BlockCalls.events t.env)) ∧
        streams = numbered t.env t.globalSequence blocks := by
  induction blocks generalizing t streams with
  | nil =>
    have hroom : t.Room [] := t.globalSequence.toNat_lt
    rw [List.flatMap_nil, and_iff_right hroom, and_iff_right (by simp)]
    exact ⟨fun h => (Except.ok.inj h).symm, fun h => h ▸ rfl⟩
  | cons b blocks ih =>
    have hstreams : t.streams (b :: blocks) = .ok streams ↔ ∃ mid, t.run b.calls = .ok mid ∧
        ∃ rest, mid.streams blocks = .ok rest ∧ streams = mid.events :: rest := by
      rw [Tracer.streams, Fallible.bind_eq_ok_iff]
      refine exists_congr fun mid => and_congr_right fun _ => ?_
      rw [Fallible.bind_eq_ok_iff]
      refine exists_congr fun rest => and_congr_right fun _ => ?_
      exact ⟨fun h => (Except.ok.inj h).symm, fun h => h ▸ rfl⟩
    rw [hstreams, List.flatMap_cons, room_append, List.forall_mem_cons]
    constructor
    · rintro ⟨mid, hrun, rest, hrest, rfl⟩
      obtain ⟨hfits, hroom, rfl⟩ := (run_block_eq_ok_iff hidle).mp hrun
      obtain ⟨hfits', hroom', rfl⟩ := (ih (hidle.afterBlock b)).mp hrest
      exact ⟨⟨hfits, hfits'⟩, ⟨hroom, hroom'⟩, rfl⟩
    · rintro ⟨⟨hfits, hfits'⟩, ⟨hroom, hroom'⟩, rfl⟩
      exact ⟨t.afterBlock b, (run_block_eq_ok_iff hidle).mpr ⟨hfits, hroom, rfl⟩, _,
        (ih (hidle.afterBlock b)).mpr ⟨hfits', hroom', rfl⟩, rfl⟩

/-! ## Runs of a new tracer -/

lemma Tracer.idle_new (env : Option EnvironmentDescriptor) : (Tracer.new env).Idle := ⟨rfl, rfl⟩

lemma Tracer.new_streams_eq_ok_iff (env : Option EnvironmentDescriptor) {blocks : List BlockCalls}
    {streams : List (List Event)} :
    (Tracer.new env).streams blocks = .ok streams ↔ (∀ b ∈ blocks, b.Fits) ∧
      (blocks.flatMap (BlockCalls.events env)).length < 2 ^ 64 ∧
        streams = numbered env 0 blocks := by
  rw [Tracer.streams_eq_ok_iff (Tracer.idle_new env), Tracer.Room, Tracer.new, UInt64.toNat_zero,
    zero_add]

/-- A new tracer completes a run exactly if the integers fit and the run has fewer than `2 ^ 64`
events in all. -/
lemma Tracer.exists_streams_iff (env : Option EnvironmentDescriptor) {blocks : List BlockCalls} :
    (∃ streams, (Tracer.new env).streams blocks = .ok streams) ↔
      (∀ b ∈ blocks, b.Fits) ∧ (blocks.flatMap (BlockCalls.events env)).length < 2 ^ 64 := by
  simp only [Tracer.new_streams_eq_ok_iff]
  constructor
  · rintro ⟨streams, hfits, hevents, -⟩
    exact ⟨hfits, hevents⟩
  · rintro ⟨hfits, hevents⟩
    exact ⟨_, hfits, hevents, rfl⟩

end KaySentinel
