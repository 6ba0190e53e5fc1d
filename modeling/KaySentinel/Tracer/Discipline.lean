import KaySentinel.Tracer.CallOrder
import KaySentinel.Tracer.Validity

/-!
# Hooks in any order

Whatever calls the tracer receives, Gate 1 accepts the stream exactly if the calls that record
something make up one block: `Tracer.accepted_iff_matched`.
-/

namespace KaySentinel

open Emes NestedLog Validation

/-! ## What a call does -/

/-- What the error log gets from a call, with `depth` open frames. -/
def Hook.violation (depth : ℕ) : Hook → List InternalErrorCode
  | .onExit _ => if depth = 0 then [.errEmptyFrameStack] else []
  | .onTxEnd _ => if depth = 0 then [] else [.errUnexpectedExit]
  | _ => []

/-- The call clears the events and the error log. -/
def Hook.clears : Hook → Bool
  | .onBlockStart _ => true
  | _ => false

namespace Tracer

/-- The ids of the open frames. -/
def openIds (t : Tracer) : List UInt64 := t.frameStack.map FrameCtx.frameId

/-- The events that a call records. -/
def recorded (t : Tracer) : Hook → List EventData
  | .onBlockStart block => [.blockStart
      { emesVersion := "EMES-V1", number := block.number, timestamp := block.time }]
  | .onBlockEnd => [.blockCommit { stateRoot := t.blockRoot }]
  | .onTxStart tx from_ => [.transactionStart
      { txIndex := 0, hash := tx.hash, from_ := from_, to_ := tx.to_, value := hashOf tx.value,
        gasLimit := tx.gas, gasPrice := hashOf tx.gasPrice, nonce := tx.nonce }]
  | .onTxEnd args => [.transactionEnd { txIndex := 0, reverted := args.reverted }]
  | .onEnter args => [t.enterEvent ⟨args, false⟩]
  | .onExit reverted =>
      t.openIds.head?.toList.map fun id => .frameExit { frameId := id, reverted := reverted }
  | .mutation hook => t.emitted hook

/-- The ids of the open frames after a call. -/
def openIdsAfter (t : Tracer) : Hook → List UInt64
  | .onTxStart _ _ => []
  | .onTxEnd _ => []
  | .onEnter _ => t.nextFrameId :: t.openIds
  | .onExit _ => t.openIds.tail
  | _ => t.openIds

/-- The events and errors that a call leaves of those before it. -/
def kept {α : Type} (call : Hook) (l : List α) : List α := if call.clears then [] else l

/-- The codes of the error log. -/
def codes (t : Tracer) : List InternalErrorCode := t.errorLog.map InternalTracerError.code

/-- A call takes the tracer from `t` to `t'`. -/
structure Effect (t : Tracer) (call : Hook) (t' : Tracer) : Prop where
  room : t.Room (t.recorded call)
  sequence : t'.globalSequence = t.globalSequence + UInt64.ofNat (t.recorded call).length
  events : t'.events = kept call t.events ++ stamp t.globalSequence (t.recorded call)
  openIds : t'.openIds = t.openIdsAfter call
  codes : t'.codes = kept call t.codes ++ call.violation t.frameStack.length

variable {t t' : Tracer}

lemma effect_of_call {call : Hook} (h : t.call call = .ok t') : t.Effect call t' := by
  cases call with
  | onBlockStart block =>
    obtain ⟨hroom, rfl⟩ := emit_eq_ok_iff.mp h
    exact ⟨hroom, rfl, rfl, rfl, rfl⟩
  | onBlockEnd =>
    obtain ⟨hroom, rfl⟩ := emit_eq_ok_iff.mp h
    exact ⟨hroom, rfl, rfl, rfl, (List.append_nil _).symm⟩
  | onTxStart tx from_ =>
    obtain ⟨-, hemit⟩ := onTxStart_eq_ok_iff.mp h
    obtain ⟨hroom, rfl⟩ := emit_eq_ok_iff.mp hemit
    exact ⟨hroom, rfl, rfl, rfl, (List.append_nil _).symm⟩
  | onTxEnd args =>
    obtain ⟨hroom, hend⟩ := emit_bind_eq_ok_iff.mp h
    obtain rfl := ok_eq_ok_iff.mp hend
    rcases hstack : t.frameStack with _ | ⟨fc, rest⟩
    · refine ⟨hroom, ?_, ?_, ?_, ?_⟩ <;>
        simp [log, hstack, recorded, kept, Hook.clears, openIds, openIdsAfter, codes,
          Hook.violation, TxEndArgs.reverted]
    · refine ⟨hroom, ?_, ?_, ?_, ?_⟩ <;>
        simp [log, hstack, recorded, kept, Hook.clears, openIds, openIdsAfter, codes,
          Hook.violation, TxEndArgs.reverted, logError]
  | onEnter args =>
    obtain ⟨hroom, rfl⟩ := (@onEnter_eq_ok_iff t t' ⟨args, false⟩).mp h
    exact ⟨hroom, rfl, rfl, rfl, (List.append_nil _).symm⟩
  | onExit flag =>
    rcases hstack : t.frameStack with _ | ⟨fc, rest⟩
    · have hcall : t.call (.onExit flag) = .ok (t.logError .errEmptyFrameStack noParentFrame
          "ExitHook fired with no matching EnterHook on the frame stack") := by
        simp only [call, onExit, hstack]
      obtain rfl := Except.ok.inj (hcall.symm.trans h)
      have hroom : t.Room (t.recorded (.onExit flag)) := by
        simpa [recorded, openIds, hstack, Room] using t.globalSequence.toNat_lt
      refine ⟨hroom, ?_, ?_, ?_, ?_⟩ <;>
        simp [recorded, openIds, hstack, logError, kept, Hook.clears, stamp, openIdsAfter, codes,
          Hook.violation]
    · have hcall : t.call (.onExit flag) = emit { t with frameStack := rest }
          (.frameExit { frameId := fc.frameId, reverted := flag }) := by
        simp only [call, onExit, hstack]
      obtain ⟨hroom, rfl⟩ := emit_eq_ok_iff.mp (hcall.symm.trans h)
      refine ⟨?_, ?_, ?_, ?_, ?_⟩ <;>
        simp [recorded, openIds, hstack, log, kept, Hook.clears, openIdsAfter, codes,
          Hook.violation]
      exact hroom
  | mutation hook =>
    obtain ⟨-, hroom, rfl⟩ := onMutation_eq_ok_iff.mp h
    exact ⟨hroom, rfl, rfl, rfl, (List.append_nil _).symm⟩

lemma currentFrameId_eq (t : Tracer) : t.currentFrameId = t.openIds.headD sentinel := by
  rcases hstack : t.frameStack with _ | ⟨fc, rest⟩
  · simp only [currentFrameId, openIds, hstack]
    rfl
  · simp only [currentFrameId, openIds, hstack]
    rfl

end Tracer

/-! ## Gate 1 as an automaton -/

def gateStep : BlockPlace OpenTransaction → Event → Option (BlockPlace OpenTransaction)
  | .before, ⟨seq, .blockStart _⟩ => if seq = 0 then some (.inside none) else none
  | .inside none, ⟨_, .blockCommit _⟩ => some .after
  | .inside tx, e => (walkStep tx e.data.goEvent).map .inside
  | _, _ => none

/-- The events of a stream, one after the other. -/
def gateWalk (place : BlockPlace OpenTransaction) (stream : List Event) :
    Option (BlockPlace OpenTransaction) := stream.foldlM gateStep place

lemma gateWalk_cons (place : BlockPlace OpenTransaction) (e : Event) (stream : List Event) :
    gateWalk place (e :: stream) = (gateStep place e).bind (gateWalk · stream) := rfl

lemma gateWalk_append (place : BlockPlace OpenTransaction) (stream stream' : List Event) :
    gateWalk place (stream ++ stream') = (gateWalk place stream).bind (gateWalk · stream') := by
  simp only [gateWalk, List.foldlM_append]
  rfl

lemma gateStep_inside {tx : Place} {e : Event} (h : ∀ commit, e.data ≠ .blockCommit commit) :
    gateStep (.inside tx) e = (walkStep tx e.data.goEvent).map .inside := by
  obtain ⟨seq, data⟩ := e
  cases data with
  | blockCommit commit => exact absurd rfl (h commit)
  | _ => cases tx <;> rfl

/-- One event inside the block. -/
lemma gateWalk_singleton {tx : Place} {seq : UInt64} {data : EventData} (p : Place)
    (h : walkStep tx data.goEvent = some p) :
    gateWalk (.inside tx) [⟨seq, data⟩] = some (.inside p) := by
  have hdata : ∀ commit, (⟨seq, data⟩ : Event).data ≠ .blockCommit commit := by
    rintro commit rfl
    obtain _ | ⟨_ | ⟨top, rest⟩, count, reverted⟩ := tx <;> cases h
  rw [gateWalk_cons, gateStep_inside hdata, h]
  rfl

/-- From inside the block the automaton reads an interior that walks and a `BlockCommit`. -/
lemma gateWalk_inside_eq_after_iff {tx : Place} {stream : List Event} :
    gateWalk (.inside tx) stream = some .after ↔ ∃ interior seq commit,
      stream = interior ++ [⟨seq, .blockCommit commit⟩] ∧
        walk tx (goEvents interior) = some none := by
  induction stream generalizing tx with
  | nil =>
    refine iff_of_false (fun h => by cases h) ?_
    rintro ⟨interior, seq, commit, heq, -⟩
    simp at heq
  | cons e stream ih =>
    obtain ⟨seq, data⟩ := e
    by_cases hcommit : ∃ commit, data = .blockCommit commit
    · obtain ⟨commit, rfl⟩ := hcommit
      cases tx with
      | none =>
        have hstep : gateStep (.inside none) ⟨seq, .blockCommit commit⟩ = some .after := rfl
        rw [gateWalk_cons, hstep, Option.bind_some]
        constructor
        · intro h
          rcases stream with _ | ⟨e, stream⟩
          · exact ⟨[], seq, commit, rfl, rfl⟩
          · cases h
        · rintro ⟨interior, seq', commit', heq, hwalk⟩
          rcases interior with _ | ⟨e, interior⟩
          · obtain rfl := (List.cons_eq_cons.mp heq).2
            rfl
          · obtain rfl := (List.cons_eq_cons.mp heq).1
            cases hwalk
      | some tx =>
        refine iff_of_false (fun h => by cases h) ?_
        rintro ⟨interior, seq', commit', heq, hwalk⟩
        rcases interior with _ | ⟨e, interior⟩
        · cases hwalk
        · obtain rfl := (List.cons_eq_cons.mp heq).1
          obtain ⟨_ | ⟨top, rest⟩, count, reverted⟩ := tx <;> cases hwalk
    · have hdata : ∀ commit, (⟨seq, data⟩ : Event).data ≠ .blockCommit commit :=
        fun commit heq => hcommit ⟨commit, heq⟩
      rw [gateWalk_cons, gateStep_inside hdata]
      constructor
      · intro h
        obtain ⟨place, hstep, hrest⟩ := Option.bind_eq_some_iff.mp h
        obtain ⟨tx', hwalk, rfl⟩ := Option.map_eq_some_iff.mp hstep
        obtain ⟨interior, seq', commit, rfl, hinterior⟩ := ih.mp hrest
        refine ⟨⟨seq, data⟩ :: interior, seq', commit, rfl, ?_⟩
        exact Option.bind_eq_some_iff.mpr ⟨tx', hwalk, hinterior⟩
      · rintro ⟨interior, seq', commit, heq, hwalk⟩
        rcases interior with _ | ⟨e, interior⟩
        · exact absurd (congrArg Event.data (List.cons_eq_cons.mp heq).1) (hdata commit)
        · obtain ⟨rfl, rfl⟩ := List.cons_eq_cons.mp heq
          obtain ⟨tx', hstep, hinterior⟩ := Option.bind_eq_some_iff.mp hwalk
          rw [hstep]
          exact ih.mpr ⟨interior, seq', commit, rfl, hinterior⟩

/-- Gate 1 accepts the streams with growing sequence numbers that the automaton accepts. -/
lemma verifyGate1Invariants_iff_gateWalk {stream : List Event} :
    verifyGate1Invariants stream = .ok () ↔
      Increasing stream ∧ gateWalk .before stream = some .after := by
  rw [verifyGate1Invariants_iff_walks]
  constructor
  · rintro ⟨start, interior, seq, commit, rfl, hgrows, hwalk⟩
    exact ⟨hgrows, gateWalk_inside_eq_after_iff.mpr ⟨interior, seq, commit, rfl, hwalk⟩⟩
  · rintro ⟨hgrows, hwalk⟩
    rcases stream with _ | ⟨⟨seq, data⟩, stream⟩
    · cases hwalk
    obtain ⟨place, hstep, hrest⟩ := Option.bind_eq_some_iff.mp hwalk
    cases data with
    | blockStart start =>
      obtain ⟨rfl, hplace⟩ := Option.ite_none_right_eq_some.mp hstep
      obtain rfl := Option.some.inj hplace
      obtain ⟨interior, seq, commit, rfl, hinterior⟩ := gateWalk_inside_eq_after_iff.mp hrest
      exact ⟨start, interior, seq, commit, rfl, hgrows, hinterior⟩
    | _ => cases hstep

/-- A walk never comes back to the place before the block. -/
lemma gateWalk_eq_before_iff {place : BlockPlace OpenTransaction} {stream : List Event} :
    gateWalk place stream = some .before ↔ place = .before ∧ stream = [] := by
  induction stream generalizing place with
  | nil => simp [gateWalk]
  | cons e stream ih =>
    refine iff_of_false (fun h => ?_) (by simp)
    obtain ⟨place', hstep, hrest⟩ := Option.bind_eq_some_iff.mp h
    obtain ⟨rfl, -⟩ := ih.mp hrest
    obtain ⟨seq, data⟩ := e
    rcases place with _ | tx | _
    · cases data with
      | blockStart start => exact absurd (Option.ite_none_right_eq_some.mp hstep).2 (by simp)
      | _ => cases hstep
    · by_cases hcommit : ∃ commit, data = .blockCommit commit
      · obtain ⟨commit, rfl⟩ := hcommit
        obtain _ | ⟨_ | ⟨top, rest⟩, count, reverted⟩ := tx <;> cases hstep
      · rw [gateStep_inside fun commit heq => hcommit ⟨commit, heq⟩] at hstep
        obtain ⟨_, _, hplace⟩ := Option.map_eq_some_iff.mp hstep
        cases hplace
    · cases hstep

/-! ## The automata step together -/

/-- What the calls tell of an open transaction. -/
def OpenTransaction.seen (tx : OpenTransaction) : OpenCalls :=
  ⟨tx.frameStack.length, tx.rootFrameCount, tx.rootFrameReverted⟩

namespace BlockPlace

/-- What the calls tell of a place. -/
def seen : BlockPlace OpenTransaction → BlockPlace OpenCalls
  | .before => .before
  | .inside tx => .inside (tx.map OpenTransaction.seen)
  | .after => .after

/-- The ids of the open frames. -/
def stack : BlockPlace OpenTransaction → List UInt64
  | .inside (some tx) => tx.frameStack
  | _ => []

end BlockPlace

open BlockPlace (stack)

/-- Mutations do not move inside the block, and do not belong outside of it. -/
lemma gateWalk_changes (seq frameId : UInt64) {changes : List Change} (h : changes ≠ [])
    (place : BlockPlace OpenTransaction) (hook : MutationHook) :
    (gateWalk place (stamp seq (changes.map (Change.event frameId)))).map BlockPlace.seen =
        hookStep place.seen (.mutation hook) ∧
      ∀ place', gateWalk place (stamp seq (changes.map (Change.event frameId))) = some place' →
        place' = place := by
  have hstep : ∀ tx seq' (change : Change),
      gateStep (.inside tx) ⟨seq', change.event frameId⟩ = some (.inside tx) := by
    intro tx seq' change
    rw [gateStep_inside (by cases change <;> simp [Change.event]),
      walkStep_mutation (change.mutation?_event frameId)]
    rfl
  rcases place with _ | tx | _
  · obtain ⟨change, changes, rfl⟩ := List.exists_cons_of_ne_nil h
    cases change <;> exact ⟨rfl, fun place' h => by cases h⟩
  · have hwalk : gateWalk (.inside tx) (stamp seq (changes.map (Change.event frameId))) =
        some (.inside tx) := by
      clear h
      induction changes generalizing seq with
      | nil => rfl
      | cons change changes ih =>
        rw [List.map_cons, stamp, gateWalk_cons, hstep, Option.bind_some]
        exact ih (seq + 1)
    refine ⟨?_, fun place' h => (Option.some.inj (hwalk.symm.trans h)).symm⟩
    rw [hwalk]
    obtain _ | ⟨_ | ⟨top, rest⟩, count, reverted⟩ := tx <;> rfl
  · obtain ⟨change, changes, rfl⟩ := List.exists_cons_of_ne_nil h
    exact ⟨rfl, fun place' h => by cases h⟩

lemma changes_ne_nil (pending : Option Address) (hook : MutationHook) :
    hook.changes pending ≠ [] := by
  cases hook <;> exact List.cons_ne_nil _ _

namespace Tracer

variable {t t' : Tracer}

/-- Gate 1 reads what a call records as the automaton of the calls reads the call, and its frame
stack remains that of the tracer. -/
lemma gateWalk_recorded {call : Hook} {place : BlockPlace OpenTransaction}
    (hclears : call.clears = false) (hstack : t.openIds = place.stack) (seq : UInt64) :
    (gateWalk place (stamp seq (t.recorded call))).map BlockPlace.seen =
        hookStep place.seen call ∧
      ∀ place', gateWalk place (stamp seq (t.recorded call)) = some place' →
        t.openIdsAfter call = place'.stack := by
  cases call with
  | onBlockStart block => cases hclears
  | onBlockEnd =>
    obtain _ | (_ | ⟨_ | ⟨top, rest⟩, count, reverted⟩) | _ := place
    all_goals
      refine ⟨rfl, fun place' h => ?_⟩
      cases h
    exact hstack
  | onTxStart tx from_ =>
    obtain _ | (_ | ⟨_ | ⟨top, rest⟩, count, reverted⟩) | _ := place
    all_goals
      refine ⟨rfl, fun place' h => ?_⟩
      cases h
    rfl
  | onTxEnd args =>
    obtain _ | (_ | ⟨_ | ⟨top, rest⟩, count, reverted⟩) | _ := place
    case inside.some.nil =>
      by_cases hend : count ≤ 1 ∧ (count = 1 → args.reverted = reverted)
      · have hgate : gateWalk (.inside (some ⟨[], count, reverted⟩))
            (stamp seq (t.recorded (.onTxEnd args))) = some (.inside none) :=
          gateWalk_singleton none (if_pos ⟨rfl, hend⟩)
        rw [hgate]
        refine ⟨(if_pos hend).symm, fun place' h => ?_⟩
        cases h
        rfl
      · have hgate : gateWalk (.inside (some ⟨[], count, reverted⟩))
            (stamp seq (t.recorded (.onTxEnd args))) = none :=
          congrArg (fun place => (Option.map BlockPlace.inside place).bind (gateWalk · []))
            (if_neg fun h => hend h.2)
        rw [hgate]
        exact ⟨(if_neg hend).symm, fun place' h => by cases h⟩
    all_goals
      refine ⟨rfl, fun place' h => ?_⟩
      cases h
  | onEnter args =>
    have hcurrent := t.currentFrameId_eq
    rw [hstack] at hcurrent
    obtain _ | (_ | ⟨_ | ⟨top, rest⟩, count, reverted⟩) | _ := place
    case inside.some.nil =>
      have hgate : gateWalk (.inside (some ⟨[], count, reverted⟩))
          (stamp seq (t.recorded (.onEnter args))) =
            some (.inside (some ⟨[t.nextFrameId], count + 1, reverted⟩)) :=
        gateWalk_singleton (some ⟨[t.nextFrameId], count + 1, reverted⟩) (if_pos hcurrent)
      rw [hgate]
      refine ⟨rfl, fun place' h => ?_⟩
      cases h
      exact congrArg (t.nextFrameId :: ·) hstack
    case inside.some.cons =>
      have hgate : gateWalk (.inside (some ⟨top :: rest, count, reverted⟩))
          (stamp seq (t.recorded (.onEnter args))) =
            some (.inside (some ⟨t.nextFrameId :: top :: rest, count, reverted⟩)) :=
        gateWalk_singleton (some ⟨t.nextFrameId :: top :: rest, count, reverted⟩)
          (if_pos hcurrent)
      rw [hgate]
      refine ⟨rfl, fun place' h => ?_⟩
      cases h
      exact congrArg (t.nextFrameId :: ·) hstack
    all_goals
      refine ⟨rfl, fun place' h => ?_⟩
      cases h
  | onExit flag =>
    obtain _ | (_ | ⟨_ | ⟨top, rest⟩, count, reverted⟩) | _ := place
    case inside.some.cons =>
      have hrecorded : t.recorded (.onExit flag) =
          [.frameExit { frameId := top, reverted := flag }] := by
        rw [recorded, hstack]
        rfl
      have hgate : gateWalk (.inside (some ⟨top :: rest, count, reverted⟩))
          (stamp seq (t.recorded (.onExit flag))) =
            some (.inside (some ⟨rest, count, if rest = [] then flag else reverted⟩)) := by
        rw [hrecorded]
        exact gateWalk_singleton (some ⟨rest, count, if rest = [] then flag else reverted⟩)
          (if_pos rfl)
      rw [hgate]
      refine ⟨?_, fun place' h => ?_⟩
      · rcases rest with _ | ⟨top', rest⟩ <;> rfl
      · cases h
        rw [openIdsAfter, hstack]
        rfl
    all_goals
      have hrecorded : t.recorded (.onExit flag) = [] := by
        rw [recorded, hstack]
        rfl
      rw [hrecorded]
      refine ⟨rfl, fun place' h => ?_⟩
      cases h
      rw [openIdsAfter, hstack]
      rfl
  | mutation hook =>
    obtain ⟨hmap, hplace⟩ := gateWalk_changes seq t.currentFrameId
      (changes_ne_nil (t.pendingSelfDestruct t.currentFrameId) hook) place hook
    refine ⟨hmap, fun place' h => ?_⟩
    rw [hplace place' h]
    exact hstack

/-- What Gate 1 makes of the events so far fits the tracer. -/
structure Tracks (t : Tracer) : Prop where
  stack : ∀ place, gateWalk .before t.events = some place → t.openIds = place.stack
  fresh : t.globalSequence = 0 ↔ t.events = []
  grown : ∃ seq es, t.events = stamp seq es ∧ seq.toNat + es.length = t.globalSequence.toNat

lemma Tracks.new (env : Option EnvironmentDescriptor) : (new env).Tracks where
  stack place h := by
    obtain rfl := Option.some.inj h
    rfl
  fresh := ⟨fun _ => rfl, fun _ => rfl⟩
  grown := ⟨0, [], rfl, rfl⟩

/-- The place of the calls, as the events tell it. -/
def place (t : Tracer) : Option (BlockPlace OpenCalls) :=
  (gateWalk .before t.events).map BlockPlace.seen

lemma toNat_sequence {call : Hook} (h : t.Effect call t') :
    t'.globalSequence.toNat = t.globalSequence.toNat + (t.recorded call).length := by
  rw [h.sequence]
  exact toNat_add_ofNat h.room

/-- `OnBlockStart` begins a block that Gate 1 accepts only if nothing is recorded before it. -/
lemma tracks_of_clears {call : Hook} (htracks : t.Tracks) (h : t.Effect call t')
    (hclears : call.clears = true) : t'.Tracks ∧ t'.place = t.place.bind (hookStep · call) := by
  cases call with
  | onBlockStart block =>
    have hseq' := toNat_sequence h
    have hevents : t'.events = stamp t.globalSequence (t.recorded (.onBlockStart block)) := h.events
    have hfresh : t'.globalSequence ≠ 0 := fun hzero => by simp [hzero, recorded] at hseq'
    have hgrown : ∃ seq es, t'.events = stamp seq es ∧
        seq.toNat + es.length = t'.globalSequence.toNat := ⟨_, _, hevents, hseq'.symm⟩
    by_cases hseq : t.globalSequence = 0
    · have hgate : gateWalk .before t'.events = some (.inside none) := by
        rw [hevents]
        exact congrArg (Option.bind · (gateWalk · [])) (if_pos hseq)
      have hbefore : gateWalk .before t.events = some .before :=
        gateWalk_eq_before_iff.mpr ⟨rfl, htracks.fresh.mp hseq⟩
      refine ⟨⟨fun place hplace => ?_, ?_, hgrown⟩, ?_⟩
      · obtain rfl := Option.some.inj (hgate.symm.trans hplace)
        have hnone : t.openIds = [] := htracks.stack _ hbefore
        exact h.openIds.trans hnone
      · exact iff_of_false hfresh (by rw [hevents]; exact List.cons_ne_nil _ _)
      · rw [place, hgate, place, hbefore]
        rfl
    · have hgate : gateWalk .before t'.events = none := by
        rw [hevents]
        exact congrArg (Option.bind · (gateWalk · [])) (if_neg hseq)
      refine ⟨⟨fun place hplace => ?_, ?_, hgrown⟩, ?_⟩
      · rw [hgate] at hplace
        cases hplace
      · exact iff_of_false hfresh (by rw [hevents]; exact List.cons_ne_nil _ _)
      · rw [place, hgate, place]
        -- a block has already begun, or the stream is lost
        rcases hplace : gateWalk .before t.events with _ | _ | tx | _
        · rfl
        · exact absurd (htracks.fresh.mpr (gateWalk_eq_before_iff.mp hplace).2) hseq
        · obtain _ | ⟨_ | ⟨top, rest⟩, count, reverted⟩ := tx <;> rfl
        · rfl
  | _ => cases hclears

/-- **Step.**  Every call keeps Gate 1 and the automaton of the calls together. -/
lemma tracks_of_effect {call : Hook} (htracks : t.Tracks) (h : t.Effect call t') :
    t'.Tracks ∧ t'.place = t.place.bind (hookStep · call) := by
  cases hclears : call.clears with
  | true => exact tracks_of_clears htracks h hclears
  | false =>
    have hseq' := toNat_sequence h
    have hevents : t'.events = t.events ++ stamp t.globalSequence (t.recorded call) := by
      rw [h.events, kept, hclears]
      rfl
    have hgate : gateWalk .before t'.events = (gateWalk .before t.events).bind
        (gateWalk · (stamp t.globalSequence (t.recorded call))) := by
      rw [hevents, gateWalk_append]
    obtain ⟨seq, es, hes, hlen⟩ := htracks.grown
    have hsequence : seq + UInt64.ofNat es.length = t.globalSequence := by
      rw [← UInt64.toNat_inj, toNat_add_ofNat (by rw [hlen]; exact t.globalSequence.toNat_lt), hlen]
    refine ⟨⟨fun place' hplace' => ?_, ?_, seq, es ++ t.recorded call, ?_, ?_⟩, ?_⟩
    · rw [hgate] at hplace'
      obtain ⟨place, hplace, hstep⟩ := Option.bind_eq_some_iff.mp hplace'
      exact h.openIds.trans ((gateWalk_recorded hclears (htracks.stack _ hplace) _).2 _ hstep)
    · have hnil : stamp t.globalSequence (t.recorded call) = [] ↔ (t.recorded call).length = 0 := by
        rcases t.recorded call with _ | ⟨e, es⟩ <;> simp [stamp]
      rw [hevents, List.append_eq_nil_iff, ← htracks.fresh, hnil, ← UInt64.toNat_inj,
        ← UInt64.toNat_inj, hseq']
      exact Nat.add_eq_zero_iff
    · rw [stamp_append, hsequence, ← hes, hevents]
    · rw [List.length_append, ← add_assoc, hlen, hseq']
    · rw [place, hgate, place]
      cases hplace : gateWalk .before t.events with
      | none => rfl
      | some place => exact (gateWalk_recorded hclears (htracks.stack _ hplace) _).1

/-- **Run.**  The place of the tracer is that of the calls. -/
lemma tracks_of_run {calls : List Hook} (htracks : t.Tracks) (h : t.run calls = .ok t') :
    t'.Tracks ∧ t'.place = t.place.bind (hookWalk · calls) := by
  induction calls generalizing t with
  | nil =>
    obtain rfl := Except.ok.inj h
    exact ⟨htracks, (Option.bind_fun_some _).symm⟩
  | cons call calls ih =>
    obtain ⟨mid, hcall, hrun⟩ := run_cons_eq_ok.mp h
    obtain ⟨hmid, hplace⟩ := tracks_of_effect htracks (effect_of_call hcall)
    obtain ⟨ht', hplace'⟩ := ih hmid hrun
    refine ⟨ht', ?_⟩
    rw [hplace', hplace, Option.bind_assoc]
    rfl

lemma Tracks.increasing (h : t.Tracks) : Increasing t.events := by
  obtain ⟨seq, es, hes, hlen⟩ := h.grown
  rw [hes]
  exact increasing_stamp (by rw [hlen]; exact t.globalSequence.toNat_lt)

lemma seen_eq_after_iff {place : BlockPlace OpenTransaction} :
    place.seen = .after ↔ place = .after := by
  cases place <;> simp [BlockPlace.seen]

lemma Tracks.verify_iff (h : t.Tracks) :
    verifyGate1Invariants t.events = .ok () ↔ t.place = some .after := by
  rw [verifyGate1Invariants_iff_gateWalk, and_iff_right h.increasing, place, Option.map_eq_some_iff]
  simp [seen_eq_after_iff]

end Tracer

/-- **Hooks in any order.**  Whatever calls a new tracer completes, Gate 1 accepts its events
exactly if the calls, without the `OnExit`s for which no frame is open, are those of one block
whose transactions agree. -/
theorem Tracer.accepted_iff_matched {env : Option EnvironmentDescriptor} {calls : List Hook}
    {t : Tracer} (h : (Tracer.new env).run calls = .ok t) :
    verifyGate1Invariants t.events = .ok () ↔
      ∃ b : HookBlock, b.Agrees ∧ matched 0 calls = b.calls := by
  obtain ⟨htracks, hplace⟩ := Tracer.tracks_of_run (Tracer.Tracks.new env) h
  have hnew : (Tracer.new env).place = some .before := rfl
  rw [htracks.verify_iff, hplace, hnew, Option.bind_some, hookWalk_eq_after_iff]

/-- A block with an `OnExit` too many before it and in its transaction, and with a reward after
it. -/
def strayCalls : List Hook :=
  [.onExit false,
    .onBlockStart { root := Bytes.fill 32 1, number := 1, time := 10 },
    .onTxStart { hash := Bytes.fill 32 7, to_ := none, value := none, gas := 21000,
                 gasPrice := none, nonce := 0 } (Bytes.fill 20 1),
    .onEnter { depth := 0, typ := 0xf0, from_ := Bytes.fill 20 1, to_ := Bytes.fill 20 2 },
    .mutation (.onNonceChangeV2 (Bytes.fill 20 2) 0 1),
    .onExit false,
    .onExit true,
    .onTxEnd { receipt := some { status := 1 }, err := none },
    .mutation (.onBalanceChange (Bytes.fill 20 3) (some 0) (some 5) .other),
    .onBlockEnd]

/-- The block in `strayCalls`. -/
def strayBlock : HookBlock where
  header := { root := Bytes.fill 32 1, number := 1, time := 10 }
  parts :=
    [.inr {
      tx := { hash := Bytes.fill 32 7, to_ := none, value := none, gas := 21000,
              gasPrice := none, nonce := 0 }
      from_ := Bytes.fill 20 1
      body := .node { enter := { depth := 0, typ := 0xf0, from_ := Bytes.fill 20 1,
                                 to_ := Bytes.fill 20 2 }, reverted := false }
        (.leaf (.onNonceChangeV2 (Bytes.fill 20 2) 0 1) .nil) .nil
      fin := { receipt := some { status := 1 }, err := none } },
     .inl (.onBalanceChange (Bytes.fill 20 3) (some 0) (some 5) .other)]

lemma strayBlock_agrees : strayBlock.Agrees := by
  simp [strayBlock, HookBlock.Agrees, TxCalls.Agrees, Forest.roots, TxEndArgs.reverted,
    receiptStatusFailed]

/-- The events of `strayCalls` are accepted. -/
theorem strayCalls_accepted :
    ∃ t, (Tracer.new none).run strayCalls = .ok t ∧ verifyGate1Invariants t.events = .ok () := by
  have hrun : ∃ t, (Tracer.new none).run strayCalls = .ok t := ⟨_, rfl⟩
  obtain ⟨t, h⟩ := hrun
  exact ⟨t, h, (Tracer.accepted_iff_matched h).mpr ⟨strayBlock, strayBlock_agrees, rfl⟩⟩

end KaySentinel
