import KaySentinel.Bridge.Scope
import KaySentinel.Tracer.Runs

/-!
# What the bridge keeps of a traced block

The bridge accepts the streams that the tracer returns for a bracketed run exactly if it can stamp
the frames in which something is recorded, and its output holds what the hooks recorded outside
reverted frames, in the order of the calls.
-/

namespace KaySentinel

open Bridge Cse Emes NestedLog

/-! ## What should be kept -/

/-- The payloads that mutation hooks record around which no frame is reverted, in the order of
the calls.  The account `pending` waits to be destroyed in the frame around the hooks; a frame
inside starts with none. -/
def HookForest.keptPayloads : Option Address → HookForest → List CsePayload
  | _, .nil => []
  | pending, .leaf hook rest =>
      (hook.changes pending).map Change.payload ++
        HookForest.keptPayloads (hook.pendingAfter pending) rest
  | pending, .node frame inner rest =>
      (if frame.reverted then [] else HookForest.keptPayloads none inner) ++
        HookForest.keptPayloads pending rest

/-- Fewer than `2 ^ 32` frames, each of depth below `2 ^ 32`. -/
def TxCalls.Small (tx : TxCalls) : Prop :=
  tx.body.frames.length < 2 ^ 32 ∧
    ∀ frame ∈ tx.body.frames, frame.enter.depth.toUInt64.toNat < 2 ^ 32

/-- Every frame in which a mutation hook is called directly is one of the first `2 ^ 32` and has a
depth below `2 ^ 32`.  The first frame is the `n`-th. -/
def HookForest.Stampable (hooks : HookForest) (n : ℕ) : Prop :=
  ∀ p ∈ (hooks.frames.zip hooks.insides).zipIdx n, p.1.2 ≠ [] →
    p.2 < 2 ^ 32 ∧ p.1.1.enter.depth.toUInt64.toNat < 2 ^ 32

/-! ## The numbers of a trace -/

lemma toNat_add_one {n : UInt64} (h : n.toNat + 1 < 2 ^ 64) : (n + 1).toNat = n.toNat + 1 :=
  toNat_add_ofNat h

section

variable (env : Option EnvironmentDescriptor) (current : UInt64) (hooks : HookForest) (ids : Ids)

/-- The counter goes on by the number of frames. -/
lemma toNat_nextFrameId_trace (h : ids.nextFrameId.toNat + hooks.frames.length < 2 ^ 64) :
    (trace env current hooks ids).2.nextFrameId.toNat =
      ids.nextFrameId.toNat + hooks.frames.length := by
  induction hooks generalizing current ids with
  | nil => rfl
  | leaf hook rest ih => exact ih current _ h
  | node frame inner rest ihinner ihrest =>
    rw [Forest.frames, List.length_cons, List.length_append] at h ⊢
    have hnext : ids.enter.nextFrameId.toNat = ids.nextFrameId.toNat + 1 :=
      toNat_add_one (by omega)
    have hinner := ihinner ids.nextFrameId ids.enter (by omega)
    rw [trace, ihrest _ _ (by omega), hinner]
    omega

/-- Only the frames that the trace numbers, and the one around it, are touched. -/
lemma pending_trace (h : ids.nextFrameId.toNat + hooks.frames.length < 2 ^ 64) {id : UInt64}
    (hne : id ≠ current)
    (hid : id.toNat < ids.nextFrameId.toNat ∨
      ids.nextFrameId.toNat + hooks.frames.length ≤ id.toNat) :
    (trace env current hooks ids).2.pending id = ids.pending id := by
  induction hooks generalizing current ids with
  | nil => rfl
  | leaf hook rest ih =>
    have hwait := ids.pending_wait_of_ne hne (hook.pendingAfter (ids.pending current))
    rw [← hwait]
    exact ih current _ h hne hid
  | node frame inner rest ihinner ihrest =>
    rw [Forest.frames, List.length_cons, List.length_append] at h hid
    have hnext : ids.enter.nextFrameId.toNat = ids.nextFrameId.toNat + 1 :=
      toNat_add_one (by omega)
    have hinner := toNat_nextFrameId_trace env ids.nextFrameId inner ids.enter (by omega)
    have hne' : id ≠ ids.nextFrameId := by
      rintro rfl
      omega
    rw [trace, ihrest _ _ (by omega) hne (by omega), ihinner _ _ (by omega) hne' (by omega)]
    rfl

end

/-- The next `count` frames take new ids, nothing waits in them, and the frame `current` is not one
of them. -/
structure Ids.Fresh (ids : Ids) (current : UInt64) (count : ℕ) : Prop where
  room : ids.nextFrameId.toNat + count < 2 ^ 64
  waits_none : ∀ id : UInt64, ids.nextFrameId.toNat ≤ id.toNat →
    id.toNat < ids.nextFrameId.toNat + count → ids.pending id = none
  current_old : current.toNat < ids.nextFrameId.toNat ∨
    ids.nextFrameId.toNat + count ≤ current.toNat

namespace Ids.Fresh

variable {ids : Ids} {current : UInt64} {count : ℕ}

lemma wait (h : ids.Fresh current count) (pending : Option Address) :
    (ids.wait current pending).Fresh current count := by
  refine ⟨h.room, ?_, h.current_old⟩
  intro id (hle : ids.nextFrameId.toNat ≤ id.toNat) (hlt : id.toNat < ids.nextFrameId.toNat + count)
  have hold := h.current_old
  have hne : id ≠ current := by
    rintro rfl
    omega
  exact (ids.pending_wait_of_ne hne _).trans (h.waits_none id hle hlt)

/-- The first of the next frames is new itself, and so are those inside it. -/
lemma enter {inner : ℕ} (h : ids.Fresh current (inner + 1 + count)) :
    ids.pending ids.nextFrameId = none ∧ current ≠ ids.nextFrameId ∧
      ids.enter.Fresh ids.nextFrameId inner := by
  have hroom := h.room
  have hold := h.current_old
  have hnext : ids.enter.nextFrameId.toNat = ids.nextFrameId.toNat + 1 := toNat_add_one (by omega)
  refine ⟨h.waits_none _ le_rfl (by omega), ?_, by omega, ?_, by omega⟩
  · rintro rfl
    omega
  · intro id hle hlt
    exact h.waits_none id (by omega) (by omega)

/-- After a frame the frames to come are new, and the account that waits around it is the
same. -/
lemma exit (env : Option EnvironmentDescriptor) {inner : HookForest}
    (h : ids.Fresh current (inner.frames.length + 1 + count)) :
    (trace env ids.nextFrameId inner ids.enter).2.Fresh current count ∧
      (trace env ids.nextFrameId inner ids.enter).2.pending current = ids.pending current ∧
      (trace env ids.nextFrameId inner ids.enter).2.nextFrameId.toNat =
        ids.nextFrameId.toNat + 1 + inner.frames.length := by
  have hroom := h.room
  have hold := h.current_old
  obtain ⟨-, hne, -⟩ := h.enter
  have hnext : ids.enter.nextFrameId.toNat = ids.nextFrameId.toNat + 1 := toNat_add_one (by omega)
  have hroom' : ids.enter.nextFrameId.toNat + inner.frames.length < 2 ^ 64 := by omega
  have hcount := toNat_nextFrameId_trace env ids.nextFrameId inner ids.enter hroom'
  refine ⟨⟨by omega, fun id hle hlt => ?_, by omega⟩, ?_, by omega⟩
  · have hne' : id ≠ ids.nextFrameId := by
      rintro rfl
      omega
    rw [pending_trace env _ inner _ hroom' hne' (by omega)]
    exact h.waits_none id (by omega) (by omega)
  · exact pending_trace env _ inner _ hroom' hne (by omega)

end Ids.Fresh

/-- **The trace of a transaction.**  The changes around which no traced frame is reverted are
what the hooks record outside reverted frames. -/
lemma kept_trace (env : Option EnvironmentDescriptor) {current : UInt64} {hooks : HookForest}
    {ids : Ids} (h : ids.Fresh current hooks.frames.length) :
    ((trace env current hooks ids).1.kept TracedFrame.reverted).map Change.payload =
      hooks.keptPayloads (ids.pending current) := by
  induction hooks generalizing current ids with
  | nil => rfl
  | leaf hook rest ih =>
    have hrest := ih (h.wait (hook.pendingAfter (ids.pending current)))
    rw [Ids.pending_wait_self] at hrest
    rw [trace, Forest.kept_prepend, List.map_append, hrest, HookForest.keptPayloads]
  | node frame inner rest ihinner ihrest =>
    rw [Forest.frames, List.length_cons, List.length_append, Nat.add_right_comm] at h
    obtain ⟨hnone, -, hfresh⟩ := h.enter
    obtain ⟨hfresh', hpending, -⟩ := h.exit env
    have hinner := ihinner hfresh
    have hrest := ihrest hfresh'
    -- no account waits in the new frame
    rw [Ids.pending_enter, hnone] at hinner
    rw [trace, Forest.kept, List.map_append, hrest, hpending, HookForest.keptPayloads, ← hinner]
    cases hrev : frame.reverted <;> simp [FrameCalls.traced, hrev]

/-- The id and the depth of a traced frame fit the `u32` fields of a `TraceContext`. -/
def TracedFrame.Fits (frame : TracedFrame) : Prop :=
  frame.frameId.toNat < 2 ^ 32 ∧ frame.depth.toNat < 2 ^ 32

lemma TracedFrame.Fits.ne_noFrame {frame : TracedFrame} (h : frame.Fits) :
    frame.frameId ≠ noFrame := by
  intro heq
  have hlt := h.1
  rw [heq] at hlt
  exact absurd hlt (by decide)

lemma fits_trace (env : Option EnvironmentDescriptor) {current : UInt64} {hooks : HookForest}
    {ids : Ids} (hdepth : ∀ frame ∈ hooks.frames, frame.enter.depth.toUInt64.toNat < 2 ^ 32)
    (hroom : ids.nextFrameId.toNat + hooks.frames.length < 2 ^ 32) :
    ∀ frame ∈ (trace env current hooks ids).1.frames, frame.Fits := by
  induction hooks generalizing current ids with
  | nil => simp [trace, Forest.frames]
  | leaf hook rest ih =>
    rw [trace, Forest.frames_prepend]
    exact ih hdepth hroom
  | node frame inner rest ihinner ihrest =>
    rw [Forest.frames, List.forall_mem_cons, List.forall_mem_append] at hdepth
    obtain ⟨hframe, hinner, hrest⟩ := hdepth
    rw [Forest.frames, List.length_cons, List.length_append] at hroom
    have hnext : ids.enter.nextFrameId.toNat = ids.nextFrameId.toNat + 1 :=
      toNat_add_one (by omega)
    have hcount := toNat_nextFrameId_trace env ids.nextFrameId inner ids.enter (by omega)
    rw [trace, Forest.frames, List.forall_mem_cons, List.forall_mem_append]
    refine ⟨⟨?_, hframe⟩, ihinner hinner (by omega), ihrest hrest (by omega)⟩
    exact Nat.lt_of_le_of_lt (Nat.le_add_right _ _) hroom

/-! ## What the bridge reads -/

/-- The id of the innermost of the open frames. -/
def currentOf : List (UInt64 × UInt64) → UInt64
  | [] => noParentFrame
  | top :: _ => top.1

/-- The id and the depth of the innermost open frame fit, if one is open. -/
def TopFits (frames : List (UInt64 × UInt64)) : Prop :=
  ∀ top ∈ frames.head?, top.1.toNat < 2 ^ 32 ∧ top.2.toNat < 2 ^ 32

/-- No open frame has the id that stands for none. -/
def TopNamed (frames : List (UInt64 × UInt64)) : Prop := ∀ top ∈ frames.head?, top.1 ≠ noFrame

/-- A mutation is read if the innermost frame fits. -/
lemma bracketStep_change {frames : List (UInt64 × UInt64)} (hnamed : TopNamed frames)
    (change : Change) {p : Position} :
    bracketStep (some frames) (change.event (currentOf frames)).goEvent = some p ↔
      p = some frames ∧ TopFits frames := by
  rcases frames with _ | ⟨top, frames⟩
  · have hstep : bracketStep (some []) (change.event (currentOf [])).goEvent = some (some []) := by
      rw [bracketStep_mutation (change.mutation?_event _)]
      exact if_pos rfl
    rw [hstep, Option.some.injEq, eq_comm]
    exact (and_iff_left (by simp [TopFits])).symm
  · have hfits : TopFits (top :: frames) ↔ top.1.toNat < 2 ^ 32 ∧ top.2.toNat < 2 ^ 32 := by
      simp [TopFits]
    have hstep : bracketStep (some (top :: frames))
        (change.event (currentOf (top :: frames))).goEvent =
        if top.1.toNat < 2 ^ 32 ∧ top.2.toNat < 2 ^ 32 then some (some (top :: frames))
        else none := by
      rw [bracketStep_mutation (change.mutation?_event _)]
      exact if_neg (hnamed top rfl)
    rw [hstep, hfits]
    by_cases h : top.1.toNat < 2 ^ 32 ∧ top.2.toNat < 2 ^ 32
    · rw [if_pos h, Option.some.injEq, eq_comm]
      exact (and_iff_left h).symm
    · rw [if_neg h]
      exact iff_of_false (by simp) fun h' => h h'.2

lemma readFrom_changes {frames : List (UInt64 × UInt64)} (hnamed : TopNamed frames)
    {changes : List Change} (hne : changes ≠ []) {p : Position} :
    readFrom (some frames)
        ((changes.map (Change.event (currentOf frames))).map EventData.goEvent) = some p ↔
      p = some frames ∧ TopFits frames := by
  induction changes with
  | nil => exact absurd rfl hne
  | cons change changes ih =>
    rw [List.map_cons, List.map_cons, readFrom_cons, Option.bind_eq_some_iff]
    constructor
    · rintro ⟨mid, hstep, hread⟩
      obtain ⟨rfl, hfits⟩ := (bracketStep_change hnamed change).mp hstep
      rcases changes with _ | ⟨next, changes⟩
      · exact ⟨(Option.some.inj hread).symm, hfits⟩
      · exact (ih (by simp)).mp hread
    · rintro ⟨rfl, hfits⟩
      refine ⟨some frames, (bracketStep_change hnamed change).mpr ⟨rfl, hfits⟩, ?_⟩
      rcases changes with _ | ⟨next, changes⟩
      · rfl
      · exact (ih (by simp)).mpr ⟨rfl, hfits⟩

lemma MutationHook.changes_ne_nil (pending : Option Address) (hook : MutationHook) :
    hook.changes pending ≠ [] := by
  cases hook <;> exact List.cons_ne_nil _ _

lemma HookForest.stampable_node {frame : FrameCalls} {inner rest : HookForest} {n : ℕ} :
    HookForest.Stampable (.node frame inner rest) n ↔
      (inner.direct ≠ [] → n < 2 ^ 32 ∧ frame.enter.depth.toUInt64.toNat < 2 ^ 32) ∧
        inner.Stampable (n + 1) ∧ rest.Stampable (n + 1 + inner.frames.length) := by
  have hlen : inner.frames.length = inner.insides.length := (Forest.length_insides inner).symm
  have hzip : (inner.frames.zip inner.insides).length = inner.frames.length := by
    rw [List.length_zip, ← hlen, min_self]
  rw [Stampable, Forest.frames, Forest.insides, List.zip_cons_cons, List.zip_append hlen,
    List.zipIdx_cons, List.zipIdx_append, hzip, List.forall_mem_cons, List.forall_mem_append]
  rfl

/-- The events of a frame and of what comes after it. -/
lemma goEvents_trace_node (env : Option EnvironmentDescriptor) (current : UInt64)
    (frame : FrameCalls) (inner rest : HookForest) (ids : Ids) :
    ((trace env current (.node frame inner rest) ids).1.events current).map EventData.goEvent =
      ((frame.traced env ids.nextFrameId).enterEvent current).goEvent ::
        (((trace env ids.nextFrameId inner ids.enter).1.events
            ids.nextFrameId).map EventData.goEvent ++
          (frame.traced env ids.nextFrameId).exitEvent.goEvent ::
            ((trace env current rest (trace env ids.nextFrameId inner ids.enter).2).1.events
              current).map EventData.goEvent) := by
  rw [trace, TraceForest.events, List.map_cons, List.map_append, List.map_cons]
  rfl

/-- **Which traces the bridge reads.**  The bridge comes back to the same open frames if every
frame in which something is recorded can be stamped; otherwise it stops. -/
lemma readFrom_trace (env : Option EnvironmentDescriptor) {frames : List (UInt64 × UInt64)}
    (hnamed : TopNamed frames) {hooks : HookForest} {ids : Ids}
    (hroom : ids.nextFrameId.toNat + hooks.frames.length < 2 ^ 64) {p : Position} :
    readFrom (some frames) (((trace env (currentOf frames) hooks ids).1.events
        (currentOf frames)).map EventData.goEvent) = some p ↔
      p = some frames ∧ (hooks.direct ≠ [] → TopFits frames) ∧
        hooks.Stampable ids.nextFrameId.toNat := by
  induction hooks generalizing frames ids p with
  | nil =>
    have hread : readFrom (some frames) [] = some (some frames) := rfl
    rw [trace, TraceForest.events, List.map_nil, hread, Option.some.injEq, eq_comm]
    simp [Forest.direct, HookForest.Stampable, Forest.frames]
  | leaf hook rest ih =>
    rw [trace, TraceForest.events_prepend, List.map_append, readFrom_append,
      Option.bind_eq_some_iff]
    have hrest : HookForest.Stampable (.leaf hook rest) ids.nextFrameId.toNat ↔
        HookForest.Stampable rest ids.nextFrameId.toNat := Iff.rfl
    have hread := @ih frames hnamed
      (ids.wait (currentOf frames) (hook.pendingAfter (ids.pending (currentOf frames)))) hroom p
    rw [hrest]
    constructor
    · rintro ⟨mid, hhook, hafter⟩
      obtain ⟨rfl, hfits⟩ := (readFrom_changes hnamed (hook.changes_ne_nil _)).mp hhook
      obtain ⟨rfl, -, hstampable⟩ := hread.mp hafter
      exact ⟨rfl, fun _ => hfits, hstampable⟩
    · rintro ⟨rfl, hfits, hstampable⟩
      have htop := hfits (List.cons_ne_nil _ _)
      exact ⟨some frames, (readFrom_changes hnamed (hook.changes_ne_nil _)).mpr ⟨rfl, htop⟩,
        hread.mpr ⟨rfl, fun _ => htop, hstampable⟩⟩
  | node frame inner rest ihinner ihrest =>
    rw [Forest.frames, List.length_cons, List.length_append] at hroom
    have hnext : ids.enter.nextFrameId.toNat = ids.nextFrameId.toNat + 1 :=
      toNat_add_one (by omega)
    have hcount := toNat_nextFrameId_trace env ids.nextFrameId inner ids.enter (by omega)
    rw [hnext] at hcount
    have hnamed' : TopNamed ((ids.nextFrameId, frame.enter.depth.toUInt64) :: frames) := by
      rintro _ ⟨⟩ heq
      have hlast : noFrame.toNat = 2 ^ 64 - 1 := rfl
      have hlt : ids.nextFrameId.toNat = noFrame.toNat := congrArg UInt64.toNat heq
      omega
    have hinner := @ihinner _ hnamed' ids.enter (by omega)
    have hrest := @ihrest _ hnamed (trace env ids.nextFrameId inner ids.enter).2 (by omega)
    rw [hnext] at hinner
    rw [hcount] at hrest
    have hfits : TopFits ((ids.nextFrameId, frame.enter.depth.toUInt64) :: frames) ↔
        ids.nextFrameId.toNat < 2 ^ 32 ∧ frame.enter.depth.toUInt64.toNat < 2 ^ 32 := by
      simp [TopFits]
    rw [hfits] at hinner
    have hread : readFrom (some frames) (((trace env (currentOf frames) (.node frame inner rest)
        ids).1.events (currentOf frames)).map EventData.goEvent) =
        (readFrom (some ((ids.nextFrameId, frame.enter.depth.toUInt64) :: frames))
          (((trace env ids.nextFrameId inner ids.enter).1.events
            ids.nextFrameId).map EventData.goEvent)).bind fun mid =>
          (bracketStep mid (frame.traced env ids.nextFrameId).exitEvent.goEvent).bind
            (readFrom · (((trace env (currentOf frames) rest (trace env ids.nextFrameId inner
              ids.enter).2).1.events (currentOf frames)).map EventData.goEvent)) := by
      have henter : bracketStep (some frames)
          ((frame.traced env ids.nextFrameId).enterEvent (currentOf frames)).goEvent =
            some (some ((ids.nextFrameId, frame.enter.depth.toUInt64) :: frames)) := by
        cases frames <;> rfl
      rw [goEvents_trace_node, readFrom_cons, henter, Option.bind_some, readFrom_append]
      rfl
    have hexit : bracketStep (some ((ids.nextFrameId, frame.enter.depth.toUInt64) :: frames))
        (frame.traced env ids.nextFrameId).exitEvent.goEvent = some (some frames) := if_pos rfl
    rw [hread, Option.bind_eq_some_iff, HookForest.stampable_node]
    constructor
    · rintro ⟨mid, hmid, hafter⟩
      obtain ⟨rfl, hdirect, hstampable⟩ := hinner.mp hmid
      rw [hexit, Option.bind_some] at hafter
      obtain ⟨rfl, htop, hstampable'⟩ := hrest.mp hafter
      exact ⟨rfl, htop, hdirect, hstampable, hstampable'⟩
    · rintro ⟨rfl, htop, hdirect, hstampable, hstampable'⟩
      refine ⟨_, hinner.mpr ⟨rfl, hdirect, hstampable⟩, ?_⟩
      rw [hexit, Option.bind_some]
      exact hrest.mpr ⟨rfl, htop, hstampable'⟩

namespace TraceForest

/-- The events of a trace start and end no transaction. -/
lemma inside_events (current : UInt64) (f : TraceForest) :
    Inside ((f.events current).map EventData.goEvent) := by
  induction f generalizing current with
  | nil => exact fun e he => absurd he List.not_mem_nil
  | leaf change f ih =>
    have hchange := not_boundary_of_mutation (change.mutation?_event current)
    exact List.forall_mem_cons.mpr ⟨hchange.symm, ih current⟩
  | node frame inner f ihinner ihrest =>
    rw [TraceForest.events, List.map_cons, List.map_append, List.map_cons]
    refine List.forall_mem_cons.mpr ⟨⟨rfl, rfl⟩, List.forall_mem_append.mpr ⟨ihinner _, ?_⟩⟩
    exact List.forall_mem_cons.mpr ⟨⟨rfl, rfl⟩, ihrest current⟩

/-- The operations of a trace, on payloads. -/
lemma payloadOps_events {f : TraceForest} (hfits : ∀ frame ∈ f.frames, frame.Fits)
    (current : UInt64) :
    payloadOps ((f.events current).map EventData.goEvent) =
      (f.ops TracedFrame.reverted (current = noFrame)).map (Op.map Change.payload) := by
  induction f generalizing current with
  | nil => rfl
  | leaf change f ih =>
    have hop : payloadOps [(change.event current).goEvent] =
        [.item change.payload (current = noFrame)] := by
      rw [payloadOps, ops, List.filterMap_cons, op?_mutation (change.mutation?_event current)]
      rfl
    rw [TraceForest.events, List.map_cons, payloadOps_cons, hop, ih hfits]
    rfl
  | node frame inner f ihinner ihrest =>
    rw [Forest.frames, List.forall_mem_cons, List.forall_mem_append] at hfits
    obtain ⟨hframe, hinner, hrest⟩ := hfits
    have hinside := ihinner hinner frame.frameId
    rw [decide_eq_false hframe.ne_noFrame] at hinside
    have henter : payloadOps [(frame.enterEvent current).goEvent] = [.enter] := rfl
    have hexit : payloadOps [frame.exitEvent.goEvent] = [.exit frame.reverted] := rfl
    rw [TraceForest.events, List.map_cons, payloadOps_cons, henter, List.map_append,
      payloadOps_append, hinside, List.map_cons, payloadOps_cons, hexit, ihrest hrest,
      Forest.ops, List.map_cons, List.map_append]
    rfl

end TraceForest

variable {env : Option EnvironmentDescriptor}

/-- What the bridge sees of the body of a transaction. -/
def TxCalls.goBody (env : Option EnvironmentDescriptor) (tx : TxCalls) : List GoEvent :=
  (TraceForest.events noParentFrame (tx.trace env).1).map EventData.goEvent

lemma TxCalls.fresh {tx : TxCalls} (h : tx.body.frames.length < 2 ^ 64) :
    (⟨0, fun _ => none⟩ : Ids).Fresh noParentFrame tx.body.frames.length := by
  have hlast : noParentFrame.toNat = 2 ^ 64 - 1 := rfl
  refine ⟨?_, fun _ _ _ => rfl, .inr ?_⟩
  · simpa using h
  · rw [hlast, UInt64.toNat_zero]
    omega

lemma TxCalls.Small.fits {tx : TxCalls} (h : tx.Small) :
    ∀ frame ∈ (tx.trace env).1.frames, frame.Fits :=
  fits_trace env h.2 (by simpa using h.1)

lemma TxCalls.goEvents_events (tx : TxCalls) :
    (tx.events env).map EventData.goEvent =
      .transactionStart { txIndex := 0, hash := tx.tx.hash } ::
        (tx.goBody env ++ [.transactionEnd { txIndex := 0, reverted := tx.fin.reverted }]) := by
  rw [TxCalls.events, List.map_cons, List.map_append]
  rfl

lemma readFrom_tx {tx : TxCalls} (h : tx.body.frames.length < 2 ^ 64) {p : Position} :
    readFrom none ((tx.events env).map EventData.goEvent) = some p ↔
      p = none ∧ tx.body.Stampable 0 := by
  have hbody : ∀ {q : Position}, readFrom (some []) (tx.goBody env) = some q ↔
      q = some [] ∧ tx.body.Stampable 0 := by
    intro q
    have hread := @readFrom_trace env [] (by simp [TopNamed]) tx.body ⟨0, fun _ => none⟩
      (by simpa using h) q
    have htop : TopFits [] := by simp [TopFits]
    rwa [and_iff_right fun _ => htop] at hread
  have hstart : bracketStep none (.transactionStart { txIndex := 0, hash := tx.tx.hash }) =
      some (some []) := rfl
  rw [tx.goEvents_events, readFrom_cons, hstart, Option.bind_some, readFrom_append,
    Option.bind_eq_some_iff]
  constructor
  · rintro ⟨mid, hmid, hend⟩
    obtain ⟨rfl, hstampable⟩ := hbody.mp hmid
    exact ⟨(Option.some.inj hend).symm, hstampable⟩
  · rintro ⟨rfl, hstampable⟩
    exact ⟨some [], hbody.mpr ⟨rfl, hstampable⟩, rfl⟩

lemma readFrom_txs {txs : List TxCalls} (h : ∀ tx ∈ txs, tx.body.frames.length < 2 ^ 64)
    {p : Position} :
    readFrom none ((txs.flatMap (TxCalls.events env)).map EventData.goEvent) = some p ↔
      p = none ∧ ∀ tx ∈ txs, tx.body.Stampable 0 := by
  induction txs with
  | nil =>
    have hread : readFrom none [] = some none := rfl
    rw [List.flatMap_nil, List.map_nil, hread, Option.some.injEq, eq_comm]
    exact (and_iff_left (by simp)).symm
  | cons tx txs ih =>
    obtain ⟨htx, htxs⟩ := List.forall_mem_cons.mp h
    rw [List.flatMap_cons, List.map_append, readFrom_append, Option.bind_eq_some_iff,
      List.forall_mem_cons]
    constructor
    · rintro ⟨mid, hmid, hrest⟩
      obtain ⟨rfl, hstampable⟩ := (readFrom_tx htx).mp hmid
      obtain ⟨rfl, hstampables⟩ := (ih htxs).mp hrest
      exact ⟨rfl, hstampable, hstampables⟩
    · rintro ⟨rfl, hstampable, hstampables⟩
      exact ⟨none, (readFrom_tx htx).mpr ⟨rfl, hstampable⟩, (ih htxs).mpr ⟨rfl, hstampables⟩⟩

/-- The bridge accepts the stream of a block exactly if all frames of its transactions in which
something is recorded can be stamped. -/
lemma bracketed_block_iff {b : BlockCalls} (h : ∀ tx ∈ b.txs, tx.body.frames.length < 2 ^ 64) :
    Bracketed ((b.events env).map EventData.goEvent) ↔ ∀ tx ∈ b.txs, tx.body.Stampable 0 := by
  have hstart : bracketStep none b.startEvent.goEvent = some none := rfl
  rw [Bracketed, BlockCalls.events, List.map_cons, readFrom_cons, hstart, Option.bind_some,
    List.map_append, readFrom_append, Option.bind_eq_some_iff]
  constructor
  · rintro ⟨mid, hmid, -⟩
    exact ((readFrom_txs h).mp hmid).2
  · intro hstampable
    exact ⟨none, (readFrom_txs h).mpr ⟨rfl, hstampable⟩, rfl⟩

lemma TxCalls.Small.stampable {tx : TxCalls} (h : tx.Small) : tx.body.Stampable 0 := by
  rintro ⟨⟨frame, inner⟩, k⟩ hp -
  have hget := List.mem_zipIdx_iff_getElem?.mp hp
  have hk : k < tx.body.frames.length := by
    have hlt : k < (tx.body.frames.zip tx.body.insides).length :=
      (List.getElem?_eq_some_iff.mp hget).1
    rw [List.length_zip] at hlt
    exact lt_min_iff.mp hlt |>.1
  exact ⟨Nat.lt_trans hk h.1, h.2 frame (List.of_mem_zip (List.mem_of_getElem? hget)).1⟩

/-- The bridge accepts the stream of a block of small transactions. -/
lemma bracketed_block {b : BlockCalls} (h : ∀ tx ∈ b.txs, tx.Small) :
    Bracketed ((b.events env).map EventData.goEvent) := by
  refine (bracketed_block_iff fun tx htx => ?_).mpr fun tx htx => (h tx htx).stampable
  exact Nat.lt_trans (h tx htx).1 (by decide)

/-- A function that reads the lists of a concatenation one at a time reads them all. -/
lemma read_flatMap {α β γ : Type} {f : α → List β} {read : List β → List γ} {g : α → γ}
    (h : ∀ a rest, read (f a ++ rest) = g a :: read rest) (l : List α) (rest : List β) :
    read (l.flatMap f ++ rest) = l.map g ++ read rest := by
  induction l with
  | nil => rfl
  | cons a l ih => rw [List.flatMap_cons, List.append_assoc, h, ih, List.map_cons, List.cons_append]

lemma goEvents_tx_append (tx : TxCalls) (rest : List GoEvent) :
    (tx.events env).map EventData.goEvent ++ rest =
      .transactionStart { txIndex := 0, hash := tx.tx.hash } ::
        (tx.goBody env ++
          .transactionEnd { txIndex := 0, reverted := tx.fin.reverted } :: rest) := by
  rw [tx.goEvents_events, List.cons_append, List.append_assoc, List.singleton_append]

/-- What the bridge sees of a block. -/
lemma goEvents_block (b : BlockCalls) :
    (b.events env).map EventData.goEvent = b.startEvent.goEvent ::
      ((b.txs.flatMap fun tx => (tx.events env).map EventData.goEvent) ++ [.blockCommit]) := by
  rw [BlockCalls.events, List.map_cons, List.map_append, List.map_flatMap]
  rfl

lemma transactions_block (b : BlockCalls) :
    transactions ((b.events env).map EventData.goEvent) = b.txs.map (TxCalls.goBody env) := by
  have htx : ∀ (tx : TxCalls) rest, transactions ((tx.events env).map EventData.goEvent ++ rest) =
      tx.goBody env :: transactions rest := by
    intro tx rest
    have hinside : Inside (tx.goBody env) := TraceForest.inside_events _ _
    rw [goEvents_tx_append, transactions_start _ hinside]
  have hstart : transactions ((b.events env).map EventData.goEvent) = transactions
      ((b.txs.flatMap fun tx => (tx.events env).map EventData.goEvent) ++ [.blockCommit]) := by
    rw [goEvents_block]
    rfl
  rw [hstart, read_flatMap htx]
  exact List.append_nil _

/-- What the bridge keeps of a transaction. -/
lemma eq_of_keeps {tx : TxCalls} (h : tx.Small) {kept : List CsePayload}
    (hkept : Keeps (tx.goBody env) kept) : kept = tx.body.keptPayloads none := by
  have hops : payloadOps (tx.goBody env) =
      ((tx.trace env).1.ops TracedFrame.reverted true).map (Op.map Change.payload) :=
    TraceForest.payloadOps_events h.fits noParentFrame
  have hdirect : FramelessOutside (tx.goBody env) := by
    have houtside : DirectOutside 0 ((tx.trace env).1.ops TracedFrame.reverted true ++ []) :=
      Forest.directOutside_ops 0 _ [] trivial
    have hpayloads : DirectOutside 0 (payloadOps (tx.goBody env)) := by
      rw [hops, directOutside_map]
      rwa [List.append_nil] at houtside
    exact (directOutside_map Prod.snd 0 _).mp hpayloads
  have htrace : ((tx.trace env).1.kept TracedFrame.reverted).map Change.payload =
      tx.body.keptPayloads none :=
      kept_trace env (TxCalls.fresh (Nat.lt_trans h.1 (by decide)))
  rw [hkept.eq hdirect, surviving, ← survivors_map, ← htrace, ← Forest.survivors_ops_outside,
    ← survivors_map, ← hops]
  rfl

/-! ## Runs of the tracer through the bridge -/

/-- The bridge accepts the stream, and the payloads of its output are, for each transaction of
the block, what the hooks record outside reverted frames, between two boundary markers. -/
def KeepsUnreverted (config : BridgeConfig) (b : BlockCalls) (stream : List Event) : Prop :=
  ∃ out, translate (goEvents stream) config = .ok out ∧
    out.map (·.payload) = b.txs.flatMap fun tx => bracketed (tx.body.keptPayloads none)

lemma keepsUnreverted_stamp (config : BridgeConfig) {b : BlockCalls}
    (h : ∀ tx ∈ b.txs, tx.Small) (seq : UInt64) :
    KeepsUnreverted config b (stamp seq (b.events env)) := by
  obtain ⟨out, hout⟩ := (translate_isOk_iff config).mpr (@bracketed_block env b h)
  rw [KeepsUnreverted, goEvents_stamp]
  refine ⟨out, hout, ?_⟩
  obtain ⟨segments, hsegments, hpayloads⟩ := translate_segments hout
  rw [transactions_block, List.forall₂_map_left_iff] at hsegments
  rw [hpayloads]
  clear hout hpayloads
  generalize b.txs = txs at h hsegments
  induction hsegments with
  | nil => rfl
  | cons hkept _ ih =>
    obtain ⟨htx, htxs⟩ := List.forall_mem_cons.mp h
    rw [List.flatMap_cons, List.flatMap_cons, eq_of_keeps htx hkept, ih htxs]

/-- What holds of the stream of every block holds of the streams of a run. -/
lemma forall₂_numbered {P : BlockCalls → List Event → Prop} {blocks : List BlockCalls}
    (h : ∀ b ∈ blocks, ∀ seq, P b (stamp seq (b.events env))) (seq : UInt64) :
    List.Forall₂ P blocks (numbered env seq blocks) := by
  induction blocks generalizing seq with
  | nil => exact .nil
  | cons b blocks ih =>
    obtain ⟨hb, hblocks⟩ := List.forall_mem_cons.mp h
    exact .cons (hb seq) (ih hblocks _)

/-- **From the tracer to the bridge.**  A bracketed run whose transactions are small completes
exactly if its integers fit and it has fewer than `2 ^ 64` events, and the bridge then keeps of
every block what its hooks record outside reverted frames. -/
theorem Tracer.streams_keepUnreverted (env : Option EnvironmentDescriptor) (config : BridgeConfig)
    {blocks : List BlockCalls} (hsmall : ∀ b ∈ blocks, ∀ tx ∈ b.txs, tx.Small) :
    ((∃ streams, (Tracer.new env).streams blocks = .ok streams) ↔
        (∀ b ∈ blocks, b.Fits) ∧ (blocks.flatMap (BlockCalls.events env)).length < 2 ^ 64) ∧
      ∀ streams, (Tracer.new env).streams blocks = .ok streams →
        List.Forall₂ (KeepsUnreverted config) blocks streams := by
  refine ⟨Tracer.exists_streams_iff env, fun streams hstreams => ?_⟩
  obtain ⟨-, -, rfl⟩ := (Tracer.new_streams_eq_ok_iff env).mp hstreams
  exact forall₂_numbered (fun b hb => keepsUnreverted_stamp config (hsmall b hb)) 0

/-- A transaction that destroys its contract, after a call that is reverted. -/
def destroyingTx : TxCalls :=
  { tx := { hash := Bytes.fill 32 7, to_ := some (Bytes.fill 20 2), value := none, gas := 50000,
            gasPrice := some 1, nonce := 0 }
    from_ := Bytes.fill 20 1
    body :=
      .leaf (.onNonceChangeV2 (Bytes.fill 20 1) 0 1)
        (.node { enter := { depth := 0, typ := 0xf1, from_ := Bytes.fill 20 1,
                            to_ := Bytes.fill 20 2 }, reverted := false }
          (.leaf (.onCodeChangeV2 (Bytes.fill 20 2) (Bytes.fill 32 5) (Bytes.zero 32)
              .codeChangeSelfDestruct)
            (.node { enter := { depth := 1, typ := 0xfa, from_ := Bytes.fill 20 2,
                                to_ := Bytes.fill 20 3 }, reverted := true }
              (.leaf (.onStorageChange (Bytes.fill 20 3) (Bytes.zero 32) (Bytes.zero 32)
                (Bytes.fill 32 1)) .nil)
              (.leaf (.onBalanceChange (Bytes.fill 20 4) none none
                .balanceIncreaseSelfdestruct) .nil)))
          .nil)
    fin := { receipt := some { status := 1 }, err := none } }

lemma destroyingTx_small : destroyingTx.Small := by
  have hdepths : (0 : Int64).toUInt64.toNat < 2 ^ 32 ∧ (1 : Int64).toUInt64.toNat < 2 ^ 32 := by
    decide
  simpa [destroyingTx, TxCalls.Small, Forest.frames] using hdepths

/-- A block of `destroyingTx`, and a block without transactions. -/
def destroyingBlocks : List BlockCalls :=
  [{ header := { root := Bytes.fill 32 1, number := 1, time := 10 }, txs := [destroyingTx] },
    { header := { root := Bytes.fill 32 2, number := 2, time := 20 }, txs := [] }]

/-- Of `destroyingTx` only the storage change is dropped, and the destruction follows the balance
change. -/
theorem destroyingBlocks_kept :
    ∃ first second out, (Tracer.new none).streams destroyingBlocks = .ok [first, second] ∧
      translate (goEvents first) ⟨1⟩ = .ok out ∧
      out.map (·.payload) = bracketed
        [.nonceUpdated { address := Bytes.fill 20 1, previousNonce := 0, currentNonce := 1 },
          .codeUpdated { address := Bytes.fill 20 2, previousCodeHash := Bytes.fill 32 5,
                         currentCodeHash := Bytes.zero 32 },
          .balanceChanged { address := Bytes.fill 20 4, previousBalance := Bytes.zero 32,
                            currentBalance := Bytes.zero 32 },
          .contractDestroyed { address := Bytes.fill 20 2, refundTarget := Bytes.fill 20 4 }] := by
  have hsmall : ∀ b ∈ destroyingBlocks, ∀ tx ∈ b.txs, tx.Small := by
    simpa [destroyingBlocks] using destroyingTx_small
  have hrun : ∃ first second, (Tracer.new none).streams destroyingBlocks = .ok [first, second] :=
    ⟨_, _, rfl⟩
  obtain ⟨first, second, hstreams⟩ := hrun
  have hkept := (Tracer.streams_keepUnreverted none ⟨1⟩ hsmall).2 _ hstreams
  obtain ⟨out, hout, hpayloads⟩ := (List.forall₂_cons.mp hkept).1
  exact ⟨first, second, out, hstreams, hout, hpayloads⟩

end KaySentinel
