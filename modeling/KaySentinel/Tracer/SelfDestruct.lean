import KaySentinel.Lib.Correlate
import KaySentinel.Tracer.Survival

/-!
# Self-destruct correlation

A self-destruction reaches the tracer as two reports: a code change of the account and a balance
change of the beneficiary, in one frame.  The tracer keeps the account until a beneficiary is
reported in its frame, and keeps no beneficiary: `Tracer.correlated_iff`.
-/

namespace KaySentinel

open Bridge Correlate Emes NestedLog

/-! ## Reports and events -/

/-- The half of a self-destruction that a hook reports: the account or the beneficiary. -/
def MutationHook.report? : MutationHook → Option (Report Address Address)
  | .onCodeChangeV2 addr _ _ .codeChangeSelfDestruct => some (.first addr)
  | .onBalanceChange addr _ _ .balanceIncreaseSelfdestruct => some (.second addr)
  | _ => none

/-- The self-destruct reports among hooks. -/
def reports (hooks : List MutationHook) : List (Report Address Address) :=
  hooks.filterMap MutationHook.report?

def Bridge.GoEvent.selfDestruct? : GoEvent → Option SelfDestructData
  | .selfDestruct data => some data
  | _ => none

def Bridge.GoEvent.entered? : GoEvent → Option UInt64
  | .frameEnter data => some data.frameId
  | _ => none

/-- The self-destructions among the events of a transaction. -/
def selfDestructs (body : List GoEvent) : List SelfDestructData :=
  body.filterMap GoEvent.selfDestruct?

/-- The ids of the frames of a transaction, in the order in which they are entered. -/
def frameIds (body : List GoEvent) : List UInt64 := body.filterMap GoEvent.entered?

/-- The frames of a transaction: the id of each, and the mutation hooks called directly in it. -/
def framesOf (hooks : HookForest) (body : List GoEvent) : List (UInt64 × List MutationHook) :=
  (frameIds body).zip hooks.insides

/-- The events of a transaction correlate its self-destruct reports. -/
structure Correlated (hooks : HookForest) (body : List GoEvent) : Prop where
  frames : (frameIds body).length = hooks.insides.length
  /-- An account and a beneficiary reported in one frame make exactly one event. -/
  once : ∀ frame ∈ framesOf hooks body, ∀ a b,
    .first a ∈ reports frame.2 → .second b ∈ reports frame.2 →
      (selfDestructs body).count { frameId := frame.1, address := a, beneficiary := b } = 1
  /-- There is no other event. -/
  paired : ∀ data ∈ selfDestructs body, ∃ frame ∈ framesOf hooks body, data.frameId = frame.1 ∧
    .first data.address ∈ reports frame.2 ∧ .second data.beneficiary ∈ reports frame.2

/-- In every frame, of the self-destruct reports exactly once one of the beneficiary directly
follows one of the account, for any two that are reported there; outside all frames none of a
beneficiary directly follows one of an account. -/
structure HookForest.AccountsFirst (hooks : HookForest) : Prop where
  inside : ∀ inner ∈ hooks.insides, ∀ a b, .first a ∈ reports inner → .second b ∈ reports inner →
    (successions (reports inner)).count (.first a, .second b) = 1
  outside : ∀ a b, (.first a, .second b) ∉ successions (reports hooks.direct)

/-! ## What the tracer records of reports -/

/-- The events that hooks lead to in a frame in which the account `waiting` waits. -/
def destructions (frameId : UInt64) (waiting : Option Address) (hooks : List MutationHook) :
    List SelfDestructData :=
  (pairs waiting (reports hooks)).map fun p =>
    { frameId := frameId, address := p.1, beneficiary := p.2 }

lemma selfDestructs_append (body body' : List GoEvent) :
    selfDestructs (body ++ body') = selfDestructs body ++ selfDestructs body' :=
  List.filterMap_append

/-- The events of one hook, and then those of the hooks after it. -/
lemma destructions_cons (frameId : UInt64) (waiting : Option Address) (hook : MutationHook)
    (hooks : List MutationHook) :
    destructions frameId waiting (hook :: hooks) =
      selfDestructs (((hook.changes waiting).map (Change.event frameId)).map EventData.goEvent) ++
        destructions frameId (hook.pendingAfter waiting) hooks := by
  cases hook with
  | onBalanceChange addr prev new reason =>
    cases reason with
    | balanceIncreaseSelfdestruct => cases waiting <;> rfl
    | other => rfl
  | onNonceChangeV2 addr prev new => rfl
  | onCodeChangeV2 addr prevCodeHash codeHash reason => cases reason <;> rfl
  | onStorageChange addr slot prev new => rfl

/-- The frames of hooks, numbered from `n` on. -/
def HookForest.numberedFrom (hooks : HookForest) (n : ℕ) : List (UInt64 × List MutationHook) :=
  (hooks.insides.zipIdx n).map fun p => (UInt64.ofNat p.2, p.1)

lemma HookForest.numberedFrom_node (frame : FrameCalls) (inner rest : HookForest) (n : ℕ) :
    HookForest.numberedFrom (.node frame inner rest) n =
      (UInt64.ofNat n, inner.direct) ::
        (inner.numberedFrom (n + 1) ++ rest.numberedFrom (n + 1 + inner.frames.length)) := by
  rw [numberedFrom, Forest.insides, List.zipIdx_cons, List.zipIdx_append, List.map_cons,
    List.map_append, Forest.length_insides]
  rfl

/-- **The self-destructions of a trace**, up to their order: those of the hooks outside all frames,
and those of every frame. -/
lemma perm_selfDestructs (env : Option EnvironmentDescriptor) {current : UInt64}
    {hooks : HookForest} {ids : Ids} (h : ids.Fresh current hooks.frames.length) :
    (selfDestructs (((trace env current hooks ids).1.events current).map EventData.goEvent)).Perm
      (destructions current (ids.pending current) hooks.direct ++
        (hooks.numberedFrom ids.nextFrameId.toNat).flatMap fun frame =>
          destructions frame.1 none frame.2) := by
  induction hooks generalizing current ids with
  | nil => exact .nil
  | leaf hook rest ih =>
    have hrest := ih (h.wait (hook.pendingAfter (ids.pending current)))
    rw [Ids.pending_wait_self] at hrest
    rw [trace, TraceForest.events_prepend, List.map_append, selfDestructs_append, Forest.direct,
      destructions_cons, List.append_assoc]
    exact hrest.append_left _
  | node frame inner rest ihinner ihrest =>
    rw [Forest.frames, List.length_cons, List.length_append, Nat.add_right_comm] at h
    obtain ⟨hnone, -, hfresh⟩ := h.enter
    obtain ⟨hfresh', hpending, hcount⟩ := h.exit env
    have hinner := ihinner hfresh
    have hrest := ihrest hfresh'
    have hnext : ids.enter.nextFrameId.toNat = ids.nextFrameId.toNat + 1 :=
      toNat_add_one (by have := h.room; omega)
    rw [Ids.pending_enter, hnone, hnext] at hinner
    rw [hpending, hcount] at hrest
    have hevents : selfDestructs (((trace env current (.node frame inner rest) ids).1.events
        current).map EventData.goEvent) =
        selfDestructs (((trace env ids.nextFrameId inner ids.enter).1.events
          ids.nextFrameId).map EventData.goEvent) ++
        selfDestructs (((trace env current rest (trace env ids.nextFrameId inner
          ids.enter).2).1.events current).map EventData.goEvent) := by
      rw [goEvents_trace_node]
      exact selfDestructs_append _ _
    rw [hevents, Forest.direct, HookForest.numberedFrom_node, UInt64.ofNat_toNat,
      List.flatMap_cons, List.flatMap_append]
    -- the hooks around the frame come before those in it
    refine (hinner.append hrest).trans ?_
    refine (List.perm_append_comm_assoc _ _ _).trans (List.Perm.append_left _ ?_)
    rw [List.append_assoc]

lemma frameIds_append (body body' : List GoEvent) :
    frameIds (body ++ body') = frameIds body ++ frameIds body' := List.filterMap_append

/-- A mutation enters no frame. -/
lemma frameIds_changes (frameId : UInt64) (changes : List Change) :
    frameIds ((changes.map (Change.event frameId)).map EventData.goEvent) = [] := by
  induction changes with
  | nil => rfl
  | cons change changes ih =>
    cases change <;> exact ih

/-- The ids of the frames of a trace. -/
lemma frameIds_trace (env : Option EnvironmentDescriptor) {current : UInt64} {hooks : HookForest}
    {ids : Ids} (h : ids.nextFrameId.toNat + hooks.frames.length < 2 ^ 64) :
    frameIds (((trace env current hooks ids).1.events current).map EventData.goEvent) =
      (hooks.numberedFrom ids.nextFrameId.toNat).map Prod.fst := by
  induction hooks generalizing current ids with
  | nil => rfl
  | leaf hook rest ih =>
    rw [trace, TraceForest.events_prepend, List.map_append, frameIds_append, frameIds_changes,
      List.nil_append]
    exact ih h
  | node frame inner rest ihinner ihrest =>
    rw [Forest.frames, List.length_cons, List.length_append] at h
    have hnext : ids.enter.nextFrameId.toNat = ids.nextFrameId.toNat + 1 :=
      toNat_add_one (by omega)
    have hcount := toNat_nextFrameId_trace env ids.nextFrameId inner ids.enter (by omega)
    have hinner := @ihinner ids.nextFrameId ids.enter (by omega)
    have hrest := @ihrest current (trace env ids.nextFrameId inner ids.enter).2 (by omega)
    rw [hnext] at hinner hcount
    rw [hcount] at hrest
    have hevents : frameIds (((trace env current (.node frame inner rest) ids).1.events
        current).map EventData.goEvent) =
        ids.nextFrameId :: (frameIds (((trace env ids.nextFrameId inner ids.enter).1.events
          ids.nextFrameId).map EventData.goEvent) ++
        frameIds (((trace env current rest (trace env ids.nextFrameId inner
          ids.enter).2).1.events current).map EventData.goEvent)) := by
      rw [goEvents_trace_node]
      exact congrArg (ids.nextFrameId :: ·) (frameIds_append _ _)
    rw [hevents, hinner, hrest, HookForest.numberedFrom_node, UInt64.ofNat_toNat, List.map_cons,
      List.map_append]

/-! ## The self-destructions of a transaction -/

namespace HookForest

variable {hooks : HookForest}

lemma map_fst_numberedFrom (n : ℕ) :
    (hooks.numberedFrom n).map Prod.fst =
      (List.range' n hooks.frames.length).map UInt64.ofNat := by
  rw [← Forest.length_insides, ← List.zipIdx_map_snd, numberedFrom, List.map_map, List.map_map]
  rfl

lemma map_snd_numberedFrom (n : ℕ) : (hooks.numberedFrom n).map Prod.snd = hooks.insides := by
  rw [numberedFrom, List.map_map]
  exact List.zipIdx_map_fst n hooks.insides

/-- The counter does not wrap around. -/
lemma toNat_ofNat_of_mem_range' (h : hooks.frames.length < 2 ^ 64) {i : ℕ}
    (hi : i ∈ List.range' 0 hooks.frames.length) : (UInt64.ofNat i).toNat = i := by
  rw [List.mem_range'_1] at hi
  have hlt : i < 2 ^ 64 := by omega
  exact UInt64.toNat_ofNat_of_lt' hlt

/-- The ids of the frames are distinct. -/
lemma nodup_numberedFrom (h : hooks.frames.length < 2 ^ 64) :
    ((hooks.numberedFrom 0).map Prod.fst).Nodup := by
  rw [map_fst_numberedFrom]
  refine List.Nodup.map_on ?_ List.nodup_range'
  intro i hi j hj heq
  have htoNat := congrArg UInt64.toNat heq
  rwa [toNat_ofNat_of_mem_range' h hi, toNat_ofNat_of_mem_range' h hj] at htoNat

/-- No frame has the id that stands for none. -/
lemma ne_noParentFrame_of_mem (h : hooks.frames.length < 2 ^ 64)
    {frame : UInt64 × List MutationHook} (hframe : frame ∈ hooks.numberedFrom 0) :
    frame.1 ≠ noParentFrame := by
  have hmem : frame.1 ∈ (hooks.numberedFrom 0).map Prod.fst := List.mem_map_of_mem hframe
  rw [map_fst_numberedFrom] at hmem
  obtain ⟨i, hi, hid⟩ := List.mem_map.mp hmem
  intro heq
  have htoNat := congrArg UInt64.toNat (hid.trans heq)
  have hlast : noParentFrame.toNat = 2 ^ 64 - 1 := rfl
  rw [toNat_ofNat_of_mem_range' h hi, hlast] at htoNat
  rw [List.mem_range'_1] at hi
  omega

end HookForest

lemma count_destructions (frameId : UInt64) (waiting : Option Address)
    (hooks : List MutationHook) (a b : Address) :
    (destructions frameId waiting hooks).count
        { frameId := frameId, address := a, beneficiary := b } =
      (pairs waiting (reports hooks)).count (a, b) := by
  refine List.count_map_of_injective _ (fun p : Address × Address =>
    ({ frameId := frameId, address := p.1, beneficiary := p.2 } : SelfDestructData)) ?_ (a, b)
  intro p q heq
  rw [SelfDestructData.mk.injEq] at heq
  exact Prod.ext heq.2.1 heq.2.2

lemma mem_destructions {frameId : UInt64} {waiting : Option Address} {hooks : List MutationHook}
    {data : SelfDestructData} :
    data ∈ destructions frameId waiting hooks ↔ data.frameId = frameId ∧
      (data.address, data.beneficiary) ∈ pairs waiting (reports hooks) := by
  rw [destructions, List.mem_map]
  constructor
  · rintro ⟨p, hp, rfl⟩
    exact ⟨rfl, hp⟩
  · rintro ⟨rfl, hp⟩
    exact ⟨_, hp, rfl⟩

lemma count_destructions_of_ne {frameId id : UInt64} (h : id ≠ frameId) (waiting : Option Address)
    (hooks : List MutationHook) (a b : Address) :
    (destructions frameId waiting hooks).count
        { frameId := id, address := a, beneficiary := b } = 0 :=
  List.count_eq_zero_of_not_mem fun hmem => h (mem_destructions.mp hmem).1

/-- Frames with distinct ids do not share events. -/
lemma count_flatMap_destructions {frames : List (UInt64 × List MutationHook)}
    (hnodup : (frames.map Prod.fst).Nodup) {frame : UInt64 × List MutationHook}
    (hframe : frame ∈ frames) (a b : Address) :
    (frames.flatMap fun frame => destructions frame.1 none frame.2).count
        { frameId := frame.1, address := a, beneficiary := b } =
      (pairs none (reports frame.2)).count (a, b) := by
  induction frames with
  | nil => exact absurd hframe List.not_mem_nil
  | cons first frames ih =>
    rw [List.map_cons, List.nodup_cons] at hnodup
    obtain ⟨hfirst, hrest⟩ := hnodup
    rw [List.flatMap_cons, List.count_append]
    rcases List.mem_cons.mp hframe with rfl | hmem
    · have hzero : (frames.flatMap fun frame => destructions frame.1 none frame.2).count
          { frameId := frame.1, address := a, beneficiary := b } = 0 := by
        refine List.count_eq_zero_of_not_mem fun hmem => hfirst ?_
        obtain ⟨other, hother, hdata⟩ := List.mem_flatMap.mp hmem
        have hid : frame.1 = other.1 := (mem_destructions.mp hdata).1
        rw [hid]
        exact List.mem_map_of_mem hother
      rw [count_destructions, hzero, Nat.add_zero]
    · have hne : frame.1 ≠ first.1 := fun heq => hfirst (heq ▸ List.mem_map_of_mem hmem)
      rw [count_destructions_of_ne hne, Nat.zero_add, ih hrest hmem]

variable {env : Option EnvironmentDescriptor} {tx : TxCalls}

/-- Every frame makes at least an event. -/
lemma length_frames_le (env : Option EnvironmentDescriptor) (current : UInt64) (hooks : HookForest)
    (ids : Ids) :
    hooks.frames.length ≤ ((trace env current hooks ids).1.events current).length := by
  induction hooks generalizing current ids with
  | nil => exact Nat.zero_le _
  | leaf hook rest ih =>
    rw [trace, TraceForest.events_prepend, List.length_append]
    exact Nat.le_add_left_of_le (ih current _)
  | node frame inner rest ihinner ihrest =>
    have hinner := ihinner ids.nextFrameId ids.enter
    have hrest := ihrest current (trace env ids.nextFrameId inner ids.enter).2
    rw [trace, TraceForest.events, Forest.frames]
    simp only [List.length_cons, List.length_append, FrameCalls.traced]
    omega

lemma length_frames_lt (h : (tx.events env).length < 2 ^ 64) :
    tx.body.frames.length < 2 ^ 64 := by
  have hle := length_frames_le env noParentFrame tx.body ⟨0, fun _ => none⟩
  rw [TxCalls.events, List.length_cons, List.length_append] at h
  exact Nat.lt_of_le_of_lt hle (by simp only [TxCalls.trace] at h; omega)

lemma framesOf_goBody (h : tx.body.frames.length < 2 ^ 64) :
    framesOf tx.body (tx.goBody env) = tx.body.numberedFrom 0 := by
  have hids : frameIds (tx.goBody env) = (tx.body.numberedFrom 0).map Prod.fst :=
    frameIds_trace env (by simpa using h)
  rw [framesOf, hids, ← HookForest.map_snd_numberedFrom 0, ← List.unzip_fst, ← List.unzip_snd,
    List.zip_unzip]

/-- **The self-destructions of a transaction**, exactly. -/
theorem correlated_goBody_iff (h : tx.body.frames.length < 2 ^ 64) :
    Correlated tx.body (tx.goBody env) ↔ tx.body.AccountsFirst := by
  have hperm : (selfDestructs (tx.goBody env)).Perm
      (destructions noParentFrame none tx.body.direct ++
        (tx.body.numberedFrom 0).flatMap fun frame => destructions frame.1 none frame.2) :=
    perm_selfDestructs env (TxCalls.fresh h)
  have hframes : framesOf tx.body (tx.goBody env) = tx.body.numberedFrom 0 := framesOf_goBody h
  -- an event of a frame comes from the reports in it
  have hcount : ∀ frame ∈ tx.body.numberedFrom 0, ∀ a b, (selfDestructs (tx.goBody env)).count
      { frameId := frame.1, address := a, beneficiary := b } =
        (successions (reports frame.2)).count (.first a, .second b) := by
    intro frame hframe a b
    rw [hperm.count_eq, List.count_append,
      count_destructions_of_ne (HookForest.ne_noParentFrame_of_mem h hframe), Nat.zero_add,
      count_flatMap_destructions (HookForest.nodup_numberedFrom h) hframe, count_pairs]
    rfl
  have hinsides : ∀ inner, inner ∈ tx.body.insides ↔
      ∃ frame ∈ tx.body.numberedFrom 0, frame.2 = inner := by
    intro inner
    rw [← HookForest.map_snd_numberedFrom 0, List.mem_map]
  constructor
  · intro hcorrelated
    constructor
    · intro inner hinner a b ha hb
      obtain ⟨frame, hframe, rfl⟩ := (hinsides inner).mp hinner
      rw [← hcount frame hframe]
      exact hcorrelated.once frame (hframes ▸ hframe) a b ha hb
    · intro a b hmem
      have hpair : (a, b) ∈ pairs none (reports tx.body.direct) := by
        rw [← List.count_pos_iff, count_pairs]
        exact List.count_pos_iff.mpr hmem
      have hdata : { frameId := noParentFrame, address := a, beneficiary := b } ∈
          selfDestructs (tx.goBody env) :=
        hperm.mem_iff.mpr (List.mem_append_left _ (mem_destructions.mpr ⟨rfl, hpair⟩))
      obtain ⟨frame, hframe, hid, -⟩ := hcorrelated.paired _ hdata
      exact HookForest.ne_noParentFrame_of_mem h (hframes ▸ hframe) hid.symm
  · intro hfirst
    constructor
    · have hids : frameIds (tx.goBody env) = (tx.body.numberedFrom 0).map Prod.fst :=
        frameIds_trace env (by simpa using h)
      rw [hids, HookForest.map_fst_numberedFrom, List.length_map, List.length_range',
        Forest.length_insides]
    · intro frame hframe a b ha hb
      rw [hframes] at hframe
      rw [hcount frame hframe]
      exact hfirst.inside _ ((hinsides _).mpr ⟨frame, hframe, rfl⟩) a b ha hb
    · intro data hdata
      rw [hframes]
      rcases List.mem_append.mp (hperm.mem_iff.mp hdata) with houtside | hinside
      · have hpair := (mem_destructions.mp houtside).2
        rw [← List.count_pos_iff, count_pairs] at hpair
        exact absurd (List.count_pos_iff.mp hpair) (hfirst.outside _ _)
      · obtain ⟨frame, hframe, hmem⟩ := List.mem_flatMap.mp hinside
        obtain ⟨hid, hpair⟩ := mem_destructions.mp hmem
        obtain ⟨ha, hb⟩ := mem_of_mem_pairs hpair
        exact ⟨frame, hframe, hid, ha.resolve_left (by simp), hb⟩

/-! ## Runs -/

lemma length_le_length_flatMap {α β : Type} {f : α → List β} {l : List α} {a : α} (h : a ∈ l) :
    (f a).length ≤ (l.flatMap f).length := by
  rw [List.flatMap_def]
  exact (List.sublist_flatten_of_mem (List.mem_map_of_mem h)).length_le

lemma length_tx_events_le {b : BlockCalls} (h : tx ∈ b.txs) :
    (tx.events env).length ≤ (b.events env).length := by
  have hle := length_le_length_flatMap (f := TxCalls.events env) h
  rw [BlockCalls.events, List.length_cons, List.length_append]
  omega

/-- In the stream of a block every transaction correlates its self-destruct reports. -/
def BlockCalls.Correlated (b : BlockCalls) (stream : List Event) : Prop :=
  List.Forall₂ (fun tx body => KaySentinel.Correlated tx.body body) b.txs
    (transactions (goEvents stream))

lemma correlated_stamp_iff {b : BlockCalls} (h : (b.events env).length < 2 ^ 64) (seq : UInt64) :
    b.Correlated (stamp seq (b.events env)) ↔ ∀ tx ∈ b.txs, tx.body.AccountsFirst := by
  rw [BlockCalls.Correlated, goEvents_stamp, transactions_block, List.forall₂_map_right_iff,
    List.forall₂_same]
  refine forall₂_congr fun tx htx => correlated_goBody_iff ?_
  exact length_frames_lt (Nat.lt_of_le_of_lt (length_tx_events_le htx) h)

/-- **Self-destruct correlation, exactly.**  In a completed run the stream of a block correlates
the self-destruct reports of its transactions if and only if in each of them the accounts come
first. -/
theorem Tracer.correlated_iff (env : Option EnvironmentDescriptor) {blocks : List BlockCalls}
    {streams : List (List Event)} (h : (Tracer.new env).streams blocks = .ok streams) :
    List.Forall₂ (fun b stream => b.Correlated stream ↔ ∀ tx ∈ b.txs, tx.body.AccountsFirst)
      blocks streams := by
  obtain ⟨-, hevents, rfl⟩ := (Tracer.new_streams_eq_ok_iff env).mp h
  refine forall₂_numbered (fun b hb => correlated_stamp_iff ?_) 0
  exact Nat.lt_of_le_of_lt (length_le_length_flatMap hb) hevents

/-- In `destroyingBlocks` the account comes first, and a frame between the two reports makes no
difference. -/
theorem destroyingBlocks_correlated :
    ∃ first second, (Tracer.new none).streams destroyingBlocks = .ok [first, second] ∧
      BlockCalls.Correlated { header := { root := Bytes.fill 32 1, number := 1, time := 10 },
                              txs := [destroyingTx] } first := by
  have hrun : ∃ first second, (Tracer.new none).streams destroyingBlocks = .ok [first, second] :=
    ⟨_, _, rfl⟩
  obtain ⟨first, second, hstreams⟩ := hrun
  refine ⟨first, second, hstreams, ?_⟩
  refine (List.forall₂_cons.mp (Tracer.correlated_iff none hstreams)).1.mpr ?_
  rw [List.forall_mem_singleton]
  constructor
  · intro inner hinner a b ha hb
    have hcases : reports inner = [.first (Bytes.fill 20 2), .second (Bytes.fill 20 4)] ∨
        reports inner = [] := by
      rcases List.mem_cons.mp hinner with rfl | hinner
      · exact .inl rfl
      · rw [List.mem_singleton.mp hinner]
        exact .inr rfl
    rcases hcases with hreports | hreports
    · rw [hreports] at ha hb ⊢
      obtain rfl : a = Bytes.fill 20 2 := by simpa using ha
      obtain rfl : b = Bytes.fill 20 4 := by simpa using hb
      decide
    · rw [hreports] at ha
      exact absurd ha List.not_mem_nil
  · intro a b hmem
    exact absurd hmem List.not_mem_nil

/-- A frame in which the balance of the beneficiary changes before the code of the account. -/
def balanceFirstTx : TxCalls :=
  { tx := { hash := Bytes.fill 32 7, to_ := some (Bytes.fill 20 2), value := none, gas := 50000,
            gasPrice := some 1, nonce := 0 }
    from_ := Bytes.fill 20 1
    body :=
      .node { enter := { depth := 0, typ := 0xf1, from_ := Bytes.fill 20 1,
                         to_ := Bytes.fill 20 2 }, reverted := false }
        (.leaf (.onBalanceChange (Bytes.fill 20 4) none (some 5) .balanceIncreaseSelfdestruct)
          (.leaf (.onCodeChangeV2 (Bytes.fill 20 2) (Bytes.fill 32 5) (Bytes.zero 32)
            .codeChangeSelfDestruct) .nil))
        .nil
    fin := { receipt := some { status := 1 }, err := none } }

def balanceFirstBlock : BlockCalls :=
  { header := { root := Bytes.fill 32 1, number := 1, time := 10 }, txs := [balanceFirstTx] }

/-- The self-destruction of `balanceFirstTx` is lost. -/
theorem balanceFirst_lost :
    ∃ stream, (Tracer.new none).streams [balanceFirstBlock] = .ok [stream] ∧
      (transactions (goEvents stream)).flatMap selfDestructs = [] ∧
      ¬ balanceFirstBlock.Correlated stream := by
  refine ⟨_, rfl, rfl, fun h => ?_⟩
  have honce := (List.forall₂_cons.mp h).1.once (0, _) List.mem_cons_self (Bytes.fill 20 2)
    (Bytes.fill 20 4) (by decide) (by decide)
  exact absurd honce (by decide)

end KaySentinel
