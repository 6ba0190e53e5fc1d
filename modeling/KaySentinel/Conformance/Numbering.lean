import KaySentinel.Conformance.Acceptance

/-!
# Frame ids and depths

Gate 1 compares a frame's parent with the stack, but reads neither the order of the frame ids
nor the depths.  What it leaves to be checked are facts about single frames and pairs of a frame
and its parent.
-/

namespace KaySentinel.Conformance

open Emes Bridge Validation

/-! ## Numbered frames -/

/-- The frames that a body enters, in order. -/
def enters (body : List GoEvent) : List FrameEnterData :=
  body.filterMap fun event =>
    match event with
    | .frameEnter data => some data
    | _ => none

/-- The frames of a transaction are numbered 0, 1, 2, ... in the order in which they are
entered, and the depth of each is the number of frames open just before it. -/
structure Numbered (body : List GoEvent) : Prop where
  ids : (enters body).map (·.frameId.toNat) = List.range (enters body).length
  depths : ∀ before data after, body = before ++ .frameEnter data :: after →
    data.depth.toNat = (openFrames before).length

/-- What can be checked without a stack: the ids grow and stay below the number of frames, a
frame without a parent has depth zero, and a child is one deeper than the frame it names. -/
structure LocallyNumbered (body : List GoEvent) : Prop where
  increasing : (enters body).Pairwise fun data data' => data.frameId < data'.frameId
  bounded : ∀ data ∈ enters body, data.frameId.toNat < (enters body).length
  root : ∀ data ∈ enters body, data.parentFrameId = sentinel → data.depth = 0
  child : ∀ data ∈ enters body, ∀ parent ∈ enters body, data.parentFrameId = parent.frameId →
    data.depth.toNat = parent.depth.toNat + 1

lemma mem_enters {body : List GoEvent} {data : FrameEnterData} :
    data ∈ enters body ↔ .frameEnter data ∈ body := by
  rw [enters, List.mem_filterMap]
  constructor
  · rintro ⟨event, hmem, hevent⟩
    cases event <;> simp only [reduceCtorEq] at hevent
    obtain rfl := Option.some.inj hevent
    exact hmem
  · exact fun h => ⟨_, h, rfl⟩

/-! ## What Gate 1 checks -/

/-- Every frame names the innermost open one as its parent. -/
def Parented (body : List GoEvent) : Prop :=
  ∀ before data after, body = before ++ .frameEnter data :: after →
    data.parentFrameId = ((openFrames before).map (·.frameId)).headD sentinel

lemma parented_of_walksThrough {span : TransactionSpan} (h : WalksThrough span) :
    Parented span.body := by
  obtain ⟨-, rest, hwalk⟩ := h
  intro before data after heq
  rw [heq, List.append_assoc, walk_append, Option.bind_eq_some_iff] at hwalk
  obtain ⟨p, hbefore, hwalk⟩ := hwalk
  rw [List.cons_append, walk_cons, Option.bind_eq_some_iff] at hwalk
  obtain ⟨q, hstep, -⟩ := hwalk
  have hstart : walk none (.transactionStart span.start :: before) = some p := hbefore
  have hopen : openFrames (.transactionStart span.start :: before) = openFrames before := rfl
  have hstack : stackAt p = (openFrames before).map (·.frameId) := by
    rw [← hopen]
    exact stackAt_walk hstart
  rcases p with _ | ⟨stack, count, reverted⟩
  · simp [walkStep] at hstep
  have hstack' : stack = (openFrames before).map (·.frameId) := hstack
  rcases walkStep_some_cases hstep with ⟨_, heq, -⟩ | ⟨data', heq, hparent, -⟩ |
    ⟨_, _, heq, -⟩ | ⟨⟨m, hm⟩, -⟩
  · simp at heq
  · obtain rfl := GoEvent.frameEnter.inj heq
    rw [hparent, hstack']
  · simp at heq
  · simp [GoEvent.mutation?] at hm

/-! ## Depths -/

/-- Each frame of a stack is as deep as the stack below it is high. -/
def Stacked : List FrameEnterData → Prop
  | [] => True
  | top :: rest => top.depth.toNat = rest.length ∧ Stacked rest

lemma Stacked.tail {opened : List FrameEnterData} (h : Stacked opened) : Stacked opened.tail := by
  cases opened with
  | nil => exact h
  | cons top rest => exact h.2

/-- If entered frames have the right depth, so have those on the stack. -/
lemma stacked_openFrames {body : List GoEvent}
    (h : ∀ before data after, body = before ++ .frameEnter data :: after →
      Stacked (openFrames before) → data.depth.toNat = (openFrames before).length)
    {before after : List GoEvent} (heq : body = before ++ after) : Stacked (openFrames before) := by
  induction before using List.reverseRecOn generalizing after with
  | nil => exact trivial
  | append_singleton before event ih =>
    rw [List.append_assoc] at heq
    have hbefore := ih heq
    rw [openFrames_concat]
    cases event with
    | transactionStart data => exact trivial
    | frameEnter data => exact ⟨h before data after heq hbefore, hbefore⟩
    | frameExit data => exact hbefore.tail
    | _ => exact hbefore

lemma mem_enters_of_mem_openFrames {body before after : List GoEvent} {data : FrameEnterData}
    (heq : body = before ++ after) (h : data ∈ openFrames before) : data ∈ enters body := by
  rw [mem_enters, heq]
  exact List.mem_append_left _ (mem_openFrames h)

/-- A frame that names its parent and is one deeper has the depth of the stack. -/
lemma depth_of_locallyNumbered {body before after : List GoEvent} {data : FrameEnterData}
    (hparented : Parented body) (hlocal : LocallyNumbered body)
    (heq : body = before ++ .frameEnter data :: after) (hstacked : Stacked (openFrames before)) :
    data.depth.toNat = (openFrames before).length := by
  have hdata : data ∈ enters body := by
    rw [mem_enters, heq]
    simp
  have hparent := hparented before data after heq
  cases hopen : openFrames before with
  | nil =>
    rw [hopen] at hparent
    rw [hlocal.root data hdata hparent]
    rfl
  | cons top rest =>
    rw [hopen] at hparent hstacked
    have htop : top ∈ enters body := mem_enters_of_mem_openFrames heq (by rw [hopen]; simp)
    rw [hlocal.child data hdata top htop hparent, hstacked.1, List.length_cons]

/-! ## Ids -/

lemma eq_range_of_increasing {l : List ℕ} (h : l.Pairwise (· < ·)) (hlt : ∀ x ∈ l, x < l.length) :
    l = List.range l.length := by
  have hsub : l ⊆ List.range l.length := fun x hx => List.mem_range.mpr (hlt x hx)
  have hperm : l.Perm (List.range l.length) :=
    (List.subperm_of_subset (h.imp Nat.ne_of_lt) hsub).perm_of_length_le (by simp)
  exact hperm.eq_of_pairwise (fun _ _ _ _ hlt hgt => absurd hgt (Nat.lt_asymm hlt)) h
    List.pairwise_lt_range

lemma numbered_of_locallyNumbered {body : List GoEvent} (hparented : Parented body)
    (h : LocallyNumbered body) : Numbered body where
  ids := by
    have hlen : ((enters body).map (·.frameId.toNat)).length = (enters body).length :=
      List.length_map _
    rw [← hlen]
    refine eq_range_of_increasing (List.pairwise_map.mpr (h.increasing.imp ?_)) ?_
    · exact UInt64.lt_iff_toNat_lt.mp
    · intro x hx
      obtain ⟨data, hdata, rfl⟩ := List.mem_map.mp hx
      rw [hlen]
      exact h.bounded data hdata
  depths before data after heq := by
    have hdepth : ∀ before data after, body = before ++ .frameEnter data :: after →
        Stacked (openFrames before) → data.depth.toNat = (openFrames before).length :=
      fun before data after heq => depth_of_locallyNumbered hparented h heq
    exact hdepth before data after heq (stacked_openFrames hdepth heq)

/-- The converse needs fewer frames than the sentinel says. -/
lemma locallyNumbered_of_numbered {body : List GoEvent} (hparented : Parented body)
    (hfew : (enters body).length < sentinel.toNat) (h : Numbered body) : LocallyNumbered body := by
  have hincreasing : (enters body).Pairwise fun data data' => data.frameId < data'.frameId := by
    have hrange : ((enters body).map (·.frameId.toNat)).Pairwise (· < ·) := by
      rw [h.ids]
      exact List.pairwise_lt_range
    exact (List.pairwise_map.mp hrange).imp UInt64.lt_iff_toNat_lt.mpr
  have hbounded : ∀ data ∈ enters body, data.frameId.toNat < (enters body).length := by
    intro data hdata
    have hmem : data.frameId.toNat ∈ (enters body).map (·.frameId.toNat) :=
      List.mem_map_of_mem hdata
    rw [h.ids] at hmem
    exact List.mem_range.mp hmem
  have hreal : ∀ data ∈ enters body, data.frameId ≠ sentinel := by
    intro data hdata heq
    have hlt := hbounded data hdata
    rw [heq] at hlt
    exact absurd hlt (Nat.lt_asymm hfew)
  have hnodup : ((enters body).map (·.frameId)).Nodup :=
    List.pairwise_map.mpr (hincreasing.imp UInt64.ne_of_lt)
  have hstacked : ∀ {before after}, body = before ++ after → Stacked (openFrames before) :=
    stacked_openFrames fun before data after heq _ => h.depths before data after heq
  refine ⟨hincreasing, hbounded, ?_, ?_⟩
  · intro data hdata hroot
    obtain ⟨before, after, hbody⟩ := List.append_of_mem (mem_enters.mp hdata)
    have hname := hparented before data after hbody
    have hdepth := h.depths before data after hbody
    cases hopen : openFrames before with
    | nil =>
      rw [hopen] at hdepth
      exact UInt64.toNat_inj.mp hdepth
    | cons top rest =>
      rw [hopen, hroot] at hname
      have htop : top ∈ enters body := mem_enters_of_mem_openFrames hbody (by rw [hopen]; simp)
      exact absurd hname.symm (hreal top htop)
  · intro data hdata parent hparent heq
    obtain ⟨before, after, hbody⟩ := List.append_of_mem (mem_enters.mp hdata)
    have hname := hparented before data after hbody
    have hdepth := h.depths before data after hbody
    cases hopen : openFrames before with
    | nil =>
      rw [hopen, heq] at hname
      exact absurd hname (hreal parent hparent)
    | cons top rest =>
      rw [hopen, heq] at hname
      have htop : top ∈ enters body := mem_enters_of_mem_openFrames hbody (by rw [hopen]; simp)
      obtain rfl := List.inj_on_of_nodup_map hnodup hparent htop hname
      have hdepth' := hstacked hbody
      rw [hopen] at hdepth hdepth'
      rw [hdepth, hdepth'.1, List.length_cons]

/-! ## Numbered streams -/

lemma length_body_of_mem_spans {events : List GoEvent} {span : TransactionSpan}
    (h : span ∈ spans events) : span.body.length + 2 ≤ events.length := by
  induction events with
  | nil => simp [spans] at h
  | cons event events ih =>
    have hrest : span ∈ spans events → span.body.length + 2 ≤ (event :: events).length :=
      fun hmem => Nat.le_succ_of_le (ih hmem)
    cases event with
    | transactionStart start =>
      rw [spans] at h
      split at h
      · rename_i fin rest hdrop
        rcases List.mem_cons.mp h with rfl | h
        · have hlen := congrArg List.length
            (List.takeWhile_append_dropWhile (p := fun e => !e.isTransactionEnd) (l := events))
          rw [hdrop, List.length_append, List.length_cons] at hlen
          simp only [List.length_cons]
          omega
        · exact hrest h
      · exact hrest h
    | _ => exact hrest h

/-- There are no more events than sequence numbers. -/
lemma length_le_of_increasing {stream : List Event} (h : Increasing stream) :
    stream.length ≤ 2 ^ 64 := by
  have hpair : (stream.map (·.sequence)).Pairwise (· < ·) := List.isChain_iff_pairwise.mp h
  have hnodup : (stream.map fun e => e.sequence.toFin).Nodup := by
    refine List.pairwise_map.mpr ((List.pairwise_map.mp hpair).imp fun hlt heq => ?_)
    exact UInt64.ne_of_lt hlt (UInt64.toFin_inj.mp heq)
  have hle := hnodup.length_le_card
  rwa [Fintype.card_fin, List.length_map] at hle

/-- A transaction of an accepted stream enters fewer frames than the sentinel says. -/
lemma enters_lt_sentinel {stream : List Event} (h : verifyGate1Invariants stream = .ok ())
    {span : TransactionSpan} (hspan : span ∈ spans (goEvents stream)) :
    (enters span.body).length < sentinel.toNat := by
  obtain ⟨start, interior, seq, commit, heq, hincreasing, -⟩ := verifyGate1Invariants_iff_walks.mp h
  have hle := length_le_of_increasing hincreasing
  have hbody := length_body_of_mem_spans hspan
  rw [goEvents, List.length_map] at hbody
  have henters : (enters span.body).length ≤ span.body.length := List.length_filterMap_le _ _
  have hsentinel : sentinel.toNat = 2 ^ 64 - 1 := rfl
  omega

/-- **Frame ids and depths, exactly.**  In a stream that Gate 1 accepts, frames are numbered in
order and as deep as the stack in every transaction if and only if they are so locally. -/
theorem numbered_iff_locallyNumbered {stream : List Event}
    (haccepted : verifyGate1Invariants stream = .ok ()) :
    (∀ span ∈ spans (goEvents stream), Numbered span.body) ↔
      ∀ span ∈ spans (goEvents stream), LocallyNumbered span.body := by
  refine forall₂_congr fun span hspan => ?_
  have hparented := parented_of_walksThrough (walksThrough_of_accepted haccepted span hspan)
  exact ⟨locallyNumbered_of_numbered hparented (enters_lt_sentinel haccepted hspan),
    numbered_of_locallyNumbered hparented⟩

/-- A transaction whose only frame has id seven and depth three. -/
def misnumberedStream : List Event :=
  [⟨0, .blockStart { emesVersion := "EMES-V1", number := 7, timestamp := 0 }⟩,
    ⟨1, .transactionStart { txIndex := 0, hash := Bytes.zero 32, from_ := Bytes.fill 20 1,
                            to_ := some (Bytes.fill 20 2), value := Bytes.zero 32,
                            gasLimit := 21000, gasPrice := Bytes.zero 32, nonce := 0 }⟩,
    ⟨2, .frameEnter { frameId := 7, parentFrameId := sentinel, depth := 3, type := .frameCall,
                      from_ := Bytes.fill 20 1, to_ := Bytes.fill 20 2 }⟩,
    ⟨3, .frameExit { frameId := 7, reverted := false }⟩,
    ⟨4, .transactionEnd { txIndex := 0, reverted := false }⟩,
    ⟨5, .blockCommit { stateRoot := Bytes.zero 32 }⟩]

/-- Gate 1 accepts `misnumberedStream`. -/
theorem misnumberedStream_accepted :
    verifyGate1Invariants misnumberedStream = .ok () ∧
      ¬ ∀ span ∈ spans (goEvents misnumberedStream), Numbered span.body := by
  refine ⟨by decide, fun h => ?_⟩
  obtain ⟨hids, -⟩ := h _ (.head _)
  exact absurd hids (by decide)

/-- Gate 1 accepts `framedStream`, and its frames are numbered. -/
theorem framedStream_numbered :
    verifyGate1Invariants framedStream = .ok () ∧
      ∀ span ∈ spans (goEvents framedStream), Numbered span.body := by
  have haccepted : verifyGate1Invariants framedStream = .ok () := by decide
  refine ⟨haccepted, (numbered_iff_locallyNumbered haccepted).mpr ?_⟩
  rintro span (_ | ⟨_, hspan⟩)
  · exact ⟨by decide, by decide, by decide, by decide⟩
  · cases hspan

end KaySentinel.Conformance
