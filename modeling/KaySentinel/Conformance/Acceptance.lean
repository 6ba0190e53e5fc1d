import KaySentinel.Conformance.Interior

/-!
# From Gate 1 to the bridge

On the interior of a stream that Gate 1 accepts, the walk of Gate 1 and the grammar of the
bridge open and close the same frames.  They differ on mutations: Gate 1 does not look at their
frame stamps, so it accepts a mutation stamped with a frame while no frame is open, which the
bridge rejects.
-/

namespace KaySentinel.Conformance

open Emes Bridge Validation

variable {event : GoEvent}

/-- Every frame's id and depth fits `u32`. -/
def FramesFit (events : List GoEvent) : Prop :=
  ∀ data, .frameEnter data ∈ events → data.frameId.toNat < 2 ^ 32 ∧ data.depth.toNat < 2 ^ 32

/-- Every mutation that is not stamped "no frame" occurs while a frame is open. -/
def MutationsInFrames (events : List GoEvent) : Prop :=
  ∀ pre event post m, events = pre ++ event :: post → event.mutation? = some m →
    m.1 ≠ noFrame → openFrames pre ≠ []

/-- A step of Gate 1 is a step of the bridge, if a stamped mutation finds an open frame. -/
lemma bracketStep_of_walkStep {p p' : Place} {q : Position} {opened : List FrameEnterData}
    (hp : stackAt p = opened.map (·.frameId))
    (hq : q.frames = opened.map fun data => (data.frameId, data.depth))
    (hsome : q.isSome = p.isSome)
    (hfit : ∀ data ∈ opened, data.frameId.toNat < 2 ^ 32 ∧ data.depth.toNat < 2 ^ 32)
    (hmutation : ∀ m, event.mutation? = some m → m.1 ≠ noFrame → opened ≠ [])
    (h : walkStep p event = some p') :
    ∃ q', bracketStep q event = some q' ∧ q'.isSome = p'.isSome := by
  -- a mutation finds the innermost frame, whose id and depth fit
  have hstay : ∀ m, event.mutation? = some m → bracketStep q event = some q := by
    intro m hm
    rw [bracketStep_mutation hm]
    by_cases hstamp : m.1 = noFrame
    · rw [if_pos hstamp]
    · rw [if_neg hstamp]
      rcases opened with _ | ⟨top, rest⟩
      · exact absurd rfl (hmutation m hm hstamp)
      · rcases q with _ | frames
        · simp [Position.frames] at hq
        · obtain rfl : frames = _ := hq
          simp only [List.map_cons, if_pos (hfit top (by simp))]
  rcases p with _ | ⟨stack, count, reverted⟩
  · obtain rfl : q = none := by simpa using hsome
    rcases walkStep_none_cases h with ⟨data, rfl, rfl⟩ | ⟨⟨m, hm⟩, rfl⟩
    · exact ⟨some [], rfl, rfl⟩
    · exact ⟨none, hstay m hm, rfl⟩
  · obtain ⟨frames, rfl⟩ := Option.isSome_iff_exists.mp hsome
    obtain rfl : frames = _ := hq
    obtain rfl : stack = _ := hp
    rcases walkStep_some_cases h with ⟨data, rfl, hnil, -, -, rfl⟩ | ⟨data, rfl, -, rfl⟩ |
      ⟨data, rest, rfl, hstack, rfl⟩ | ⟨⟨m, hm⟩, rfl⟩
    · obtain rfl := List.map_eq_nil_iff.mp hnil
      exact ⟨none, rfl, rfl⟩
    · exact ⟨_, rfl, rfl⟩
    · obtain ⟨top, rest', rfl, hid, -⟩ := List.map_eq_cons_iff.mp hstack
      exact ⟨_, if_pos hid, rfl⟩
    · exact ⟨_, hstay m hm, rfl⟩

lemma readFrom_of_walk {events : List GoEvent} {p : Place} (hfit : FramesFit events)
    (hmutation : MutationsInFrames events) (h : walk none events = some p) :
    ∃ q, readFrom none events = some q ∧ q.isSome = p.isSome := by
  induction events using List.reverseRecOn generalizing p with
  | nil =>
    obtain rfl := Option.some.inj h
    exact ⟨none, rfl, rfl⟩
  | append_singleton events event ih =>
    rw [walk_append, Option.bind_eq_some_iff] at h
    obtain ⟨p', hwalk, hstep⟩ := h
    rw [walk_cons, Option.bind_eq_some_iff] at hstep
    obtain ⟨_, hstep, ⟨⟩⟩ := hstep
    have hfit' : FramesFit events := fun data hdata => hfit data (by simp [hdata])
    have hmutation' : MutationsInFrames events := fun pre e post m heq =>
      hmutation pre e (post ++ [event]) m (by rw [heq]; simp)
    obtain ⟨q, hread, hsome⟩ := ih hfit' hmutation' hwalk
    obtain ⟨q', hstep', hsome'⟩ := bracketStep_of_walkStep (stackAt_walk hwalk)
      (frames_readFrom hread) hsome (fun data hdata => hfit' data (mem_openFrames hdata))
      (fun m => hmutation events event [] m rfl) hstep
    exact ⟨q', by rw [readFrom_append, hread, Option.bind_some, readFrom_cons, hstep']; rfl,
      hsome'⟩

/-- The bridge reads a stamped mutation only while a frame is open. -/
lemma mutationsInFrames_of_bracketed {events : List GoEvent} (h : Bracketed events) :
    MutationsInFrames events := by
  rintro pre event post m rfl hm hstamp hnil
  rw [Bracketed, readFrom_append, Option.bind_eq_some_iff] at h
  obtain ⟨p, hread, hrest⟩ := h
  have hframes := frames_readFrom hread
  rw [readFrom_cons, Option.bind_eq_some_iff] at hrest
  obtain ⟨q, hstep, -⟩ := hrest
  rw [hnil] at hframes
  rw [bracketStep_mutation hm, if_neg hstamp] at hstep
  rcases p with _ | _ | ⟨frame, frames⟩
  · simp at hstep
  · simp at hstep
  · simp [Position.frames] at hframes

/-- **Acceptance, exactly.**  The bridge accepts a stream that Gate 1 accepts, and whose frame
ids and depths fit `u32`, if and only if its stamped mutations occur while a frame is open. -/
theorem translate_isOk_iff_mutationsInFrames {stream : List Event} (config : BridgeConfig)
    (haccepted : verifyGate1Invariants stream = .ok ()) (hfit : FramesFit (goEvents stream)) :
    (∃ out, translate (goEvents stream) config = .ok out) ↔
      MutationsInFrames (goEvents stream) := by
  rw [translate_isOk_iff]
  refine ⟨mutationsInFrames_of_bracketed, fun hmutation => ?_⟩
  obtain ⟨start, inner, hgo, hwalk⟩ := exists_interior haccepted
  rw [hgo] at hfit hmutation ⊢
  have hfit' : FramesFit inner := fun data hdata => hfit data (by simp [hdata])
  have hmutation' : MutationsInFrames inner := fun pre event post m heq =>
    hmutation (.blockStart start :: pre) event (post ++ [.blockCommit]) m (by rw [heq]; simp)
  obtain ⟨q, hread, hsome⟩ := readFrom_of_walk hfit' hmutation' hwalk
  obtain rfl : q = none := by simpa using hsome
  rw [Bracketed, readFrom_cons]
  exact (readFrom_append none inner _).trans (by rw [hread]; rfl)

/-- A transaction with a mutation stamped with frame zero, around which no frame is open. -/
def unframedStream : List Event :=
  [⟨0, .blockStart { emesVersion := "EMES-V1", number := 7, timestamp := 0 }⟩,
    ⟨1, .transactionStart { txIndex := 0, hash := Bytes.zero 32, from_ := Bytes.fill 20 1,
                            to_ := none, value := Bytes.zero 32, gasLimit := 21000,
                            gasPrice := Bytes.zero 32, nonce := 0 }⟩,
    ⟨2, .balanceMutation { frameId := 0, address := Bytes.fill 20 1, before := Bytes.last 31 9,
                           after := Bytes.last 31 8 }⟩,
    ⟨3, .transactionEnd { txIndex := 0, reverted := false }⟩,
    ⟨4, .blockCommit { stateRoot := Bytes.zero 32 }⟩]

/-- Gate 1 accepts `unframedStream` and the bridge rejects it. -/
theorem unframedStream_unbalanced :
    verifyGate1Invariants unframedStream = .ok () ∧ FramesFit (goEvents unframedStream) ∧
      translate (goEvents unframedStream) ⟨1⟩ = .error (.unbalancedFrames usizeMax) := by
  refine ⟨by decide, ?_, by decide⟩
  simp [FramesFit, goEvents, unframedStream, EventData.goEvent]

/-- A transaction whose root frame holds a mutation and a frame that reverts, with a mutation
in it and one before the root frame. -/
def framedStream : List Event :=
  [⟨0, .blockStart { emesVersion := "EMES-V1", number := 7, timestamp := 0 }⟩,
    ⟨1, .transactionStart { txIndex := 0, hash := Bytes.zero 32, from_ := Bytes.fill 20 1,
                            to_ := some (Bytes.fill 20 2), value := Bytes.zero 32,
                            gasLimit := 21000, gasPrice := Bytes.zero 32, nonce := 0 }⟩,
    ⟨2, .nonceMutation { frameId := noFrame, address := Bytes.fill 20 1, before := 0,
                         after := 1 }⟩,
    ⟨3, .frameEnter { frameId := 0, parentFrameId := sentinel, depth := 0, type := .frameCall,
                      from_ := Bytes.fill 20 1, to_ := Bytes.fill 20 2 }⟩,
    ⟨4, .balanceMutation { frameId := 0, address := Bytes.fill 20 1, before := Bytes.last 31 9,
                           after := Bytes.last 31 8 }⟩,
    ⟨5, .frameEnter { frameId := 1, parentFrameId := 0, depth := 1, type := .frameCall,
                      from_ := Bytes.fill 20 2, to_ := Bytes.fill 20 3 }⟩,
    ⟨6, .balanceMutation { frameId := 1, address := Bytes.fill 20 3, before := Bytes.zero 32,
                           after := Bytes.last 31 1 }⟩,
    ⟨7, .frameExit { frameId := 1, reverted := true }⟩,
    ⟨8, .frameExit { frameId := 0, reverted := false }⟩,
    ⟨9, .transactionEnd { txIndex := 0, reverted := false }⟩,
    ⟨10, .blockCommit { stateRoot := Bytes.zero 32 }⟩]

/-- `framedStream` passes both stages, so its stamped mutations lie in frames. -/
theorem framedStream_mutationsInFrames : MutationsInFrames (goEvents framedStream) := by
  refine (translate_isOk_iff_mutationsInFrames ⟨1⟩ (by decide) ?_).mp ⟨_, rfl⟩
  simp [FramesFit, goEvents, framedStream, EventData.goEvent]

end KaySentinel.Conformance
