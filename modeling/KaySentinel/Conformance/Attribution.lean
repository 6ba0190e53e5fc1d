import KaySentinel.Conformance.Acceptance

/-!
# Mutations and the frames they name

The bridge buffers a stamped mutation with the innermost open frame, whatever frame the stamp
names, and Gate 1 does not compare the two.
-/

namespace KaySentinel.Conformance

open Emes Bridge Validation NestedLog

/-- The ids of the frames open after a stream, innermost first. -/
def openIds (events : List GoEvent) : List UInt64 := (openFrames events).map (·.frameId)

/-- Between `pre` and `post`, the innermost open frame named `id` and all its ancestors exit
with `reverted = false`. -/
def NamedFrameCommits (pre post : List GoEvent) (id : UInt64) : Prop :=
  ∀ n < (openIds pre).length, (openIds pre).idxOf id ≤ n → exitFlag n (ops post) = some false

/-- The open frames inside that frame exit with `reverted = false`. -/
def InnerFramesCommit (pre post : List GoEvent) (id : UInt64) : Prop :=
  ∀ n < (openIds pre).idxOf id, exitFlag n (ops post) = some false

/-- If both stages accept the stream, every stamped mutation names an open frame and is kept
if and only if that frame and its ancestors commit. -/
def MutationsFollowFrames (stream : List Event) (config : BridgeConfig) : Prop :=
  verifyGate1Invariants stream = .ok () → ∀ out, translate (goEvents stream) config = .ok out →
    ∀ pre event post m, goEvents stream = pre ++ event :: post → event.mutation? = some m →
      m.1 ≠ noFrame → m.1 ∈ openIds pre ∧
        (Survives config pre event post ↔ NamedFrameCommits pre post m.1)

/-- Every stamped mutation names an open frame, and where that frame and its ancestors commit
so do the frames inside it. -/
def StampsAgree (events : List GoEvent) : Prop :=
  ∀ pre event post m, events = pre ++ event :: post → event.mutation? = some m →
    m.1 ≠ noFrame → m.1 ∈ openIds pre ∧
      (NamedFrameCommits pre post m.1 → InnerFramesCommit pre post m.1)

lemma allCommit_iff {pre post : List GoEvent} {id : UInt64} (hid : id ∈ openIds pre) :
    AllCommit (openFrames pre).length (ops post) ↔
      InnerFramesCommit pre post id ∧ NamedFrameCommits pre post id := by
  have hlen : (openIds pre).length = (openFrames pre).length := List.length_map _
  have hlt : (openIds pre).idxOf id < (openIds pre).length := List.idxOf_lt_length_of_mem hid
  constructor
  · intro h
    exact ⟨fun n hn => h n (by omega), fun n hn _ => h n (by omega)⟩
  · rintro ⟨hinner, hnamed⟩ n hn
    by_cases hle : (openIds pre).idxOf id ≤ n
    · exact hnamed n (by omega) hle
    · exact hinner n (Nat.lt_of_not_le hle)

/-- **Attribution, exactly.**  Mutations follow the frames they name on a stream if and only if
one stage rejects it or its stamps agree with the frames. -/
theorem mutationsFollowFrames_iff (stream : List Event) (config : BridgeConfig) :
    MutationsFollowFrames stream config ↔
      (verifyGate1Invariants stream = .ok () → Bracketed (goEvents stream) →
        StampsAgree (goEvents stream)) := by
  constructor
  · intro h haccepted hbracketed pre event post m heq hm hstamp
    obtain ⟨out, hout⟩ := (translate_isOk_iff config).mpr hbracketed
    obtain ⟨hid, hiff⟩ := h haccepted out hout pre event post m heq hm hstamp
    rw [heq] at hout
    refine ⟨hid, fun hnamed => ?_⟩
    rw [survives_stamped_iff hm hstamp hout, allCommit_iff hid] at hiff
    exact (hiff.mpr hnamed).1
  · intro h haccepted out hout pre event post m heq hm hstamp
    have hbracketed := (translate_isOk_iff config).mp ⟨out, hout⟩
    obtain ⟨hid, hinner⟩ := h haccepted hbracketed pre event post m heq hm hstamp
    rw [heq] at hout
    refine ⟨hid, ?_⟩
    rw [survives_stamped_iff hm hstamp hout, allCommit_iff hid]
    exact ⟨And.right, fun hnamed => ⟨hinner hnamed, hnamed⟩⟩

/-- A mutation made inside frame one, which reverts, but stamped with frame zero, which
commits. -/
def misstampedStream : List Event :=
  [⟨0, .blockStart { emesVersion := "EMES-V1", number := 7, timestamp := 0 }⟩,
    ⟨1, .transactionStart { txIndex := 0, hash := Bytes.zero 32, from_ := Bytes.fill 20 1,
                            to_ := some (Bytes.fill 20 2), value := Bytes.zero 32,
                            gasLimit := 21000, gasPrice := Bytes.zero 32, nonce := 0 }⟩,
    ⟨2, .frameEnter { frameId := 0, parentFrameId := sentinel, depth := 0, type := .frameCall,
                      from_ := Bytes.fill 20 1, to_ := Bytes.fill 20 2 }⟩,
    ⟨3, .frameEnter { frameId := 1, parentFrameId := 0, depth := 1, type := .frameCall,
                      from_ := Bytes.fill 20 2, to_ := Bytes.fill 20 3 }⟩,
    ⟨4, .balanceMutation { frameId := 0, address := Bytes.fill 20 1, before := Bytes.last 31 9,
                           after := Bytes.last 31 8 }⟩,
    ⟨5, .frameExit { frameId := 1, reverted := true }⟩,
    ⟨6, .frameExit { frameId := 0, reverted := false }⟩,
    ⟨7, .transactionEnd { txIndex := 0, reverted := false }⟩,
    ⟨8, .blockCommit { stateRoot := Bytes.zero 32 }⟩]

/-- The mutation of `misstampedStream`, as the bridge sees it. -/
def misstampedMutation : GoEvent :=
  .balanceMutation { frameId := 0, address := Bytes.fill 20 1, before := Bytes.last 31 9,
                     after := Bytes.last 31 8 }

/-- Both stages accept `misstampedStream`, whose mutation is dropped although the frame that it
names commits. -/
theorem misstampedStream_drops_mutation : ¬ MutationsFollowFrames misstampedStream ⟨1⟩ := by
  intro h
  have haccepted : ∃ out, translate (goEvents misstampedStream) ⟨1⟩ = .ok out := ⟨_, rfl⟩
  obtain ⟨out, hout⟩ := haccepted
  have heq : goEvents misstampedStream = (goEvents misstampedStream).take 4 ++
      misstampedMutation :: (goEvents misstampedStream).drop 5 := rfl
  have hstamp : (0 : UInt64) ≠ noFrame := by decide
  obtain ⟨-, hiff⟩ := h (by decide) out hout _ _ _ _ heq rfl hstamp
  rw [heq] at hout
  rw [survives_stamped_iff rfl hstamp hout] at hiff
  have hnamed : NamedFrameCommits ((goEvents misstampedStream).take 4)
      ((goEvents misstampedStream).drop 5) 0 := by
    intro n hn hle
    obtain rfl : n = 1 := by
      have hlen : (openIds ((goEvents misstampedStream).take 4)).length = 2 := rfl
      have hidx : (openIds ((goEvents misstampedStream).take 4)).idxOf 0 = 1 := by decide
      omega
    rfl
  exact absurd (hiff.mpr hnamed) (by decide)

end KaySentinel.Conformance
