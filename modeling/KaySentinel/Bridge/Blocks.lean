import KaySentinel.Bridge.Acceptance

/-!
# Translating block by block

The loop of `translate` carries the output, the open transaction and the block number
from one block into the next.  `Resumed` relates a loop that goes on after an accepted
stream with a loop that starts afresh.  What is left over from the first stream, its last
transaction's index and hash and the stray mutations in `txOutput`, is overwritten by the
next `TransactionStart`.
-/

namespace KaySentinel.Bridge

open Cse

variable {config : BridgeConfig} {i j : ℕ} {s t : TranslateState} {event : GoEvent}
  {out : List CanonicalSemanticEvent}

/-- `s` is the state of a loop that goes on after the output `out`, `t` the state of a
loop of its own, on the same events. -/
structure Resumed (out : List CanonicalSemanticEvent) (s t : TranslateState) : Prop where
  output : s.finalOutput = out ++ t.finalOutput
  txOpen : s.txOpen = t.txOpen
  frames : s.frameStack = t.frameStack
  blockNumber : s.blockNumber = t.blockNumber
  /-- The transaction's own variables agree while it is open. -/
  inside : t.txOpen = true →
    s.txOutput = t.txOutput ∧ s.txIndex = t.txIndex ∧ s.txHash = t.txHash

/-- Both loops fail, or both succeed in related states. -/
inductive Agree (out : List CanonicalSemanticEvent) :
    Except BridgeError TranslateState → Except BridgeError TranslateState → Prop where
  | error (e e' : BridgeError) : Agree out (.error e) (.error e')
  | ok {s t : TranslateState} (h : Resumed out s t) : Agree out (.ok s) (.ok t)

lemma Agree.exists_left {a b : Except BridgeError TranslateState} (h : Agree out a b)
    (hb : b = .ok t) : ∃ s, a = .ok s ∧ Resumed out s t := by
  cases h with
  | error e e' => cases hb
  | ok h =>
    obtain rfl := Except.ok.inj hb
    exact ⟨_, rfl, h⟩

lemma Agree.exists_right {a b : Except BridgeError TranslateState} (h : Agree out a b)
    (ha : a = .ok s) : ∃ t, b = .ok t ∧ Resumed out s t := by
  cases h with
  | error e e' => cases ha
  | ok h =>
    obtain rfl := Except.ok.inj ha
    exact ⟨_, rfl, h⟩

lemma Resumed.appendMutation (h : Resumed out s t) (hinv : t.Inv) (frameId : UInt64)
    (payload : CsePayload) :
    Agree out (appendMutation config s frameId payload)
      (appendMutation config t frameId payload) := by
  by_cases hf : frameId = noFrame
  · subst hf
    rw [appendMutation_noFrame, appendMutation_noFrame]
    refine .ok { h with inside := fun hopen => ?_ }
    obtain ⟨hout, hindex, hhash⟩ := h.inside hopen
    exact ⟨by rw [hout, hindex, hhash, h.blockNumber], hindex, hhash⟩
  · cases ht : t.frameStack with
    | nil =>
      rw [appendMutation_nil hf ht, appendMutation_nil hf (h.frames.trans ht)]
      exact .error _ _
    | cons top rest =>
      by_cases hfits : top.Fits
      · -- an open frame lies in an open transaction
        have hopen : t.txOpen = true := by
          by_contra hclosed
          rw [hinv (by simpa using hclosed)] at ht
          exact absurd ht (by simp)
        obtain ⟨hout, hindex, hhash⟩ := h.inside hopen
        rw [appendMutation_cons hf ht hfits, appendMutation_cons hf (h.frames.trans ht) hfits]
        exact .ok { h with frames := by rw [hindex, hhash, h.blockNumber] }
      · cases hs : Bridge.appendMutation config s frameId payload with
        | ok s' => exact absurd (fits_of_appendMutation hf (h.frames.trans ht) hs) hfits
        | error e =>
          cases ht' : Bridge.appendMutation config t frameId payload with
          | ok t' => exact absurd (fits_of_appendMutation hf ht ht') hfits
          | error e' => exact .error e e'

/-- One step of both loops, at any two indices. -/
lemma Resumed.translateStep (h : Resumed out s t) (hinv : t.Inv) :
    Agree out (translateStep config i s event) (translateStep config j t event) := by
  cases event using GoEvent.casesByKind with
  | mutation event m hm =>
    rw [translateStep_mutation hm, translateStep_mutation hm]
    exact h.appendMutation hinv m.1 m.2
  | blockStart data => exact .ok { h with blockNumber := rfl }
  | blockCommit => exact .ok h
  | transactionStart data =>
    simp only [Bridge.translateStep, h.txOpen]
    split
    · exact .error _ _
    · exact .ok { h with
        txOpen := rfl
        frames := rfl
        inside := fun _ => ⟨by rw [h.blockNumber], rfl, rfl⟩ }
  | transactionEnd data =>
    simp only [Bridge.translateStep, h.txOpen, h.frames]
    split_ifs with hclosed hframes
    · exact .error _ _
    · exact .error _ _
    · obtain ⟨hout, hindex, hhash⟩ := h.inside (by simpa using hclosed)
      refine .ok { h with output := ?_, txOpen := rfl, frames := rfl, inside := by simp }
      rw [h.output, hout, hindex, hhash, h.blockNumber, List.append_assoc]
  | frameEnter data =>
    simp only [Bridge.translateStep, h.txOpen, h.frames]
    split
    · exact .error _ _
    · exact .ok { h with txOpen := rfl, frames := rfl }
  | frameExit data =>
    simp only [Bridge.translateStep, h.txOpen, h.frames]
    by_cases hclosed : (!t.txOpen) = true
    · rw [if_pos hclosed, if_pos hclosed]
      exact .error _ _
    · rw [if_neg hclosed, if_neg hclosed]
      obtain ⟨hout, hindex, hhash⟩ := h.inside (by simpa using hclosed)
      rcases t.frameStack with _ | ⟨popped, _ | ⟨parent, outer⟩⟩
      · exact .error _ _
      · dsimp only
        split_ifs
        · exact .error _ _
        · exact .ok { h with txOpen := rfl, frames := rfl }
        · exact .ok { h with
            txOpen := rfl
            frames := rfl
            inside := fun _ => ⟨by rw [hout], hindex, hhash⟩ }
      · dsimp only
        split_ifs
        · exact .error _ _
        · exact .ok { h with txOpen := rfl, frames := rfl }
        · exact .ok { h with txOpen := rfl, frames := rfl }

lemma Resumed.translateLoop {events : List GoEvent} (h : Resumed out s t) (hinv : t.Inv) :
    Agree out (translateLoop config i s events) (translateLoop config j t events) := by
  induction events generalizing i j s t with
  | nil => exact .ok h
  | cons event events ih =>
    have hstep : Agree out (Bridge.translateStep config i s event)
        (Bridge.translateStep config j t event) := h.translateStep hinv
    have hinv' : ∀ t', Bridge.translateStep config j t event = .ok t' → t'.Inv :=
      (position_translateStep hinv).2
    simp only [Bridge.translateLoop]
    generalize Bridge.translateStep config i s event = a at hstep
    generalize Bridge.translateStep config j t event = b at hstep hinv'
    cases hstep with
    | error e e' => exact .error e e'
    | ok h' => exact ih h' (hinv' _ rfl)

/-! ## Whole streams -/

lemma translateLoop_append (i : ℕ) (s : TranslateState) (events events' : List GoEvent) :
    translateLoop config i s (events ++ events') =
      translateLoop config i s events >>= fun s' =>
        translateLoop config (i + events.length) s' events' := by
  induction events generalizing i s with
  | nil => rfl
  | cons event events ih =>
    simp only [List.cons_append, translateLoop, List.length_cons]
    cases translateStep config i s event with
    | error e => rfl
    | ok mid =>
      have hi : i + (events.length + 1) = i + 1 + events.length := by omega
      rw [hi]
      exact ih (i + 1) mid

lemma inv_translateLoop {events : List GoEvent} (hinv : s.Inv)
    (h : translateLoop config i s events = .ok t) : t.Inv := by
  induction events generalizing i s with
  | nil =>
    obtain rfl := Except.ok.inj h
    exact hinv
  | cons event events ih =>
    obtain ⟨mid, hstep, hloop⟩ := translateLoop_cons_eq_ok.mp h
    exact ih ((position_translateStep hinv).2 mid hstep) hloop

/-- The event with its sequence number moved up by `n`. -/
def shiftSequence (n : ℕ) (event : CanonicalSemanticEvent) : CanonicalSemanticEvent :=
  { event with context :=
    { event.context with normative :=
      { sequenceNumber := UInt64.ofNat n + event.context.normative.sequenceNumber } } }

lemma shiftSequence_withSequence (n seq : ℕ) (event : CanonicalSemanticEvent) :
    shiftSequence n (withSequence seq event) = withSequence (n + seq) event := by
  simp only [shiftSequence, withSequence, UInt64.ofNat_add]

lemma mapIdx_withSequence_append (l l' : List CanonicalSemanticEvent) :
    (l ++ l').mapIdx withSequence =
      l.mapIdx withSequence ++ (l'.mapIdx withSequence).map (shiftSequence l.length) := by
  rw [List.mapIdx_append]
  congr 1
  apply List.ext_getElem
  · simp
  · simp [shiftSequence_withSequence, Nat.add_comm]

/-- A loop that reads a block after an accepted stream agrees with a loop that reads the
block alone: the block's `BlockStart` sets the only variable that carries over. -/
lemma translateLoop_block (hclosed : s.txOpen = false) (hinv : s.Inv) (data : BlockStartData)
    (events : List GoEvent) :
    Agree s.finalOutput (translateLoop config i s (.blockStart data :: events))
      (translateLoop config j .init (.blockStart data :: events)) := by
  let t : TranslateState := { TranslateState.init with blockNumber := data.number }
  have hresumed : Resumed s.finalOutput { s with blockNumber := data.number } t :=
    { output := (List.append_nil _).symm
      txOpen := hclosed
      frames := hinv hclosed
      blockNumber := rfl
      inside := fun hopen => absurd hopen (by simp [t, TranslateState.init]) }
  have hinit : t.Inv := fun _ => rfl
  exact hresumed.translateLoop hinit

/-- **Blocks.**  After an accepted stream, a stream that begins with a `BlockStart` is
accepted exactly if it is accepted alone, and its output is then the same but for the
sequence numbers, which go on from those of the first. -/
theorem translate_append {events : List GoEvent} {first : List CanonicalSemanticEvent}
    (hfirst : translate events config = .ok first) (data : BlockStartData)
    (block : List GoEvent) :
    ((∃ out, translate (events ++ .blockStart data :: block) config = .ok out) ↔
        ∃ out, translate (.blockStart data :: block) config = .ok out) ∧
      ∀ out, translate (.blockStart data :: block) config = .ok out →
        translate (events ++ .blockStart data :: block) config =
          .ok (first ++ out.map (shiftSequence first.length)) := by
  obtain ⟨s, hloop, hclosed, rfl⟩ := translate_eq_ok.mp hfirst
  have hinit : TranslateState.init.Inv := fun _ => rfl
  have hwhole : translateLoop config 0 .init (events ++ .blockStart data :: block) =
      translateLoop config (0 + events.length) s (.blockStart data :: block) := by
    rw [translateLoop_append, hloop]
    rfl
  have hagree : Agree s.finalOutput
      (translateLoop config (0 + events.length) s (.blockStart data :: block))
      (translateLoop config 0 .init (.blockStart data :: block)) :=
    translateLoop_block hclosed (inv_translateLoop hinit hloop) data block
  have hresult : ∀ out, translate (.blockStart data :: block) config = .ok out →
      translate (events ++ .blockStart data :: block) config =
        .ok (s.finalOutput.mapIdx withSequence ++
          out.map (shiftSequence (s.finalOutput.mapIdx withSequence).length)) := by
    intro out hout
    obtain ⟨t, hblock, hclosed', rfl⟩ := translate_eq_ok.mp hout
    obtain ⟨s', hloop', hresumed⟩ := hagree.exists_left hblock
    refine translate_eq_ok.mpr ⟨s', hwhole.trans hloop', hresumed.txOpen.trans hclosed', ?_⟩
    rw [hresumed.output, mapIdx_withSequence_append, List.length_mapIdx]
  refine ⟨⟨?_, fun ⟨out, hout⟩ => ⟨_, hresult out hout⟩⟩, hresult⟩
  rintro ⟨out, hout⟩
  obtain ⟨s', hloop', hclosed', -⟩ := translate_eq_ok.mp hout
  rw [hwhole] at hloop'
  obtain ⟨t, hblock, hresumed⟩ := hagree.exists_right hloop'
  exact ⟨_, translate_eq_ok.mpr ⟨t, hblock, hresumed.txOpen.symm.trans hclosed', rfl⟩⟩

/-- A block with a transaction and, after it, a stray mutation. -/
def dirtyBlock : List GoEvent :=
  [.blockStart { number := 7 },
    .transactionStart { txIndex := 4, hash := Bytes.fill 32 1 },
    .transactionEnd { txIndex := 4, reverted := false },
    .nonceMutation { frameId := noFrame, address := Bytes.fill 20 1, before := 0, after := 1 }]

/-- What follows the `BlockStart` of another block. -/
def nextBlock : List GoEvent :=
  [.transactionStart { txIndex := 0, hash := Bytes.fill 32 2 },
    .transactionEnd { txIndex := 0, reverted := false }]

/-- The mutation left over from `dirtyBlock` does not reach the next block. -/
theorem dirtyBlock_then_nextBlock :
    ∃ first out, translate dirtyBlock ⟨1⟩ = .ok first ∧
      translate (.blockStart { number := 8 } :: nextBlock) ⟨1⟩ = .ok out ∧
      translate (dirtyBlock ++ .blockStart { number := 8 } :: nextBlock) ⟨1⟩ =
        .ok (first ++ out.map (shiftSequence first.length)) := by
  have hfirst : ∃ first, translate dirtyBlock ⟨1⟩ = .ok first := ⟨_, rfl⟩
  obtain ⟨first, hfirst⟩ := hfirst
  have hblock : ∃ out, translate (.blockStart { number := 8 } :: nextBlock) ⟨1⟩ = .ok out :=
    ⟨_, rfl⟩
  obtain ⟨out, hblock⟩ := hblock
  exact ⟨first, out, hfirst, hblock, (translate_append hfirst _ _).2 out hblock⟩

end KaySentinel.Bridge
