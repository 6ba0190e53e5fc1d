import KaySentinel.Bridge.Blocks
import KaySentinel.Bridge.Survival
import KaySentinel.Pipeline.Independence
import KaySentinel.Pipeline.Recording

/-!
# Block by block

The events of several blocks, processed as one stream or each block alone, lead to the same
certificates: `blocks_certified`.  Only the sequence numbers differ on the way.
-/

namespace KaySentinel.Pipeline

open Bridge Builder Cse

/-- The events of a block. -/
structure BlockEvents where
  start : BlockStartData
  rest : List GoEvent

def BlockEvents.events (b : BlockEvents) : List GoEvent := .blockStart b.start :: b.rest

variable {config : BridgeConfig}

/-! ## The bridge -/

/-- The loop over blocks that are each accepted alone: what it outputs are the payloads of each,
one after the other. -/
lemma translateLoop_blocks {blocks : List BlockEvents} {outs : List (List CanonicalSemanticEvent)}
    (h : List.Forall₂ (fun b out => translate b.events config = .ok out) blocks outs)
    {i : ℕ} {s : TranslateState} (hclosed : s.txOpen = false) (hinv : s.Inv) :
    ∃ s', translateLoop config i s (blocks.flatMap BlockEvents.events) = .ok s' ∧
      s'.txOpen = false ∧
        payloads s'.finalOutput = payloads s.finalOutput ++ outs.flatMap payloads := by
  induction h generalizing i s with
  | nil => exact ⟨s, rfl, hclosed, (List.append_nil _).symm⟩
  | @cons b out blocks outs hb _ ih =>
    obtain ⟨t, hblock, hclosed', rfl⟩ := translate_eq_ok.mp hb
    obtain ⟨mid, hmid, hresumed⟩ :=
      (translateLoop_block hclosed hinv b.start b.rest).exists_left hblock
    obtain ⟨s', hloop, hopen, hpayloads⟩ := ih (i := i + b.events.length)
      (hresumed.txOpen.trans hclosed') (inv_translateLoop hinv hmid)
    refine ⟨s', ?_, hopen, ?_⟩
    · rw [List.flatMap_cons, translateLoop_append]
      exact Fallible.bind_eq_ok_iff.mpr ⟨mid, hmid, hloop⟩
    · rw [hpayloads, hresumed.output, List.flatMap_cons, ← List.append_assoc]
      refine congrArg (· ++ _) ?_
      rw [payloads, List.map_append, payloads, payloads, map_payload_mapIdx_withSequence]

/-- Blocks that are each accepted alone are accepted as one stream. -/
lemma translate_blocks {blocks : List BlockEvents} {outs : List (List CanonicalSemanticEvent)}
    (h : List.Forall₂ (fun b out => translate b.events config = .ok out) blocks outs) :
    ∃ whole, translate (blocks.flatMap BlockEvents.events) config = .ok whole ∧
      payloads whole = outs.flatMap payloads := by
  have hinv : TranslateState.init.Inv := fun _ => rfl
  obtain ⟨s, hloop, hclosed, hpayloads⟩ := translateLoop_blocks (i := 0) h rfl hinv
  refine ⟨_, translate_eq_ok.mpr ⟨s, hloop, hclosed, rfl⟩, ?_⟩
  rw [payloads, map_payload_mapIdx_withSequence]
  exact hpayloads

/-! ## The builder -/

/-- A stream of bracketed transactions reduces exactly if each transaction is continuous. -/
lemma reduceStream_segments_iff {events : List CanonicalSemanticEvent}
    {segments : List (List CsePayload)} (h : payloads events = segments.flatMap bracketed)
    (hboundary : ∀ seg ∈ segments, ∀ p ∈ seg, p.isBoundary = false) :
    (∃ reduced, reduceStream events = .ok reduced) ↔ ∀ seg ∈ segments, Continuous seg := by
  constructor
  · rintro ⟨reduced, hreduced⟩ seg hseg
    obtain ⟨raw, hraw, hbuckets⟩ := Partition.process_segments h hboundary
    simp only [reduceStream, hraw, bind, Except.bind] at hreduced
    obtain ⟨bucket, hbucket, ctx, body, rfl, rfl⟩ := Pointwise.exists_left hbuckets hseg
    rcases Reduce.processBucket_cases ctx body with ⟨-, -, hcont, -, -⟩ | ⟨_, _, he, -⟩
    · exact hcont
    · have hreduce := Fallible.mapM_eq_ok_iff.mp hreduced
      obtain ⟨r, -, hr⟩ := Pointwise.exists_left (Pointwise.symm hreduce) hbucket
      rw [he] at hr
      cases hr
  · intro hcont
    obtain ⟨reduced, hreduced, -⟩ := reduce_segments h hboundary hcont
    exact ⟨reduced, hreduced⟩

/-- What a transaction is certified as does not depend on where it stands in the stream. -/
lemma certifyBucket_congr (blake3 : Blake3) (snapshotSource : AccountSnapshotSource)
    (preStates : OrdMap.Map Address Bool) {ps : List CsePayload}
    {bucket bucket' : ReducedTransactionBucket} (h : Reduced ps bucket) (h' : Reduced ps bucket')
    (hfew : ∀ address, (lifecyclesAt address ps).length < 2 ^ 32) :
    certifyBucket blake3 snapshotSource bucket
        (Lifecycle.processBucket preStates bucket).value.generations =
      certifyBucket blake3 snapshotSource bucket'
        (Lifecycle.processBucket preStates bucket').value.generations := by
  have hbuild := @buildCanonicalCertificates_congr _ _ snapshotSource _ _
    (h.states.strip_eq h'.states fun _ => rfl)
    (resolveGenerationForAddress_processBucket h h' (fun _ => rfl) hfew preStates preStates)
  have hslots : slotsOf bucket.stateTable = slotsOf bucket'.stateTable := by
    funext address
    refine Std.ExtTreeMap.ext_getElem? fun slot => ?_
    rw [getElem?_slotsOf, getElem?_slotsOf, h.states.terminal?_eq, h'.states.terminal?_eq]
  rw [certifyBucket_eq, certifyBucket_eq, hbuild, hslots]

/-- The certificates of each transaction, the snapshots of the transaction at a position being
`sources` of it. -/
def certifyAll (blake3 : Blake3) (preStates : OrdMap.Map Address Bool)
    (sources : ℕ → AccountSnapshotSource) (reduced : ReducedIr) :
    List (Hashing (Except PipelineError (OrdMap.Map Address CanonicalAccountCertificate))) :=
  (reduced.zip (Lifecycle.process reduced preStates)).mapIdx fun i (bucket, pass) =>
    certifyBucket blake3 (sources i) bucket pass.value.generations

/-- The buckets are reductions of one transaction, which has few lifecycle events. -/
def SameReduction (bucket bucket' : ReducedTransactionBucket) : Prop :=
  ∃ ps, (∀ address, (lifecyclesAt address ps).length < 2 ^ 32) ∧ Reduced ps bucket ∧
    Reduced ps bucket'

lemma certifyAll_congr (blake3 : Blake3) (preStates : OrdMap.Map Address Bool)
    {reduced reduced' : ReducedIr} (h : List.Forall₂ SameReduction reduced reduced')
    (sources : ℕ → AccountSnapshotSource) :
    certifyAll blake3 preStates sources reduced = certifyAll blake3 preStates sources reduced' := by
  induction h generalizing sources with
  | nil => rfl
  | cons hbucket _ ih =>
    obtain ⟨ps, hfew, hreduced, hreduced'⟩ := hbucket
    have hrest := ih fun i => sources (i + 1)
    simp only [certifyAll, Lifecycle.process] at hrest
    simp only [certifyAll, Lifecycle.process, List.map_cons, List.zip_cons_cons,
      List.mapIdx_cons]
    rw [certifyBucket_congr blake3 (sources 0) preStates hreduced hreduced' hfew, hrest]

/-! ## Both -/

/-- The stream brackets the transactions. -/
def Brackets (events : List CanonicalSemanticEvent) (segments : List (List CsePayload)) : Prop :=
  payloads events = segments.flatMap bracketed ∧
    ∀ seg ∈ segments, ∀ p ∈ seg, p.isBoundary = false

/-- Every accepted stream brackets its transactions. -/
lemma brackets_of_translate {events : List GoEvent} {out : List CanonicalSemanticEvent}
    (h : translate events config = .ok out) : ∃ segments, Brackets out segments := by
  obtain ⟨segments, hkept, hpayloads⟩ := translate_segments h
  refine ⟨segments, hpayloads, fun seg hseg p hp => ?_⟩
  obtain ⟨body, -, hkeeps⟩ := Pointwise.exists_left hkept hseg
  exact isBoundary_of_mem_kept hkeeps hp

lemma exists_brackets {blocks : List BlockEvents} {outs : List (List CanonicalSemanticEvent)}
    (h : List.Forall₂ (fun b out => translate b.events config = .ok out) blocks outs) :
    ∃ segmentss, List.Forall₂ Brackets outs segmentss := by
  induction h with
  | nil => exact ⟨[], .nil⟩
  | cons hout _ ih =>
    obtain ⟨segments, hsegments⟩ := brackets_of_translate hout
    obtain ⟨segmentss, hsegmentss⟩ := ih
    exact ⟨segments :: segmentss, .cons hsegments hsegmentss⟩

lemma Brackets.reduced {events : List CanonicalSemanticEvent} {segments : List (List CsePayload)}
    (h : Brackets events segments) {reduced : ReducedIr}
    (hreduced : reduceStream events = .ok reduced) : List.Forall₂ Reduced segments reduced := by
  obtain ⟨hpayloads, hboundary⟩ := h
  have hcont := (reduceStream_segments_iff hpayloads hboundary).mp ⟨reduced, hreduced⟩
  obtain ⟨reduced', hreduced', hsegments⟩ := reduce_segments hpayloads hboundary hcont
  obtain rfl := Except.ok.inj (hreduced.symm.trans hreduced')
  exact hsegments

/-- A transaction of a short stream has few lifecycle events. -/
lemma Brackets.few {events : List CanonicalSemanticEvent} {segments : List (List CsePayload)}
    (h : Brackets events segments) (hshort : events.length < 2 ^ 32) :
    ∀ seg ∈ segments, ∀ address, (lifecyclesAt address seg).length < 2 ^ 32 := by
  intro seg hseg address
  have hlifecycles : (lifecyclesAt address seg).length ≤ seg.length :=
    List.length_filterMap_le _ _
  have hseg : (bracketed seg).length ≤ (segments.flatMap bracketed).length :=
    (List.sublist_flatten_of_mem (List.mem_map_of_mem hseg)).length_le
  have hlength : (bracketed seg).length = seg.length + 2 := by
    rw [bracketed, List.length_cons, List.length_append]
    rfl
  rw [← h.1, payloads, List.length_map] at hseg
  omega

/-- Streams that bracket transactions, one after the other. -/
lemma Brackets.flatten {outs : List (List CanonicalSemanticEvent)}
    {segmentss : List (List (List CsePayload))} (h : List.Forall₂ Brackets outs segmentss)
    {whole : List CanonicalSemanticEvent} (hwhole : payloads whole = outs.flatMap payloads) :
    Brackets whole segmentss.flatten := by
  rw [Brackets, hwhole]
  clear hwhole
  induction h with
  | nil => exact ⟨rfl, by simp⟩
  | cons hout _ ih =>
    rw [List.flatMap_cons, List.flatten_cons, List.flatMap_append, hout.1, ih.1]
    exact ⟨rfl, List.forall_mem_append.mpr ⟨hout.2, ih.2⟩⟩

lemma Brackets.reduced_flatten {outs : List (List CanonicalSemanticEvent)}
    {segmentss : List (List (List CsePayload))} (h : List.Forall₂ Brackets outs segmentss)
    {reduceds : List ReducedIr}
    (hreduceds : List.Forall₂ (fun out reduced => reduceStream out = .ok reduced) outs reduceds) :
    List.Forall₂ Reduced segmentss.flatten reduceds.flatten := by
  induction h generalizing reduceds with
  | nil =>
    cases hreduceds
    exact .nil
  | cons hout _ ih =>
    cases hreduceds with
    | cons hreduced hrest => exact List.rel_append (hout.reduced hreduced) (ih hrest)

lemma Brackets.few_flatten {outs : List (List CanonicalSemanticEvent)}
    {segmentss : List (List (List CsePayload))} (h : List.Forall₂ Brackets outs segmentss)
    (hshort : ∀ out ∈ outs, out.length < 2 ^ 32) :
    ∀ seg ∈ segmentss.flatten, ∀ address, (lifecyclesAt address seg).length < 2 ^ 32 := by
  intro seg hseg
  obtain ⟨segments, hsegments, hseg⟩ := List.mem_flatten.mp hseg
  obtain ⟨out, hout, hbrackets⟩ := Pointwise.exists_left h hsegments
  exact hbrackets.few (hshort out hout) seg hseg

lemma Brackets.continuous_flatten_iff {outs : List (List CanonicalSemanticEvent)}
    {segmentss : List (List (List CsePayload))} (h : List.Forall₂ Brackets outs segmentss) :
    (∀ seg ∈ segmentss.flatten, Continuous seg) ↔
      ∀ out ∈ outs, ∃ reduced, reduceStream out = .ok reduced := by
  induction h with
  | nil => simp
  | cons hout _ ih =>
    rw [List.flatten_cons, List.forall_mem_append, ih, List.forall_mem_cons,
      reduceStream_segments_iff hout.1 hout.2]

/-- **Block by block.**  Blocks that the bridge accepts one by one, each with fewer than `2 ^ 32`
events, are accepted as one stream.  The builder reduces it exactly if it reduces each block, and
then its transactions are certified with the same certificates, or the same errors, and the same
inputs are hashed for them. -/
theorem blocks_certified (blake3 : Blake3) (preStates : OrdMap.Map Address Bool)
    (sources : ℕ → AccountSnapshotSource) {blocks : List BlockEvents}
    {outs : List (List CanonicalSemanticEvent)}
    (h : List.Forall₂ (fun b out => translate b.events config = .ok out) blocks outs)
    (hshort : ∀ out ∈ outs, out.length < 2 ^ 32) :
    ∃ whole, translate (blocks.flatMap BlockEvents.events) config = .ok whole ∧
      ((∃ reduced, reduceStream whole = .ok reduced) ↔
        ∀ out ∈ outs, ∃ reduced, reduceStream out = .ok reduced) ∧
      ∀ reduced reduceds, reduceStream whole = .ok reduced →
        List.Forall₂ (fun out reduced => reduceStream out = .ok reduced) outs reduceds →
          certifyAll blake3 preStates sources reduced =
            certifyAll blake3 preStates sources reduceds.flatten := by
  obtain ⟨whole, hwhole, hpayloads⟩ := translate_blocks h
  obtain ⟨segmentss, hbrackets⟩ := exists_brackets h
  have hflat := Brackets.flatten hbrackets hpayloads
  refine ⟨whole, hwhole, ?_, fun reduced reduceds hreduced hreduceds => ?_⟩
  · rw [reduceStream_segments_iff hflat.1 hflat.2, Brackets.continuous_flatten_iff hbrackets]
  · refine certifyAll_congr blake3 preStates ?_ sources
    have hleft := Pointwise.forall_right (Pointwise.symm (hflat.reduced hreduced))
      (Brackets.few_flatten hbrackets hshort)
    refine (Pointwise.trans hleft (Brackets.reduced_flatten hbrackets hreduceds)).imp ?_
    rintro bucket bucket' ⟨seg, ⟨hbucket, hfew⟩, hbucket'⟩
    exact ⟨seg, hfew, hbucket, hbucket'⟩

/-- Two blocks of one transaction each. -/
def nestedBlocks : List BlockEvents :=
  [{ start := { number := 7 }, rest := nestedStream },
    { start := { number := 8 }, rest := nestedStream }]

/-- The blocks of `nestedBlocks` may be processed together. -/
theorem nestedBlocks_certified :
    ∃ outs whole,
      List.Forall₂ (fun b out => translate b.events ⟨1⟩ = .ok out) nestedBlocks outs ∧
      translate (nestedBlocks.flatMap BlockEvents.events) ⟨1⟩ = .ok whole ∧
      ((∃ reduced, reduceStream whole = .ok reduced) ↔
        ∀ out ∈ outs, ∃ reduced, reduceStream out = .ok reduced) ∧
      ∀ reduced reduceds, reduceStream whole = .ok reduced →
        List.Forall₂ (fun out reduced => reduceStream out = .ok reduced) outs reduceds →
          certifyAll (fun _ => Bytes.zero 32) ∅ (fun _ => snapshotsOf emptyAccounts) reduced =
            certifyAll (fun _ => Bytes.zero 32) ∅ (fun _ => snapshotsOf emptyAccounts)
              reduceds.flatten := by
  have haccepted : ∃ out out',
      translate (BlockEvents.events { start := { number := 7 }, rest := nestedStream }) ⟨1⟩ =
          .ok out ∧
        translate (BlockEvents.events { start := { number := 8 }, rest := nestedStream }) ⟨1⟩ =
            .ok out' ∧ ∀ l ∈ [out, out'], l.length < 2 ^ 32 :=
    ⟨_, _, rfl, rfl, by decide⟩
  obtain ⟨out, out', hout, hout', hshort⟩ := haccepted
  have hblocks : List.Forall₂ (fun b out => translate b.events ⟨1⟩ = .ok out) nestedBlocks
      [out, out'] := .cons hout (.cons hout' .nil)
  obtain ⟨whole, hwhole, hiff, hcerts⟩ :=
    blocks_certified (fun _ => Bytes.zero 32) ∅ (fun _ => snapshotsOf emptyAccounts) hblocks hshort
  exact ⟨_, whole, hblocks, hwhole, hiff, hcerts⟩

end KaySentinel.Pipeline
