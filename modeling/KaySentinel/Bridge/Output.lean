import KaySentinel.Bridge.Acceptance
import KaySentinel.Builder.Partition
import KaySentinel.Cse.Validator
import KaySentinel.Lib.Pointwise

/-!
# The bridge's output as input

`translate_wellFormed`: the partition takes every output of `translate`, one bucket for each
transaction, and the validator has nothing to object to but single payloads.
-/

namespace KaySentinel.Bridge

open Cse Builder

variable {config : BridgeConfig}

/-- The bucket is stamped with the transaction. -/
def StampedWith (start : TransactionStartData) (bucket : TransactionBucket) : Prop :=
  bucket.metadata.transactionHash = start.hash ∧
    bucket.metadata.transactionIndex = start.txIndex.toUInt32

/-! ## The partition -/

/-- The stamp of a `BeginTransaction`. -/
def beginStamp? (e : CanonicalSemanticEvent) : Option (Word × UInt32) :=
  if e.payload = .beginTransaction then
    some (e.context.provisional.transactionHash, e.context.provisional.transactionIndex)
  else none

/-- The buckets carry the stamps of the `BeginTransaction` events. -/
lemma stamps_spans (events : List CanonicalSemanticEvent) :
    ((Partition.spans events).map fun span => bucketOf span.1 span.2).map
        (fun bucket => (bucket.metadata.transactionHash, bucket.metadata.transactionIndex)) =
      events.filterMap beginStamp? := by
  induction events with
  | nil => rfl
  | cons e events ih =>
    rw [Partition.spans, List.filterMap_cons]
    by_cases h : e.payload = .beginTransaction
    · rw [if_pos h, List.map_cons, List.map_cons, ih]
      simp [beginStamp?, h, metadata_bucketOf, TransactionBucket.new]
    · rw [if_neg h, ih]
      simp [beginStamp?, h]

lemma filterMap_beginStamp_mapIdx (l : List CanonicalSemanticEvent) :
    (l.mapIdx withSequence).filterMap beginStamp? = l.filterMap beginStamp? := by
  induction l using List.reverseRecOn with
  | nil => rfl
  | append_singleton l e ih =>
    rw [List.mapIdx_concat, List.filterMap_append, List.filterMap_append, ih]
    rfl

lemma Segment.filterMap_beginStamp {span : TransactionSpan}
    {segment : List CanonicalSemanticEvent} (h : Segment span segment) :
    segment.filterMap beginStamp? = [(span.start.hash, span.start.txIndex.toUInt32)] := by
  obtain ⟨begin, kept, last, rfl, hbegin, hhash, hindex, hlast, hkept⟩ := h
  have hbody : kept.filterMap beginStamp? = [] := by
    refine List.filterMap_eq_nil_iff.mpr fun e he => ?_
    have hboundary := isBoundary_of_mem_kept hkept (List.mem_map_of_mem he)
    rw [beginStamp?, if_neg]
    intro hp
    rw [hp] at hboundary
    simp [CsePayload.isBoundary] at hboundary
  simp [beginStamp?, hbegin, hlast, hhash, hindex, hbody]

/-- The partition makes one bucket of each transaction. -/
lemma process_translate {events : List GoEvent} {out : List CanonicalSemanticEvent}
    (h : translate events config = .ok out) :
    ∃ raw, Partition.process out = .ok raw ∧ List.Forall₂ StampedWith (starts events) raw := by
  obtain ⟨segments, hkept, hpayloads⟩ := translate_segments h
  have hboundary : ∀ seg ∈ segments, ∀ p ∈ seg, p.isBoundary = false := by
    intro seg hseg p hp
    obtain ⟨body, -, hkeeps⟩ := Pointwise.exists_left hkept hseg
    exact isBoundary_of_mem_kept hkeeps hp
  obtain ⟨raw, hraw, -⟩ := Partition.process_segments hpayloads hboundary
  refine ⟨raw, hraw, ?_⟩
  obtain ⟨⟨-, hstarts⟩, outputs, houtputs, rfl⟩ := translate_spans h
  have hstamps : raw.map (fun bucket =>
        (bucket.metadata.transactionHash, bucket.metadata.transactionIndex)) =
      (starts events).map fun start => (start.hash, start.txIndex.toUInt32) := by
    rw [Partition.process_eq_map hraw, stamps_spans, filterMap_beginStamp_mapIdx, ← hstarts]
    clear h hraw hpayloads hstarts
    generalize spans events = txs at houtputs
    induction houtputs with
    | nil => rfl
    | cons hsegment _ ih =>
      rw [List.flatten_cons, List.filterMap_append, hsegment.filterMap_beginStamp, ih]
      rfl
  rw [← List.forall₂_eq_eq_eq, List.forall₂_map_left_iff, List.forall₂_map_right_iff] at hstamps
  exact (Pointwise.symm hstamps).imp fun _ _ hstamp => Prod.mk.inj hstamp

/-! ## The validator -/

/-- The output is numbered densely from zero. -/
lemma numberedFrom_mapIdx (l : List CanonicalSemanticEvent) :
    CseValidator.NumberedFrom 0 (l.mapIdx withSequence) := by
  intro i e he
  rw [List.getElem?_mapIdx] at he
  obtain ⟨e', -, rfl⟩ := Option.map_eq_some_iff.mp he
  rw [UInt64.zero_add]
  rfl

/-- **The output is well formed.**  The partition accepts every output of `translate` and makes
one bucket of each transaction, in order.  A fresh validator rejects an event of it only for a
degenerate payload, and without one accepts it all and ends outside a transaction. -/
theorem translate_wellFormed {events : List GoEvent} {out : List CanonicalSemanticEvent}
    (h : translate events config = .ok out) :
    (∃ raw, Partition.process out = .ok raw ∧ List.Forall₂ StampedWith (starts events) raw) ∧
      (∀ err, CseValidator.new.validateAll out = .error err →
        ∃ pre e post v msg, out = pre ++ e :: post ∧ CseValidator.new.validateAll pre = .ok v ∧
          v.validateAndAdvance e = .error err ∧ err = .invalidPayloadState msg ∧
          e.payload.Degenerate) ∧
      ((∀ e ∈ out, ¬ e.payload.Degenerate) →
        ∃ v, CseValidator.new.validateAll out = .ok v ∧ v.inTransaction = false) := by
  have hpartition := process_translate h
  have henvelope : CseValidator.envelopeAll false (out.map (·.payload)) = .ok false := by
    obtain ⟨segments, hkept, hpayloads⟩ := translate_segments h
    rw [hpayloads]
    refine CseValidator.envelopeAll_flatMap_bracketed fun seg hseg p hp => ?_
    obtain ⟨body, -, hkeeps⟩ := Pointwise.exists_left hkept hseg
    exact isBoundary_of_mem_kept hkeeps hp
  obtain ⟨-, segments, -, rfl⟩ := translate_spans h
  have hcases := CseValidator.validateAll_numbered (v := .new)
    (numberedFrom_mapIdx segments.flatten) henvelope
  refine ⟨hpartition, fun err herr => ?_, fun hnone => ?_⟩
  · rcases hcases with ⟨-, v, hv, -⟩ | ⟨pre, e, post, v, msg, hout, hpre, he, hdegenerate, hrun⟩
    · rw [hv] at herr
      cases herr
    · obtain rfl := Except.error.inj (hrun.symm.trans herr)
      exact ⟨pre, e, post, v, msg, hout, hpre, he, rfl, hdegenerate⟩
  · rcases hcases with ⟨-, v, hv, hclosed⟩ | ⟨pre, e, post, -, -, hout, -, -, hdegenerate, -⟩
    · exact ⟨v, hv, hclosed⟩
    · exact absurd hdegenerate (hnone e (by rw [hout]; simp))

/-- The output of `nestedStream` is well formed. -/
theorem nestedStream_wellFormed :
    ∃ out, translate nestedStream ⟨1⟩ = .ok out ∧
      (∃ raw, Partition.process out = .ok raw ∧
        List.Forall₂ StampedWith (starts nestedStream) raw) ∧
      ∃ v, CseValidator.new.validateAll out = .ok v ∧ v.inTransaction = false := by
  have haccepted : ∃ out, translate nestedStream ⟨1⟩ = .ok out ∧
      ∀ e ∈ out, ¬ e.payload.Degenerate := ⟨_, rfl, by decide⟩
  obtain ⟨out, hout, hnone⟩ := haccepted
  obtain ⟨hpartition, -, hvalid⟩ := translate_wellFormed hout
  exact ⟨out, hout, hpartition, hvalid hnone⟩

end KaySentinel.Bridge
