import KaySentinel.Builder.Reduce
import KaySentinel.Lib.Pointwise

/-!
# Terminal projection

What partition and reduction make of a whole stream: `terminal_projection` describes when the
reduction succeeds, what its tables hold then, and which events the error names otherwise.
-/

namespace KaySentinel.Builder

open Cse

/-- **Terminal projection.**  The reduction of a partitioned stream succeeds exactly if every
transaction keeps its lineages.  Then the buckets are the projections of the transactions, and
otherwise the error names a broken lineage of one of them. -/
theorem terminal_projection {events : List CanonicalSemanticEvent} {raw : RawIr}
    (h : Partition.process events = .ok raw) :
    ((∃ reduced, Reduce.process raw = .ok reduced) ↔
        ∀ span ∈ Partition.spans events, LineageKept span.2) ∧
      (∀ reduced, Reduce.process raw = .ok reduced →
        List.Forall₂ (fun span bucket => Projects span.2 bucket)
          (Partition.spans events) reduced) ∧
      ∀ e, Reduce.process raw = .error e →
        ∃ span ∈ Partition.spans events, NamesBreak span.2 e := by
  obtain rfl := Partition.process_eq_map h
  have hbuckets : ∀ reduced, Reduce.process ((Partition.spans events).map
      fun span => bucketOf span.1 span.2) = .ok reduced →
        List.Forall₂ (fun span bucket => LineageKept span.2 ∧ Projects span.2 bucket)
          (Partition.spans events) reduced := by
    intro reduced hok
    refine (List.forall₂_map_left_iff.mp (Fallible.mapM_eq_ok_iff.mp hok)).imp ?_
    intro span bucket hbucket
    rcases Reduce.processBucket_spec span.1 span.2 with ⟨hkept, b, hb, hproj, -⟩ | ⟨e, he, -⟩
    · obtain rfl := Except.ok.inj (hb.symm.trans hbucket)
      exact ⟨hkept, hproj⟩
    · rw [he] at hbucket
      cases hbucket
  have herror : ∀ e, Reduce.process ((Partition.spans events).map
      fun span => bucketOf span.1 span.2) = .error e →
        ∃ span ∈ Partition.spans events, NamesBreak span.2 e := by
    intro e he
    obtain ⟨bucket, hmem, hbucket⟩ := Fallible.mapM_eq_error he
    obtain ⟨span, hspan, rfl⟩ := List.mem_map.mp hmem
    rcases Reduce.processBucket_spec span.1 span.2 with ⟨-, b, hb, -⟩ | ⟨e', he', hbreak⟩
    · rw [hb] at hbucket
      cases hbucket
    · obtain rfl := Except.error.inj (he'.symm.trans hbucket)
      exact ⟨span, hspan, hbreak⟩
  refine ⟨⟨?_, ?_⟩, fun reduced hok => (hbuckets reduced hok).imp fun _ _ => And.right, herror⟩
  · rintro ⟨reduced, hok⟩ span hspan
    obtain ⟨bucket, -, hkept, -⟩ :=
      Pointwise.exists_left (Pointwise.symm (hbuckets reduced hok)) hspan
    exact hkept
  · intro hkept
    cases hok : Reduce.process
        ((Partition.spans events).map fun span => bucketOf span.1 span.2) with
    | ok reduced => exact ⟨reduced, rfl⟩
    | error e =>
      obtain ⟨span, hspan, hbreak⟩ := herror e hok
      exact absurd (hkept span hspan) hbreak.not_lineageKept

/-- The payloads as a stream of events with sequence numbers from zero on. -/
def numbered (ps : List CsePayload) : List CanonicalSemanticEvent :=
  ps.mapIdx fun i p => { plainEvent p with
    context := { (plainEvent p).context with normative := ⟨UInt64.ofNat i⟩ } }

/-- Two transactions: one pays twice from an account, the other pays it back and counts gas
refunds. -/
def payments : List CanonicalSemanticEvent :=
  numbered (bracketed [
      .balanceChanged ⟨Bytes.last 19 1, Bytes.last 31 9, Bytes.last 31 7⟩,
      .nonceUpdated ⟨Bytes.last 19 1, 0, 1⟩,
      .balanceChanged ⟨Bytes.last 19 1, Bytes.last 31 7, Bytes.last 31 4⟩] ++
    bracketed [
      .gasRefundChanged ⟨0, 5⟩,
      .balanceChanged ⟨Bytes.last 19 1, Bytes.last 31 4, Bytes.last 31 9⟩,
      .gasRefundChanged ⟨5, 3⟩])

theorem payments_projection :
    ∃ raw reduced, Partition.process payments = .ok raw ∧ Reduce.process raw = .ok reduced ∧
      List.Forall₂ (fun span bucket => Projects span.2 bucket)
        (Partition.spans payments) reduced := by
  have hraw : ∃ raw, Partition.process payments = .ok raw := ⟨_, rfl⟩
  obtain ⟨raw, hraw⟩ := hraw
  obtain rfl := Partition.process_eq_map hraw
  have hreduced : ∃ reduced, Reduce.process ((Partition.spans payments).map
      fun span => bucketOf span.1 span.2) = .ok reduced := ⟨_, rfl⟩
  obtain ⟨reduced, hreduced⟩ := hreduced
  exact ⟨_, reduced, hraw, hreduced, (terminal_projection hraw).2.1 reduced hreduced⟩

end KaySentinel.Builder
