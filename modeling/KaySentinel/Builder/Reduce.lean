import KaySentinel.Builder.Partition

/-!
# Reducing the timelines

`Reduce.process` replaces every timeline of a bucket by the one transition it amounts to.
`processBucket_spec` says when this succeeds and what the reduced bucket of a transaction
holds; `processBucket_cases` says so of the payloads of the transaction alone.
-/

namespace KaySentinel.Builder

open Cse

structure ReducedTransactionBucket where
  metadata : TransactionMetadata
  stateTable : OrdMap.Map CanonicalKey ReducedVariant
  lifecycleTable : OrdMap.Map Address (List ObservedLifecycle)
  logTable : OrdMap.Map Address (List ObservedLog)
  gasRefund : Option (ReducedTransition UInt64)

abbrev ReducedIr := List ReducedTransactionBucket

namespace Reduce

/-- `timeline.reduce()?`, converting the error. -/
def reduceTimeline (_key : CanonicalKey) (timeline : TimelineVariant) :
    Except BuilderError ReducedVariant :=
  timeline.reduce.mapError .timelineFailure

/-- `gas_refund_timeline.map(|t| t.reduce()).transpose()?` -/
def reduceGasRefund :
    Option (Timeline UInt64) → Except BuilderError (Option (ReducedTransition UInt64))
  | none => .ok none
  | some tl => some <$> tl.reduce.mapError .timelineFailure

def processBucket (bucket : TransactionBucket) :
    Except BuilderError ReducedTransactionBucket := do
  let reducedTable ← OrdMap.mapExcept reduceTimeline bucket.stateTables
  let gasRefund ← reduceGasRefund bucket.gasRefundTimeline
  return {
    metadata := bucket.metadata
    stateTable := reducedTable
    lifecycleTable := bucket.lifecycleTable
    logTable := bucket.logTable
    gasRefund := gasRefund }

def process (rawIr : RawIr) : Except BuilderError ReducedIr := rawIr.mapM processBucket

end Reduce

/-! ## What a reduced bucket holds -/

/-- The state table `table` is the reduction of the payloads `ps`: each key that they write
has its first value and the last, and no other key has an entry. -/
def Tabulates (ps : List CsePayload) (table : OrdMap.Map CanonicalKey ReducedVariant) : Prop :=
  ∀ k, (historyAt k ps = [] ∧ table[k]? = none) ∨
    ∃ v a rest t, historyAt k ps = (v, a) :: rest ∧ table[k]? = some (.of k t) ∧
      t.initial = v ∧ Journal.chain v (historyAt k ps) = some t.terminal

/-- Every timeline of the payloads is continuous. -/
structure Continuous (ps : List CsePayload) : Prop where
  states : ∀ k, Journal.Linked (historyAt k ps)
  gasRefunds : Journal.Linked (gasRefunds ps)

/-- In a transaction, every write to a key, and every change of the gas refund counter, starts
from the value that the one before it left. -/
structure LineageKept (body : List CanonicalSemanticEvent) : Prop where
  states : ∀ k, Timeline.Unbroken (observedAt k body)
  gasRefund : Timeline.Unbroken (gasObserved body)

/-- The bucket is the projection of a transaction: it has an entry for each key that the
transaction writes, of the key's variant, which collapses the writes to the key. -/
structure Projects (body : List CanonicalSemanticEvent) (bucket : ReducedTransactionBucket) :
    Prop where
  unwritten : ∀ k, observedAt k body = [] → bucket.stateTable[k]? = none
  written : ∀ k, observedAt k body ≠ [] → ∃ t, bucket.stateTable[k]? = some (.of k t) ∧
    Timeline.Collapses (observedAt k body) t
  noRefund : gasObserved body = [] → bucket.gasRefund = none
  refund : gasObserved body ≠ [] → ∃ t, bucket.gasRefund = some t ∧
    Timeline.Collapses (gasObserved body) t

/-- The error names two consecutive events of one key, or of the gas refund counter, whose
values do not chain. -/
def NamesBreak (body : List CanonicalSemanticEvent) (e : BuilderError) : Prop :=
  ∃ previous current, e = .timelineFailure (.discontinuousLineage previous current) ∧
    ((∃ k, Timeline.BreaksAt (observedAt k body) previous current) ∨
      Timeline.BreaksAt (gasObserved body) previous current)

variable {body : List CanonicalSemanticEvent}

lemma NamesBreak.not_lineageKept {e : BuilderError} (h : NamesBreak body e) :
    ¬ LineageKept body := by
  obtain ⟨previous, current, -, ⟨k, hbreak⟩ | hbreak⟩ := h
  · exact fun hkept => hbreak.not_unbroken (hkept.states k)
  · exact fun hkept => hbreak.not_unbroken hkept.gasRefund

/-- Lineages are kept exactly if the timelines of the payloads are continuous. -/
lemma lineageKept_iff : LineageKept body ↔ Continuous (payloads body) := by
  have hstates : (∀ k, Timeline.Unbroken (observedAt k body)) ↔
      ∀ k, Journal.Linked (historyAt k (payloads body)) := by
    refine forall_congr' fun k => ?_
    rw [Timeline.unbroken_iff_linked, transitions_observedAt]
  have hgas : Timeline.Unbroken (gasObserved body) ↔
      Journal.Linked (gasRefunds (payloads body)) := by
    rw [Timeline.unbroken_iff_linked, transitions_gasObserved]
  exact ⟨fun h => ⟨hstates.mp h.states, hgas.mp h.gasRefund⟩,
    fun h => ⟨hstates.mpr h.states, hgas.mpr h.gasRefunds⟩⟩

/-- The state table of a projection tabulates the payloads. -/
lemma Projects.tabulates {bucket : ReducedTransactionBucket} (h : Projects body bucket)
    (hkept : LineageKept body) : Tabulates (payloads body) bucket.stateTable := by
  intro k
  rw [← transitions_observedAt]
  by_cases hnil : observedAt k body = []
  · exact .inl ⟨by rw [hnil]; rfl, h.unwritten k hnil⟩
  · obtain ⟨t, ht, hcollapses⟩ := h.written k hnil
    obtain ⟨a, rest, htransitions, hchain⟩ := hcollapses.chain (hkept.states k)
    exact .inr ⟨t.initial, a, rest, t, htransitions, ht, rfl, hchain⟩

namespace Reduce

lemma reduceTimeline_spec {k : CanonicalKey} {l : List (ObservedTransition k.Value)}
    (h : l ≠ []) :
    (Timeline.Unbroken l ∧ ∃ t, reduceTimeline k (.of k ⟨l⟩) = .ok (.of k t) ∧
        Timeline.Collapses l t) ∨
      ∃ previous current, reduceTimeline k (.of k ⟨l⟩) =
          .error (.timelineFailure (.discontinuousLineage previous current)) ∧
        Timeline.BreaksAt l previous current := by
  rw [reduceTimeline, TimelineVariant.reduce_of]
  have hhistory : (⟨l⟩ : Timeline k.Value).history ≠ [] := h
  rcases Timeline.reduce_spec hhistory with
    ⟨hl, t, ht, hcollapses⟩ | ⟨previous, current, he, hbreak⟩
  · refine .inl ⟨hl, t, ?_, hcollapses⟩
    rw [ht]
    rfl
  · refine .inr ⟨previous, current, ?_, hbreak⟩
    rw [he]
    rfl

/-- The state table reduces key by key. -/
lemma mapExcept_stateTables_spec (ctx : ExecutionContext) (body : List CanonicalSemanticEvent) :
    ((∀ k, Timeline.Unbroken (observedAt k body)) ∧ ∃ table,
        OrdMap.mapExcept reduceTimeline (bucketOf ctx body).stateTables = .ok table ∧
        ∀ k, (observedAt k body = [] → table[k]? = none) ∧
          (observedAt k body ≠ [] → ∃ t, table[k]? = some (.of k t) ∧
            Timeline.Collapses (observedAt k body) t)) ∨
      ∃ e, OrdMap.mapExcept reduceTimeline (bucketOf ctx body).stateTables = .error e ∧
        NamesBreak body e := by
  cases htable : OrdMap.mapExcept reduceTimeline (bucketOf ctx body).stateTables with
  | ok table =>
    have hkey : ∀ k, Timeline.Unbroken (observedAt k body) ∧
        (observedAt k body = [] → table[k]? = none) ∧
          (observedAt k body ≠ [] → ∃ t, table[k]? = some (.of k t) ∧
            Timeline.Collapses (observedAt k body) t) := by
      intro k
      have hk := OrdMap.getElem?_mapExcept htable k
      rw [stateTables_bucketOf] at hk
      by_cases hnil : observedAt k body = []
      · rw [if_pos hnil] at hk
        refine ⟨?_, fun _ => hk, fun hne => absurd hnil hne⟩
        rw [hnil]
        exact List.isChain_nil
      · rw [if_neg hnil] at hk
        obtain ⟨variant, hok, hvariant⟩ := hk
        rcases reduceTimeline_spec hnil with ⟨hl, t, ht, hcollapses⟩ | ⟨_, _, he, -⟩
        · obtain rfl := Except.ok.inj (ht.symm.trans hok)
          exact ⟨hl, fun h => absurd h hnil, fun _ => ⟨t, hvariant, hcollapses⟩⟩
        · rw [he] at hok
          cases hok
    exact .inl ⟨fun k => (hkey k).1, table, rfl, fun k => (hkey k).2⟩
  | error e =>
    refine .inr ⟨e, rfl, ?_⟩
    obtain ⟨k, timeline, hk, he⟩ := OrdMap.mapExcept_eq_error htable
    rw [stateTables_bucketOf] at hk
    split_ifs at hk with hnil
    obtain rfl := Option.some.inj hk
    rcases reduceTimeline_spec hnil with ⟨-, t, ht, -⟩ | ⟨previous, current, he', hbreak⟩
    · rw [ht] at he
      cases he
    · obtain rfl := Except.error.inj (he'.symm.trans he)
      exact ⟨previous, current, rfl, .inl ⟨k, hbreak⟩⟩

lemma reduceGasRefund_spec (ctx : ExecutionContext) (body : List CanonicalSemanticEvent) :
    (Timeline.Unbroken (gasObserved body) ∧ ∃ g,
        reduceGasRefund (bucketOf ctx body).gasRefundTimeline = .ok g ∧
        (gasObserved body = [] → g = none) ∧
        (gasObserved body ≠ [] → ∃ t, g = some t ∧ Timeline.Collapses (gasObserved body) t)) ∨
      ∃ e, reduceGasRefund (bucketOf ctx body).gasRefundTimeline = .error e ∧
        NamesBreak body e := by
  rw [gasRefundTimeline_eq]
  by_cases hnil : gasObserved body = []
  · rw [if_pos hnil, hnil]
    exact .inl ⟨List.isChain_nil, none, rfl, fun _ => rfl, fun hne => absurd rfl hne⟩
  · rw [if_neg hnil, reduceGasRefund]
    have hhistory : (⟨gasObserved body⟩ : Timeline _).history ≠ [] := hnil
    rcases Timeline.reduce_spec hhistory with
      ⟨hl, t, ht, hcollapses⟩ | ⟨previous, current, he, hbreak⟩
    · refine .inl ⟨hl, some t, ?_, fun h => absurd h hnil, fun _ => ⟨t, rfl, hcollapses⟩⟩
      rw [ht]
      rfl
    · refine .inr ⟨_, ?_, previous, current, rfl, .inr hbreak⟩
      rw [he]
      rfl

/-- A bucket reduces to the projection of its transaction, unless some lineage breaks. -/
lemma processBucket_spec (ctx : ExecutionContext) (body : List CanonicalSemanticEvent) :
    (LineageKept body ∧ ∃ bucket, processBucket (bucketOf ctx body) = .ok bucket ∧
        Projects body bucket ∧ bucket.lifecycleTable = (bucketOf ctx body).lifecycleTable) ∨
      ∃ e, processBucket (bucketOf ctx body) = .error e ∧ NamesBreak body e := by
  rcases mapExcept_stateTables_spec ctx body with ⟨hstates, table, htable, hkeys⟩ | ⟨e, he, hbreak⟩
  · rcases reduceGasRefund_spec ctx body with ⟨hgas, g, hg, hnone, hsome⟩ | ⟨e, he, hbreak⟩
    · refine .inl ⟨⟨hstates, hgas⟩, { metadata := (bucketOf ctx body).metadata
                                      stateTable := table
                                      lifecycleTable := (bucketOf ctx body).lifecycleTable
                                      logTable := (bucketOf ctx body).logTable
                                      gasRefund := g }, ?_, ?_, rfl⟩
      · simp only [processBucket, htable, hg, bind, Except.bind, pure, Except.pure]
      · exact ⟨fun k => (hkeys k).1, fun k => (hkeys k).2, hnone, hsome⟩
    · refine .inr ⟨e, ?_, hbreak⟩
      simp only [processBucket, htable, he, bind, Except.bind]
  · refine .inr ⟨e, ?_, hbreak⟩
    simp only [processBucket, he, bind, Except.bind]

/-- **Reduction of one transaction.**  It succeeds exactly if every timeline is continuous;
then the state table tabulates the payloads, and otherwise the error is a discontinuous
lineage. -/
theorem processBucket_cases (ctx : ExecutionContext) (body : List CanonicalSemanticEvent) :
    (∃ bucket, processBucket (bucketOf ctx body) = .ok bucket ∧ Continuous (payloads body) ∧
        Tabulates (payloads body) bucket.stateTable ∧
        bucket.lifecycleTable = (bucketOf ctx body).lifecycleTable) ∨
      (∃ previous current, processBucket (bucketOf ctx body) =
          .error (.timelineFailure (.discontinuousLineage previous current)) ∧
        ¬ Continuous (payloads body)) := by
  rcases processBucket_spec ctx body with
    ⟨hkept, bucket, hok, hprojects, hlife⟩ | ⟨e, he, hbreak⟩
  · exact .inl ⟨bucket, hok, lineageKept_iff.mp hkept, hprojects.tabulates hkept, hlife⟩
  · have hnot := hbreak.not_lineageKept
    obtain ⟨previous, current, rfl, -⟩ := hbreak
    exact .inr ⟨previous, current, he, fun hcont => hnot (lineageKept_iff.mpr hcont)⟩

lemma process_singleton (bucket : TransactionBucket) :
    process [bucket] = (processBucket bucket).map fun reduced => [reduced] := by
  rw [process, List.mapM_cons, List.mapM_nil]
  cases processBucket bucket <;> rfl

/-- Reducing bucket by bucket. -/
lemma process_eq_ok {rawIr : RawIr} {reduced : ReducedIr}
    (h : List.Forall₂ (fun bucket r => processBucket bucket = .ok r) rawIr reduced) :
    process rawIr = .ok reduced := by
  induction h with
  | nil => rfl
  | cons hbucket _ ih =>
    rw [process] at ih
    rw [process, List.mapM_cons, hbucket]
    simp only [bind, Except.bind, ih, pure, Except.pure]

/-- Partition and reduction of a stream that brackets the payloads `ps`. -/
theorem process_bracketed_cases {events : List CanonicalSemanticEvent} {ps : List CsePayload}
    (h : payloads events = bracketed ps) (hps : ∀ p ∈ ps, p.isBoundary = false) :
    (∃ ctx body bucket, payloads body = ps ∧ Partition.process events = .ok [bucketOf ctx body] ∧
        process [bucketOf ctx body] = .ok [bucket] ∧ Continuous ps ∧
        Tabulates ps bucket.stateTable ∧
        bucket.lifecycleTable = (bucketOf ctx body).lifecycleTable) ∨
      (∃ rawIr previous current, Partition.process events = .ok rawIr ∧
        process rawIr = .error (.timelineFailure (.discontinuousLineage previous current)) ∧
        ¬ Continuous ps) := by
  have hsegments : payloads events = [ps].flatMap bracketed := by simpa using h
  obtain ⟨rawIr, hraw, hbuckets⟩ := Partition.process_segments hsegments (by simpa using hps)
  cases hbuckets with
  | cons hbucket hnil =>
    cases hnil
    obtain ⟨ctx, body, rfl, rfl⟩ := hbucket
    rcases processBucket_cases ctx body with
      ⟨bucket, hok, hcont, htab, hlife⟩ | ⟨previous, current, he, hcont⟩
    · exact .inl ⟨ctx, body, bucket, rfl, hraw, by rw [process_singleton, hok]; rfl, hcont, htab,
        hlife⟩
    · exact .inr ⟨_, previous, current, hraw, by rw [process_singleton, he]; rfl, hcont⟩

end Reduce

end KaySentinel.Builder
