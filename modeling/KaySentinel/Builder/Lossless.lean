import KaySentinel.Cse.Feed
import KaySentinel.Builder.Partition

/-!
# What partitioning keeps

`Partition.process` accepts the streams that are lists of whole transactions, and no event of a
transaction other than `AccessListTouched` is lost in its tables: each is filed on one shelf, and
a shelf holds the events filed there in the order of the stream.
-/

namespace KaySentinel.Builder

open Cse

/-! ## Shelves -/

/-- A list in the tables of a bucket. -/
inductive Shelf where
  | state (key : CanonicalKey)
  | lifecycle (address : Address)
  | log (address : Address)
  | gasRefund
deriving DecidableEq

namespace Shelf

/-- What a shelf lists. -/
@[reducible] def Entry : Shelf → Type
  | state key => ObservedTransition key.Value
  | lifecycle _ => ObservedLifecycle
  | log _ => ObservedLog
  | gasRefund => ObservedTransition UInt64

/-- Where an event belongs, and its values, sequence number and provenance as they are kept
there. -/
def filed? (event : CanonicalSemanticEvent) : Option (Σ s : Shelf, s.Entry) :=
  let eventId : EventId := ⟨event.context.normative.sequenceNumber⟩
  let traceProvenance := traceProvenanceFrom event.context
  match event.payload with
  | .balanceChanged p =>
      some ⟨state (.balance p.address), p.previousBalance, p.currentBalance, eventId⟩
  | .nonceUpdated p => some ⟨state (.nonce p.address), p.previousNonce, p.currentNonce, eventId⟩
  | .codeUpdated p =>
      some ⟨state (.code p.address), p.previousCodeHash, p.currentCodeHash, eventId⟩
  | .storageSlotUpdated p =>
      some ⟨state (.storage p.address p.slot), p.previousValue, p.currentValue, eventId⟩
  | .transientStorageUpdated p =>
      some ⟨state (.transient p.address p.slot), p.previousValue, p.currentValue, eventId⟩
  | .contractCreated p => some ⟨lifecycle p.address, .created p, eventId, traceProvenance⟩
  | .contractDestroyed p => some ⟨lifecycle p.address, .destroyed p, eventId, traceProvenance⟩
  | .logEmitted p => some ⟨log p.address, p, eventId⟩
  | .gasRefundChanged p => some ⟨gasRefund, p.previousRefund, p.currentRefund, eventId⟩
  | .accessListTouched _ | .beginTransaction | .endTransaction => none

/-- What an event adds to a shelf. -/
def entryOf? (s : Shelf) (event : CanonicalSemanticEvent) : Option s.Entry :=
  (filed? event).bind fun x => if h : x.1 = s then some (h ▸ x.2) else none

/-- The entries of a list of events on a shelf. -/
def entries (s : Shelf) (body : List CanonicalSemanticEvent) : List s.Entry :=
  body.filterMap s.entryOf?

/-- The bucket lists exactly the given entries on a shelf; a list without entries is absent. -/
def Lists (bucket : TransactionBucket) : (s : Shelf) → List s.Entry → Prop
  | state key, l =>
      bucket.stateTables[key]? = if l = [] then none else some (.of key ⟨l⟩)
  | lifecycle address, l =>
      bucket.lifecycleTable[address]? = if l = [] then none else some l
  | log address, l => bucket.logTable[address]? = if l = [] then none else some l
  | gasRefund, l => bucket.gasRefundTimeline = if l = [] then none else some ⟨l⟩

lemma entryOf?_of_filed {event : CanonicalSemanticEvent} {s : Shelf} {x : s.Entry}
    (h : filed? event = some ⟨s, x⟩) (s' : Shelf) :
    (s'.entryOf? event).isSome ↔ s' = s := by
  rw [entryOf?, h, Option.bind_some]
  by_cases hs : s = s'
  · subst hs
    simp
  · simp [hs, Ne.symm hs]

/-- Between the boundary markers every event other than `AccessListTouched` belongs to exactly
one shelf. -/
lemma existsUnique_entryOf? {event : CanonicalSemanticEvent}
    (h : event.payload.isBoundary = false) (hlist : ∀ p, event.payload ≠ .accessListTouched p) :
    ∃! s : Shelf, (s.entryOf? event).isSome := by
  have hfiled : ∃ s x, filed? event = some ⟨s, x⟩ := by
    cases hp : event.payload with
    | beginTransaction => simp [hp, CsePayload.isBoundary] at h
    | endTransaction => simp [hp, CsePayload.isBoundary] at h
    | accessListTouched p => exact absurd hp (hlist p)
    | _ => simp only [filed?, hp]; exact ⟨_, _, rfl⟩
  obtain ⟨s, x, hx⟩ := hfiled
  exact ⟨s, (entryOf?_of_filed hx s).mpr rfl, fun s' => (entryOf?_of_filed hx s').mp⟩

/-! ### The shelves of a bucket -/

variable {event : CanonicalSemanticEvent}

lemma filed?_of_transition? {w : Journal.Write CanonicalKey.Value}
    (h : transition? event.payload = some w) :
    filed? event =
      some ⟨state w.key, w.before, w.after, ⟨event.context.normative.sequenceNumber⟩⟩ := by
  cases hp : event.payload <;> simp only [hp, transition?, Option.some.injEq, reduceCtorEq] at h
  all_goals
    subst h
    simp only [filed?, hp]

lemma filed?_of_lifecycle? {l : Address × CseLifecyclePayload}
    (h : lifecycle? event.payload = some l) :
    filed? event = some ⟨lifecycle l.1, l.2, ⟨event.context.normative.sequenceNumber⟩,
      traceProvenanceFrom event.context⟩ := by
  cases hp : event.payload <;> simp only [hp, lifecycle?, Option.some.injEq, reduceCtorEq] at h
  all_goals
    subst h
    simp only [filed?, hp]

lemma entryOf?_state (key : CanonicalKey) (event : CanonicalSemanticEvent) :
    (state key).entryOf? event = observation? key event := by
  rw [entryOf?, observation?]
  cases hw : transition? event.payload with
  | none => cases hp : event.payload <;> simp [hp, transition?] at hw <;> simp [filed?, hp]
  | some w =>
    rw [filed?_of_transition? hw, Option.bind_some, Option.bind_some]
    by_cases hk : w.key = key
    · subst hk
      simp
    · simp [hk, Journal.Write.at?_of_ne hk]

lemma entryOf?_lifecycle (address : Address) (event : CanonicalSemanticEvent) :
    (lifecycle address).entryOf? event =
      (lifecycleObservation? event).bind fun p => if p.1 = address then some p.2 else none := by
  rw [entryOf?, lifecycleObservation?]
  cases hl : lifecycle? event.payload with
  | none => cases hp : event.payload <;> simp [hp, lifecycle?] at hl <;> simp [filed?, hp]
  | some l =>
    rw [filed?_of_lifecycle? hl, Option.bind_some, Option.map_some, Option.bind_some]
    by_cases ha : l.1 = address
    · subst ha
      simp
    · simp [ha]

lemma entryOf?_log (address : Address) (event : CanonicalSemanticEvent) :
    (log address).entryOf? event =
      (logObservation? event).bind fun p => if p.1 = address then some p.2 else none := by
  rw [entryOf?]
  cases hp : event.payload with
  | logEmitted p =>
    simp only [filed?, logObservation?, hp, Option.bind_some]
    by_cases ha : p.address = address
    · subst ha
      simp
    · simp [ha]
  | _ => simp [filed?, logObservation?, hp]

lemma entryOf?_gasRefund (event : CanonicalSemanticEvent) :
    gasRefund.entryOf? event = (gasRefund? event.payload).map fun g =>
      { before := g.1, after := g.2, eventId := ⟨event.context.normative.sequenceNumber⟩ } := by
  rw [entryOf?]
  cases hp : event.payload <;> simp [filed?, gasRefund?, hp]

/-- The bucket of a transaction lists on each shelf what its events add there. -/
theorem lists_bucketOf (ctx : ExecutionContext) (body : List CanonicalSemanticEvent) (s : Shelf) :
    s.Lists (bucketOf ctx body) (s.entries body) := by
  cases s with
  | state key =>
    have hentries : (state key).entries body = observedAt key body :=
      List.filterMap_congr fun event _ => entryOf?_state key event
    rw [hentries]
    exact stateTables_bucketOf ctx body key
  | lifecycle address =>
    have hentries : (lifecycle address).entries body =
        OrdMap.valuesAt lifecycleObservation? address body :=
      List.filterMap_congr fun event _ => entryOf?_lifecycle address event
    rw [hentries]
    exact lifecycleTable_bucketOf ctx body address
  | log address =>
    have hentries : (log address).entries body = OrdMap.valuesAt logObservation? address body :=
      List.filterMap_congr fun event _ => entryOf?_log address event
    rw [hentries]
    exact logTable_bucketOf ctx body address
  | gasRefund =>
    have hentries : gasRefund.entries body = gasObserved body :=
      List.filterMap_congr fun event _ => entryOf?_gasRefund event
    rw [hentries]
    exact gasRefundTimeline_eq ctx body

end Shelf

/-! ## Accepted streams -/

namespace Partition

/-- A step that succeeds passes the envelope check, and a bucket is open where the check has a
transaction open. -/
lemma envelope_of_step {s s' : State} {event : CanonicalSemanticEvent}
    (h : step s event = .ok s') :
    CseValidator.envelope s.currentBucket.isSome event.payload = .ok s'.currentBucket.isSome := by
  rw [CseValidator.envelope_eq_ok_iff]
  rcases step_cases h with ⟨hp, hs, rfl⟩ | ⟨bucket, hp, hs, rfl⟩ | ⟨bucket, hp, hs, rfl⟩
  · simp [hp, hs]
  · simp [hp, hs]
  · simp [hp, hs]

lemma envelopeAll_of_foldlM {s s' : State} {events : List CanonicalSemanticEvent}
    (h : events.foldlM step s = .ok s') :
    CseValidator.envelopeAll s.currentBucket.isSome (events.map (·.payload)) =
      .ok s'.currentBucket.isSome := by
  induction events generalizing s with
  | nil =>
    obtain rfl := Except.ok.inj h
    rfl
  | cons event events ih =>
    obtain ⟨mid, hstep, hrest⟩ := Fallible.foldlM_cons_eq_ok.mp h
    rw [List.map_cons, CseValidator.envelopeAll, List.foldlM_cons, envelope_of_step hstep]
    exact ih hrest

/-- Whole transactions become one bucket each. -/
lemma process_flatMap (txs : List Transaction) :
    process (txs.flatMap Transaction.events) =
      .ok (txs.map fun t => bucketOf t.begin.context t.body) := by
  have hfold : ∀ buckets,
      (txs.flatMap Transaction.events).foldlM step { buckets := buckets, currentBucket := none } =
        .ok { buckets := buckets ++ txs.map fun t => bucketOf t.begin.context t.body
              currentBucket := none } := by
    induction txs with
    | nil => exact fun buckets => by simp [pure, Except.pure]
    | cons t txs ih =>
      intro buckets
      rw [List.flatMap_cons, List.foldlM_append, Transaction.events,
        foldlM_transaction buckets t.begin_payload t.fin_payload t.body_payload]
      show List.foldlM step _ (txs.flatMap Transaction.events) = _
      rw [ih, List.map_cons, List.append_assoc, List.singleton_append]
  rw [process, hfold]
  rfl

lemma wellBracketed_of_process {events : List CanonicalSemanticEvent} {raw : RawIr}
    (h : process events = .ok raw) : WellBracketed events := by
  have henvelope := envelopeAll_of_foldlM (foldlM_of_process h)
  exact CseValidator.envelopeAll_eq_ok_false_iff.mp henvelope

/-- The accepted streams are the lists of whole transactions. -/
lemma exists_process_iff {events : List CanonicalSemanticEvent} :
    (∃ raw, process events = .ok raw) ↔ WellBracketed events := by
  constructor
  · rintro ⟨raw, hraw⟩
    exact wellBracketed_of_process hraw
  · rintro ⟨txs, rfl⟩
    exact ⟨_, process_flatMap txs⟩

end Partition

/-- The bucket keeps the transaction: its metadata are those of the event that begins the
transaction, every event but `AccessListTouched` belongs to exactly one shelf, and each shelf
lists what the events add to it, in their order. -/
structure Keeps (bucket : TransactionBucket) (t : Transaction) : Prop where
  chainId : bucket.metadata.chainId = t.begin.context.provisional.chainId
  blockNumber : bucket.metadata.blockNumber = t.begin.context.provisional.blockNumber
  blockHash : bucket.metadata.blockHash = t.begin.context.provisional.blockHash
  transactionHash : bucket.metadata.transactionHash = t.begin.context.provisional.transactionHash
  transactionIndex :
    bucket.metadata.transactionIndex = t.begin.context.provisional.transactionIndex
  lists : ∀ s : Shelf, s.Lists bucket (s.entries t.body)
  once : ∀ e ∈ t.body, (∀ p, e.payload ≠ .accessListTouched p) →
    ∃! s : Shelf, (s.entryOf? e).isSome
  untracked : ∀ e ∈ t.body, ∀ p, e.payload = .accessListTouched p →
    ∀ s : Shelf, s.entryOf? e = none

lemma keeps_bucketOf (t : Transaction) : Keeps (bucketOf t.begin.context t.body) t where
  chainId := by rw [metadata_bucketOf]; rfl
  blockNumber := by rw [metadata_bucketOf]; rfl
  blockHash := by rw [metadata_bucketOf]; rfl
  transactionHash := by rw [metadata_bucketOf]; rfl
  transactionIndex := by rw [metadata_bucketOf]; rfl
  lists := Shelf.lists_bucketOf t.begin.context t.body
  once e he := Shelf.existsUnique_entryOf? (t.body_payload e he)
  untracked e _ p hp s := by simp [Shelf.entryOf?, Shelf.filed?, hp]

/-- **Partitioning is lossless.**  A stream is accepted exactly if it is a list of whole
transactions, and then the buckets keep the transactions, one each, in order. -/
theorem process_lossless (events : List CanonicalSemanticEvent) :
    ((∃ raw, Partition.process events = .ok raw) ↔ WellBracketed events) ∧
      ∀ raw txs, Partition.process events = .ok raw → events = txs.flatMap Transaction.events →
        List.Forall₂ Keeps raw txs := by
  refine ⟨Partition.exists_process_iff, ?_⟩
  rintro raw txs hraw rfl
  obtain rfl := Except.ok.inj ((Partition.process_flatMap txs).symm.trans hraw)
  exact List.forall₂_map_left_iff.mpr (List.forall₂_same.mpr fun t _ => keeps_bucketOf t)

/-! ## Streams that a validator has let through -/

/-- What is pending while a transaction is open does not end with its end marker. -/
lemma pending_of_getLast? {inTransaction : Bool} {events rest : List CanonicalSemanticEvent}
    (hrest : Pending inTransaction rest)
    (hlast : ∀ e ∈ (events ++ rest).getLast?, e.payload = .endTransaction) : rest = [] := by
  cases inTransaction with
  | false => exact hrest
  | true =>
    obtain ⟨begin, body, rfl, hbegin, hbody⟩ := hrest
    exfalso
    induction body using List.reverseRecOn with
    | nil =>
      have hend := hlast begin (by simp)
      rw [hbegin] at hend
      cases hend
    | append_singleton body e _ =>
      have hend := hlast e (by
        rw [← List.cons_append, ← List.append_assoc, List.getLast?_concat]
        rfl)
      have hnot := hbody e (by simp)
      rw [hend] at hnot
      cases hnot

/-- **Rejections are atomic and the accepted events can be partitioned.**  Feed a stream to a
fresh validator, past its rejections.  A rejected call leaves the validator unchanged, so that the
accepted events alone lead to the same validator; they are numbered from zero, valid and a prefix
of a list of whole transactions; and if none of them is left open, they can be partitioned. -/
theorem feed_spec (events : List CanonicalSemanticEvent) (hlen : events.length < 2 ^ 64) :
    (∀ (v v' : CseValidator) (event : CanonicalSemanticEvent) (err : ValidationError),
        v.advance event = (.error err, v') → v' = v) ∧
      ∃ (final : CseValidator) (accepted : List CanonicalSemanticEvent),
        CseValidator.new.feed events = (final, accepted) ∧
        CseValidator.new.feed accepted = (final, accepted) ∧
        (∀ (i : ℕ) (e : CanonicalSemanticEvent), accepted[i]? = some e →
          e.context.normative.sequenceNumber.toNat = i ∧ e.validate = .ok ()) ∧
        (∃ stream, accepted <+: stream ∧ WellBracketed stream) ∧
        ((∀ e ∈ accepted.getLast?, e.payload = .endTransaction) →
          ∃ raw, Partition.process accepted = .ok raw) := by
  refine ⟨fun v v' event err => CseValidator.advance_of_error, ?_⟩
  obtain ⟨final, accepted, hfeed⟩ : ∃ final accepted,
      CseValidator.new.feed events = (final, accepted) := ⟨_, _, rfl⟩
  have hall := CseValidator.new.validateAll_accepted events
  have hshort := (CseValidator.new.length_accepted_le events).trans_lt hlen
  rw [hfeed] at hall hshort
  have haccepted := CseValidator.accepted_of_validateAll hall
  obtain ⟨txs, rest, rfl, hrest⟩ := CseValidator.envelopeAll_eq_ok_iff.mp haccepted.envelope
  refine ⟨final, _, hfeed, CseValidator.feed_of_validateAll hall, fun i e he => ⟨?_, ?_⟩, ?_,
    fun hlast => ?_⟩
  · rw [haccepted.numbered i e he]
    show ((0 : UInt64) + UInt64.ofNat i).toNat = i
    rw [UInt64.zero_add,
      UInt64.toNat_ofNat_of_lt' ((List.getElem?_eq_some_iff.mp he).1.trans hshort)]
  · exact haccepted.valid e (List.mem_of_getElem? he)
  · obtain ⟨more, txs', hmore⟩ := hrest.exists_wellBracketed
    refine ⟨txs.flatMap Transaction.events ++ rest ++ more, List.prefix_append _ _,
      txs ++ txs', ?_⟩
    rw [List.append_assoc, hmore, List.flatMap_append]
  · obtain rfl := pending_of_getLast? hrest hlast
    rw [List.append_nil]
    exact ⟨_, Partition.process_flatMap txs⟩

/-- A transaction with intruders: an event ahead of it, a second beginning, an event out of
sequence and one that changes nothing. -/
def intruded : List CanonicalSemanticEvent :=
  let idle := .balanceChanged
    { address := Bytes.zero 20, previousBalance := Bytes.zero 32, currentBalance := Bytes.zero 32 }
  let refund := .gasRefundChanged { previousRefund := 0, currentRefund := 1 }
  [(0, refund), (0, .beginTransaction), (1, .beginTransaction), (1, refund), (3, refund),
    (2, idle), (2, .endTransaction)].map fun e =>
      { version := .v1
        context := { (plainEvent e.2).context with normative := ⟨e.1⟩ }
        payload := e.2 }

theorem feed_spec_intruded :
    ∃ accepted, (CseValidator.new.feed intruded).2 = accepted ∧ accepted.length = 3 ∧
      ∃ raw, Partition.process accepted = .ok raw := by
  obtain ⟨-, final, accepted, hfeed, -, -, -, hprocess⟩ := feed_spec intruded (by decide)
  have haccepted : (CseValidator.new.feed intruded).2 = accepted := by rw [hfeed]
  refine ⟨accepted, haccepted, ?_, hprocess ?_⟩
  · rw [← haccepted]
    rfl
  · rw [← haccepted]
    decide

end KaySentinel.Builder
