import KaySentinel.Bridge.Acceptance
import KaySentinel.Cse.Transaction
import KaySentinel.Lib.Pointwise

/-!
# The context of a transaction's events

The bridge stamps an event with its context when it appends it to a buffer.  The hash and
the index are those of the `TransactionStart`, the index cut to 32 bits; the block number
is read anew for each event, so a `BlockStart` inside a transaction splits it.
-/

namespace KaySentinel.Bridge

open Cse NestedLog

/-! ## What the context should be -/

/-- The context describes the transaction: the configured chain, the number of the last
`BlockStart` before it, and the hash and the index of its `TransactionStart`. -/
structure Describes (config : BridgeConfig) (span : UInt64 × TransactionSpan)
    (p : ProvisionalContext) : Prop where
  chainId : p.chainId = config.chainId
  blockNumber : p.blockNumber = span.1
  transactionHash : p.transactionHash = span.2.start.hash
  transactionIndex : p.transactionIndex.toNat = span.2.start.txIndex.toNat

/-- All events of the transaction carry one context, which describes it. -/
def Faithful (config : BridgeConfig) (span : UInt64 × TransactionSpan) (tx : Transaction) :
    Prop :=
  ∃ p, Describes config span p ∧ ∀ e ∈ tx.events, e.context.provisional = p

/-- The output is one transaction for each transaction of the stream, each with a faithful
context, and no two transactions of a block with different indices get the same index. -/
def FaithfulMetadata (config : BridgeConfig) (events : List GoEvent)
    (out : List CanonicalSemanticEvent) : Prop :=
  ∃ txs : List Transaction, out = txs.flatMap Transaction.events ∧
    List.Forall₂ (Faithful config) (blockSpans 0 events) txs ∧
    ∀ x ∈ (blockSpans 0 events).zip txs, ∀ y ∈ (blockSpans 0 events).zip txs,
      x.1.1 = y.1.1 → x.1.2.start.txIndex ≠ y.1.2.start.txIndex →
      ∀ e ∈ x.2.events, ∀ e' ∈ y.2.events,
        e.context.provisional.transactionIndex ≠ e'.context.provisional.transactionIndex

/-- Every mutation of the transaction that survives it, and its `TransactionEnd`, come while
the block number is the one at its start. -/
def SteadyNumber (span : UInt64 × TransactionSpan) : Prop :=
  (∀ m ∈ survivors 0 (numberedOps span.1 span.2.body), m.1 = span.1) ∧
    numberAfter span.1 span.2.body = span.1

instance (span : UInt64 × TransactionSpan) : Decidable (SteadyNumber span) :=
  inferInstanceAs (Decidable (_ ∧ _))

/-! ## What the context is -/

variable {config : BridgeConfig} {span : UInt64 × TransactionSpan} {tx : Transaction}

/-- The events of the output are stamped as their transaction's segment is. -/
structure Stamped (config : BridgeConfig) (span : UInt64 × TransactionSpan) (tx : Transaction) :
    Prop where
  begin : tx.begin.context.provisional = provisionalOf config span.1 span.2.start
  fin : tx.fin.context.provisional =
    provisionalOf config (numberAfter span.1 span.2.body) span.2.start
  body : KeepsRecorded config span.1 span.2 (tx.body.map recorded)

lemma KeepsRecorded.perm {number : UInt64} {span : TransactionSpan}
    {kept : List (ProvisionalContext × CsePayload)} (h : KeepsRecorded config number span kept) :
    kept.Perm ((survivors 0 (numberedOps number span.body)).map (record config span.start)) := by
  have := run_perm h
  rwa [recordedOps, pending, survivors_map] at this

/-- The number in the context of an event of the body is the one at a survivor, and every
survivor has its event. -/
lemma Stamped.body_iff (h : Stamped config span tx) {P : ProvisionalContext → Prop} :
    (∀ e ∈ tx.body, P e.context.provisional) ↔
      ∀ m ∈ survivors 0 (numberedOps span.1 span.2.body),
        P (provisionalOf config m.1 span.2.start) := by
  constructor
  · intro hall m hm
    have hmem := h.body.perm.mem_iff.mpr (List.mem_map_of_mem hm)
    obtain ⟨e, he, hrecorded⟩ := List.mem_map.mp hmem
    have hprovisional : e.context.provisional = provisionalOf config m.1 span.2.start :=
      congrArg Prod.fst hrecorded
    rw [← hprovisional]
    exact hall e he
  · intro hall e he
    have hmem := h.body.perm.mem_iff.mp (List.mem_map_of_mem he)
    obtain ⟨m, hm, hrecorded⟩ := List.mem_map.mp hmem
    have hprovisional : provisionalOf config m.1 span.2.start = e.context.provisional :=
      congrArg Prod.fst hrecorded
    rw [← hprovisional]
    exact hall m hm

lemma provisionalOf_inj {number number' : UInt64} {start : TransactionStartData} :
    provisionalOf config number start = provisionalOf config number' start ↔ number = number' := by
  constructor
  · intro h
    exact congrArg ProvisionalContext.blockNumber h
  · rintro rfl
    rfl

/-- The context is faithful exactly if the index fits and the block number is steady. -/
lemma Stamped.faithful_iff (h : Stamped config span tx) :
    Faithful config span tx ↔ span.2.start.txIndex.toNat < 2 ^ 32 ∧ SteadyNumber span := by
  have hevents : ∀ p, (∀ e ∈ tx.events, e.context.provisional = p) ↔
      p = provisionalOf config span.1 span.2.start ∧ SteadyNumber span := by
    intro p
    simp only [Transaction.events, List.forall_mem_cons, List.forall_mem_append, h.begin, h.fin]
    rw [h.body_iff (P := fun q => q = p)]
    constructor
    · rintro ⟨rfl, hbody, hfin, -⟩
      exact ⟨rfl, fun m hm => provisionalOf_inj.mp (hbody m hm), provisionalOf_inj.mp hfin⟩
    · rintro ⟨rfl, hbody, hfin⟩
      exact ⟨rfl, fun m hm => provisionalOf_inj.mpr (hbody m hm), provisionalOf_inj.mpr hfin,
        by simp⟩
  have hindex : (provisionalOf config span.1 span.2.start).transactionIndex.toNat =
      span.2.start.txIndex.toNat % 2 ^ 32 := UInt64.toNat_toUInt32 _
  constructor
  · rintro ⟨p, hp, hall⟩
    obtain ⟨rfl, hsteady⟩ := (hevents p).mp hall
    refine ⟨?_, hsteady⟩
    rw [← hp.transactionIndex]
    exact UInt32.toNat_lt _
  · rintro ⟨hlt, hsteady⟩
    refine ⟨_, ⟨rfl, rfl, rfl, ?_⟩, (hevents _).mpr ⟨rfl, hsteady⟩⟩
    rw [hindex, Nat.mod_eq_of_lt hlt]

/-! ## Whole streams -/

lemma recorded_withSequence (seq : ℕ) (e : CanonicalSemanticEvent) :
    recorded (withSequence seq e) = recorded e := rfl

lemma map_recorded_mapIdx (l : List CanonicalSemanticEvent) :
    (l.mapIdx withSequence).map recorded = l.map recorded := by
  apply List.ext_getElem
  · simp
  · simp [recorded_withSequence]

/-- A stream recorded as a list of stamped segments is a list of stamped transactions. -/
lemma exists_transactions {xs : List (UInt64 × TransactionSpan)}
    {segments : List (List CanonicalSemanticEvent)} {out : List CanonicalSemanticEvent}
    (h : List.Forall₂ (StampedSegment config) xs segments)
    (hout : out.map recorded = segments.flatten.map recorded) :
    ∃ txs : List Transaction, out = txs.flatMap Transaction.events ∧
      List.Forall₂ (Stamped config) xs txs := by
  induction h generalizing out with
  | nil =>
    obtain rfl := List.map_eq_nil_iff.mp hout
    exact ⟨[], rfl, .nil⟩
  | cons hsegment _ ih =>
    obtain ⟨begin, kept, last, rfl, hbegin, hlast, hkept⟩ := hsegment
    rw [List.flatten_cons, List.map_append] at hout
    obtain ⟨segment', rest, rfl, hsegment', hrest⟩ := List.map_eq_append_iff.mp hout
    rw [List.map_cons] at hsegment'
    obtain ⟨begin', tail, rfl, hbegin', htail⟩ := List.map_eq_cons_iff.mp hsegment'
    rw [List.map_append] at htail
    obtain ⟨kept', ends, rfl, hkept', hends⟩ := List.map_eq_append_iff.mp htail
    obtain ⟨last', rfl, hlast'⟩ := List.map_eq_singleton_iff.mp hends
    rw [← hkept'] at hkept
    rw [← hbegin'] at hbegin
    rw [← hlast'] at hlast
    obtain ⟨hbegin, hbegins⟩ := Prod.mk.inj hbegin
    obtain ⟨hlast, hends⟩ := Prod.mk.inj hlast
    have hbody : ∀ e ∈ kept', e.payload.isBoundary = false := by
      intro e he
      refine isBoundary_of_mem_kept hkept.keeps ?_
      exact List.mem_map.mpr ⟨recorded e, List.mem_map_of_mem he, rfl⟩
    obtain ⟨txs, rfl, htxs⟩ := ih hrest
    refine ⟨⟨begin', kept', last', hbegins, hbody, hends⟩ :: txs, rfl, .cons ?_ htxs⟩
    exact ⟨hbegin, hlast, hkept⟩

/-- The output of `translate` is a list of stamped transactions. -/
lemma stamped_of_translate {events : List GoEvent} {out : List CanonicalSemanticEvent}
    (h : translate events config = .ok out) :
    ∃ txs : List Transaction, out = txs.flatMap Transaction.events ∧
      List.Forall₂ (Stamped config) (blockSpans 0 events) txs := by
  obtain ⟨-, segments, hsegments, rfl⟩ := translate_blockSpans h
  exact exists_transactions hsegments (map_recorded_mapIdx _)

/-- Faithful contexts tell the transactions of a block apart. -/
lemma Faithful.index_ne {span' : UInt64 × TransactionSpan} {tx' : Transaction}
    (h : Faithful config span tx) (h' : Faithful config span' tx')
    (hne : span.2.start.txIndex ≠ span'.2.start.txIndex) {e e' : CanonicalSemanticEvent}
    (he : e ∈ tx.events) (he' : e' ∈ tx'.events) :
    e.context.provisional.transactionIndex ≠ e'.context.provisional.transactionIndex := by
  obtain ⟨p, hp, hall⟩ := h
  obtain ⟨p', hp', hall'⟩ := h'
  rw [hall e he, hall' e' he']
  intro heq
  apply hne
  rw [← UInt64.toNat_inj, ← hp.transactionIndex, ← hp'.transactionIndex, heq]

/-- **Faithful metadata, exactly.**  The events of the output carry faithful contexts
exactly if every index fits 32 bits and no transaction goes on in another block: the index
is cut where a frame id is checked, and the block number is not kept with the transaction
as its hash and its index are. -/
theorem faithfulMetadata_iff {events : List GoEvent} {out : List CanonicalSemanticEvent}
    (h : translate events config = .ok out) :
    FaithfulMetadata config events out ↔
      ∀ span ∈ blockSpans 0 events,
        span.2.start.txIndex.toNat < 2 ^ 32 ∧ SteadyNumber span := by
  obtain ⟨txs, hout, hstamped⟩ := stamped_of_translate h
  have hfaithful : List.Forall₂ (Faithful config) (blockSpans 0 events) txs ↔
      ∀ span ∈ blockSpans 0 events,
        span.2.start.txIndex.toNat < 2 ^ 32 ∧ SteadyNumber span :=
    Pointwise.forall_left_iff hstamped fun _ _ hs => hs.faithful_iff
  rw [← hfaithful]
  constructor
  · rintro ⟨txs', hout', hall, -⟩
    obtain rfl := Transaction.flatMap_events_inj (hout.symm.trans hout')
    exact hall
  · intro hall
    refine ⟨txs, hout, hall, ?_⟩
    rintro ⟨span, tx⟩ hx ⟨span', tx'⟩ hy - hne e he e' he'
    have htx : Faithful config span tx := (List.forall₂_iff_zip.mp hall).2 hx
    have htx' : Faithful config span' tx' := (List.forall₂_iff_zip.mp hall).2 hy
    exact htx.index_ne htx' hne he he'

/-- The one transaction of `nestedStream` carries its context throughout. -/
theorem nestedStream_metadata :
    ∃ out, translate nestedStream ⟨1⟩ = .ok out ∧ FaithfulMetadata ⟨1⟩ nestedStream out := by
  have haccepted : ∃ out, translate nestedStream ⟨1⟩ = .ok out := ⟨_, rfl⟩
  obtain ⟨out, hout⟩ := haccepted
  exact ⟨out, hout, (faithfulMetadata_iff hout).mpr (by decide)⟩

/-- A block with two transactions whose indices differ by `2 ^ 32`. -/
def wideIndexStream : List GoEvent :=
  [.blockStart { number := 7 },
    .transactionStart { txIndex := 0, hash := Bytes.fill 32 1 },
    .transactionEnd { txIndex := 0, reverted := false },
    .transactionStart { txIndex := 4294967296, hash := Bytes.fill 32 2 },
    .transactionEnd { txIndex := 4294967296, reverted := false },
    .blockCommit]

/-- Both get the index zero. -/
theorem wideIndexStream_truncated :
    ∃ out, translate wideIndexStream ⟨1⟩ = .ok out ∧
      (out.map fun e => e.context.provisional.transactionIndex) = [0, 0, 0, 0] ∧
      ¬ FaithfulMetadata ⟨1⟩ wideIndexStream out := by
  refine ⟨_, rfl, by decide, ?_⟩
  rintro ⟨txs, -, hall, -⟩
  have hspan : ∃ span ∈ blockSpans 0 wideIndexStream, span.2.start.txIndex.toNat = 2 ^ 32 := by
    decide
  obtain ⟨span, hmem, hindex⟩ := hspan
  obtain ⟨tx, -, p, hp, -⟩ := Pointwise.exists_left (Pointwise.symm hall) hmem
  have hlt := UInt32.toNat_lt p.transactionIndex
  rw [hp.transactionIndex, hindex] at hlt
  exact absurd hlt (lt_irrefl _)

end KaySentinel.Bridge
