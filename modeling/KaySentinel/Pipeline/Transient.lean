import KaySentinel.Builder.Lossless
import KaySentinel.Pipeline.Abstraction

/-!
# Transient storage

A write to transient storage enters no field and no storage root, but it marks its account as
one that needs a certificate.  So streams that differ in such writes alone have the same
certificate for every account that both touch (`transient_isolation`), and no more than that:
an account with transient writes only gains or loses its certificate with them.
-/

namespace KaySentinel.Pipeline

open Cse Builder Ssz

/-- The event writes transient storage. -/
def isTransient (event : CanonicalSemanticEvent) : Bool :=
  match event.payload with
  | .transientStorageUpdated _ => true
  | _ => false

/-- The streams differ only in their writes to transient storage. -/
def SamePersistent (events events' : List CanonicalSemanticEvent) : Prop :=
  events.filter (!isTransient ·) = events'.filter (!isTransient ·)

/-- The payloads write a field or a slot of the account. -/
def WrittenPersistently (address : Address) (ps : List CsePayload) : Prop :=
  ∃ k : CanonicalKey, historyAt k ps ≠ [] ∧ k.isPersistent = true ∧ k.address = address

lemma WrittenPersistently.written {address : Address} {ps : List CsePayload}
    (h : WrittenPersistently address ps) : Written address ps := by
  obtain ⟨k, hne, -, haddress⟩ := h
  exact written_iff.mpr ⟨k, hne, haddress⟩

/-! ## What does not see transient writes -/

section

variable {events events' : List CanonicalSemanticEvent}

/-- A function that ignores transient writes. -/
lemma SamePersistent.filterMap_eq {α : Type} (h : SamePersistent events events')
    {f : CanonicalSemanticEvent → Option α} (hf : ∀ e, isTransient e = true → f e = none) :
    events.filterMap f = events'.filterMap f := by
  have hfilter : ∀ l : List CanonicalSemanticEvent,
      (l.filter (!isTransient ·)).filterMap f = l.filterMap f := by
    intro l
    rw [List.filterMap_filter]
    refine List.filterMap_congr fun e _ => ?_
    cases ht : isTransient e with
    | true => simp [hf e ht]
    | false => simp
  rw [← hfilter events, ← hfilter events', h]

lemma SamePersistent.historyAt_eq (h : SamePersistent events events') {k : CanonicalKey}
    (hk : k.isPersistent = true) :
    historyAt k (payloads events) = historyAt k (payloads events') := by
  have hhistory : ∀ l, historyAt k (payloads l) =
      l.filterMap fun e => (transition? e.payload).bind (·.at? k) := by
    intro l
    simp only [historyAt, writesOf, Journal.writes, Journal.history, payloads,
      List.filterMap_filterMap, List.filterMap_map]
    rfl
  rw [hhistory, hhistory]
  refine h.filterMap_eq fun e he => ?_
  cases hp : e.payload with
  | transientStorageUpdated p =>
    refine Journal.Write.at?_of_ne ?_
    rintro rfl
    cases hk
  | _ => simp [isTransient, hp] at he

lemma SamePersistent.writtenPersistently (h : SamePersistent events events') {address : Address}
    (hwritten : WrittenPersistently address (payloads events)) :
    WrittenPersistently address (payloads events') := by
  obtain ⟨k, hne, hk, haddress⟩ := hwritten
  exact ⟨k, h.historyAt_eq hk ▸ hne, hk, haddress⟩

/-- The lifecycle table of a reduced transaction, as a function of its events. -/
lemma lifecycleTable_of_reduceStream (hsingle : SingleTransaction events)
    {bucket : ReducedTransactionBucket} (hreduce : reduceStream events = .ok [bucket])
    (address : Address) :
    bucket.lifecycleTable[address]? =
      if OrdMap.valuesAt lifecycleObservation? address events = [] then none
      else some (OrdMap.valuesAt lifecycleObservation? address events) := by
  obtain ⟨begin, body, fin, rfl, hbegin, hfin, hbody⟩ := hsingle
  have hraw : Partition.process (begin :: (body ++ [fin])) = .ok [bucketOf begin.context body] := by
    simpa [Transaction.events] using
      Partition.process_flatMap [⟨begin, body, fin, hbegin, hbody, hfin⟩]
  have hmarkers : OrdMap.valuesAt lifecycleObservation? address (begin :: (body ++ [fin])) =
      OrdMap.valuesAt lifecycleObservation? address body := by
    simp [OrdMap.valuesAt, lifecycleObservation?, hbegin, hfin, lifecycle?]
  rw [hmarkers, ← lifecycleTable_bucketOf begin.context body address]
  simp only [reduceStream, hraw, bind, Except.bind, Reduce.process_singleton] at hreduce
  rcases Reduce.processBucket_cases begin.context body with
    ⟨reduced, hok, -, -, hlife⟩ | ⟨previous, current, he, -⟩
  · rw [hok] at hreduce
    obtain rfl : reduced = bucket := by simpa using Except.ok.inj hreduce
    rw [hlife]
  · rw [he] at hreduce
    cases hreduce

lemma SamePersistent.lifecycleTable_eq (h : SamePersistent events events')
    (hsingle : SingleTransaction events) (hsingle' : SingleTransaction events')
    {bucket bucket' : ReducedTransactionBucket} (hreduce : reduceStream events = .ok [bucket])
    (hreduce' : reduceStream events' = .ok [bucket']) :
    bucket.lifecycleTable = bucket'.lifecycleTable := by
  refine Std.ExtTreeMap.ext_getElem? fun address => ?_
  have hvalues : OrdMap.valuesAt lifecycleObservation? address events =
      OrdMap.valuesAt lifecycleObservation? address events' := by
    refine h.filterMap_eq fun e he => ?_
    cases hp : e.payload with
    | transientStorageUpdated p => simp [lifecycleObservation?, hp, lifecycle?]
    | _ => simp [isTransient, hp] at he
  rw [lifecycleTable_of_reduceStream hsingle hreduce, hvalues,
    ← lifecycleTable_of_reduceStream hsingle' hreduce']

/-! ## Certificates -/

variable {blake3 : Blake3} {preStates : OrdMap.Map Address Bool}
  {snapshotSource : AccountSnapshotSource}
  {certs certs' : OrdMap.Map Address CanonicalAccountCertificate}

/-- The accounts with a certificate are those that are touched through a state key. -/
lemma isSome_certificate_iff (hsingle : SingleTransaction events)
    (hok : (certify blake3 preStates snapshotSource events).result = some (.ok certs))
    (address : Address) : certs[address]?.isSome ↔ Written address (payloads events) := by
  obtain ⟨bucket, -, hspec, -⟩ := certify_spec blake3 preStates snapshotSource hsingle hok
  rcases hspec address with ⟨hnone, hnot⟩ | ⟨c, hsome, hwritten, -⟩
  · simp [hnone, hnot]
  · simp [hsome, hwritten]

/-- What a certificate of a reduced stream holds. -/
lemma certifiedAs_of_getElem? {bucket : ReducedTransactionBucket}
    (hreduce : reduceStream events = .ok [bucket]) (hreduced : Reduced (payloads events) bucket)
    (hok : (certify blake3 preStates snapshotSource events).result = some (.ok certs))
    {address : Address} {c : CanonicalAccountCertificate} (hc : certs[address]? = some c) :
    CertifiedAs blake3 snapshotSource (Lifecycle.processBucket preStates bucket).value.generations
      (payloads events) (slotsOf bucket.stateTable address) address c := by
  obtain ⟨hspec, -⟩ :=
    certify_spec_of_reduceStream blake3 preStates snapshotSource hreduce hreduced hok
  rcases hspec address with ⟨hnone, -⟩ | ⟨d, hd, -, hcert⟩
  · simp [hnone] at hc
  · rwa [Option.some.inj (hd.symm.trans hc)] at hcert

/-- Two certificates of one account are equal. -/
lemma SamePersistent.certificate_eq (h : SamePersistent events events')
    (hsingle : SingleTransaction events) (hsingle' : SingleTransaction events')
    (hok : (certify blake3 preStates snapshotSource events).result = some (.ok certs))
    (hok' : (certify blake3 preStates snapshotSource events').result = some (.ok certs'))
    {address : Address} {c c' : CanonicalAccountCertificate} (hc : certs[address]? = some c)
    (hc' : certs'[address]? = some c') : c = c' := by
  rcases reduceStream_cases hsingle with ⟨bucket, hreduce, hreduced⟩ | ⟨e, he, -⟩
  · rcases reduceStream_cases hsingle' with ⟨bucket', hreduce', hreduced'⟩ | ⟨e, he, -⟩
    · have hcert := certifiedAs_of_getElem? hreduce hreduced hok hc
      have hcert' := certifiedAs_of_getElem? hreduce' hreduced' hok' hc'
      have hpass : Lifecycle.processBucket preStates bucket =
          Lifecycle.processBucket preStates bucket' := by
        rw [Lifecycle.processBucket, Lifecycle.processBucket,
          h.lifecycleTable_eq hsingle hsingle' hreduce hreduce']
      have hestablished : ∀ k : CanonicalKey, k.isPersistent = true →
          established? (payloads events) k = established? (payloads events') k := by
        intro k hk
        rw [established?, established?, h.historyAt_eq hk]
      have hslots : slotsOf bucket.stateTable address = slotsOf bucket'.stateTable address := by
        refine Std.ExtTreeMap.ext_getElem? fun slot => ?_
        rw [getElem?_slotsOf, getElem?_slotsOf,
          hreduced.states.terminal?_eq, hreduced'.states.terminal?_eq, hestablished _ rfl]
      refine certificate_ext (hcert.address_eq.trans hcert'.address_eq.symm) ?_
        (fun k hk hka => ?_) ?_
      · exact Except.ok.inj (hcert.generation.symm.trans (hpass ▸ hcert'.generation))
      · have haddress := hka.trans hcert.address_eq
        rw [hcert.field k hk haddress, hcert'.field k hk haddress, effectiveAfter?,
          effectiveAfter?, hestablished k (CanonicalKey.isPersistent_of_isField hk)]
      · rw [hcert.storageRoot, hcert'.storageRoot, hslots]
    · simp [certify, he, Logged.pure_eq] at hok'
  · simp [certify, he, Logged.pure_eq] at hok

end

/-- **Transient isolation.**  Take two accepted streams that differ only in their writes to
transient storage.  An account that has a certificate in both has the same one, and every account
with a field or a slot written has one in both.  The certificates are equal exactly if the
streams touch the same accounts through state keys, and then the commitments are too. -/
theorem transient_isolation (blake3 : Blake3) (preStates : OrdMap.Map Address Bool)
    (snapshotSource : AccountSnapshotSource) {events events' : List CanonicalSemanticEvent}
    {certs certs' : OrdMap.Map Address CanonicalAccountCertificate}
    (hsingle : SingleTransaction events) (hsingle' : SingleTransaction events')
    (hsame : SamePersistent events events')
    (hok : (certify blake3 preStates snapshotSource events).result = some (.ok certs))
    (hok' : (certify blake3 preStates snapshotSource events').result = some (.ok certs')) :
    (∀ (address : Address) (c c' : CanonicalAccountCertificate),
        certs[address]? = some c → certs'[address]? = some c' → c = c') ∧
      (∀ address : Address, WrittenPersistently address (payloads events) →
        certs[address]?.isSome ∧ certs'[address]?.isSome) ∧
      (certs = certs' ↔
        ∀ address, Written address (payloads events) ↔ Written address (payloads events')) ∧
      (certs = certs' → (commit blake3 preStates snapshotSource events).result =
        (commit blake3 preStates snapshotSource events').result) := by
  have hcertified := isSome_certificate_iff hsingle hok
  have hcertified' := isSome_certificate_iff hsingle' hok'
  have heq : ∀ (address : Address) (c c' : CanonicalAccountCertificate),
      certs[address]? = some c → certs'[address]? = some c' → c = c' :=
    fun address c c' => hsame.certificate_eq hsingle hsingle' hok hok'
  refine ⟨heq, fun address hwritten => ⟨?_, ?_⟩, ⟨?_, fun hwritten => ?_⟩, ?_⟩
  · exact (hcertified address).mpr hwritten.written
  · exact (hcertified' address).mpr (hsame.writtenPersistently hwritten).written
  · rintro rfl address
    rw [← hcertified, hcertified']
  · refine Std.ExtTreeMap.ext_getElem? fun address => ?_
    have hiff := (hcertified address).trans ((hwritten address).trans (hcertified' address).symm)
    cases hc : certs[address]? with
    | none =>
      rw [hc] at hiff
      exact (Option.not_isSome_iff_eq_none.mp fun hsome => by simpa using hiff.mpr hsome).symm
    | some c =>
      rw [hc] at hiff
      obtain ⟨c', hc'⟩ := Option.isSome_iff_exists.mp (hiff.mp rfl)
      rw [hc', heq address c c' hc hc']
  · rintro rfl
    rw [commit, commit, Logged.result_bind_of_result hok, Logged.result_bind_of_result hok']

/-- An account is paid. -/
def paid : List CanonicalSemanticEvent :=
  plainEvents (bracketed [.balanceChanged ⟨Bytes.last 19 1, Bytes.zero 32, Bytes.last 31 1⟩])

/-- The account is paid, and uses its transient storage. -/
def paidTransiently : List CanonicalSemanticEvent :=
  plainEvents (bracketed [
    .transientStorageUpdated ⟨Bytes.last 19 1, Bytes.zero 32, Bytes.zero 32, Bytes.last 31 7⟩,
    .balanceChanged ⟨Bytes.last 19 1, Bytes.zero 32, Bytes.last 31 1⟩])

/-- The account is paid, and another one uses its transient storage. -/
def paidElsewhere : List CanonicalSemanticEvent :=
  plainEvents (bracketed [
    .balanceChanged ⟨Bytes.last 19 1, Bytes.zero 32, Bytes.last 31 1⟩,
    .transientStorageUpdated ⟨Bytes.last 19 2, Bytes.zero 32, Bytes.zero 32, Bytes.last 31 7⟩])

theorem paidTransiently_certs_eq :
    SamePersistent paid paidTransiently ∧ ∃ certs certs',
      (certify certificateBlake3 ∅ (snapshotsOf emptyAccounts) paid).result = some (.ok certs) ∧
      (certify certificateBlake3 ∅ (snapshotsOf emptyAccounts) paidTransiently).result =
        some (.ok certs') ∧
      certs = certs' ∧
      (commit certificateBlake3 ∅ (snapshotsOf emptyAccounts) paid).result =
        (commit certificateBlake3 ∅ (snapshotsOf emptyAccounts) paidTransiently).result := by
  obtain ⟨certs, hok⟩ : ∃ certs, (certify certificateBlake3 ∅ (snapshotsOf emptyAccounts)
      paid).result = some (.ok certs) := ⟨_, rfl⟩
  obtain ⟨certs', hok'⟩ : ∃ certs, (certify certificateBlake3 ∅ (snapshotsOf emptyAccounts)
      paidTransiently).result = some (.ok certs) := ⟨_, rfl⟩
  have hsingle : SingleTransaction paid := singleTransaction_plainEvents (by decide)
  have hsingle' : SingleTransaction paidTransiently := singleTransaction_plainEvents (by decide)
  have hsame : SamePersistent paid paidTransiently := rfl
  obtain ⟨-, -, hiff, hcommit⟩ := transient_isolation certificateBlake3 ∅
    (snapshotsOf emptyAccounts) hsingle hsingle' hsame hok hok'
  have hcerts : certs = certs' := hiff.mpr fun address => by
    simp [Written, writesOf, Journal.writes, paid, paidTransiently, payloads_plainEvents,
      bracketed, transition?, CanonicalKey.address]
  exact ⟨hsame, certs, certs', hok, hok', hcerts, hcommit hcerts⟩

/-- The other account has a certificate for its transient storage alone. -/
theorem paidElsewhere_certified :
    SingleTransaction paid ∧ SingleTransaction paidElsewhere ∧ SamePersistent paid paidElsewhere ∧
      ∃ certs certs',
        (∀ blake3 : Blake3, (certify blake3 ∅ (snapshotsOf emptyAccounts) paid).result =
            some (.ok certs)) ∧
          (∀ blake3 : Blake3, (certify blake3 ∅ (snapshotsOf emptyAccounts) paidElsewhere).result =
            some (.ok certs')) ∧
          certs ≠ certs' := by
  refine ⟨singleTransaction_plainEvents (by decide), singleTransaction_plainEvents (by decide),
    rfl, _, _, fun _ => rfl, fun _ => rfl, fun heq => ?_⟩
  have hlookup := congrArg (fun certs : OrdMap.Map Address CanonicalAccountCertificate =>
    certs[(Bytes.last 19 2 : Address)]?.isSome) heq
  exact absurd hlookup (by decide)

end KaySentinel.Pipeline
