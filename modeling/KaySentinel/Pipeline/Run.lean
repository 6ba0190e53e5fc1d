import KaySentinel.Ssz.Certificate

/-!
# From a stream to a commitment

`certify` composes the stages of the builder on a stream of one transaction, and `commit`
hashes the certificates it returns.  `certify_spec` describes the certificates as a
function of the payloads of the stream.
-/

namespace KaySentinel.Pipeline

open Cse Builder Ssz

inductive PipelineError where
  | builder (error : BuilderError)
  | generation (error : GenerationResolutionError)
  | derivation (error : DerivationError Empty)
  | ssz (error : SszError)
deriving DecidableEq

/-- `partition::process`, then `reduce::process`. -/
def reduceStream (events : List CanonicalSemanticEvent) : Except BuilderError ReducedIr := do
  let rawIr ← Partition.process events
  Reduce.process rawIr

variable (blake3 : Blake3) (preStates : OrdMap.Map Address Bool)
  (snapshotSource : AccountSnapshotSource)

/-- `build_canonical_certificates`, then `resolve_storage_roots`. -/
def certifyBucket (bucket : ReducedTransactionBucket) (generations : List CanonicalGeneration) :
    Hashing (Except PipelineError (OrdMap.Map Address CanonicalAccountCertificate)) :=
  match buildCanonicalCertificates bucket.stateTable generations snapshotSource with
  | .error e => pure (.error (.generation e))
  | .ok certs => do
      match ← resolveStorageRoots certs bucket.stateTable (simpleStorageRootDeriver blake3) with
      | (_, .error e) => pure (.error (.derivation e))
      | (certs, .ok ()) => pure (.ok certs)

/-- The certificates of the first transaction of a stream. -/
def certify (events : List CanonicalSemanticEvent) :
    Hashing (Except PipelineError (OrdMap.Map Address CanonicalAccountCertificate)) :=
  match reduceStream events with
  | .error e => pure (.error (.builder e))
  | .ok reduced =>
      match reduced, Lifecycle.process reduced preStates with
      | bucket :: _, pass :: _ =>
          certifyBucket blake3 snapshotSource bucket pass.value.generations
      -- `reduced.0[0]` is out of bounds
      | _, _ => .abort

/-- The root of the certificates of a stream. -/
def commit (events : List CanonicalSemanticEvent) : Hashing (Except PipelineError Word) := do
  match ← certify blake3 preStates snapshotSource events with
  | .error e => pure (.error e)
  | .ok certs =>
      match ← commitCertificateBatch blake3 certs with
      | .error e => pure (.error (.ssz e))
      | .ok root => pure (.ok root)

/-! ## Reduction of a single transaction -/

/-- The boundary markers are no writes. -/
lemma historyAt_bracketed (k : CanonicalKey) (ps : List CsePayload) :
    historyAt k (bracketed ps) = historyAt k ps := by
  rw [bracketed, ← List.singleton_append, historyAt_append, historyAt_append]
  exact List.append_nil _

lemma gasRefunds_bracketed (ps : List CsePayload) : gasRefunds (bracketed ps) = gasRefunds ps := by
  rw [gasRefunds, bracketed, List.filterMap_cons_none rfl, List.filterMap_append]
  exact List.append_nil _

lemma lifecyclesAt_bracketed (address : Address) (ps : List CsePayload) :
    lifecyclesAt address (bracketed ps) = lifecyclesAt address ps := by
  simp [bracketed, lifecyclesAt, lifecycle?]

/-- What the reduced bucket of a transaction holds, as a function of its payloads. -/
structure Reduced (ps : List CsePayload) (bucket : ReducedTransactionBucket) : Prop where
  continuous : Continuous ps
  states : Tabulates ps bucket.stateTable
  lifecycles : ∀ address, ∃ observations : List ObservedLifecycle,
    observations.map (·.payload) = lifecyclesAt address ps ∧
      bucket.lifecycleTable[address]? = if observations = [] then none else some observations

lemma Reduced.bracketed {ps : List CsePayload} {bucket : ReducedTransactionBucket}
    (h : Reduced ps bucket) : Reduced (bracketed ps) bucket where
  continuous := by
    refine ⟨fun k => ?_, ?_⟩
    · rw [historyAt_bracketed]
      exact h.continuous.states k
    · rw [gasRefunds_bracketed]
      exact h.continuous.gasRefunds
  states k := by
    rw [historyAt_bracketed]
    exact h.states k
  lifecycles address := by
    rw [lifecyclesAt_bracketed]
    exact h.lifecycles address

/-- A single transaction reduces to one bucket exactly if it is continuous. -/
theorem reduceStream_cases {events : List CanonicalSemanticEvent}
    (h : SingleTransaction events) :
    (∃ bucket, reduceStream events = .ok [bucket] ∧ Reduced (payloads events) bucket) ∨
      (∃ e, reduceStream events = .error e ∧ ¬ Continuous (payloads events)) := by
  obtain ⟨begin, body, fin, rfl, hbegin, hfin, hbody⟩ := h
  have hpayloads : payloads (begin :: (body ++ [fin])) = bracketed (payloads body) := by
    simp [payloads, bracketed, hbegin, hfin]
  have hboundary : ∀ p ∈ payloads body, p.isBoundary = false := by
    intro p hp
    obtain ⟨e, he, rfl⟩ := List.mem_map.mp hp
    exact hbody e he
  rw [hpayloads]
  rcases Reduce.process_bracketed_cases hpayloads hboundary with
    ⟨ctx, body', bucket, hps, hraw, hreduce, hcont, htab, hlife⟩ |
      ⟨rawIr, previous, current, hraw, he, hcont⟩
  · refine .inl ⟨bucket, ?_, Reduced.bracketed ⟨hcont, htab, fun address => ?_⟩⟩
    · simp only [reduceStream, hraw, bind, Except.bind, hreduce]
    · rw [hlife, ← hps]
      exact getElem?_lifecycleTable ctx body' address
  · have hfail : reduceStream (begin :: (body ++ [fin])) =
        .error (.timelineFailure (.discontinuousLineage previous current)) := by
      simp only [reduceStream, hraw, bind, Except.bind, he]
    refine .inr ⟨_, hfail, fun hc => hcont ⟨fun k => ?_, ?_⟩⟩
    · rw [← historyAt_bracketed]
      exact hc.states k
    · rw [← gasRefunds_bracketed]
      exact hc.gasRefunds

lemma certify_of_reduceStream {events : List CanonicalSemanticEvent}
    {bucket : ReducedTransactionBucket} (h : reduceStream events = .ok [bucket]) :
    certify blake3 preStates snapshotSource events =
      certifyBucket blake3 snapshotSource bucket
        (Lifecycle.processBucket preStates bucket).value.generations := by
  rw [certify, h]
  rfl

/-- Storage roots never fail. -/
lemma certifyBucket_eq (bucket : ReducedTransactionBucket)
    (generations : List CanonicalGeneration) :
    certifyBucket blake3 snapshotSource bucket generations =
      match buildCanonicalCertificates bucket.stateTable generations snapshotSource with
      | .error e => ⟨some (.error (.generation e)), []⟩
      | .ok certs =>
          ⟨some (.ok (certs.map fun address c =>
              c.withRoot (slotRoot blake3 (slotsOf bucket.stateTable address)))),
            certs.keys.flatMap fun address =>
              slotInputs blake3 (slotsOf bucket.stateTable address)⟩ := by
  rw [certifyBucket]
  cases buildCanonicalCertificates bucket.stateTable generations snapshotSource with
  | error e => rfl
  | ok certs =>
    simp only
    rw [Logged.bind_eq (resolveStorageRoots_eq blake3 certs bucket.stateTable)]
    simp [Logged.pure_eq]

/-! ## The certificates of a stream -/

/-- The payloads touch the account through a state key. -/
def Written (address : Address) (ps : List CsePayload) : Prop :=
  ∃ w ∈ writesOf ps, w.key.address = address

lemma written_iff {address : Address} {ps : List CsePayload} :
    Written address ps ↔ ∃ k : CanonicalKey, historyAt k ps ≠ [] ∧ k.address = address := by
  simp only [historyAt, Journal.history_ne_nil_iff]
  constructor
  · rintro ⟨w, hw, rfl⟩
    exact ⟨w.key, ⟨w, hw, rfl⟩, rfl⟩
  · rintro ⟨k, ⟨w, hw, rfl⟩, haddress⟩
    exact ⟨w, hw, haddress⟩

lemma hasEntry_iff_written {ps : List CsePayload}
    {table : OrdMap.Map CanonicalKey ReducedVariant} (h : Tabulates ps table) (address : Address) :
    HasEntry table address ↔ Written address ps := by
  rw [written_iff]
  constructor
  · rintro ⟨k, variant, hk, rfl⟩
    refine ⟨k, fun hnil => ?_, rfl⟩
    rcases h k with ⟨-, hnone⟩ | ⟨v, a, rest, t, hcons, -, -, -⟩
    · rw [hnone] at hk
      exact absurd hk (by simp)
    · rw [hnil] at hcons
      exact absurd hcons (by simp)
  · rintro ⟨k, hne, rfl⟩
    rcases h k with ⟨hnil, -⟩ | ⟨v, a, rest, t, -, hsome, -, -⟩
    · exact absurd hnil hne
    · exact ⟨k, _, hsome, rfl⟩

/-- The effective value of a field after the payloads: the last one written, else the
snapshot's. -/
def effectiveAfter? (ps : List CsePayload) (k : CanonicalKey) : Option k.Value :=
  match established? ps k with
  | some value => some value
  | none => (snapshotSource.recoverAccountSnapshot k.address).toOption.bind (·.at? k)

lemma effective?_eq {ps : List CsePayload} {table : OrdMap.Map CanonicalKey ReducedVariant}
    (h : Tabulates ps table) (k : CanonicalKey) :
    effective? snapshotSource table k = effectiveAfter? snapshotSource ps k := by
  cases hvalue : established? ps k with
  | some value => simp only [effective?, effectiveAfter?, h.terminal?_eq, hvalue]
  | none => simp only [effective?, effectiveAfter?, h.terminal?_eq, hvalue]

/-- The certificate of an account after the payloads `ps`, whose slots are `slots`. -/
structure CertifiedAs (generations : List CanonicalGeneration) (ps : List CsePayload)
    (slots : OrdMap.Map Word Word) (address : Address) (c : CanonicalAccountCertificate) :
    Prop where
  address_eq : c.address = address
  generation : resolveOrElse generations snapshotSource address = .ok c.generation
  field : ∀ k : CanonicalKey, k.isField = true → k.address = address →
    c.at? k = effectiveAfter? snapshotSource ps k
  storageRoot : c.storageRoot = .verified (slotRoot blake3 slots)

/-- The certificates of a reduced bucket, as a function of the payloads. -/
lemma certify_spec_of_reduceStream {events : List CanonicalSemanticEvent}
    {bucket : ReducedTransactionBucket} (hreduce : reduceStream events = .ok [bucket])
    (hreduced : Reduced (payloads events) bucket)
    {certs : OrdMap.Map Address CanonicalAccountCertificate}
    (hok : (certify blake3 preStates snapshotSource events).result = some (.ok certs)) :
    (∀ address, (certs[address]? = none ∧ ¬ Written address (payloads events)) ∨
        ∃ c, certs[address]? = some c ∧ Written address (payloads events) ∧
          CertifiedAs blake3 snapshotSource
            (Lifecycle.processBucket preStates bucket).value.generations (payloads events)
            (slotsOf bucket.stateTable address) address c) ∧
      (certify blake3 preStates snapshotSource events).log =
        certs.keys.flatMap fun address =>
          slotInputs blake3 (slotsOf bucket.stateTable address) := by
  rw [certify_of_reduceStream blake3 preStates snapshotSource hreduce, certifyBucket_eq] at hok ⊢
  cases hbuild : buildCanonicalCertificates bucket.stateTable
      (Lifecycle.processBucket preStates bucket).value.generations snapshotSource with
  | error e => simp [hbuild] at hok
  | ok unresolved =>
    simp only [hbuild, Option.some.injEq, Except.ok.injEq] at hok
    subst hok
    refine ⟨fun address => ?_, ?_⟩
    · rw [← hasEntry_iff_written hreduced.states]
      rcases getElem?_buildCanonicalCertificates hreduced.states.typed hbuild address with
        ⟨hnone, hnot⟩ | ⟨c, hsome, hentry, haddress, hgeneration, -, hfields⟩
      · exact .inl ⟨by rw [Std.ExtTreeMap.getElem?_map, hnone]; rfl, hnot⟩
      · refine .inr ⟨c.withRoot (slotRoot blake3 (slotsOf bucket.stateTable address)),
          by rw [Std.ExtTreeMap.getElem?_map, hsome]; rfl, hentry, haddress, hgeneration,
          fun k hk hka => ?_, rfl⟩
        rw [← effective?_eq snapshotSource hreduced.states, ← hfields k hk hka]
        cases k <;> rfl
    · simp

/-- **The certificates of a stream.**  Exactly the accounts that it touches through a state
key have one, with the effective value of every field and the root of the written slots; the
inputs hashed are those of the slots. -/
theorem certify_spec {events : List CanonicalSemanticEvent} (hsingle : SingleTransaction events)
    {certs : OrdMap.Map Address CanonicalAccountCertificate}
    (hok : (certify blake3 preStates snapshotSource events).result = some (.ok certs)) :
    ∃ bucket, Reduced (payloads events) bucket ∧
      (∀ address, (certs[address]? = none ∧ ¬ Written address (payloads events)) ∨
        ∃ c, certs[address]? = some c ∧ Written address (payloads events) ∧
          CertifiedAs blake3 snapshotSource
            (Lifecycle.processBucket preStates bucket).value.generations (payloads events)
            (slotsOf bucket.stateTable address) address c) ∧
      (certify blake3 preStates snapshotSource events).log =
        certs.keys.flatMap fun address =>
          slotInputs blake3 (slotsOf bucket.stateTable address) := by
  rcases reduceStream_cases hsingle with ⟨bucket, hreduce, hreduced⟩ | ⟨e, he, -⟩
  · exact ⟨bucket, hreduced,
      certify_spec_of_reduceStream blake3 preStates snapshotSource hreduce hreduced hok⟩
  · simp [certify, he, Logged.pure_eq] at hok

/-- What a commitment hashes: the slots of the certificates, then the certificates. -/
lemma commit_spec {events : List CanonicalSemanticEvent} {root : Word}
    (hok : (commit blake3 preStates snapshotSource events).result = some (.ok root)) :
    ∃ certs chunks, (certify blake3 preStates snapshotSource events).result = some (.ok certs) ∧
      flatChunks (OrdMap.values certs) = .ok chunks ∧
      root = foldRoot blake3 .ssrRoot chunks ∧
      (commit blake3 preStates snapshotSource events).log =
        (certify blake3 preStates snapshotSource events).log ++
          (foldQueries blake3 .ssrRoot chunks).map (pairInput .ssrRoot) := by
  obtain ⟨certified, hcertify, hrest⟩ := Logged.result_bind_eq_some.mp hok
  cases certified with
  | error e => simp [Logged.pure_eq] at hrest
  | ok certs =>
    cases hchunks : flatChunks (OrdMap.values certs) with
    | error e =>
      simp only [commitCertificateBatch, hchunks] at hrest
      rw [Logged.bind_eq (Logged.pure_eq _)] at hrest
      simp [Logged.pure_eq] at hrest
    | ok chunks =>
      have hcommit := commitCertificateBatch_eq blake3 hchunks
      simp only at hrest
      rw [Logged.bind_eq hcommit] at hrest
      refine ⟨certs, chunks, hcertify, hchunks, ?_, ?_⟩
      · exact (Except.ok.inj (Option.some.inj hrest)).symm
      · rw [commit, Logged.log_bind_of_result hcertify]
        simp only
        rw [Logged.bind_eq hcommit]
        simp [Logged.pure_eq]

/-! ## Streams that start from a pre-state -/

/-- The writes of the payloads to persistent state. -/
def persistentWrites (ps : List CsePayload) : List (Journal.Write CanonicalKey.Value) :=
  (writesOf ps).filter (·.key.isPersistent)

/-- From the values `pre`, every write to persistent state meets the previous value that it
expects, and the last ones leave the values `post`. -/
def LeadsTo (pre : Journal.Store CanonicalKey.Value) (ps : List CsePayload)
    (post : Journal.Store CanonicalKey.Value) : Prop :=
  Journal.replay pre (persistentWrites ps) = some post

/-- The snapshots are those of the values `pre`. -/
def Recovers (snapshotSource : AccountSnapshotSource) (pre : Journal.Store CanonicalKey.Value) :
    Prop :=
  ∀ address, snapshotSource.recoverAccountSnapshot address =
    .ok { nonce := pre (.nonce address), balance := pre (.balance address)
          codeHash := pre (.code address) }

/-- The snapshot source of the values `pre`, for accounts that are in their first
generation. -/
def snapshotsOf (pre : Journal.Store CanonicalKey.Value) : AccountSnapshotSource where
  resolveIdentityGeneration address :=
    .ok { key := { address := address, generationId := 0 }, stateTableProofRoot := Bytes.zero 32 }
  recoverAccountSnapshot address :=
    .ok { nonce := pre (.nonce address), balance := pre (.balance address)
          codeHash := pre (.code address) }

lemma recovers_snapshotsOf (pre : Journal.Store CanonicalKey.Value) :
    Recovers (snapshotsOf pre) pre := fun _ => rfl

/-- Every field and every slot is zero. -/
def emptyAccounts : Journal.Store CanonicalKey.Value := CanonicalKey.zeroValue

lemma history_persistentWrites {k : CanonicalKey} (hk : k.isPersistent = true)
    (ps : List CsePayload) : Journal.history k (persistentWrites ps) = historyAt k ps := by
  rw [persistentWrites, historyAt, Journal.history, Journal.history, List.filterMap_filter]
  refine List.filterMap_congr fun w _ => ?_
  by_cases hw : w.key = k
  · subst hw
    rw [hk]
    rfl
  · rw [Journal.Write.at?_of_ne hw]
    split <;> rfl

lemma LeadsTo.chain {pre post : Journal.Store CanonicalKey.Value} {ps : List CsePayload}
    (h : LeadsTo pre ps post) {k : CanonicalKey} (hk : k.isPersistent = true) :
    Journal.chain (pre k) (historyAt k ps) = some (post k) := by
  rw [← history_persistentWrites hk]
  exact Journal.replay_eq_some_iff.mp h k

/-- A field of an account has the value that the payloads leave there, written or not. -/
lemma LeadsTo.effectiveAfter? {pre post : Journal.Store CanonicalKey.Value} {ps : List CsePayload}
    {snapshotSource : AccountSnapshotSource} (h : LeadsTo pre ps post)
    (hsource : Recovers snapshotSource pre) {k : CanonicalKey} (hk : k.isField = true) :
    effectiveAfter? snapshotSource ps k = some (post k) := by
  have hpost := Journal.eq_terminal_of_chain (h.chain (CanonicalKey.isPersistent_of_isField hk))
  rw [Journal.terminal, ← established?] at hpost
  rw [Pipeline.effectiveAfter?, hpost]
  cases established? ps k with
  | some value => rfl
  | none =>
    rw [hsource k.address]
    cases k with
    | balance address | nonce address | code address => rfl
    | storage address slot | transient address slot => simp [CanonicalKey.isField] at hk

end KaySentinel.Pipeline
