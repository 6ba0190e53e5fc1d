import KaySentinel.Builder.Issuance
import KaySentinel.Pipeline.Recording
import KaySentinel.Verify.Soundness

/-!
# From the hooks to the certificates

The certificates of a run of a ledger, issued with snapshots of the ledger before each
transaction.  `ledger_certified` says that they are never refused and hold the ledger after the
transaction; `ledger_verified` that Gate 2 accepts those of a transaction that meets only accounts
that were empty.
-/

namespace KaySentinel

open Bridge Builder Cse Emes Journal NestedLog Pipeline

/-- The account holds nothing. -/
structure Ledger.EmptyAt (l : Ledger) (address : Address) : Prop where
  balance : l.balance address = 0
  nonce : l.nonce address = 0
  codeHash : l.codeHash address = Bytes.zero 32
  storage : ∀ slot, l.storage address slot = Bytes.zero 32

lemma bigEndian_zero : Bytes.bigEndian 32 0 = Bytes.zero 32 := by decide

lemma Ledger.EmptyAt.store_eq_zeroValue {l : Ledger} {k : CanonicalKey}
    (h : l.EmptyAt k.address) : l.store k = k.zeroValue := by
  cases k with
  | balance address =>
    have hbalance : l.balance address = 0 := h.balance
    rw [store, hbalance]
    exact bigEndian_zero
  | nonce address => exact h.nonce
  | code address => exact h.codeHash
  | storage address slot => exact h.storage slot
  | transient address slot => rfl

namespace Pipeline

/-! ## The accounts of a trace -/

lemma Written.mono {address : Address} {ps ps' : List CsePayload} (h : Written address ps)
    (hsub : ps ⊆ ps') : Written address ps' := by
  obtain ⟨w, hw, haddress⟩ := h
  obtain ⟨p, hp, hpw⟩ := List.mem_filterMap.mp hw
  exact ⟨w, List.mem_filterMap.mpr ⟨p, hsub hp, hpw⟩, haddress⟩

/-- A hook destroys only the account that waits. -/
lemma waits_of_destroyed {hook : MutationHook} {pending : Option Address}
    {p : ContractDestroyed}
    (hp : .contractDestroyed p ∈ (hook.changes pending).map Change.payload) :
    pending = some p.address := by
  obtain ⟨change, hchange, heq⟩ := List.mem_map.mp hp
  cases hook with
  | onBalanceChange addr prev new reason =>
    rcases List.mem_cons.mp hchange with rfl | hchange
    · cases heq
    · split_ifs at hchange
      · obtain ⟨address, haddress, rfl⟩ := List.mem_map.mp hchange
        obtain rfl := CsePayload.contractDestroyed.inj heq
        exact Option.mem_toList.mp haddress
      · exact absurd hchange (by simp)
  | _ =>
    obtain rfl := List.mem_singleton.mp hchange
    cases heq

/-- An account is destroyed where its code was changed, in the same frame, so that both are kept
or neither is. -/
lemma written_of_destroyed {hooks : HookForest} {pending : Option Address}
    {p : ContractDestroyed} (hp : .contractDestroyed p ∈ hooks.keptPayloads pending) :
    pending = some p.address ∨ Written p.address (hooks.keptPayloads pending) := by
  induction hooks generalizing pending with
  | nil => exact absurd hp (by simp [HookForest.keptPayloads])
  | leaf hook rest ih =>
    rcases List.mem_append.mp hp with hp | hp
    · exact .inl (waits_of_destroyed hp)
    · rcases ih hp with hwaits | hwritten
      · -- either it waited before, or the hook makes it wait
        cases hook with
        | onBalanceChange addr prev new reason =>
          cases reason with
          | balanceIncreaseSelfdestruct => cases hwaits
          | other => exact .inl hwaits
        | onCodeChangeV2 addr prevCodeHash codeHash reason =>
          cases reason with
          | codeChangeSelfDestruct =>
            exact .inr ⟨_, List.mem_cons_self .., Option.some.inj hwaits⟩
          | other => exact .inl hwaits
        | _ => exact .inl hwaits
      · exact .inr (hwritten.mono (List.subset_append_right _ _))
  | node frame inner rest ihinner ihrest =>
    rcases List.mem_append.mp hp with hp | hp
    · split_ifs at hp with hrev
      · exact absurd hp (by simp)
      · rcases ihinner hp with hwaits | hwritten
        · cases hwaits
        · refine .inr (hwritten.mono ?_)
          rw [HookForest.keptPayloads, if_neg hrev]
          exact List.subset_append_left _ _
    · refine (ihrest hp).imp_right fun hwritten => hwritten.mono ?_
      exact List.subset_append_right _ _

/-- In a trace, the accounts that are touched are those that are written. -/
lemma touched_iff_written (hooks : HookForest) (address : Address) :
    Verify.Touched address (hooks.keptPayloads none) ↔
      Written address (hooks.keptPayloads none) := by
  constructor
  · rintro ⟨p, hp, htouched⟩
    obtain ⟨change, rfl⟩ := HookForest.exists_change hp
    cases change with
    | selfDestruct destructed beneficiary =>
      obtain rfl := Option.some.inj htouched
      exact (written_of_destroyed hp).resolve_left (by simp)
    | _ => exact ⟨_, List.mem_filterMap.mpr ⟨_, hp, rfl⟩, Option.some.inj htouched⟩
  · rintro ⟨w, hw, rfl⟩
    obtain ⟨p, hp, hpw⟩ := List.mem_filterMap.mp hw
    obtain ⟨change, rfl⟩ := HookForest.exists_change hp
    cases change with
    | selfDestruct destructed beneficiary => cases hpw
    | _ =>
      obtain rfl := Option.some.inj hpw
      exact ⟨_, hp, rfl⟩

/-! ## The certificates of a transaction -/

section

variable (blake3 : Blake3) {ps : List CsePayload} {bucket : ReducedTransactionBucket}
  {pre post : KeyStore}

/-- With snapshots of the values before, the field of an account has the value after. -/
lemma effectiveAfter?_of_replay (hreplay : replay pre (writesOf ps) = some post)
    {k : CanonicalKey} (hk : k.isField = true) :
    effectiveAfter? (snapshotsOf pre) ps k = some (post k) := by
  have hpost := eq_terminal_of_chain (replay_eq_some_iff.mp hreplay k)
  rw [terminal, ← historyAt, ← established?] at hpost
  rw [effectiveAfter?, hpost]
  cases established? ps k with
  | some value => rfl
  | none =>
    cases k with
    | balance address | nonce address | code address => rfl
    | storage address slot | transient address slot => simp [CanonicalKey.isField] at hk

/-- The certificate of an account that was written. -/
structure HoldsAfter (post : KeyStore) (bucket : ReducedTransactionBucket) (address : Address)
    (c : CanonicalAccountCertificate) : Prop where
  address_eq : c.address = address
  field : ∀ k : CanonicalKey, k.isField = true → k.address = address → c.at? k = some (post k)
  storageRoot : c.storageRoot = .verified (slotRoot blake3 (slotsOf bucket.stateTable address))

/-- With snapshots of the values before, certificates are never refused. -/
lemma certifyBucket_spec (hreduced : Reduced ps bucket)
    (hreplay : replay pre (writesOf ps) = some post) (generations : List CanonicalGeneration) :
    ∃ certs, (certifyBucket blake3 (snapshotsOf pre) bucket generations).result =
        some (.ok certs) ∧
      ∀ address : Address, (certs[address]? = none ∧ ¬ Written address ps) ∨
        ∃ c, certs[address]? = some c ∧ Written address ps ∧
          HoldsAfter blake3 post bucket address c := by
  obtain ⟨unresolved, hbuild⟩ : ∃ unresolved, buildCanonicalCertificates bucket.stateTable
      generations (snapshotsOf pre) = .ok unresolved := by
    refine exists_certificates_iff.mpr fun address _ => ⟨?_, .inr ⟨_, rfl⟩⟩
    rw [resolveOrElse]
    cases resolveGenerationForAddress generations address with
    | ok generation => exact ⟨generation, rfl⟩
    | error e => exact ⟨_, rfl⟩
  rw [certifyBucket_eq, hbuild]
  refine ⟨_, rfl, fun address => ?_⟩
  rw [← hasEntry_iff_written hreduced.states, Std.ExtTreeMap.getElem?_map]
  rcases getElem?_buildCanonicalCertificates hreduced.states.typed hbuild address with
    ⟨hnone, hnot⟩ | ⟨c, hsome, hentry, haddress, -, -, hfields⟩
  · exact .inl ⟨by rw [hnone]; rfl, hnot⟩
  · refine .inr ⟨c.withRoot (slotRoot blake3 (slotsOf bucket.stateTable address)),
      by rw [hsome]; rfl, hentry, haddress, fun k hk hka => ?_, rfl⟩
    rw [← effectiveAfter?_of_replay hreplay hk, ← effective?_eq (snapshotsOf pre) hreduced.states,
      ← hfields k hk hka]
    cases k <;> rfl

/-- The slots of the table are those written, with the values after. -/
lemma getElem?_slotsOf_eq_some_iff (hreduced : Reduced ps bucket)
    (hreplay : replay pre (writesOf ps) = some post) {address : Address} {slot value : Word} :
    (slotsOf bucket.stateTable address)[slot]? = some value ↔
      (∃ w ∈ writesOf ps, w.key = .storage address slot) ∧
        value = post (.storage address slot) := by
  have hpost := eq_terminal_of_chain (replay_eq_some_iff.mp hreplay (.storage address slot))
  rw [terminal, ← historyAt, ← established?] at hpost
  rw [getElem?_slotsOf, hreduced.states.terminal?_eq, ← history_ne_nil_iff, ← historyAt, ne_eq,
    ← established?_eq_none_iff]
  cases hvalue : established? ps (.storage address slot) with
  | some v =>
    rw [hvalue] at hpost
    rw [hpost]
    simp [eq_comm]
  | none => simp

/-- A key without writes keeps its value. -/
lemma eq_of_forall_ne (hreplay : replay pre (writesOf ps) = some post) {k : CanonicalKey}
    (h : ∀ w ∈ writesOf ps, w.key ≠ k) : post k = pre k := by
  have hnil : historyAt k ps = [] := by
    by_contra hne
    obtain ⟨w, hw, hk⟩ := history_ne_nil_iff.mp hne
    exact h w hw hk
  have hpost := eq_terminal_of_chain (replay_eq_some_iff.mp hreplay k)
  rw [← historyAt, hnil] at hpost
  exact hpost

end

/-! ## Runs -/

/-- What is certified of a transaction of a ledger: its certificates are issued with snapshots of
the ledger before it and can be committed.  They are those of the accounts it writes and hold the
ledger after it, with the root of the slots it writes; everything else is unchanged. -/
structure TxRecord.Certified (blake3 : Blake3) (preStates : OrdMap.Map Address Bool)
    (r : TxRecord) (certs : OrdMap.Map Address CanonicalAccountCertificate) : Prop where
  issued : (certifyBucket blake3 (snapshotsOf r.span.1.store) r.bucket
    (Lifecycle.processBucket preStates r.bucket).value.generations).result = some (.ok certs)
  certified_iff : ∀ address : Address,
    (∃ c, certs[address]? = some c) ↔ ∃ w ∈ r.writes, w.key.address = address
  unchanged : ∀ k : CanonicalKey, (∀ w ∈ r.writes, w.key ≠ k) →
    r.span.2.store k = r.span.1.store k
  fields : ∀ (address : Address) (c : CanonicalAccountCertificate), certs[address]? = some c →
    c.address = address ∧ c.nonce = r.span.2.nonce address ∧
      c.balance = Bytes.bigEndian 32 (r.span.2.balance address).val ∧
        c.codeHash = r.span.2.codeHash address
  storage : ∀ (address : Address) (c : CanonicalAccountCertificate), certs[address]? = some c →
    ∃ slots : OrdMap.Map Word Word, c.storageRoot = .verified (slotRoot blake3 slots) ∧
      ∀ slot value : Word, slots[slot]? = some value ↔
        (∃ w ∈ r.writes, w.key = .storage address slot) ∧ value = r.span.2.storage address slot
  committed : ∃ root, (Ssz.commitCertificateBatch blake3 certs).result = some (.ok root)

/-- Certificates that hold the values after, each with the root of its slots. -/
structure TxRecord.Holds (blake3 : Blake3) (preStates : OrdMap.Map Address Bool) (r : TxRecord)
    (certs : OrdMap.Map Address CanonicalAccountCertificate) : Prop where
  issued : (certifyBucket blake3 (snapshotsOf r.span.1.store) r.bucket
    (Lifecycle.processBucket preStates r.bucket).value.generations).result = some (.ok certs)
  cases : ∀ address : Address, (certs[address]? = none ∧ ¬ Written address r.trace) ∨
    ∃ c, certs[address]? = some c ∧ Written address r.trace ∧
      HoldsAfter blake3 r.span.2.store r.bucket address c

lemma TxRecord.Faithful.holds {r : TxRecord} (h : r.Faithful) (blake3 : Blake3)
    (preStates : OrdMap.Map Address Bool) : ∃ certs, r.Holds blake3 preStates certs := by
  obtain ⟨certs, hissued, hcases⟩ := certifyBucket_spec blake3 h.reduced h.replay_trace
    (Lifecycle.processBucket preStates r.bucket).value.generations
  exact ⟨certs, hissued, hcases⟩

section

variable {blake3 : Blake3} {preStates : OrdMap.Map Address Bool} {r : TxRecord}
  {certs : OrdMap.Map Address CanonicalAccountCertificate}

lemma TxRecord.Holds.holdsAfter (h : r.Holds blake3 preStates certs) {address : Address}
    {c : CanonicalAccountCertificate} (hc : certs[address]? = some c) :
    Written address r.trace ∧ HoldsAfter blake3 r.span.2.store r.bucket address c := by
  rcases h.cases address with ⟨hnone, -⟩ | ⟨c', hsome, hwritten, hholds⟩
  · rw [hnone] at hc
    exact absurd hc (by simp)
  · obtain rfl := Option.some.inj (hsome.symm.trans hc)
    exact ⟨hwritten, hholds⟩

lemma TxRecord.Faithful.certified (h : r.Faithful) (hholds : r.Holds blake3 preStates certs) :
    r.Certified blake3 preStates certs where
  issued := hholds.issued
  certified_iff address := by
    rw [← r.writesOf_trace]
    rcases hholds.cases address with ⟨hnone, hnot⟩ | ⟨c, hsome, hwritten, -⟩
    · rw [hnone]
      exact iff_of_false (by simp) hnot
    · exact iff_of_true ⟨c, hsome⟩ hwritten
  unchanged k hk := by
    rw [← r.writesOf_trace] at hk
    exact eq_of_forall_ne h.replay_trace hk
  fields address c hc := by
    have hafter := (hholds.holdsAfter hc).2
    refine ⟨hafter.address_eq, ?_, ?_, ?_⟩
    · exact Option.some.inj (hafter.field (.nonce address) rfl rfl)
    · exact Option.some.inj (hafter.field (.balance address) rfl rfl)
    · exact Option.some.inj (hafter.field (.code address) rfl rfl)
  storage address c hc := by
    refine ⟨_, (hholds.holdsAfter hc).2.storageRoot, fun slot value => ?_⟩
    rw [← r.writesOf_trace]
    exact getElem?_slotsOf_eq_some_iff h.reduced h.replay_trace
  committed := by
    have hresolved : Ssz.Resolved certs := fun address c hc =>
      ⟨_, (hholds.holdsAfter hc).2.storageRoot⟩
    obtain ⟨chunks, hchunks⟩ := hresolved.flatChunks_values
    rw [Ssz.commitCertificateBatch_eq blake3 hchunks]
    exact ⟨_, rfl⟩

end

/-! ## Gate 2 -/

/-- A write to persistent state that is the first to its key expects the value before. -/
lemma before_eq_of_first {ps pre : List CsePayload} {p : CsePayload} {s t : KeyStore}
    (hreplay : replay s (writesOf ps) = some t) (hpre : pre ++ [p] <+: ps)
    {w : Write CanonicalKey.Value} (hw : transition? p = some w)
    (hfirst : established? pre w.key = none) : w.before = s w.key := by
  obtain ⟨post, rfl⟩ := hpre
  have hchain := replay_eq_some_iff.mp hreplay w.key
  rw [← historyAt, historyAt_append, Verify.historyAt_append_write hw,
    established?_eq_none_iff.mp hfirst, Write.at?_self] at hchain
  exact (chain_cons_eq_some.mp hchain).1.symm

/-- Gate 2 accepts the certificates of a transaction with its payloads. -/
def TxRecord.Verified (blake3 : Blake3) (r : TxRecord)
    (certs : OrdMap.Map Address CanonicalAccountCertificate) : Prop :=
  (Verify.replayAndVerify blake3
    { accountCertificates := OrdMap.values certs
      executionTraces := bracketed r.trace }).result = some (.ok ())

lemma writesOf_bracketed (ps : List CsePayload) : writesOf (bracketed ps) = writesOf ps := by
  rw [bracketed, ← List.singleton_append, writesOf_append, writesOf_append]
  exact List.append_nil _

lemma touched_bracketed {address : Address} {ps : List CsePayload} :
    Verify.Touched address (bracketed ps) ↔ Verify.Touched address ps := by
  simp [Verify.Touched, bracketed, Verify.touchedAddress?]

/-- Where the accounts were empty, replaying the payloads from empty accounts goes unnoticed. -/
lemma TxRecord.Faithful.verified {blake3 : Blake3} {preStates : OrdMap.Map Address Bool}
    {r : TxRecord} {certs : OrdMap.Map Address CanonicalAccountCertificate} (h : r.Faithful)
    (hholds : r.Holds blake3 preStates certs)
    (hempty : ∀ address, Written address r.trace → r.span.1.EmptyAt address) :
    r.Verified blake3 certs := by
  have hreplay : replay r.span.1.store (writesOf (bracketed r.trace)) = some r.span.2.store := by
    rw [writesOf_bracketed]
    exact h.replay_trace
  have htouched : ∀ address, Verify.Touched address (bracketed r.trace) ↔
      Written address r.trace := fun address =>
    touched_bracketed.trans (touched_iff_written r.hooks address)
  have hzero : ∀ k : CanonicalKey, Written k.address r.trace →
      r.span.1.store k = k.zeroValue := fun k hk => (hempty k.address hk).store_eq_zeroValue
  rw [TxRecord.Verified, Verify.replayAndVerify_eq_ok_iff, Verify.onlineConsistent_iff]
  refine ⟨⟨fun k _ => linked_of_chain (replay_eq_some_iff.mp hreplay k), ?_⟩, ?_, ?_⟩
  · intro pre p hpre w hw _ hfirst _
    have hwritten : Written w.key.address r.trace := by
      refine ⟨w, ?_, rfl⟩
      rw [← writesOf_bracketed]
      exact List.mem_filterMap.mpr ⟨p, hpre.subset (by simp), hw⟩
    rw [before_eq_of_first hreplay hpre hw hfirst, hzero w.key hwritten]
  · intro address
    rw [htouched]
    constructor
    · intro hwritten
      rcases hholds.cases address with ⟨-, hnot⟩ | ⟨c, hsome, -, hafter⟩
      · exact absurd hwritten hnot
      · exact ⟨c, OrdMap.mem_values_iff.mpr ⟨address, hsome⟩, hafter.address_eq⟩
    · rintro ⟨c, hc, rfl⟩
      obtain ⟨address, hget⟩ := OrdMap.mem_values_iff.mp hc
      obtain ⟨hwritten, hafter⟩ := hholds.holdsAfter hget
      rwa [hafter.address_eq]
  · intro c hc
    obtain ⟨address, hget⟩ := OrdMap.mem_values_iff.mp hc
    obtain ⟨hwritten, hafter⟩ := hholds.holdsAfter hget
    obtain rfl := hafter.address_eq
    refine ⟨fun k hk hka => ?_, ?_⟩
    · rw [hafter.field k hk hka, eq_terminal_of_chain (replay_eq_some_iff.mp hreplay k),
        hzero k (hka ▸ hwritten)]
      rfl
    · rw [hafter.storageRoot, Verify.storage_eq_slotsOf
        ((Verify.replayed (bracketed r.trace)).holds c.address) h.reduced.states]
      exact fun slot => (historyAt_bracketed _ _).symm

/-! ## From the hooks on -/

section

variable {env : Option EnvironmentDescriptor} (config : BridgeConfig) {blocks : List BlockCalls}
  {l l' : Ledger} {spans : List (List (Ledger × Ledger))}

variable (blake3 : Blake3) (preStates : OrdMap.Map Address Bool)

/-- The certificates of the transaction are issued, and Gate 2 accepts them with its payloads if
the accounts that it writes were empty before it. -/
def TxRecord.VerifiedWhereEmpty (r : TxRecord) : Prop :=
  ∃ certs, (certifyBucket blake3 (snapshotsOf r.span.1.store) r.bucket
      (Lifecycle.processBucket preStates r.bucket).value.generations).result =
        some (.ok certs) ∧
    ((∀ address, Written address r.trace → r.span.1.EmptyAt address) → r.Verified blake3 certs)

/-- **From the hooks to Gate 2.**  In a run of a ledger, Gate 2 accepts what the pipeline makes of
a transaction that writes only accounts that were empty. -/
theorem ledger_verified (h : LedgerRun env blocks l spans l') :
    ∃ streams, (Tracer.new env).streams blocks = .ok streams ∧
      List.Forall₂ (YieldsAll config (TxRecord.VerifiedWhereEmpty blake3 preStates))
        (blocks.zip spans) streams := by
  refine h.yieldsAll config fun r hr => ?_
  obtain ⟨certs, hholds⟩ := hr.holds blake3 preStates
  exact ⟨certs, hholds.issued, hr.verified hholds⟩

end

/-- All accounts are empty. -/
def emptyLedger : Ledger where
  balance _ := ⟨0, Nat.two_pow_pos 256⟩
  nonce _ := 0
  codeHash _ := Bytes.zero 32
  storage _ _ := Bytes.zero 32

/-- The account `1` receives five, and the account `2` writes a slot. -/
def firstTx : TxCalls where
  tx := { hash := Bytes.fill 32 7, to_ := some (Bytes.fill 20 2), value := none, gas := 21000,
          gasPrice := none, nonce := 0 }
  from_ := Bytes.fill 20 1
  body :=
    .leaf (.onBalanceChange (Bytes.fill 20 1) (some 0) (some 5) .other)
      (.node { enter := { depth := 0, typ := 0xf1, from_ := Bytes.fill 20 1,
                          to_ := Bytes.fill 20 2 }, reverted := false }
        (.leaf (.onStorageChange (Bytes.fill 20 2) (Bytes.fill 32 1) (Bytes.zero 32)
          (Bytes.fill 32 2)) .nil) .nil)
  fin := { receipt := some { status := 1 }, err := none }

def firstBlocks : List BlockCalls :=
  [{ header := { root := Bytes.fill 32 1, number := 1, time := 10 }, txs := [firstTx] }]

lemma emptyLedger_runs :
    ∃ l', LedgerRun none firstBlocks emptyLedger [[(emptyLedger, l')]] l' := by
  refine ⟨_, .cons (.cons (.leaf (.balance _ _ 5 _) (.node (.leaf (.storage _ _ _ _) (.nil _))
    (.nil _))) (.nil _)) (.nil _), ?_, ?_, by decide⟩
  · simp [firstBlocks, firstTx, FitsWord]
  · have hdepth : (0 : Int64).toUInt64.toNat < 2 ^ 32 := by decide
    simpa [firstBlocks, firstTx, TxCalls.Small, Forest.frames] using hdepth

/-- Gate 2 accepts the first transaction of an empty ledger. -/
theorem firstBlocks_verified :
    ∃ l' stream, (Tracer.new none).streams firstBlocks = .ok [stream] ∧
      ∀ document, IsFixtureOf document stream → ∃ r : TxRecord, r.span = (emptyLedger, l') ∧
        YieldsRecords ⟨1⟩ document [r] ∧ ∃ certs, r.Verified (fun _ => Bytes.zero 32) certs := by
  obtain ⟨l', h⟩ := emptyLedger_runs
  obtain ⟨streams, hstreams, hyields⟩ := ledger_verified ⟨1⟩ (fun _ => Bytes.zero 32) ∅ h
  obtain ⟨stream, rest, hstream, hnil, rfl⟩ := List.forall₂_cons_left_iff.mp hyields
  obtain rfl := List.forall₂_nil_left_iff.mp hnil
  refine ⟨l', stream, hstreams, fun document hdocument => ?_⟩
  obtain ⟨records, hof, hrecords, hverified⟩ := hstream document hdocument
  obtain ⟨r, rfl, hspan⟩ := List.map_eq_singleton_iff.mp hof.spans
  obtain ⟨certs, -, hempty⟩ := hverified r (by simp)
  refine ⟨r, hspan, hrecords, certs, hempty fun address _ => ?_⟩
  rw [hspan]
  exact ⟨rfl, rfl, rfl, fun _ => rfl⟩

end Pipeline

end KaySentinel
