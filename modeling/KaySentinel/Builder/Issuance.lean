import KaySentinel.Builder.Hydration
import KaySentinel.Builder.Lifecycle.Resolution

/-!
# When a certificate is issued

Every account with an entry in the table gets a certificate, which depends on the account's
own entries and generations alone (`certificates_faithful`).  The certificates are issued
exactly if every account has a generation and its missing fields (`exists_certificates_iff`).
An ambiguous generation is taken for a missing one, and asked of the snapshot source
(`ambiguityRejected_iff`).
-/

namespace KaySentinel.Builder

open Cse

variable {table : OrdMap.Map CanonicalKey ReducedVariant} {generations : List CanonicalGeneration}
  {snapshotSource : AccountSnapshotSource}

/-! ## When certificates are issued -/

/-- The account has entries for its nonce, its balance and its code. -/
def HasAllVariants (table : OrdMap.Map CanonicalKey ReducedVariant) (address : Address) : Prop :=
  (∃ (k : CanonicalKey) (t : ReducedTransition UInt64),
      table[k]? = some (.nonce t) ∧ k.address = address) ∧
    (∃ (k : CanonicalKey) (t : ReducedTransition Word),
      table[k]? = some (.balance t) ∧ k.address = address) ∧
    ∃ (k : CanonicalKey) (t : ReducedTransition Word),
      table[k]? = some (.code t) ∧ k.address = address

/-- Nothing is missing. -/
def CertificateFields.Complete (fields : CertificateFields) : Prop :=
  fields.nonce.isSome ∧ fields.balance.isSome ∧ fields.codeHash.isSome

lemma isSome_fieldsOf (l : List (CanonicalKey × ReducedVariant)) (address : Address) :
    ((fieldsOf l address).nonce.isSome ↔ ∃ k t, (k, .nonce t) ∈ l ∧ k.address = address) ∧
      ((fieldsOf l address).balance.isSome ↔
        ∃ k t, (k, .balance t) ∈ l ∧ k.address = address) ∧
      ((fieldsOf l address).codeHash.isSome ↔
        ∃ k t, (k, .code t) ∈ l ∧ k.address = address) := by
  induction l using List.reverseRecOn with
  | nil => simp [fieldsOf, CertificateFields.default]
  | append_singleton l e ih =>
    obtain ⟨key, variant⟩ := e
    obtain ⟨hnonce, hbalance, hcode⟩ := ih
    rw [fieldsOf_append_singleton]
    by_cases haddress : key.address = address
    · rw [if_pos haddress]
      cases variant <;>
        simp [CertificateFields.fill, hnonce, hbalance, hcode, haddress, exists_or, or_and_right]
    · rw [if_neg haddress]
      refine ⟨hnonce.trans ?_, hbalance.trans ?_, hcode.trans ?_⟩ <;>
        · constructor
          · rintro ⟨k, t, hmem, hk⟩
            exact ⟨k, t, by simp [hmem], hk⟩
          · rintro ⟨k, t, hmem, hk⟩
            rcases List.mem_append.mp hmem with hmem | hmem
            · exact ⟨k, t, hmem, hk⟩
            · rw [List.mem_singleton, Prod.mk.injEq] at hmem
              exact absurd (hmem.1 ▸ hk) haddress

lemma complete_fieldsOf_iff {address : Address} :
    (fieldsOf table.toList address).Complete ↔ HasAllVariants table address := by
  obtain ⟨hnonce, hbalance, hcode⟩ := isSome_fieldsOf table.toList address
  rw [CertificateFields.Complete, hnonce, hbalance, hcode]
  simp only [OrdMap.mem_toList_iff]
  rfl

/-- A certificate is finished exactly if nothing is missing or the source has a snapshot. -/
lemma exists_finishCertificate_iff {address : Address} {b : CertificateBuilder} :
    (∃ c, finishCertificate snapshotSource address b = .ok c) ↔
      b.fields.Complete ∨ ∃ s, snapshotSource.recoverAccountSnapshot address = .ok s := by
  obtain ⟨baddress, generation, nonce, balance, codeHash⟩ := b
  cases hsnap : snapshotSource.recoverAccountSnapshot address <;>
    rcases nonce with _ | nonce <;> rcases balance with _ | balance <;>
    rcases codeHash with _ | codeHash <;>
    simp [finishCertificate, CertificateFields.Complete, CertificateFields.recover, hsnap,
      requireField, bind, Except.bind, pure, Except.pure]

/-- The first loop succeeds exactly if every address without a builder has a generation. -/
lemma exists_collectBuilders_iff {builders : OrdMap.Map Address CertificateBuilder}
    {l : List (CanonicalKey × ReducedVariant)} :
    (∃ builders', collectBuilders generations snapshotSource builders l = .ok builders') ↔
      ∀ e ∈ l, builders[e.1.address]? = none →
        ∃ generation, resolveOrElse generations snapshotSource e.1.address = .ok generation := by
  induction l generalizing builders with
  | nil => simp [collectBuilders]
  | cons e l ih =>
    obtain ⟨key, variant⟩ := e
    rw [List.forall_mem_cons]
    -- a builder that is written counts as present from then on
    have hrest : ∀ b : CertificateBuilder,
        (∃ generation, resolveOrElse generations snapshotSource key.address = .ok generation) ∨
          builders[key.address]? ≠ none →
        ((∃ builders', collectBuilders generations snapshotSource
            (builders.insert key.address b) l = .ok builders') ↔
          ∀ e ∈ l, builders[e.1.address]? = none →
            ∃ generation, resolveOrElse generations snapshotSource e.1.address =
              .ok generation) := by
      intro b hhas
      rw [ih]
      refine forall₂_congr fun e _ => ?_
      rw [OrdMap.getElem?_insert]
      by_cases haddress : key.address = e.1.address
      · rw [if_pos haddress, ← haddress]
        refine ⟨fun _ hnone => ?_, fun _ hnone => absurd hnone (by simp)⟩
        rcases hhas with hhas | hhas
        · exact hhas
        · exact absurd hnone hhas
      · rw [if_neg haddress]
    cases hb : builders[key.address]? with
    | some b =>
      simp only [collectBuilders, hb, pure_bind]
      rw [hrest _ (.inr (by simp [hb]))]
      simp
    | none =>
      cases hresolve : resolveOrElse generations snapshotSource key.address with
      | error e =>
        simp [collectBuilders, hb, hresolve, bind, Except.bind]
      | ok generation =>
        simp only [collectBuilders, hb, hresolve, bind, Except.bind, pure, Except.pure]
        rw [hrest _ (.inl ⟨generation, hresolve⟩)]
        simp

/-- **Issuance.** -/
theorem exists_certificates_iff :
    (∃ certificates,
        buildCanonicalCertificates table generations snapshotSource = .ok certificates) ↔
      ∀ address, HasEntry table address →
        (∃ generation, resolveOrElse generations snapshotSource address = .ok generation) ∧
          (HasAllVariants table address ∨
            ∃ s, snapshotSource.recoverAccountSnapshot address = .ok s) := by
  constructor
  · rintro ⟨certificates, hok⟩ address hentry
    rcases buildCanonicalCertificates_cases hok address with
      ⟨-, hnot⟩ | ⟨b, c, -, -, hgen, -, hfields, hfinish⟩
    · exact absurd hentry hnot
    · have hcomplete := exists_finishCertificate_iff.mp ⟨c, hfinish⟩
      rw [hfields, complete_fieldsOf_iff] at hcomplete
      exact ⟨⟨_, hgen⟩, hcomplete⟩
  · intro h
    obtain ⟨builders, hcollect⟩ : ∃ builders,
        collectBuilders generations snapshotSource ∅ table.toList = .ok builders := by
      rw [exists_collectBuilders_iff]
      exact fun e he _ => (h e.1.address (hasEntry_iff.mpr ⟨e, he, rfl⟩)).1
    simp only [buildCanonicalCertificates, hcollect, bind, Except.bind]
    rw [OrdMap.exists_mapExcept_eq_ok_iff]
    intro address b hb
    obtain ⟨hex, -, -, hfields⟩ := (built_collectBuilders hcollect).of_getElem? hb
    rw [exists_finishCertificate_iff, hfields, complete_fieldsOf_iff]
    exact (h address (hasEntry_iff.mpr hex)).2

/-! ## What a certificate depends on -/

/-- The account has its nonce, its balance and its code in the table. -/
def HasAllFields (table : OrdMap.Map CanonicalKey ReducedVariant) (address : Address) : Prop :=
  ∀ k : CanonicalKey, k.isField = true → k.address = address → table[k]?.isSome

/-- The sources differ at most in the snapshots of accounts with all three fields. -/
structure SameWhereMissing (table : OrdMap.Map CanonicalKey ReducedVariant)
    (source source' : AccountSnapshotSource) : Prop where
  generation : ∀ address,
    source.resolveIdentityGeneration address = source'.resolveIdentityGeneration address
  snapshot : ∀ address, ¬HasAllFields table address →
    source.recoverAccountSnapshot address = source'.recoverAccountSnapshot address

/-- Tables and generations agree on the account. -/
structure SameAccount (table table' : OrdMap.Map CanonicalKey ReducedVariant)
    (generations generations' : List CanonicalGeneration) (address : Address) : Prop where
  entries : ∀ k : CanonicalKey, k.address = address → table[k]? = table'[k]?
  generations : generations.filter (·.key.address = address) =
    generations'.filter (·.key.address = address)

/-- Where a table has the three keys of an account, it has the three variants. -/
lemma HasAllFields.hasAllVariants (htyped : Typed table) {address : Address}
    (h : HasAllFields table address) : HasAllVariants table address := by
  have hof : ∀ k : CanonicalKey, k.isField = true → k.address = address →
      ∃ t, table[k]? = some (.of k t) := by
    intro k hfield haddress
    obtain ⟨variant, hk⟩ := Option.isSome_iff_exists.mp (h k hfield haddress)
    obtain ⟨t, rfl⟩ := htyped k variant hk
    exact ⟨t, hk⟩
  obtain ⟨tn, hnonce⟩ := hof (.nonce address) rfl rfl
  obtain ⟨tb, hbalance⟩ := hof (.balance address) rfl rfl
  obtain ⟨tc, hcode⟩ := hof (.code address) rfl rfl
  exact ⟨⟨_, tn, hnonce, rfl⟩, ⟨_, tb, hbalance, rfl⟩, _, tc, hcode, rfl⟩

/-- A source is not asked for the snapshot of an account with all three fields. -/
lemma buildCanonicalCertificates_congr_source (htyped : Typed table)
    {source source' : AccountSnapshotSource} (h : SameWhereMissing table source source') :
    buildCanonicalCertificates table generations source =
      buildCanonicalCertificates table generations source' := by
  have hresolve : ∀ address, resolveOrElse generations source address =
      resolveOrElse generations source' address := by
    intro address
    rw [resolveOrElse, resolveOrElse, h.generation]
  rw [buildCanonicalCertificates, buildCanonicalCertificates, ← collectBuilders_congr hresolve]
  cases hcollect : collectBuilders generations source ∅ table.toList with
  | error e => rfl
  | ok builders =>
    refine OrdMap.mapExcept_congr fun address b hb => ?_
    by_cases hall : HasAllFields table address
    · have hcomplete : b.fields.Complete := by
        rw [((built_collectBuilders hcollect).of_getElem? hb).2.2.2, complete_fieldsOf_iff]
        exact hall.hasAllVariants htyped
      obtain ⟨hnonce, hbalance, hcode⟩ := hcomplete
      have hrecover : ∀ source : AccountSnapshotSource,
          b.fields.recover source address = .ok b.fields := by
        intro source
        rw [CertificateFields.recover, if_neg]
        simp [Option.isNone_iff_eq_none, Option.isSome_iff_ne_none.mp hnonce,
          Option.isSome_iff_ne_none.mp hbalance, Option.isSome_iff_ne_none.mp hcode]
      rw [finishCertificate, finishCertificate, hrecover, hrecover]
    · rw [finishCertificate, finishCertificate, CertificateFields.recover,
        CertificateFields.recover, h.snapshot address hall]

/-- **What certificates say.**  There is one for each account with an entry; its fields are the
account's own terminal values, or those of the snapshot; snapshots of accounts with all three
fields do not matter, nor do other accounts. -/
theorem certificates_faithful (htyped : Typed table)
    {certificates : OrdMap.Map Address CanonicalAccountCertificate}
    (h : buildCanonicalCertificates table generations snapshotSource = .ok certificates) :
    (∀ address : Address, certificates[address]?.isSome ↔ HasEntry table address) ∧
      (∀ (address : Address) (c : CanonicalAccountCertificate),
        certificates[address]? = some c → c.address = address ∧
          ∀ k : CanonicalKey, k.isField = true → k.address = address →
            c.at? k = effective? snapshotSource table k) ∧
      (∀ source, SameWhereMissing table snapshotSource source →
        buildCanonicalCertificates table generations source = .ok certificates) ∧
      ∀ table' generations' certificates', Typed table' →
        buildCanonicalCertificates table' generations' snapshotSource = .ok certificates' →
          ∀ address : Address, SameAccount table table' generations generations' address →
            certificates[address]? = certificates'[address]? := by
  have hspec := getElem?_buildCanonicalCertificates htyped h
  refine ⟨fun address => ?_, fun address c hc => ?_, fun source hsource => ?_, ?_⟩
  · rcases hspec address with ⟨hnone, hnot⟩ | ⟨c, hsome, hentry, -⟩
    · simp [hnone, hnot]
    · simp [hsome, hentry]
  · rcases hspec address with ⟨hnone, -⟩ | ⟨c', hsome, -, haddress, -, -, hfields⟩
    · rw [hnone] at hc
      exact absurd hc (by simp)
    · obtain rfl := Option.some.inj (hsome.symm.trans hc)
      exact ⟨haddress, hfields⟩
  · rw [← buildCanonicalCertificates_congr_source htyped hsource, h]
  · intro table' generations' certificates' htyped' h' address hsame
    have hentry : HasEntry table address ↔ HasEntry table' address := by
      refine exists_congr fun k => exists_congr fun variant => ?_
      rw [and_congr_left_iff]
      intro haddress
      rw [hsame.entries k haddress]
    rcases hspec address with
      ⟨hnone, hnot⟩ | ⟨c, hsome, hhas, haddress, hgen, hroot, hfields⟩
    · rcases getElem?_buildCanonicalCertificates htyped' h' address with
        ⟨hnone', -⟩ | ⟨c', -, hhas', -⟩
      · rw [hnone, hnone']
      · exact absurd (hentry.mpr hhas') hnot
    · rcases getElem?_buildCanonicalCertificates htyped' h' address with
        ⟨-, hnot'⟩ | ⟨c', hsome', -, haddress', hgen', hroot', hfields'⟩
      · exact absurd (hentry.mp hhas) hnot'
      · have hc : c = c' := by
          refine certificate_ext (haddress.trans haddress'.symm) ?_ (fun k hk hka => ?_)
            (hroot.trans hroot'.symm)
          · rw [resolveOrElse, resolveGenerationForAddress, hsame.generations,
              ← resolveGenerationForAddress, ← resolveOrElse] at hgen
            exact Except.ok.inj (hgen.symm.trans hgen')
          · have hka := hka.trans haddress
            rw [hfields k hk hka, hfields' k hk hka, effective?, effective?, terminal?,
              terminal?, hsame.entries k hka]
        rw [hsome, hsome', hc]

lemma typed_insert (h : Typed table) (k : CanonicalKey) (t : ReducedTransition k.Value) :
    Typed (table.insert k (.of k t)) := by
  intro k' variant hk'
  rw [OrdMap.getElem?_insert] at hk'
  split at hk'
  · rename_i heq
    subst heq
    exact ⟨t, (Option.some.inj hk').symm⟩
  · exact h k' variant hk'

/-- A source that gives every account generation 0, and has the snapshots of `known` alone. -/
def sourceKnowing (known : List Address) : AccountSnapshotSource where
  resolveIdentityGeneration address :=
    .ok { key := { address := address, generationId := 0 }
          stateTableProofRoot := Bytes.zero 32 }
  recoverAccountSnapshot address :=
    if address ∈ known then
      .ok { nonce := 7, balance := Bytes.zero 32, codeHash := Bytes.zero 32 }
    else
      .error (.stateDatabaseCorruption address)

/-- The nonce of an account goes from 0 to 9. -/
def nonceTable (address : Address) : OrdMap.Map CanonicalKey ReducedVariant :=
  (∅ : OrdMap.Map CanonicalKey ReducedVariant).insert (.nonce address)
    (.of (.nonce address) { initial := 0, terminal := 9, provenance := ∅ })

lemma typed_nonceTable (address : Address) : Typed (nonceTable address) :=
  typed_insert (by intro k variant hk; simp at hk) _ _

/-- The nonce of a second account goes from 0 to `terminal`. -/
def nonceTables (terminal : UInt64) : OrdMap.Map CanonicalKey ReducedVariant :=
  (nonceTable (Bytes.zero 20)).insert (.nonce (Bytes.last 19 1))
    (.of (.nonce (Bytes.last 19 1)) { initial := 0, terminal := terminal, provenance := ∅ })

lemma typed_nonceTables (terminal : UInt64) : Typed (nonceTables terminal) :=
  typed_insert (typed_nonceTable _) _ _

/-- The second account has a generation of its own. -/
def secondGeneration : CanonicalGeneration where
  key := { address := Bytes.last 19 1, generationId := 2 }
  begin := TraceProvenance.default
  fin := none

lemma sameAccount_nonceTables (terminal terminal' : UInt64) :
    SameAccount (nonceTables terminal) (nonceTables terminal') [] [secondGeneration]
      (Bytes.zero 20) where
  entries k haddress := by
    have hne : CanonicalKey.nonce (Bytes.last 19 1) ≠ k := by
      rintro rfl
      exact absurd haddress (by decide)
    rw [nonceTables, nonceTables, OrdMap.getElem?_insert, OrdMap.getElem?_insert, if_neg hne,
      if_neg hne]
  generations := by decide

/-- Another nonce and a generation of the second account leave the certificate of the first as
it is, and the second one's says the other nonce. -/
theorem nonceTables_certificates :
    ∃ certificates certificates' : OrdMap.Map Address CanonicalAccountCertificate,
      buildCanonicalCertificates (nonceTables 3) []
        (sourceKnowing [Bytes.zero 20, Bytes.last 19 1]) = .ok certificates ∧
      buildCanonicalCertificates (nonceTables 4) [secondGeneration]
        (sourceKnowing [Bytes.zero 20, Bytes.last 19 1]) = .ok certificates' ∧
      (∀ address : Address,
        certificates[address]?.isSome ↔ HasEntry (nonceTables 3) address) ∧
      certificates[(Bytes.zero 20 : Address)]? = certificates'[(Bytes.zero 20 : Address)]? ∧
      (∀ c : CanonicalAccountCertificate, certificates[(Bytes.zero 20 : Address)]? = some c →
        c.at? (.nonce (Bytes.zero 20)) = some (9 : UInt64)) ∧
      ∀ c : CanonicalAccountCertificate, certificates'[(Bytes.last 19 1 : Address)]? = some c →
        c.at? (.nonce (Bytes.last 19 1)) = some (4 : UInt64) := by
  obtain ⟨certificates, hok⟩ : ∃ certificates, buildCanonicalCertificates (nonceTables 3) []
      (sourceKnowing [Bytes.zero 20, Bytes.last 19 1]) = .ok certificates := ⟨_, rfl⟩
  obtain ⟨certificates', hok'⟩ : ∃ certificates, buildCanonicalCertificates (nonceTables 4)
      [secondGeneration] (sourceKnowing [Bytes.zero 20, Bytes.last 19 1]) = .ok certificates :=
    ⟨_, rfl⟩
  obtain ⟨hissued, hfields, -, hisolated⟩ := certificates_faithful (typed_nonceTables 3) hok
  obtain ⟨-, hfields', -, -⟩ := certificates_faithful (typed_nonceTables 4) hok'
  exact ⟨certificates, certificates', hok, hok', hissued,
    hisolated _ _ _ (typed_nonceTables 4) hok' _ (sameAccount_nonceTables 3 4),
    fun c hc => (hfields _ c hc).2 (.nonce _) rfl rfl,
    fun c hc => (hfields' _ c hc).2 (.nonce _) rfl rfl⟩

/-! ## Ambiguous generations -/

/-- No certificate is issued where a generation is ambiguous: not by either builder, and an
issued one has the single terminal generation of its account, or one from the source where the
list has none. -/
structure AmbiguityRejected (table : OrdMap.Map CanonicalKey ReducedVariant)
    (generations : List CanonicalGeneration) (snapshotSource : AccountSnapshotSource) : Prop where
  fails : ∀ address, HasEntry table address → Ambiguous generations address →
    (∃ e, buildCanonicalCertificates table generations snapshotSource = .error e) ∧
      ∃ e, hydrateAccounts table generations snapshotSource = some (.error e)
  issued : ∀ (certificates : OrdMap.Map Address CanonicalAccountCertificate) (address : Address)
    (c : CanonicalAccountCertificate),
    buildCanonicalCertificates table generations snapshotSource = .ok certificates →
      certificates[address]? = some c →
        ResolvesTo generations address c.generation ∨
          ((∀ g ∈ generations, g.key.address ≠ address) ∧
            snapshotSource.resolveIdentityGeneration address = .ok c.generation)

/-- The generation of a certificate, for any table. -/
lemma generation_of_certificate
    {certificates : OrdMap.Map Address CanonicalAccountCertificate}
    (h : buildCanonicalCertificates table generations snapshotSource = .ok certificates)
    {address : Address} {c : CanonicalAccountCertificate} (hc : certificates[address]? = some c) :
    HasEntry table address ∧
      resolveOrElse generations snapshotSource address = .ok c.generation := by
  rcases buildCanonicalCertificates_cases h address with
    ⟨hnone, -⟩ | ⟨b, c', hc', hentry, hgen, -, -, hfinish⟩
  · rw [hnone] at hc
    exact absurd hc (by simp)
  · obtain rfl := Option.some.inj (hc'.symm.trans hc)
    exact ⟨hentry, (finishCertificate_eq_ok hfinish).2.1 ▸ hgen⟩

/-- A missing generation and an ambiguous one are both asked of the source. -/
lemma resolveOrElse_eq_ok_iff {address : Address} {generation : VerifiedGeneration} :
    resolveOrElse generations snapshotSource address = .ok generation ↔
      ResolvesTo generations address generation ∨
        ((∀ generation', ¬ResolvesTo generations address generation') ∧
          snapshotSource.resolveIdentityGeneration address = .ok generation) := by
  rw [resolveOrElse]
  rcases resolveGenerationForAddress_spec generations address with
    ⟨habsent, heq⟩ | ⟨hambiguous, heq⟩ | ⟨generation', hresolves, heq⟩
  · have hnone : ∀ generation', ¬ResolvesTo generations address generation' := by
      rintro generation' ⟨id, ⟨⟨g, hg, hkey⟩, -⟩, -⟩
      exact habsent g hg (by rw [hkey])
    simp [heq, hnone]
  · simp [heq, hambiguous.not_resolvesTo]
  · simp only [heq, Except.ok.injEq]
    constructor
    · rintro rfl
      exact .inl hresolves
    · rintro (hresolves' | ⟨hnone, -⟩)
      · exact hresolves.unique hresolves'
      · exact absurd hresolves (hnone generation')

/-- **Ambiguous generations.** -/
theorem ambiguityRejected_iff (table : OrdMap.Map CanonicalKey ReducedVariant)
    (generations : List CanonicalGeneration) (snapshotSource : AccountSnapshotSource) :
    AmbiguityRejected table generations snapshotSource ↔
      (∀ address, HasEntry table address → ¬Ambiguous generations address) ∨
      (∃ address, HasEntry table address ∧
        (∀ generation, ¬ResolvesTo generations address generation) ∧
          ∃ e, snapshotSource.resolveIdentityGeneration address = .error e) ∨
      ∃ address, HasEntry table address ∧ ¬HasAllVariants table address ∧
        ∃ e, snapshotSource.recoverAccountSnapshot address = .error e := by
  constructor
  · intro h
    by_contra hnot
    simp only [not_or, not_exists, not_and, not_forall, not_not] at hnot
    obtain ⟨⟨address, hentry, hambiguous⟩, hgenerations, hsnapshots⟩ := hnot
    -- nothing else keeps the certificates from being issued
    obtain ⟨certificates, hok⟩ : ∃ certificates,
        buildCanonicalCertificates table generations snapshotSource = .ok certificates := by
      refine exists_certificates_iff.mpr fun address hentry => ⟨?_, ?_⟩
      · by_cases hresolves : ∃ generation, ResolvesTo generations address generation
        · obtain ⟨generation, hresolves⟩ := hresolves
          exact ⟨generation, resolveOrElse_eq_ok_iff.mpr (.inl hresolves)⟩
        · have hnone := not_exists.mp hresolves
          cases hsource : snapshotSource.resolveIdentityGeneration address with
          | error e => exact absurd hsource (hgenerations address hentry hnone e)
          | ok generation =>
            exact ⟨generation, resolveOrElse_eq_ok_iff.mpr (.inr ⟨hnone, hsource⟩)⟩
      · by_cases hall : HasAllVariants table address
        · exact .inl hall
        · cases hsource : snapshotSource.recoverAccountSnapshot address with
          | error e => exact absurd hsource (hsnapshots address hentry hall e)
          | ok snapshot => exact .inr ⟨snapshot, rfl⟩
    obtain ⟨⟨e, he⟩, -⟩ := h.fails address hentry hambiguous
    rw [hok] at he
    exact absurd he (by simp)
  · intro h
    rcases hydrateAccounts_cases table generations snapshotSource with
      ⟨e, hbuild, hhydrate⟩ | ⟨-, certificates, hbuild, -⟩
    · refine ⟨fun _ _ _ => ⟨⟨e, hbuild⟩, e, hhydrate⟩, fun certificates address c hok => ?_⟩
      rw [hbuild] at hok
      exact absurd hok (by simp)
    · -- the certificates are issued, so that only the first case is left
      have hissued := exists_certificates_iff.mp ⟨certificates, hbuild⟩
      have hclear : ∀ address, HasEntry table address → ¬Ambiguous generations address := by
        rcases h with hclear | ⟨address, hentry, hnone, e, he⟩ | ⟨address, hentry, hall, e, he⟩
        · exact hclear
        · obtain ⟨⟨generation, hgen⟩, -⟩ := hissued address hentry
          rcases resolveOrElse_eq_ok_iff.mp hgen with hresolves | ⟨-, hsource⟩
          · exact absurd hresolves (hnone generation)
          · exact absurd (he.symm.trans hsource) (by simp)
        · obtain ⟨-, hall' | ⟨snapshot, hsource⟩⟩ := hissued address hentry
          · exact absurd hall' hall
          · exact absurd (he.symm.trans hsource) (by simp)
      refine ⟨fun address hentry hambiguous => absurd hambiguous (hclear address hentry), ?_⟩
      intro certificates' address c hok hc
      obtain ⟨hentry, hgen⟩ := generation_of_certificate hok hc
      refine (resolveOrElse_eq_ok_iff.mp hgen).imp_right fun ⟨hnone, hsource⟩ => ⟨?_, hsource⟩
      rcases resolveGenerationForAddress_spec generations address with
        ⟨habsent, -⟩ | ⟨hambiguous, -⟩ | ⟨generation, hresolves, -⟩
      · exact habsent
      · exact absurd hambiguous (hclear address hentry)
      · exact absurd hresolves (hnone generation)

/-- Two entries have the highest generation id, and the source supplies a generation: a
certificate is issued. -/
theorem two_entries_one_id :
    let generations := [generationAt 1 10 none, generationAt 1 15 none]
    HasEntry (nonceTable (Bytes.zero 20)) (Bytes.zero 20) ∧
      Ambiguous generations (Bytes.zero 20) ∧
      ∃ certificates, buildCanonicalCertificates (nonceTable (Bytes.zero 20)) generations
        (sourceKnowing [Bytes.zero 20]) = .ok certificates := by
  refine ⟨⟨.nonce (Bytes.zero 20), _, rfl, rfl⟩, ⟨1, ⟨⟨_, List.mem_cons_self .., rfl⟩, ?_⟩, ?_⟩,
    _, rfl⟩
  · simp [generationAt]
  · decide

end KaySentinel.Builder
