import KaySentinel.Builder.Certificate

/-!
# Hydrating accounts, then assembling certificates

`hydrateAccounts` gathers what a certificate needs in two maps, the generations and the
fields, and `assembleCertificates` turns the result into certificates.  Together they do what
`buildCanonicalCertificates` does with one map of builders (`hydrate_then_assemble`): the two
maps are the projections of that one (`Gathered`).
-/

namespace KaySentinel.Builder

open Cse

structure HydratedAccountState where
  address : Address
  snapshot : ResolvedAccountSnapshot
  generation : VerifiedGeneration
  storageRoot : StorageRootState
deriving DecidableEq

inductive CertificateAssemblyError where
  | identityMismatchedKey (address key : Address)
deriving DecidableEq

/-- The local structure of `hydrate_accounts`; it has the fields of `CertificateFields`, and the
table fills it in the same way. -/
abbrev PartialFields := CertificateFields

/-- The first loop, over the state table: the generation and the fields of each address. -/
def gatherFields (generations : List CanonicalGeneration) (snapshotSource : AccountSnapshotSource)
    (generationByAddress : OrdMap.Map Address VerifiedGeneration)
    (fieldsByAddress : OrdMap.Map Address PartialFields) :
    List (CanonicalKey × ReducedVariant) →
      Except GenerationResolutionError
        (OrdMap.Map Address VerifiedGeneration × OrdMap.Map Address PartialFields)
  | [] => .ok (generationByAddress, fieldsByAddress)
  | (key, variant) :: rest => do
      let address := key.address
      let generationByAddress ←
        match generationByAddress[address]? with
        | some _ => pure generationByAddress
        | none => do
            let generation ← resolveOrElse generations snapshotSource address
            pure (generationByAddress.insert address generation)
      let fields := fieldsByAddress[address]?.getD .default
      gatherFields generations snapshotSource generationByAddress
        (fieldsByAddress.insert address (fields.fill variant)) rest

/-- The attributes of one address, once nothing is missing. -/
def completeFields (snapshotSource : AccountSnapshotSource) (address : Address)
    (fields : PartialFields) : Except GenerationResolutionError ResolvedAccountSnapshot := do
  let fields ← fields.recover snapshotSource address
  let nonce ← requireField address "nonce" fields.nonce
  let balance ← requireField address "balance" fields.balance
  let codeHash ← requireField address "code_hash" fields.codeHash
  return { nonce := nonce, balance := balance, codeHash := codeHash }

/-- The second loop, over the fields.  `none` is a panic: there is no generation for an address
with fields. -/
def hydrateLoop (snapshotSource : AccountSnapshotSource)
    (generationByAddress : OrdMap.Map Address VerifiedGeneration)
    (hydrated : OrdMap.Map Address HydratedAccountState) :
    List (Address × PartialFields) →
      Option (Except GenerationResolutionError (OrdMap.Map Address HydratedAccountState))
  | [] => some (.ok hydrated)
  | (address, fields) :: rest =>
      match completeFields snapshotSource address fields with
      | .error e => some (.error e)
      | .ok snapshot =>
          match generationByAddress[address]? with
          | none => none
          | some generation =>
              hydrateLoop snapshotSource generationByAddress
                (hydrated.insert address
                  { address := address, snapshot := snapshot, generation := generation
                    storageRoot := .awaitingDerivation }) rest

def hydrateAccounts (stateTable : OrdMap.Map CanonicalKey ReducedVariant)
    (generations : List CanonicalGeneration) (snapshotSource : AccountSnapshotSource) :
    Option (Except GenerationResolutionError (OrdMap.Map Address HydratedAccountState)) :=
  match gatherFields generations snapshotSource ∅ ∅ stateTable.toList with
  | .error e => some (.error e)
  | .ok (generationByAddress, fieldsByAddress) =>
      hydrateLoop snapshotSource generationByAddress ∅ fieldsByAddress.toList

/-- The certificate of a hydrated account. -/
def HydratedAccountState.certificate (state : HydratedAccountState) :
    CanonicalAccountCertificate where
  address := state.address
  generation := state.generation
  nonce := state.snapshot.nonce
  balance := state.snapshot.balance
  codeHash := state.snapshot.codeHash
  storageRoot := state.storageRoot

def assembleCertificates (hydrated : OrdMap.Map Address HydratedAccountState) :
    Except CertificateAssemblyError (OrdMap.Map Address CanonicalAccountCertificate) :=
  OrdMap.mapExcept (fun key state =>
    if state.address ≠ key then
      .error (.identityMismatchedKey state.address key)
    else
      .ok state.certificate) hydrated

/-! ## The first loops -/

/-- The two maps are the projections of the map of builders. -/
structure Gathered (builders : OrdMap.Map Address CertificateBuilder)
    (generationByAddress : OrdMap.Map Address VerifiedGeneration)
    (fieldsByAddress : OrdMap.Map Address PartialFields) : Prop where
  address : ∀ (a : Address) (b : CertificateBuilder), builders[a]? = some b → b.address = a
  generation : ∀ a : Address, generationByAddress[a]? = builders[a]?.map (·.generation)
  fields : ∀ a : Address, fieldsByAddress[a]? = builders[a]?.map (·.fields)

section Gathered

variable {builders : OrdMap.Map Address CertificateBuilder}
  {generationByAddress : OrdMap.Map Address VerifiedGeneration}
  {fieldsByAddress : OrdMap.Map Address PartialFields}

/-- Writing a builder, and its projections. -/
lemma Gathered.insert (h : Gathered builders generationByAddress fieldsByAddress)
    {b : CertificateBuilder} {a : Address} (ha : b.address = a)
    {generationByAddress' : OrdMap.Map Address VerifiedGeneration}
    (hgen : ∀ a' : Address, generationByAddress'[a']? =
      if a = a' then some b.generation else generationByAddress[a']?) :
    Gathered (builders.insert a b) generationByAddress' (fieldsByAddress.insert a b.fields) where
  address a' b' hb' := by
    rw [OrdMap.getElem?_insert] at hb'
    split at hb'
    · rename_i heq
      rw [← Option.some.inj hb', ha, heq]
    · exact h.address a' b' hb'
  generation a' := by
    rw [hgen, OrdMap.getElem?_insert]
    split
    · rfl
    · exact h.generation a'
  fields a' := by
    rw [OrdMap.getElem?_insert, OrdMap.getElem?_insert]
    split
    · rfl
    · exact h.fields a'

/-- The first loops end alike. -/
lemma Gathered.collect (h : Gathered builders generationByAddress fieldsByAddress)
    (generations : List CanonicalGeneration) (snapshotSource : AccountSnapshotSource)
    (l : List (CanonicalKey × ReducedVariant)) :
    (∃ e, collectBuilders generations snapshotSource builders l = .error e ∧
        gatherFields generations snapshotSource generationByAddress fieldsByAddress l =
          .error e) ∨
      ∃ builders' generationByAddress' fieldsByAddress',
        collectBuilders generations snapshotSource builders l = .ok builders' ∧
          gatherFields generations snapshotSource generationByAddress fieldsByAddress l =
            .ok (generationByAddress', fieldsByAddress') ∧
          Gathered builders' generationByAddress' fieldsByAddress' := by
  induction l generalizing builders generationByAddress fieldsByAddress with
  | nil => exact .inr ⟨_, _, _, rfl, rfl, h⟩
  | cons e l ih =>
    obtain ⟨key, variant⟩ := e
    have hgen := h.generation key.address
    have hfields := h.fields key.address
    cases hb : builders[key.address]? with
    | some b =>
      rw [hb] at hgen hfields
      have hsame : ∀ a : Address, generationByAddress[a]? =
          if key.address = a then some b.generation else generationByAddress[a]? := by
        intro a
        split
        · rename_i heq
          rw [← heq, hgen]
          rfl
        · rfl
      have hstep := h.insert (b := { b with fields := b.fields.fill variant })
        (h.address key.address b hb) hsame
      simp only [collectBuilders, hb, gatherFields, hgen, hfields, Option.map_some, pure_bind,
        Option.getD_some]
      exact ih hstep
    | none =>
      rw [hb] at hgen hfields
      simp only [collectBuilders, hb, gatherFields, hgen, hfields, Option.map_none,
        Option.getD_none]
      cases hresolve : resolveOrElse generations snapshotSource key.address with
      | error e => exact .inl ⟨e, rfl, rfl⟩
      | ok generation =>
        have hstep := h.insert (a := key.address)
          (b := { address := key.address, generation := generation
                  fields := CertificateFields.default.fill variant })
          rfl fun a => OrdMap.getElem?_insert ..
        exact ih hstep

end Gathered

/-! ## The second loops -/

/-- A finished certificate is an assembled one. -/
lemma finishCertificate_eq (snapshotSource : AccountSnapshotSource) (address : Address)
    (b : CertificateBuilder) :
    finishCertificate snapshotSource address b =
      match completeFields snapshotSource address b.fields with
      | .error e => .error e
      | .ok snapshot => .ok
          { address := b.address, generation := b.generation, nonce := snapshot.nonce
            balance := snapshot.balance, codeHash := snapshot.codeHash
            storageRoot := .awaitingDerivation } := by
  rw [finishCertificate, completeFields]
  cases b.fields.recover snapshotSource address with
  | error e => rfl
  | ok fields =>
    obtain ⟨nonce, balance, codeHash⟩ := fields
    rcases nonce with _ | nonce <;> rcases balance with _ | balance <;>
      rcases codeHash with _ | codeHash <;> rfl

/-- The second loops end alike. -/
lemma hydrateLoop_collect (snapshotSource : AccountSnapshotSource)
    {generationByAddress : OrdMap.Map Address VerifiedGeneration}
    {l : List (Address × CertificateBuilder)}
    (hl : ∀ e ∈ l, e.2.address = e.1 ∧ generationByAddress[e.1]? = some e.2.generation)
    (hydrated : OrdMap.Map Address HydratedAccountState)
    (hkeyed : ∀ (a : Address) (state : HydratedAccountState),
      hydrated[a]? = some state → state.address = a) :
    (∃ e, OrdMap.collect (finishCertificate snapshotSource)
          (hydrated.map fun _ state => state.certificate) l = .error e ∧
        hydrateLoop snapshotSource generationByAddress hydrated
          (l.map fun e => (e.1, e.2.fields)) = some (.error e)) ∨
      ∃ hydrated' : OrdMap.Map Address HydratedAccountState,
        OrdMap.collect (finishCertificate snapshotSource)
            (hydrated.map fun _ state => state.certificate) l =
          .ok (hydrated'.map fun _ state => state.certificate) ∧
        hydrateLoop snapshotSource generationByAddress hydrated
          (l.map fun e => (e.1, e.2.fields)) = some (.ok hydrated') ∧
        ∀ (a : Address) (state : HydratedAccountState),
          hydrated'[a]? = some state → state.address = a := by
  induction l generalizing hydrated with
  | nil => exact .inr ⟨hydrated, rfl, rfl, hkeyed⟩
  | cons e l ih =>
    obtain ⟨address, b⟩ := e
    obtain ⟨haddress, hgen⟩ := hl (address, b) (by simp)
    simp only at haddress hgen
    simp only [List.map_cons, OrdMap.collect, hydrateLoop, finishCertificate_eq]
    cases hcomplete : completeFields snapshotSource address b.fields with
    | error e => exact .inl ⟨e, rfl, rfl⟩
    | ok snapshot =>
      simp only [hgen]
      -- the map of certificates stays the image of the map of hydrated accounts
      have himage : ((hydrated.insert address
            { address := address, snapshot := snapshot, generation := b.generation
              storageRoot := .awaitingDerivation }).map fun _ state => state.certificate) =
          (hydrated.map fun _ state => state.certificate).insert address
            { address := b.address, generation := b.generation, nonce := snapshot.nonce
              balance := snapshot.balance, codeHash := snapshot.codeHash
              storageRoot := .awaitingDerivation } := by
        refine Std.ExtTreeMap.ext_getElem? fun a => ?_
        rw [Std.ExtTreeMap.getElem?_map, OrdMap.getElem?_insert, OrdMap.getElem?_insert,
          Std.ExtTreeMap.getElem?_map, haddress]
        split <;> rfl
      have hkeyed' : ∀ (a : Address) (state : HydratedAccountState),
          (hydrated.insert address
            { address := address, snapshot := snapshot, generation := b.generation
              storageRoot := .awaitingDerivation })[a]? = some state → state.address = a := by
        intro a state hstate
        rw [OrdMap.getElem?_insert] at hstate
        split at hstate
        · rename_i heq
          rw [← Option.some.inj hstate]
          exact heq
        · exact hkeyed a state hstate
      have hrest := ih (fun e he => hl e (by simp [he])) _ hkeyed'
      rw [himage] at hrest
      exact hrest

/-! ## Both passes -/

lemma assembleCertificates_eq_ok {hydrated : OrdMap.Map Address HydratedAccountState}
    (hkeyed : ∀ (a : Address) (state : HydratedAccountState),
      hydrated[a]? = some state → state.address = a) :
    assembleCertificates hydrated = .ok (hydrated.map fun _ state => state.certificate) := by
  refine OrdMap.mapExcept_eq_ok_map fun a state hstate => ?_
  simp [hkeyed a state hstate]

/-- Hydrating ends as building does. -/
lemma hydrateAccounts_cases (table : OrdMap.Map CanonicalKey ReducedVariant)
    (generations : List CanonicalGeneration) (snapshotSource : AccountSnapshotSource) :
    (∃ e, buildCanonicalCertificates table generations snapshotSource = .error e ∧
        hydrateAccounts table generations snapshotSource = some (.error e)) ∨
      ∃ hydrated certificates,
        buildCanonicalCertificates table generations snapshotSource = .ok certificates ∧
          hydrateAccounts table generations snapshotSource = some (.ok hydrated) ∧
          assembleCertificates hydrated = .ok certificates := by
  have hstart : Gathered ∅ ∅ ∅ := ⟨by simp, by simp, by simp⟩
  rw [buildCanonicalCertificates, hydrateAccounts]
  rcases hstart.collect generations snapshotSource table.toList with
    ⟨e, hbuild, hgather⟩ | ⟨builders, gens, fields, hbuild, hgather, hmaps⟩
  · rw [hbuild, hgather]
    exact .inl ⟨e, rfl, rfl⟩
  · rw [hbuild, hgather]
    have hfields : fields.toList = builders.toList.map fun e => (e.1, e.2.fields) := by
      have hmap : fields = builders.map fun _ b => b.fields :=
        Std.ExtTreeMap.ext_getElem? fun a => by rw [hmaps.fields, Std.ExtTreeMap.getElem?_map]
      rw [hmap, Std.ExtTreeMap.toList_map]
    have hl : ∀ e ∈ builders.toList, e.2.address = e.1 ∧ gens[e.1]? = some e.2.generation := by
      rintro ⟨a, b⟩ hmem
      have hb := OrdMap.mem_toList_iff.mp hmem
      exact ⟨hmaps.address a b hb, by rw [hmaps.generation, hb]; rfl⟩
    have hempty : ((∅ : OrdMap.Map Address HydratedAccountState).map
        fun _ state => state.certificate) = ∅ := rfl
    have hloops := hydrateLoop_collect snapshotSource hl ∅ (by simp)
    rw [hempty, ← hfields] at hloops
    rcases hloops with ⟨e, hcollect, hhydrate⟩ | ⟨hydrated, hcollect, hhydrate, hkeyed⟩
    · exact .inl ⟨e, hcollect, hhydrate⟩
    · exact .inr ⟨hydrated, _, hcollect, hhydrate, assembleCertificates_eq_ok hkeyed⟩

/-- **The two ways to certificates agree.** -/
theorem hydrate_then_assemble (table : OrdMap.Map CanonicalKey ReducedVariant)
    (generations : List CanonicalGeneration) (snapshotSource : AccountSnapshotSource) :
    ∃ result, hydrateAccounts table generations snapshotSource = some result ∧
      (∀ e, result = .error e ↔
        buildCanonicalCertificates table generations snapshotSource = .error e) ∧
      ∀ hydrated certificates, result = .ok hydrated →
        buildCanonicalCertificates table generations snapshotSource = .ok certificates →
          assembleCertificates hydrated = .ok certificates := by
  rcases hydrateAccounts_cases table generations snapshotSource with
    ⟨e, hbuild, hhydrate⟩ | ⟨hydrated, certificates, hbuild, hhydrate, hassemble⟩
  · refine ⟨_, hhydrate, fun e' => ?_, nofun⟩
    rw [hbuild, Except.error.injEq, Except.error.injEq]
  · refine ⟨_, hhydrate, fun e => ?_, ?_⟩
    · rw [hbuild]
      simp
    · intro hydrated' certificates' hok hok'
      rw [hbuild] at hok'
      rw [← Except.ok.inj hok, ← Except.ok.inj hok']
      exact hassemble

end KaySentinel.Builder
