import KaySentinel.Builder.Lifecycle.Canonicalize

/-!
# Canonical account certificates

`buildCanonicalCertificates` turns the state table of a transaction into one certificate
for each account it touches, taking the fields that the transaction did not write from an
external snapshot.  `getElem?_buildCanonicalCertificates` says what a certificate holds.
-/

namespace KaySentinel.Builder

open Cse

inductive GenerationResolutionError where
  | identityAbsent (address : Address)
  | identityAmbiguous (address : Address)
  | provenanceMetadataDivergence (address : Address) (generationId : UInt32)
  | malformedProvenanceChain (address : Address)
  | stateDatabaseCorruption (address : Address)
  | insufficientStateInformation (address : Address) (missingField : String)
deriving DecidableEq

structure VerifiedGeneration where
  key : GenerationKey
  stateTableProofRoot : Word
deriving DecidableEq

/-- Resolve the unique terminal generation of an address. -/
def resolveGenerationForAddress (generations : List CanonicalGeneration) (address : Address) :
    Except GenerationResolutionError VerifiedGeneration :=
  match generations.filter (·.key.address = address) with
  | [] => .error (.identityAbsent address)
  | first :: rest =>
      let maxGenerationId :=
        rest.foldl (fun m g => max m g.key.generationId) first.key.generationId
      let terminal := (first :: rest).filter (·.key.generationId = maxGenerationId)
      if terminal.length > 1 then
        .error (.identityAmbiguous address)
      else
        -- `terminal[0]`: the maximum is attained
        .ok { key := (terminal.headD first).key, stateTableProofRoot := Bytes.zero 32 }

structure ResolvedAccountSnapshot where
  nonce : UInt64
  balance : Word
  codeHash : Word
deriving DecidableEq

/-- The trait `AccountSnapshotSource`, whose methods are pure functions. -/
structure AccountSnapshotSource where
  resolveIdentityGeneration : Address → Except GenerationResolutionError VerifiedGeneration
  recoverAccountSnapshot : Address → Except GenerationResolutionError ResolvedAccountSnapshot

inductive StorageRootState where
  | verified (root : Word)
  | awaitingDerivation
deriving DecidableEq

structure CanonicalAccountCertificate where
  address : Address
  generation : VerifiedGeneration
  nonce : UInt64
  balance : Word
  codeHash : Word
  storageRoot : StorageRootState
deriving DecidableEq

structure CertificateFields where
  nonce : Option UInt64
  balance : Option Word
  codeHash : Option Word
deriving DecidableEq

/-- `CertificateFields::default()`. -/
def CertificateFields.default : CertificateFields :=
  { nonce := none, balance := none, codeHash := none }

structure CertificateBuilder where
  address : Address
  generation : VerifiedGeneration
  fields : CertificateFields
deriving DecidableEq

/-- The field that an entry of the state table fills. -/
def CertificateFields.fill (fields : CertificateFields) : ReducedVariant → CertificateFields
  | .balance t => { fields with balance := some t.terminal }
  | .nonce t => { fields with nonce := some t.terminal }
  | .code t => { fields with codeHash := some t.terminal }
  -- storage only ensures that the address gets a certificate at all
  | .storage _ => fields
  | .transient _ => fields

/-- `resolve_generation_for_address(..)`, and where it fails the generation of the source. -/
def resolveOrElse (generations : List CanonicalGeneration) (snapshotSource : AccountSnapshotSource)
    (address : Address) : Except GenerationResolutionError VerifiedGeneration :=
  match resolveGenerationForAddress generations address with
  | .ok generation => .ok generation
  | .error _ => snapshotSource.resolveIdentityGeneration address

/-- The first loop, over the state table: one builder for each address. -/
def collectBuilders (generations : List CanonicalGeneration)
    (snapshotSource : AccountSnapshotSource) (builders : OrdMap.Map Address CertificateBuilder) :
    List (CanonicalKey × ReducedVariant) →
      Except GenerationResolutionError (OrdMap.Map Address CertificateBuilder)
  | [] => .ok builders
  | (key, variant) :: rest => do
      let address := key.address
      let builder ←
        match builders[address]? with
        | some existing => pure existing
        | none => do
            let generation ← resolveOrElse generations snapshotSource address
            pure { address := address, generation := generation, fields := .default }
      collectBuilders generations snapshotSource
        (builders.insert address { builder with fields := builder.fields.fill variant }) rest

/-- Take the fields that are still missing from the snapshot. -/
def CertificateFields.recover (fields : CertificateFields)
    (snapshotSource : AccountSnapshotSource) (address : Address) :
    Except GenerationResolutionError CertificateFields :=
  if fields.nonce.isNone ∨ fields.balance.isNone ∨ fields.codeHash.isNone then do
    let snapshot ← snapshotSource.recoverAccountSnapshot address
    pure {
      nonce := some (fields.nonce.getD snapshot.nonce)
      balance := some (fields.balance.getD snapshot.balance)
      codeHash := some (fields.codeHash.getD snapshot.codeHash) }
  else
    .ok fields

/-- `value.ok_or(InsufficientStateInformation { .. })?` -/
def requireField {T : Type} (address : Address) (missingField : String) :
    Option T → Except GenerationResolutionError T
  | some value => .ok value
  | none => .error (.insufficientStateInformation address missingField)

/-- The second loop, over the builders: the certificate of one address. -/
def finishCertificate (snapshotSource : AccountSnapshotSource) (address : Address)
    (b : CertificateBuilder) : Except GenerationResolutionError CanonicalAccountCertificate := do
  let fields ← b.fields.recover snapshotSource address
  let nonce ← requireField address "nonce" fields.nonce
  let balance ← requireField address "balance" fields.balance
  let codeHash ← requireField address "code_hash" fields.codeHash
  return {
    address := b.address
    generation := b.generation
    nonce := nonce
    balance := balance
    codeHash := codeHash
    storageRoot := .awaitingDerivation }

def buildCanonicalCertificates (stateTable : OrdMap.Map CanonicalKey ReducedVariant)
    (generations : List CanonicalGeneration) (snapshotSource : AccountSnapshotSource) :
    Except GenerationResolutionError (OrdMap.Map Address CanonicalAccountCertificate) := do
  let builders ← collectBuilders generations snapshotSource ∅ stateTable.toList
  OrdMap.mapExcept (finishCertificate snapshotSource) builders

/-! ## The terminal values of a table -/

/-- A reduced transition ends with a value of the type of its key. -/
def Typed (table : OrdMap.Map CanonicalKey ReducedVariant) : Prop :=
  ∀ (k : CanonicalKey) (variant : ReducedVariant), table[k]? = some variant →
    ∃ t, variant = .of k t

lemma Tabulates.typed {ps : List CsePayload} {table : OrdMap.Map CanonicalKey ReducedVariant}
    (h : Tabulates ps table) : Typed table := by
  intro k variant hk
  rcases h k with ⟨-, hnone⟩ | ⟨v, a, rest, t, -, hsome, -, -⟩
  · rw [hnone] at hk
    exact absurd hk (by simp)
  · rw [hsome] at hk
    exact ⟨t, (Option.some.inj hk).symm⟩

/-- The terminal value of a variant, if it is one of the key. -/
def ReducedVariant.terminalAt? : (k : CanonicalKey) → ReducedVariant → Option k.Value
  | .balance _, .balance t => some t.terminal
  | .nonce _, .nonce t => some t.terminal
  | .code _, .code t => some t.terminal
  | .storage _ _, .storage t => some t.terminal
  | .transient _ _, .transient t => some t.terminal
  | _, _ => none

@[simp] lemma ReducedVariant.terminalAt?_of (k : CanonicalKey) (t : ReducedTransition k.Value) :
    (ReducedVariant.of k t).terminalAt? k = some t.terminal := by
  cases k <;> rfl

/-- The terminal value that a table holds for a key. -/
def terminal? (table : OrdMap.Map CanonicalKey ReducedVariant) (k : CanonicalKey) :
    Option k.Value :=
  table[k]?.bind (·.terminalAt? k)

/-- What the terminal value of a key is, as a function of the payloads. -/
lemma Tabulates.terminal?_eq {ps : List CsePayload}
    {table : OrdMap.Map CanonicalKey ReducedVariant} (h : Tabulates ps table) (k : CanonicalKey) :
    terminal? table k = established? ps k := by
  rw [established?]
  rcases h k with ⟨hnil, hnone⟩ | ⟨v, a, rest, t, hcons, hsome, -, hchain⟩
  · simp [terminal?, hnil, hnone]
  · have hlast := Journal.eq_terminal_of_chain hchain
    rw [Journal.terminal] at hlast
    rw [terminal?, hsome, Option.bind_some, ReducedVariant.terminalAt?_of, hlast]
    cases hl : (historyAt k ps).getLast? with
    | none => simp [List.getLast?_eq_none_iff.mp hl] at hcons
    | some p => rfl

/-- The account has an entry in the table. -/
def HasEntry (table : OrdMap.Map CanonicalKey ReducedVariant) (address : Address) : Prop :=
  ∃ (k : CanonicalKey) (variant : ReducedVariant), table[k]? = some variant ∧ k.address = address

lemma hasEntry_iff {table : OrdMap.Map CanonicalKey ReducedVariant} {address : Address} :
    HasEntry table address ↔ ∃ e ∈ table.toList, e.1.address = address := by
  constructor
  · rintro ⟨k, variant, hk, haddress⟩
    exact ⟨(k, variant), OrdMap.mem_toList_iff.mpr hk, haddress⟩
  · rintro ⟨⟨k, variant⟩, hmem, haddress⟩
    exact ⟨k, variant, OrdMap.mem_toList_iff.mp hmem, haddress⟩

/-! ## The fields of an account -/

/-- The keys of the three account fields. -/
def CanonicalKey.isField : CanonicalKey → Bool
  | .balance _ => true
  | .nonce _ => true
  | .code _ => true
  | .storage _ _ => false
  | .transient _ _ => false

/-- The key is one of persistent state. -/
def CanonicalKey.isPersistent : CanonicalKey → Bool
  | .transient _ _ => false
  | _ => true

lemma CanonicalKey.isPersistent_of_isField {k : CanonicalKey} (h : k.isField = true) :
    k.isPersistent = true := by
  cases k <;> first | rfl | exact h

/-- The zero value at a key. -/
def CanonicalKey.zeroValue : (k : CanonicalKey) → k.Value
  | .balance _ => Bytes.zero 32
  | .nonce _ => 0
  | .code _ => Bytes.zero 32
  | .storage _ _ => Bytes.zero 32
  | .transient _ _ => Bytes.zero 32

/-- The field at a key, once filled. -/
def CertificateFields.at? (fields : CertificateFields) : (k : CanonicalKey) → Option k.Value
  | .balance _ => fields.balance
  | .nonce _ => fields.nonce
  | .code _ => fields.codeHash
  | .storage _ _ => none
  | .transient _ _ => none

/-- The field of a snapshot at a key. -/
def ResolvedAccountSnapshot.at? (snapshot : ResolvedAccountSnapshot) :
    (k : CanonicalKey) → Option k.Value
  | .balance _ => some snapshot.balance
  | .nonce _ => some snapshot.nonce
  | .code _ => some snapshot.codeHash
  | .storage _ _ => none
  | .transient _ _ => none

/-- The field of a certificate at a key. -/
def CanonicalAccountCertificate.at? (c : CanonicalAccountCertificate) :
    (k : CanonicalKey) → Option k.Value
  | .balance _ => some c.balance
  | .nonce _ => some c.nonce
  | .code _ => some c.codeHash
  | .storage _ _ => none
  | .transient _ _ => none

lemma certificate_ext {c c' : CanonicalAccountCertificate} (haddress : c.address = c'.address)
    (hgeneration : c.generation = c'.generation)
    (hfield : ∀ k : CanonicalKey, k.isField = true → k.address = c.address → c.at? k = c'.at? k)
    (hroot : c.storageRoot = c'.storageRoot) : c = c' := by
  have hnonce := Option.some.inj (hfield (.nonce c.address) rfl rfl)
  have hbalance := Option.some.inj (hfield (.balance c.address) rfl rfl)
  have hcode := Option.some.inj (hfield (.code c.address) rfl rfl)
  obtain ⟨address, generation, nonce, balance, codeHash, storageRoot⟩ := c
  obtain ⟨address', generation', nonce', balance', codeHash', storageRoot'⟩ := c'
  obtain rfl : address = address' := haddress
  obtain rfl : generation = generation' := hgeneration
  obtain rfl : nonce = nonce' := hnonce
  obtain rfl : balance = balance' := hbalance
  obtain rfl : codeHash = codeHash' := hcode
  obtain rfl : storageRoot = storageRoot' := hroot
  rfl

/-- The effective value of a field: the terminal one if the table has it, else the
snapshot's. -/
def effective? (snapshotSource : AccountSnapshotSource)
    (table : OrdMap.Map CanonicalKey ReducedVariant) (k : CanonicalKey) : Option k.Value :=
  match terminal? table k with
  | some value => some value
  | none => (snapshotSource.recoverAccountSnapshot k.address).toOption.bind (·.at? k)

/-- An entry of the account fills the field of its own key. -/
lemma CertificateFields.at?_fill (fields : CertificateFields) {k k' : CanonicalKey}
    (hfield : k.isField = true) (haddress : k'.address = k.address)
    (t : ReducedTransition k'.Value) :
    (fields.fill (.of k' t)).at? k =
      if k' = k then (ReducedVariant.of k' t).terminalAt? k else fields.at? k := by
  cases k <;> cases k' <;>
    simp_all [CanonicalKey.isField, CanonicalKey.address, fill, ReducedVariant.of,
      CertificateFields.at?, ReducedVariant.terminalAt?]

/-- The fields that the entries of an address fill. -/
def fieldsOf (l : List (CanonicalKey × ReducedVariant)) (address : Address) :
    CertificateFields :=
  l.foldl (fun fields e => if e.1.address = address then fields.fill e.2 else fields) .default

lemma fieldsOf_append_singleton (l : List (CanonicalKey × ReducedVariant))
    (e : CanonicalKey × ReducedVariant) (address : Address) :
    fieldsOf (l ++ [e]) address =
      if e.1.address = address then (fieldsOf l address).fill e.2 else fieldsOf l address := by
  simp [fieldsOf]

lemma fieldsOf_eq_default {l : List (CanonicalKey × ReducedVariant)} {address : Address}
    (h : ∀ e ∈ l, e.1.address ≠ address) : fieldsOf l address = .default := by
  induction l using List.reverseRecOn with
  | nil => rfl
  | append_singleton l e ih =>
    rw [fieldsOf_append_singleton, if_neg (h e (by simp)), ih fun e' he' => h e' (by simp [he'])]

/-- A filled field is the terminal value of its entry. -/
lemma at?_fieldsOf_eq_some_iff {l : List (CanonicalKey × ReducedVariant)}
    (htyped : ∀ e ∈ l, ∃ t, e.2 = .of e.1 t) (hl : l.Pairwise fun a b => a.1 ≠ b.1)
    {k : CanonicalKey} (hfield : k.isField = true) {x : k.Value} :
    (fieldsOf l k.address).at? k = some x ↔
      ∃ variant, (k, variant) ∈ l ∧ variant.terminalAt? k = some x := by
  induction l using List.reverseRecOn with
  | nil => cases k <;> simp [fieldsOf, CertificateFields.default, CertificateFields.at?]
  | append_singleton l e ih =>
    obtain ⟨k', variant'⟩ := e
    obtain ⟨t, rfl⟩ : ∃ t, variant' = .of k' t := htyped (k', variant') (by simp)
    obtain ⟨hpre, -, hdistinct⟩ := List.pairwise_append.mp hl
    have hih := ih (fun e he => htyped e (by simp [he])) hpre
    rw [fieldsOf_append_singleton]
    have hother : k' ≠ k → ((fieldsOf l k.address).at? k = some x ↔
        ∃ variant, (k, variant) ∈ l ++ [(k', ReducedVariant.of k' t)] ∧
          variant.terminalAt? k = some x) := by
      intro hne
      rw [hih]
      simp [Ne.symm hne]
    by_cases haddress : k'.address = k.address
    · rw [if_pos haddress, CertificateFields.at?_fill _ hfield haddress]
      by_cases hk : k' = k
      · subst hk
        have hnot : ∀ variant, (k', variant) ∉ l := fun variant hmem =>
          hdistinct _ hmem _ (List.mem_singleton_self _) rfl
        simp [hnot]
      · rw [if_neg hk]
        exact hother hk
    · rw [if_neg haddress]
      exact hother fun hk => haddress (by rw [hk])

lemma at?_fieldsOf_toList {table : OrdMap.Map CanonicalKey ReducedVariant} (h : Typed table)
    {k : CanonicalKey} (hfield : k.isField = true) :
    (fieldsOf table.toList k.address).at? k = terminal? table k := by
  ext x
  rw [at?_fieldsOf_eq_some_iff ?_ (OrdMap.pairwise_toList table) hfield]
  · simp only [OrdMap.mem_toList_iff, terminal?, Option.bind_eq_some_iff]
  · rintro ⟨k', variant⟩ hmem
    exact h k' variant (OrdMap.mem_toList_iff.mp hmem)

/-! ## The builders and the certificates -/

variable {generations : List CanonicalGeneration} {snapshotSource : AccountSnapshotSource}

/-- What the builders hold after the entries `l`. -/
structure Built (generations : List CanonicalGeneration) (snapshotSource : AccountSnapshotSource)
    (l : List (CanonicalKey × ReducedVariant))
    (builders : OrdMap.Map Address CertificateBuilder) : Prop where
  absent : ∀ address : Address, (∀ e ∈ l, e.1.address ≠ address) → builders[address]? = none
  present : ∀ address : Address, (∃ e ∈ l, e.1.address = address) →
    ∃ generation, resolveOrElse generations snapshotSource address = .ok generation ∧
      builders[address]? = some { address := address, generation := generation
                                  fields := fieldsOf l address }

lemma Built.step {l : List (CanonicalKey × ReducedVariant)}
    {builders : OrdMap.Map Address CertificateBuilder}
    (h : Built generations snapshotSource l builders) (e : CanonicalKey × ReducedVariant)
    {b : CertificateBuilder}
    (hb : b.address = e.1.address ∧ b.fields = fieldsOf l e.1.address ∧
      resolveOrElse generations snapshotSource e.1.address = .ok b.generation) :
    Built generations snapshotSource (l ++ [e])
      (builders.insert e.1.address { b with fields := b.fields.fill e.2 }) where
  absent address hnot := by
    rw [OrdMap.getElem?_insert, if_neg (hnot e (by simp))]
    exact h.absent address fun e' he' => hnot e' (by simp [he'])
  present address hex := by
    rw [OrdMap.getElem?_insert, fieldsOf_append_singleton]
    by_cases haddress : e.1.address = address
    · subst haddress
      obtain ⟨hba, hbf, hbg⟩ := hb
      exact ⟨b.generation, hbg, by simp [hba, hbf]⟩
    · rw [if_neg haddress, if_neg haddress]
      refine h.present address ?_
      obtain ⟨e', he', hmem⟩ := hex
      rcases List.mem_append.mp he' with hl | hlast
      · exact ⟨e', hl, hmem⟩
      · rw [List.mem_singleton.mp hlast] at hmem
        exact absurd hmem haddress

lemma Built.collect {l rest : List (CanonicalKey × ReducedVariant)}
    {builders builders' : OrdMap.Map Address CertificateBuilder}
    (h : Built generations snapshotSource l builders)
    (hok : collectBuilders generations snapshotSource builders rest = .ok builders') :
    Built generations snapshotSource (l ++ rest) builders' := by
  induction rest generalizing l builders with
  | nil =>
    obtain rfl := Except.ok.inj hok
    rwa [List.append_nil]
  | cons e rest ih =>
    obtain ⟨k, variant⟩ := e
    rw [← List.singleton_append, ← List.append_assoc]
    by_cases hex : ∃ e ∈ l, e.1.address = k.address
    · obtain ⟨generation, hgen, hbuilder⟩ := h.present k.address hex
      simp only [collectBuilders, hbuilder, pure_bind] at hok
      have hstep := h.step (k, variant)
        (b := { address := k.address, generation := generation, fields := fieldsOf l k.address })
        ⟨rfl, rfl, hgen⟩
      exact ih hstep hok
    · have hnot : ∀ e ∈ l, e.1.address ≠ k.address := fun e he heq => hex ⟨e, he, heq⟩
      simp only [collectBuilders, h.absent k.address hnot, pure_bind] at hok
      obtain ⟨generation, hgen, hrest⟩ := Fallible.bind_eq_ok_iff.mp hok
      have hstep := h.step (k, variant)
        (b := { address := k.address, generation := generation, fields := .default })
        ⟨rfl, (fieldsOf_eq_default hnot).symm, hgen⟩
      exact ih hstep hrest

lemma built_collectBuilders {l : List (CanonicalKey × ReducedVariant)}
    {builders : OrdMap.Map Address CertificateBuilder}
    (hok : collectBuilders generations snapshotSource ∅ l = .ok builders) :
    Built generations snapshotSource l builders := by
  have hempty : Built generations snapshotSource [] ∅ := ⟨fun _ _ => by simp, by simp⟩
  exact hempty.collect hok

/-- Only an address with an entry has a builder. -/
lemma Built.of_getElem? {l : List (CanonicalKey × ReducedVariant)}
    {builders : OrdMap.Map Address CertificateBuilder}
    (h : Built generations snapshotSource l builders) {address : Address} {b : CertificateBuilder}
    (hb : builders[address]? = some b) :
    (∃ e ∈ l, e.1.address = address) ∧
      resolveOrElse generations snapshotSource address = .ok b.generation ∧
      b.address = address ∧ b.fields = fieldsOf l address := by
  by_cases hex : ∃ e ∈ l, e.1.address = address
  · obtain ⟨generation, hgen, hbuilder⟩ := h.present address hex
    obtain rfl := Option.some.inj (hbuilder.symm.trans hb)
    exact ⟨hex, hgen, rfl, rfl⟩
  · rw [h.absent address fun e he heq => hex ⟨e, he, heq⟩] at hb
    exact absurd hb (by simp)

lemma collectBuilders_congr {generations' : List CanonicalGeneration}
    {snapshotSource' : AccountSnapshotSource}
    (h : ∀ address, resolveOrElse generations snapshotSource address =
      resolveOrElse generations' snapshotSource' address)
    (builders : OrdMap.Map Address CertificateBuilder) (l : List (CanonicalKey × ReducedVariant)) :
    collectBuilders generations snapshotSource builders l =
      collectBuilders generations' snapshotSource' builders l := by
  induction l generalizing builders with
  | nil => rfl
  | cons entry l ih =>
    obtain ⟨key, variant⟩ := entry
    simp only [collectBuilders, h, ih]

/-- The fields of a finished certificate. -/
lemma finishCertificate_eq_ok {address : Address} {b : CertificateBuilder}
    {c : CanonicalAccountCertificate}
    (h : finishCertificate snapshotSource address b = .ok c) :
    c.address = b.address ∧ c.generation = b.generation ∧ c.storageRoot = .awaitingDerivation ∧
      ∀ k : CanonicalKey, k.isField = true → c.at? k =
        match b.fields.at? k with
        | some value => some value
        | none => (snapshotSource.recoverAccountSnapshot address).toOption.bind (·.at? k) := by
  obtain ⟨baddress, generation, nonce, balance, codeHash⟩ := b
  cases hsnap : snapshotSource.recoverAccountSnapshot address with
  | error e =>
    -- without a snapshot every field must have been written
    rcases nonce with _ | nonce <;> rcases balance with _ | balance <;>
      rcases codeHash with _ | codeHash <;>
      simp [finishCertificate, CertificateFields.recover, hsnap, requireField, bind, Except.bind,
        pure, Except.pure] at h
    subst h
    refine ⟨rfl, rfl, rfl, fun k hk => ?_⟩
    cases k <;> rfl
  | ok snapshot =>
    have hc : c = { address := baddress, generation := generation
                    nonce := nonce.getD snapshot.nonce, balance := balance.getD snapshot.balance
                    codeHash := codeHash.getD snapshot.codeHash
                    storageRoot := .awaitingDerivation } := by
      rcases nonce with _ | nonce <;> rcases balance with _ | balance <;>
        rcases codeHash with _ | codeHash <;>
        simp [finishCertificate, CertificateFields.recover, hsnap, requireField, bind, Except.bind,
          pure, Except.pure] at h <;>
        exact h.symm
    subst hc
    refine ⟨rfl, rfl, rfl, fun k hk => ?_⟩
    cases k with
    | balance a => cases balance <;> rfl
    | nonce a => cases nonce <;> rfl
    | code a => cases codeHash <;> rfl
    | storage a slot => exact absurd hk (by simp [CanonicalKey.isField])
    | transient a slot => exact absurd hk (by simp [CanonicalKey.isField])

/-- The certificate of an account is finished from the builder of its entries, in any
table. -/
lemma buildCanonicalCertificates_cases {table : OrdMap.Map CanonicalKey ReducedVariant}
    {certificates : OrdMap.Map Address CanonicalAccountCertificate}
    (h : buildCanonicalCertificates table generations snapshotSource = .ok certificates)
    (address : Address) :
    (certificates[address]? = none ∧ ¬ HasEntry table address) ∨
      ∃ b c, certificates[address]? = some c ∧ HasEntry table address ∧
        resolveOrElse generations snapshotSource address = .ok b.generation ∧
        b.address = address ∧ b.fields = fieldsOf table.toList address ∧
        finishCertificate snapshotSource address b = .ok c := by
  rw [buildCanonicalCertificates] at h
  obtain ⟨builders, hcollect, hmapped⟩ := Fallible.bind_eq_ok_iff.mp h
  have hbuilt := built_collectBuilders hcollect
  have hmap := OrdMap.getElem?_mapExcept hmapped address
  cases hb : builders[address]? with
  | some b =>
    rw [hb] at hmap
    obtain ⟨c, hfinish, hc⟩ := hmap
    obtain ⟨hex, hgen, haddress, hfields⟩ := hbuilt.of_getElem? hb
    exact .inr ⟨b, c, hc, hasEntry_iff.mpr hex, hgen, haddress, hfields, hfinish⟩
  | none =>
    rw [hb] at hmap
    refine .inl ⟨hmap, fun hentry => ?_⟩
    obtain ⟨generation, -, hbuilder⟩ := hbuilt.present address (hasEntry_iff.mp hentry)
    rw [hb] at hbuilder
    exact absurd hbuilder (by simp)

/-- **The certificates of a table.**  Exactly the accounts with an entry have one; it holds
the resolved generation, the effective value of every field, and no storage root yet. -/
theorem getElem?_buildCanonicalCertificates
    {table : OrdMap.Map CanonicalKey ReducedVariant} (htyped : Typed table)
    {certificates : OrdMap.Map Address CanonicalAccountCertificate}
    (h : buildCanonicalCertificates table generations snapshotSource = .ok certificates)
    (address : Address) :
    (certificates[address]? = none ∧ ¬ HasEntry table address) ∨
      ∃ c, certificates[address]? = some c ∧ HasEntry table address ∧ c.address = address ∧
        resolveOrElse generations snapshotSource address = .ok c.generation ∧
        c.storageRoot = .awaitingDerivation ∧
        ∀ k : CanonicalKey, k.isField = true → k.address = address →
          c.at? k = effective? snapshotSource table k := by
  rcases buildCanonicalCertificates_cases h address with
    ⟨hnone, hnot⟩ | ⟨b, c, hc, hentry, hgen, haddress, hfields, hfinish⟩
  · exact .inl ⟨hnone, hnot⟩
  · obtain ⟨haddress', hgeneration, hroot, hvalues⟩ := finishCertificate_eq_ok hfinish
    refine .inr ⟨c, hc, hentry, haddress'.trans haddress, hgeneration ▸ hgen, hroot, ?_⟩
    rintro k hfield rfl
    rw [hvalues k hfield, hfields, at?_fieldsOf_toList htyped hfield]
    rfl

end KaySentinel.Builder
