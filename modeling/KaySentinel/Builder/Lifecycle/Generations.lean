import KaySentinel.Builder.Certificate

/-!
# The generations of a lifecycle table

`generationsFrom` cuts the observations of one address into generations by recursion on the
observations.  The generations of a whole table come out of `Lifecycle.resolve` in the order
that canonicalization puts them in, and no two neighbours share a key, so neither the sort
nor the removal of duplicates changes the list (`generations_processBucket`).
-/

namespace KaySentinel.Builder

open Cse NormalForm

/-- The observations of an address come in the order of their ordinals. -/
def Chronological (observations : List ObservedLifecycle) : Prop :=
  observations.Pairwise fun o o' =>
    o.traceProvenance.traceOrdinal < o'.traceProvenance.traceOrdinal

instance (observations : List ObservedLifecycle) : Decidable (Chronological observations) :=
  inferInstanceAs (Decidable (List.Pairwise _ observations))

/-- Every address of the table has its observations in the order of their ordinals. -/
def ChronologicalTable (table : OrdMap.Map Address (List ObservedLifecycle)) : Prop :=
  ∀ (address : Address) (observations : List ObservedLifecycle),
    table[address]? = some observations → Chronological observations

namespace Lifecycle

/-- A generation under its key, as `Lifecycle.process` hands it to canonicalization. -/
def canonicalOf (g : GenerationRelation) : CanonicalGeneration where
  key := { address := g.address, generationId := g.generationId }
  begin := g.begin
  fin := g.fin

/-- The generations that the remaining observations of an address are cut into, when the
current one has number `id` and began at `begin`. -/
def generationsFrom (address : Address) (id : UInt32) (begin : TraceProvenance)
    (isOpen : Bool) : List ObservedLifecycle → List CanonicalGeneration
  | [] =>
      if isOpen then
        [{ key := { address := address, generationId := id }, begin := begin, fin := none }]
      else
        []
  | obs :: rest =>
      if obs.payload.isDestroyed then
        { key := { address := address, generationId := id }, begin := begin
          fin := some obs.traceProvenance } ::
            generationsFrom address (id + 1) obs.traceProvenance false rest
      else
        generationsFrom address id obs.traceProvenance true rest

/-- The generations of an address. -/
def generationsOf (address : Address) (observations : List ObservedLifecycle) :
    List CanonicalGeneration :=
  generationsFrom address 0
    ((observations.head?.map (·.traceProvenance)).getD .default) true observations

/-- The collisions among the remaining observations of an address. -/
def collisionsFrom (address : Address) (existed : Bool) (id : UInt32) :
    List ObservedLifecycle → List Diagnostic
  | [] => []
  | obs :: rest =>
      if obs.payload.isDestroyed then
        collisionsFrom address existed (id + 1) rest
      else if id = 0 ∧ existed = true then
        collisionDiagnostic address id obs.traceProvenance :: collisionsFrom address existed id rest
      else
        collisionsFrom address existed id rest

lemma isDestroyed_created (p : ContractCreated) :
    (CseLifecyclePayload.created p).isDestroyed = false := rfl

lemma isDestroyed_destroyed (p : ContractDestroyed) :
    (CseLifecyclePayload.destroyed p).isDestroyed = true := rfl

/-- The loop over the observations of an address, started at any generation. -/
lemma foldl_resolveStep (address : Address) (existed : Bool)
    (observations : List ObservedLifecycle) (s : ResolveState) :
    let t := observations.foldl (resolveStep address existed) s
    (t.generations ++ openGeneration address t).map canonicalOf =
        s.generations.map canonicalOf ++
          generationsFrom address s.currentGenId s.begin s.genOpen observations ∧
      t.diagnostics =
        s.diagnostics ++ collisionsFrom address existed s.currentGenId observations := by
  induction observations generalizing s with
  | nil =>
    cases hopen : s.genOpen <;>
      simp [openGeneration, generationsFrom, collisionsFrom, canonicalOf, hopen]
  | cons obs observations ih =>
    simp only [List.foldl_cons]
    obtain ⟨hgen, hdiag⟩ := ih (resolveStep address existed s obs)
    rw [hgen, hdiag]
    cases hp : obs.payload with
    | created p =>
      simp only [resolveStep, hp, generationsFrom, collisionsFrom, isDestroyed_created,
        Bool.false_eq_true, if_false, true_and]
      by_cases hid : s.currentGenId = 0 <;> cases existed <;> simp [hid]
    | destroyed p =>
      simp [resolveStep, hp, generationsFrom, collisionsFrom, isDestroyed_destroyed, canonicalOf]

/-- What `resolve` makes of the observations of one address. -/
lemma resolveAddress_eq (address : Address) (existed : Bool)
    (observations : List ObservedLifecycle) :
    (resolveAddress address existed observations).1.map canonicalOf =
        generationsOf address observations ∧
      (resolveAddress address existed observations).2 =
        collisionsFrom address existed 0 observations := by
  have h := foldl_resolveStep address existed observations
    { generations := [], diagnostics := [], currentGenId := 0
      begin := (observations.head?.map (·.traceProvenance)).getD .default, genOpen := true }
  simp only [List.map_nil, List.nil_append] at h
  exact h

/-! ## When the generations begin -/

lemma address_of_mem_generationsFrom {address : Address} {id : UInt32} {begin : TraceProvenance}
    {isOpen : Bool} {observations : List ObservedLifecycle} {g : CanonicalGeneration}
    (h : g ∈ generationsFrom address id begin isOpen observations) : g.key.address = address := by
  induction observations generalizing id begin isOpen with
  | nil =>
    cases isOpen with
    | false => exact absurd h (by simp [generationsFrom])
    | true => rw [List.mem_singleton.mp h]
  | cons obs rest ih =>
    rw [generationsFrom] at h
    split at h
    · rcases List.mem_cons.mp h with rfl | h
      · rfl
      · exact ih h
    · exact ih h

/-- A generation begins where the current one does, and then it is the current one, or
later. -/
lemma begin_of_mem_generationsFrom {address : Address} {id : UInt32} {begin : TraceProvenance}
    {isOpen : Bool} {observations : List ObservedLifecycle} {g : CanonicalGeneration}
    (hchron : Chronological observations)
    (hlt : ∀ o ∈ observations, begin.traceOrdinal < o.traceProvenance.traceOrdinal)
    (h : g ∈ generationsFrom address id begin isOpen observations) :
    begin.traceOrdinal < g.begin.traceOrdinal ∨
      begin = g.begin ∧ g.key.generationId = id := by
  induction observations generalizing id begin isOpen with
  | nil =>
    cases isOpen with
    | false => exact absurd h (by simp [generationsFrom])
    | true =>
      rw [List.mem_singleton.mp h]
      exact .inr ⟨rfl, rfl⟩
  | cons obs rest ih =>
    obtain ⟨hhead, hrest⟩ := List.pairwise_cons.mp hchron
    have hobs : begin.traceOrdinal < obs.traceProvenance.traceOrdinal := hlt obs (by simp)
    have hlater : ∀ {id' isOpen'},
        g ∈ generationsFrom address id' obs.traceProvenance isOpen' rest →
        begin.traceOrdinal < g.begin.traceOrdinal := by
      intro id' isOpen' hmem
      rcases ih hrest hhead hmem with hlt' | ⟨heq, -⟩
      · exact UInt64.lt_trans hobs hlt'
      · rwa [← heq]
    rw [generationsFrom] at h
    split at h
    · rcases List.mem_cons.mp h with rfl | h
      · exact .inr ⟨rfl, rfl⟩
      · exact .inl (hlater h)
    · exact .inl (hlater h)

/-- Once the current generation began before the remaining observations, no two generations
begin together. -/
lemma pairwise_begin_generationsFrom {address : Address} {id : UInt32} {begin : TraceProvenance}
    {isOpen : Bool} {observations : List ObservedLifecycle} (hchron : Chronological observations)
    (hlt : ∀ o ∈ observations, begin.traceOrdinal < o.traceProvenance.traceOrdinal) :
    (generationsFrom address id begin isOpen observations).Pairwise fun g g' =>
      g.begin.traceOrdinal < g'.begin.traceOrdinal := by
  induction observations generalizing id begin isOpen with
  | nil => cases isOpen <;> simp [generationsFrom]
  | cons obs rest ih =>
    obtain ⟨hhead, hrest⟩ := List.pairwise_cons.mp hchron
    rw [generationsFrom]
    split
    · refine List.pairwise_cons.mpr ⟨fun g hg => ?_, ih hrest hhead⟩
      have hobs : begin.traceOrdinal < obs.traceProvenance.traceOrdinal := hlt obs (by simp)
      rcases begin_of_mem_generationsFrom hrest hhead hg with hlt' | ⟨heq, -⟩
      · exact UInt64.lt_trans hobs hlt'
      · show begin.traceOrdinal < g.begin.traceOrdinal
        rwa [← heq]
    · exact ih hrest hhead

/-- The order that canonicalization puts the generations of one address in. -/
def BeginsBefore (g g' : CanonicalGeneration) : Prop :=
  g.begin.traceOrdinal < g'.begin.traceOrdinal ∨
    g.begin.traceOrdinal = g'.begin.traceOrdinal ∧ g.key.generationId < g'.key.generationId

/-- Only the first two generations can begin together: that is when the first observation is
a destruction. -/
lemma pairwise_beginsBefore_generationsOf (address : Address)
    {observations : List ObservedLifecycle} (hchron : Chronological observations) :
    (generationsOf address observations).Pairwise BeginsBefore := by
  cases observations with
  | nil => exact List.pairwise_singleton _ _
  | cons obs rest =>
    obtain ⟨hhead, hrest⟩ := List.pairwise_cons.mp hchron
    have htail : ∀ {id isOpen},
        (generationsFrom address id obs.traceProvenance isOpen rest).Pairwise BeginsBefore :=
      (pairwise_begin_generationsFrom hrest hhead).imp .inl
    rw [generationsOf, generationsFrom]
    split
    · refine List.pairwise_cons.mpr ⟨fun g hg => ?_, htail⟩
      rcases begin_of_mem_generationsFrom hrest hhead hg with hlt | ⟨heq, hid⟩
      · exact .inl hlt
      · refine .inr ⟨congrArg TraceProvenance.traceOrdinal heq, ?_⟩
        show (0 : UInt32) < g.key.generationId
        rw [hid]
        decide
    · exact htail

/-! ## The generations of a table -/

variable {table : OrdMap.Map Address (List ObservedLifecycle)}

/-- The generations of every address of a table, in the order of the addresses. -/
def generationsOfTable (table : OrdMap.Map Address (List ObservedLifecycle)) :
    List CanonicalGeneration :=
  table.toList.flatMap fun (address, observations) => generationsOf address observations

lemma address_of_mem_generationsOf {address : Address} {observations : List ObservedLifecycle}
    {g : CanonicalGeneration} (h : g ∈ generationsOf address observations) :
    g.key.address = address :=
  address_of_mem_generationsFrom h

lemma map_canonicalOf_resolve (table : OrdMap.Map Address (List ObservedLifecycle))
    (preStates : OrdMap.Map Address Bool) :
    (resolve table preStates).value.generations.map canonicalOf = generationsOfTable table := by
  simp only [resolve, generationsOfTable, List.map_flatMap, (resolveAddress_eq _ _ _).1]

lemma diagnostics_resolve (preStates : OrdMap.Map Address Bool) :
    (resolve table preStates).diagnostics =
      table.toList.flatMap fun (address, observations) =>
        collisionsFrom address (preStates[address]?.getD false) 0 observations := by
  simp only [resolve, (resolveAddress_eq _ _ _).2]

lemma isLE_cmp_of_beginsBefore {g g' : CanonicalGeneration}
    (haddress : g.key.address = g'.key.address) (h : BeginsBefore g g') :
    (g.cmp g').isLE = true := by
  have haddr : compare g.key.address g'.key.address = .eq := by
    rw [haddress]
    exact Std.ReflCmp.compare_self
  rw [CanonicalGeneration.cmp, haddr]
  rcases h with hlt | ⟨heq, hid⟩
  · rw [Std.compare_eq_lt.mpr hlt]
    rfl
  · have htie : compare g.begin.traceOrdinal g'.begin.traceOrdinal = .eq :=
      Std.LawfulEqCmp.compare_eq_iff_eq.mpr heq
    rw [htie, Std.compare_eq_lt.mpr hid]
    rfl

lemma isLE_cmp_of_address_lt {g g' : CanonicalGeneration}
    (h : compare g.key.address g'.key.address = .lt) : (g.cmp g').isLE = true := by
  rw [CanonicalGeneration.cmp, h]
  rfl

/-- The generations of a table come in the order of canonicalization. -/
lemma pairwise_isLE_generationsOfTable (hchron : ChronologicalTable table) :
    (generationsOfTable table).Pairwise fun g g' => (g.cmp g').isLE = true := by
  refine List.pairwise_flatMap.mpr ⟨?_, ?_⟩
  · rintro ⟨address, observations⟩ hmem
    refine (pairwise_beginsBefore_generationsOf address
      (hchron address observations (OrdMap.mem_toList_iff.mp hmem))).imp_of_mem ?_
    intro g g' hg hg' h
    exact isLE_cmp_of_beginsBefore ((address_of_mem_generationsOf hg).trans
      (address_of_mem_generationsOf hg').symm) h
  · refine table.ordered_keys_toList.imp ?_
    rintro ⟨a, oa⟩ ⟨b, ob⟩ hlt g hg g' hg'
    refine isLE_cmp_of_address_lt ?_
    rw [address_of_mem_generationsOf hg, address_of_mem_generationsOf hg']
    exact hlt

/-! ### Neighbours -/

/-- A relation that holds between generations of different addresses holds between
neighbours of the whole list if it does between those of each address. -/
lemma isChain_generationsOfTable_iff {R : CanonicalGeneration → CanonicalGeneration → Prop}
    (hR : ∀ g g', g.key.address ≠ g'.key.address → R g g') :
    (generationsOfTable table).IsChain R ↔
      ∀ (address : Address) (observations : List ObservedLifecycle),
        table[address]? = some observations → (generationsOf address observations).IsChain R := by
  have hlist : ∀ l : List (Address × List ObservedLifecycle), (l.Pairwise fun a b => a.1 ≠ b.1) →
      ((l.flatMap fun (address, observations) => generationsOf address observations).IsChain R ↔
        ∀ e ∈ l, (generationsOf e.1 e.2).IsChain R) := by
    intro l hl
    induction l with
    | nil => simp
    | cons e l ih =>
      obtain ⟨hhead, hrest⟩ := List.pairwise_cons.mp hl
      rw [List.flatMap_cons, List.isChain_append, ih hrest, List.forall_mem_cons]
      refine ⟨fun h => ⟨h.1, h.2.1⟩, fun h => ⟨h.1, h.2, ?_⟩⟩
      intro g hg g' hg'
      refine hR g g' ?_
      obtain ⟨e', he', hmem⟩ := List.mem_flatMap.mp (List.mem_of_mem_head? hg')
      rw [address_of_mem_generationsOf (List.mem_of_mem_getLast? hg),
        address_of_mem_generationsOf hmem]
      exact hhead e' he'
  rw [generationsOfTable, hlist _ (OrdMap.pairwise_toList table)]
  constructor
  · intro h address observations hget
    exact h (address, observations) (OrdMap.mem_toList_iff.mpr hget)
  · rintro h ⟨address, observations⟩ hmem
    exact h address observations (OrdMap.mem_toList_iff.mp hmem)

/-- Neighbouring generations of an address are numbered one after the other. -/
lemma isChain_id_generationsFrom {address : Address} {id : UInt32} {begin : TraceProvenance}
    {isOpen : Bool} {observations : List ObservedLifecycle} :
    (generationsFrom address id begin isOpen observations).IsChain
        (fun g g' => g'.key.generationId = g.key.generationId + 1) ∧
      ∀ g ∈ (generationsFrom address id begin isOpen observations).head?,
        g.key.generationId = id := by
  induction observations generalizing id begin isOpen with
  | nil => cases isOpen <;> simp [generationsFrom]
  | cons obs rest ih =>
    rw [generationsFrom]
    split
    · obtain ⟨hchain, hhead⟩ := @ih (id + 1) obs.traceProvenance false
      exact ⟨List.isChain_cons.mpr ⟨hhead, hchain⟩, by simp⟩
    · exact ih

/-- No two neighbours share a key, so that `dedup_by` drops none. -/
lemma isChain_key_generationsOfTable :
    (generationsOfTable table).IsChain fun g g' => g.key ≠ g'.key := by
  rw [isChain_generationsOfTable_iff]
  · intro address observations _
    refine List.IsChain.imp ?_ isChain_id_generationsFrom.1
    intro g g' hid heq
    rw [heq] at hid
    exact absurd hid (by simp)
  · intro g g' hne heq
    exact hne (congrArg GenerationKey.address heq)

/-- Canonicalization leaves the generations of a table as `resolve` lists them. -/
theorem generations_processBucket {bucket : ReducedTransactionBucket}
    (hchron : ChronologicalTable bucket.lifecycleTable) (preStates : OrdMap.Map Address Bool) :
    (processBucket preStates bucket).value.generations =
      generationsOfTable bucket.lifecycleTable := by
  have hmap := map_canonicalOf_resolve bucket.lifecycleTable preStates
  show normalize CanonicalGeneration.cmp CanonicalGeneration.key
    ((resolve bucket.lifecycleTable preStates).value.generations.map canonicalOf) = _
  rw [hmap, normalize_eq_self (pairwise_isLE_generationsOfTable hchron)
    isChain_key_generationsOfTable]

/-! ## Buckets with one lifecycle -/

/-- A bucket that holds nothing but the observations of one address. -/
def singleLifecycle (address : Address) (observations : List ObservedLifecycle) :
    ReducedTransactionBucket where
  metadata :=
    { chainId := 1, blockNumber := 0, blockHash := Bytes.zero 32
      transactionHash := Bytes.zero 32, transactionIndex := 0 }
  stateTable := ∅
  lifecycleTable := (∅ : OrdMap.Map Address (List ObservedLifecycle)).insert address observations
  logTable := ∅
  gasRefund := none

lemma getElem?_singleLifecycle {address address' : Address}
    {observations observations' : List ObservedLifecycle}
    (h : (singleLifecycle address observations).lifecycleTable[address']? = some observations') :
    address = address' ∧ observations = observations' := by
  rw [singleLifecycle, OrdMap.getElem?_insert] at h
  split at h
  · rename_i heq
    exact ⟨heq, Option.some.inj h⟩
  · exact absurd h (by simp)

/-- A creation of an address by itself. -/
def creationAt (address : Address) (ordinal : UInt64) : ObservedLifecycle where
  payload := .created { address := address, creator := address }
  eventId := ⟨ordinal⟩
  traceProvenance := { TraceProvenance.default with traceOrdinal := ordinal }

/-- A destruction of an address in favour of itself. -/
def destructionAt (address : Address) (ordinal : UInt64) : ObservedLifecycle where
  payload := .destroyed { address := address, refundTarget := address }
  eventId := ⟨ordinal⟩
  traceProvenance := { TraceProvenance.default with traceOrdinal := ordinal }

lemma chronologicalTable_singleLifecycle {address : Address} {observations : List ObservedLifecycle}
    (h : Chronological observations) :
    ChronologicalTable (singleLifecycle address observations).lifecycleTable := by
  intro address' observations' hget
  obtain ⟨rfl, rfl⟩ := getElem?_singleLifecycle hget
  exact h

end Lifecycle

end KaySentinel.Builder
