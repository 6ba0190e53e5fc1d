import KaySentinel.Builder.Lifecycle.Generations

/-!
# Resolving an address to its terminal generation

`resolveGenerationForAddress` picks the generation of an address with the greatest number
(`resolveGenerationForAddress_spec`).  On the generations of a lifecycle table that is the
last of them, and it is unique (`generations_resolved`).
-/

namespace KaySentinel.Builder

open Cse

/-! ## The terminal generation -/

/-- The greatest generation id is an upper bound and attained. -/
lemma foldl_max_generationId (l : List CanonicalGeneration) (m : UInt32) :
    m ≤ l.foldl (fun m g => max m g.key.generationId) m ∧
      (∀ g ∈ l, g.key.generationId ≤ l.foldl (fun m g => max m g.key.generationId) m) ∧
      (l.foldl (fun m g => max m g.key.generationId) m = m ∨
        ∃ g ∈ l, g.key.generationId = l.foldl (fun m g => max m g.key.generationId) m) := by
  induction l generalizing m with
  | nil => exact ⟨UInt32.le_refl m, by simp, .inl rfl⟩
  | cons g l ih =>
    obtain ⟨hle, hall, hattained⟩ := ih (max m g.key.generationId)
    have hmax : max m g.key.generationId =
        if m ≤ g.key.generationId then g.key.generationId else m := rfl
    rw [List.foldl_cons]
    by_cases hm : m ≤ g.key.generationId
    · rw [if_pos hm] at hmax
      rw [hmax] at hle hall hattained ⊢
      refine ⟨UInt32.le_trans hm hle, fun g' hg' => ?_, .inr ?_⟩
      · rcases List.mem_cons.mp hg' with rfl | hg'
        · exact hle
        · exact hall g' hg'
      · rcases hattained with heq | ⟨g', hg', heq⟩
        · exact ⟨g, by simp, heq.symm⟩
        · exact ⟨g', by simp [hg'], heq⟩
    · rw [if_neg hm] at hmax
      rw [hmax] at hle hall hattained ⊢
      refine ⟨hle, fun g' hg' => ?_, ?_⟩
      · rcases List.mem_cons.mp hg' with rfl | hg'
        · exact UInt32.le_trans (UInt32.le_of_lt (UInt32.not_le.mp hm)) hle
        · exact hall g' hg'
      · rcases hattained with heq | ⟨g', hg', heq⟩
        · exact .inl heq
        · exact .inr ⟨g', by simp [hg'], heq⟩

/-- `id` is the highest generation id of an address. -/
def IsHighest (generations : List CanonicalGeneration) (address : Address) (id : UInt32) : Prop :=
  (∃ g ∈ generations, g.key = ⟨address, id⟩) ∧
    ∀ g ∈ generations, g.key.address = address → g.key.generationId ≤ id

/-- Several entries have the highest generation id of the address. -/
def Ambiguous (generations : List CanonicalGeneration) (address : Address) : Prop :=
  ∃ id, IsHighest generations address id ∧
    1 < (generations.filter (·.key = ⟨address, id⟩)).length

/-- Exactly one entry has the highest generation id of the address, and `generation` is it. -/
def ResolvesTo (generations : List CanonicalGeneration) (address : Address)
    (generation : VerifiedGeneration) : Prop :=
  ∃ id, IsHighest generations address id ∧
    (generations.filter (·.key = ⟨address, id⟩)).length = 1 ∧
      generation = { key := ⟨address, id⟩, stateTableProofRoot := Bytes.zero 32 }

lemma IsHighest.unique {generations : List CanonicalGeneration} {address : Address}
    {id id' : UInt32} (h : IsHighest generations address id)
    (h' : IsHighest generations address id') : id = id' := by
  obtain ⟨⟨g, hg, hkey⟩, hmax⟩ := h
  obtain ⟨⟨g', hg', hkey'⟩, hmax'⟩ := h'
  have hle := hmax g' hg' (by rw [hkey'])
  have hge := hmax' g hg (by rw [hkey])
  rw [hkey'] at hle
  rw [hkey] at hge
  exact UInt32.le_antisymm hge hle

lemma ResolvesTo.unique {generations : List CanonicalGeneration} {address : Address}
    {generation generation' : VerifiedGeneration} (h : ResolvesTo generations address generation)
    (h' : ResolvesTo generations address generation') : generation = generation' := by
  obtain ⟨id, hhighest, -, rfl⟩ := h
  obtain ⟨id', hhighest', -, rfl⟩ := h'
  rw [hhighest.unique hhighest']

lemma Ambiguous.not_resolvesTo {generations : List CanonicalGeneration} {address : Address}
    (h : Ambiguous generations address) (generation : VerifiedGeneration) :
    ¬ResolvesTo generations address generation := by
  rintro ⟨id, hhighest, hlength, -⟩
  obtain ⟨id', hhighest', hlength'⟩ := h
  rw [hhighest.unique hhighest'] at hlength
  omega

/-- **Resolution.**  An address has no entry, or several with its highest id, or exactly one. -/
theorem resolveGenerationForAddress_spec (generations : List CanonicalGeneration)
    (address : Address) :
    ((∀ g ∈ generations, g.key.address ≠ address) ∧
        resolveGenerationForAddress generations address = .error (.identityAbsent address)) ∨
      (Ambiguous generations address ∧
        resolveGenerationForAddress generations address = .error (.identityAmbiguous address)) ∨
      ∃ generation, ResolvesTo generations address generation ∧
        resolveGenerationForAddress generations address = .ok generation := by
  rw [resolveGenerationForAddress]
  cases hfilter : generations.filter (·.key.address = address) with
  | nil =>
    refine .inl ⟨fun g hg haddress => ?_, rfl⟩
    have hmem : g ∈ generations.filter (·.key.address = address) := by simp [hg, haddress]
    rw [hfilter] at hmem
    exact absurd hmem (by simp)
  | cons first rest =>
    obtain ⟨hle, hall, hattained⟩ := foldl_max_generationId rest first.key.generationId
    simp only
    generalize rest.foldl (fun m g => max m g.key.generationId) first.key.generationId = id
      at hle hall hattained ⊢
    have hmem : ∀ g, g ∈ first :: rest ↔ g ∈ generations ∧ g.key.address = address := by
      intro g
      rw [← hfilter, List.mem_filter, decide_eq_true_eq]
    have hterminal : (first :: rest).filter (·.key.generationId = id) =
        generations.filter (·.key = ⟨address, id⟩) := by
      rw [← hfilter, List.filter_filter]
      refine List.filter_congr fun g _ => ?_
      rw [← Bool.decide_and, decide_eq_decide, GenerationKey.ext_iff]
      exact and_comm
    have hhighest : IsHighest generations address id := by
      refine ⟨?_, fun g hg haddress => ?_⟩
      · obtain ⟨g, hg, hid⟩ : ∃ g ∈ first :: rest, g.key.generationId = id := by
          rcases hattained with heq | ⟨g, hg, heq⟩
          · exact ⟨first, by simp, heq.symm⟩
          · exact ⟨g, by simp [hg], heq⟩
        obtain ⟨hg, haddress⟩ := (hmem g).mp hg
        exact ⟨g, hg, GenerationKey.ext haddress hid⟩
      · rcases List.mem_cons.mp ((hmem g).mpr ⟨hg, haddress⟩) with rfl | hg
        · exact hle
        · exact hall g hg
    rw [hterminal]
    by_cases hlength : (generations.filter (·.key = ⟨address, id⟩)).length > 1
    · rw [if_pos hlength]
      exact .inr (.inl ⟨⟨id, hhighest, hlength⟩, rfl⟩)
    · -- the terminal entry is the one left
      have hpos : 0 < (generations.filter (·.key = ⟨address, id⟩)).length := by
        obtain ⟨g, hg, hkey⟩ := hhighest.1
        exact List.length_pos_of_mem (List.mem_filter.mpr ⟨hg, by simp [hkey]⟩)
      obtain ⟨g, hone⟩ := List.length_eq_one_iff.mp
        (show (generations.filter (·.key = ⟨address, id⟩)).length = 1 by omega)
      have hkey : g.key = ⟨address, id⟩ := by
        have hg : g ∈ generations.filter (·.key = ⟨address, id⟩) := by simp [hone]
        simpa using (List.mem_filter.mp hg).2
      refine .inr (.inr ⟨_, ⟨id, hhighest, by omega, rfl⟩, ?_⟩)
      rw [if_neg hlength, hone, List.headD_cons, hkey]

/-- A generation of the zero address. -/
def generationAt (generationId : UInt32) (begin : UInt64) (fin : Option UInt64) :
    CanonicalGeneration where
  key := { address := Bytes.zero 20, generationId := generationId }
  begin := { TraceProvenance.default with traceOrdinal := begin }
  fin := fin.map fun ordinal => { TraceProvenance.default with traceOrdinal := ordinal }

/-- Among generations with distinct keys the terminal one of an address is unique: there is
none, or the one with the greatest id. -/
lemma resolveGenerationForAddress_cases {generations : List CanonicalGeneration}
    (hnodup : (generations.map (·.key)).Nodup) (address : Address) :
    ((∀ key ∈ generations.map (·.key), key.address ≠ address) ∧
        resolveGenerationForAddress generations address = .error (.identityAbsent address)) ∨
      ∃ key ∈ generations.map (·.key), key.address = address ∧
        (∀ key' ∈ generations.map (·.key), key'.address = address →
          key'.generationId ≤ key.generationId) ∧
        resolveGenerationForAddress generations address =
          .ok { key := key, stateTableProofRoot := Bytes.zero 32 } := by
  simp only [List.forall_mem_map]
  rcases resolveGenerationForAddress_spec generations address with
    habsent | ⟨⟨id, -, hlength⟩, -⟩ | ⟨generation, ⟨id, ⟨⟨g, hg, hkey⟩, hmax⟩, -, rfl⟩, hok⟩
  · exact .inl habsent
  · -- distinct keys leave no room for a second entry
    have hone : (generations.filter (·.key = ⟨address, id⟩)).length ≤ 1 := by
      rw [← List.countP_eq_length_filter]
      have hcount := List.nodup_iff_count_le_one.mp hnodup ⟨address, id⟩
      rwa [List.count, List.countP_map] at hcount
    omega
  · refine .inr ⟨_, List.mem_map_of_mem hg, by rw [hkey], ?_, by rw [hok, hkey]⟩
    rw [hkey]
    exact hmax

/-- The terminal generation depends on the keys of the generations alone, in any order. -/
theorem resolveGenerationForAddress_congr {generations generations' : List CanonicalGeneration}
    (hnodup : (generations.map (·.key)).Nodup)
    (hperm : (generations.map (·.key)).Perm (generations'.map (·.key))) (address : Address) :
    resolveGenerationForAddress generations address =
      resolveGenerationForAddress generations' address := by
  have hnodup' := hperm.nodup_iff.mp hnodup
  rcases resolveGenerationForAddress_cases hnodup address with
    ⟨habsent, heq⟩ | ⟨key, hkey, haddress, hmax, heq⟩
  · rcases resolveGenerationForAddress_cases hnodup' address with
      ⟨-, heq'⟩ | ⟨key', hkey', haddress', -, -⟩
    · rw [heq, heq']
    · exact absurd haddress' (habsent key' (hperm.mem_iff.mpr hkey'))
  · rcases resolveGenerationForAddress_cases hnodup' address with
      ⟨habsent, -⟩ | ⟨key', hkey', haddress', hmax', heq'⟩
    · exact absurd haddress (habsent key (hperm.mem_iff.mp hkey))
    · have hid : key.generationId = key'.generationId :=
        UInt32.le_antisymm (hmax' key (hperm.mem_iff.mp hkey) haddress)
          (hmax key' (hperm.mem_iff.mpr hkey') haddress')
      have hsame : key = key' := GenerationKey.ext (haddress.trans haddress'.symm) hid
      rw [heq, heq', hsame]

namespace Lifecycle

/-! ## The generations of one address of a table -/

variable {table : OrdMap.Map Address (List ObservedLifecycle)}

/-- One generation for each destruction, and one more if the last observation is a
creation. -/
def lifetimeCount (kinds : List CseLifecyclePayload) : ℕ :=
  kinds.countP CseLifecyclePayload.isDestroyed +
    if kinds.getLast?.any (!·.isDestroyed) then 1 else 0

lemma generationCount_eq_lifetimeCount (isOpen : Bool) {kinds : List CseLifecyclePayload}
    (h : kinds ≠ []) : generationCount isOpen kinds = lifetimeCount kinds := by
  induction kinds generalizing isOpen with
  | nil => exact absurd rfl h
  | cons kind rest ih =>
    cases rest with
    | nil => cases kind <;> rfl
    | cons kind' rest =>
      have hrest : ∀ isOpen', generationCount isOpen' (kind' :: rest) =
          lifetimeCount (kind' :: rest) := fun isOpen' => ih isOpen' (by simp)
      have hlast : (kind :: kind' :: rest).getLast? = (kind' :: rest).getLast? := by
        rw [List.getLast?_cons_cons]
      rw [lifetimeCount, hlast, List.countP_cons]
      cases kind with
      | created p =>
        show generationCount true (kind' :: rest) = _
        rw [hrest, lifetimeCount, isDestroyed_created]
        simp
      | destroyed p =>
        show generationCount false (kind' :: rest) + 1 = _
        rw [hrest, lifetimeCount, isDestroyed_destroyed, if_pos rfl]
        omega

lemma generationCount_true_pos (kinds : List CseLifecyclePayload) :
    0 < generationCount true kinds := by
  induction kinds with
  | nil => decide
  | cons kind rest ih =>
    cases kind with
    | created p => exact ih
    | destroyed p => exact Nat.succ_pos _

lemma map_key_generationsOf (address : Address) (observations : List ObservedLifecycle) :
    (generationsOf address observations).map (·.key) =
      generationKeys address 0 (generationCount true (observations.map (·.payload))) := by
  rw [← map_key_resolveAddress address false, ← (resolveAddress_eq address false _).1, List.map_map]
  rfl

lemma map_key_generationsOfTable :
    (generationsOfTable table).map (·.key) = tableKeys table := by
  simp only [generationsOfTable, tableKeys, List.map_flatMap, map_key_generationsOf]

lemma filter_generationsOf (address address' : Address) (observations : List ObservedLifecycle) :
    (generationsOf address' observations).filter (·.key.address = address) =
      if address' = address then generationsOf address' observations else [] := by
  split
  · rename_i heq
    refine List.filter_eq_self.mpr fun g hg => ?_
    simpa [heq] using address_of_mem_generationsOf hg
  · rename_i hne
    refine List.filter_eq_nil_iff.mpr fun g hg => ?_
    simpa [address_of_mem_generationsOf hg] using hne

/-- The generations of a table that belong to an address are those of its observations. -/
lemma filter_generationsOfTable (table : OrdMap.Map Address (List ObservedLifecycle))
    (address : Address) :
    (generationsOfTable table).filter (·.key.address = address) =
      (table[address]?.map (generationsOf address)).getD [] := by
  rw [generationsOfTable, List.filter_flatMap]
  simp only [filter_generationsOf]
  cases hget : table[address]? with
  | none =>
    refine List.flatMap_eq_nil_iff.mpr ?_
    rintro ⟨a, observations⟩ hmem
    refine if_neg ?_
    rintro rfl
    rw [OrdMap.mem_toList_iff.mp hmem] at hget
    exact absurd hget (by simp)
  | some observations =>
    obtain ⟨l₁, l₂, hsplit⟩ := List.append_of_mem (OrdMap.mem_toList_iff.mpr hget)
    have hdistinct := OrdMap.pairwise_toList table
    rw [hsplit] at hdistinct ⊢
    obtain ⟨-, hright, hleft⟩ := List.pairwise_append.mp hdistinct
    have hnil : ∀ l : List (Address × List ObservedLifecycle), (∀ e ∈ l, e.1 ≠ address) →
        (l.flatMap fun e => if e.1 = address then generationsOf e.1 e.2 else []) = [] := by
      intro l hl
      exact List.flatMap_eq_nil_iff.mpr fun e he => if_neg (hl e he)
    rw [List.flatMap_append, List.flatMap_cons]
    rw [hnil l₁ fun e he => hleft e he (address, observations) (by simp),
      hnil l₂ fun e he => ((List.pairwise_cons.mp hright).1 e he).symm]
    simp

lemma toNat_map_generationKeys (address : Address) {n : ℕ} (h : n ≤ 2 ^ 32) :
    (generationKeys address 0 n).map (·.generationId.toNat) = List.range n := by
  rw [generationKeys, List.map_map, List.range_eq_range']
  conv_rhs => rw [← List.map_id (List.range' 0 n)]
  refine List.map_congr_left fun i hi => ?_
  obtain ⟨j, hj, rfl⟩ := List.mem_range'.mp hi
  show (UInt32.ofNat (0 + 1 * j)).toNat = 0 + 1 * j
  rw [UInt32.toNat_ofNat', Nat.mod_eq_of_lt (by omega)]

/-- An address of the table resolves to the last of its generations. -/
lemma resolveGenerationForAddress_generationsOfTable {address : Address}
    {observations : List ObservedLifecycle} (hfew : FewDestroyed table)
    (hget : table[address]? = some observations) :
    resolveGenerationForAddress (generationsOfTable table) address =
      .ok { key :=
              { address := address
                generationId := UInt32.ofNat
                  (generationCount true (observations.map (·.payload)) - 1) }
            stateTableProofRoot := Bytes.zero 32 } := by
  have hnodup : ((generationsOfTable table).map (·.key)).Nodup := by
    rw [map_key_generationsOfTable]
    exact nodup_tableKeys hfew
  have hcount := generationCount_le true (observations.map (·.payload))
  have hsmall := hfew address observations hget
  set n := generationCount true (observations.map (·.payload)) with hn
  have hkeys : ∀ key : GenerationKey, key.address = address →
      (key ∈ (generationsOfTable table).map (·.key) ↔ key ∈ generationKeys address 0 n) := by
    intro key haddress
    have hfilter := filter_generationsOfTable table address
    rw [hget, Option.map_some, Option.getD_some] at hfilter
    rw [hn, ← map_key_generationsOf, ← hfilter]
    constructor
    · intro h
      obtain ⟨g, hg, rfl⟩ := List.mem_map.mp h
      exact List.mem_map_of_mem (List.mem_filter.mpr ⟨hg, by simpa using haddress⟩)
    · intro h
      obtain ⟨g, hg, rfl⟩ := List.mem_map.mp h
      exact List.mem_map_of_mem (List.mem_filter.mp hg).1
  have hpos : 0 < n := by
    rw [hn]
    exact generationCount_true_pos _
  -- the key of the last generation
  have hlast : ({ address := address, generationId := UInt32.ofNat (n - 1) } : GenerationKey) ∈
      generationKeys address 0 n :=
    List.mem_map.mpr ⟨n - 1, List.mem_range'_1.mpr (by omega), rfl⟩
  rcases resolveGenerationForAddress_cases hnodup address with
    ⟨habsent, -⟩ | ⟨key, hkey, haddress, hmax, heq⟩
  · exact absurd rfl (habsent _ ((hkeys _ rfl).mpr hlast))
  · obtain ⟨i, hi, rfl⟩ := List.mem_map.mp ((hkeys key haddress).mp hkey)
    have hle := UInt32.le_iff_toNat_le.mp (hmax _ ((hkeys _ rfl).mpr hlast) rfl)
    have hbound := List.mem_range'_1.mp hi
    simp only [UInt32.toNat_ofNat'] at hle
    rw [Nat.mod_eq_of_lt (by omega), Nat.mod_eq_of_lt (by omega)] at hle
    obtain rfl : i = n - 1 := by omega
    exact heq

lemma resolveGenerationForAddress_absent {address : Address} (hget : table[address]? = none) :
    resolveGenerationForAddress (generationsOfTable table) address =
      .error (.identityAbsent address) := by
  rw [resolveGenerationForAddress, filter_generationsOfTable, hget]
  rfl

/-- What both lifecycle passes make of a bucket: canonicalization keeps every generation, the
generations of an address with observations are numbered from zero in the order in which they
begin, and the address resolves to the last of them. -/
theorem generations_resolved {ir : ReducedIr} {i : ℕ} {bucket : ReducedTransactionBucket}
    (hbucket : ir[i]? = some bucket) (hchron : ChronologicalTable bucket.lifecycleTable)
    (hfew : FewDestroyed bucket.lifecycleTable) (preStates : OrdMap.Map Address Bool) :
    ∃ out, (process ir preStates)[i]? = some out ∧
      out.value.generations =
        (resolve bucket.lifecycleTable preStates).value.generations.map canonicalOf ∧
      (∀ (address : Address) (observations : List ObservedLifecycle),
        bucket.lifecycleTable[address]? = some observations → observations ≠ [] →
          ((out.value.generations.filter (·.key.address = address)).map
              (·.key.generationId.toNat) =
            List.range (lifetimeCount (observations.map (·.payload)))) ∧
          ((out.value.generations.filter (·.key.address = address)).Pairwise fun g g' =>
            g.begin.traceOrdinal ≤ g'.begin.traceOrdinal) ∧
          resolveGenerationForAddress out.value.generations address =
            .ok { key :=
                    { address := address
                      generationId := UInt32.ofNat
                        (lifetimeCount (observations.map (·.payload)) - 1) }
                  stateTableProofRoot := Bytes.zero 32 }) ∧
      (∀ address : Address, bucket.lifecycleTable[address]? = none →
        resolveGenerationForAddress out.value.generations address =
          .error (.identityAbsent address)) ∧
      (∀ address : Address, bucket.lifecycleTable[address]? = some [] →
        resolveGenerationForAddress out.value.generations address =
          .ok { key := { address := address, generationId := 0 }
                stateTableProofRoot := Bytes.zero 32 }) ∧
      ∀ address address' : Address, resolveGenerationForAddress out.value.generations address ≠
        .error (.identityAmbiguous address') := by
  refine ⟨processBucket preStates bucket, ?_, ?_⟩
  · rw [process, List.getElem?_map, hbucket]
    rfl
  rw [generations_processBucket hchron, map_canonicalOf_resolve]
  refine ⟨rfl, ?_, fun address => resolveGenerationForAddress_absent, ?_, ?_⟩
  · intro address observations hget hne
    have hkinds : observations.map (·.payload) ≠ [] := by simpa using hne
    have hcount := generationCount_le true (observations.map (·.payload))
    have hsmall := hfew address observations hget
    have hresolve := resolveGenerationForAddress_generationsOfTable hfew hget
    rw [generationCount_eq_lifetimeCount true hkinds] at hcount hresolve
    rw [filter_generationsOfTable, hget, Option.map_some, Option.getD_some]
    refine ⟨?_, ?_, hresolve⟩
    · have hkeys := congrArg (List.map (·.generationId.toNat))
        (map_key_generationsOf address observations)
      rw [List.map_map, generationCount_eq_lifetimeCount true hkinds,
        toNat_map_generationKeys address (by omega)] at hkeys
      exact hkeys
    · refine (pairwise_beginsBefore_generationsOf address (hchron _ _ hget)).imp ?_
      rintro g g' (hlt | ⟨heq, -⟩)
      · exact UInt64.le_of_lt hlt
      · exact UInt64.le_of_eq heq
  · intro address hget
    exact resolveGenerationForAddress_generationsOfTable hfew hget
  · intro address address'
    cases hget : bucket.lifecycleTable[address]? with
    | none =>
      rw [resolveGenerationForAddress_absent hget]
      simp
    | some observations =>
      rw [resolveGenerationForAddress_generationsOfTable hfew hget]
      simp

/-- An address whose list of observations is empty is not absent: it has one generation. -/
theorem empty_entry_resolves :
    ChronologicalTable (singleLifecycle (Bytes.zero 20) []).lifecycleTable ∧
      FewDestroyed (singleLifecycle (Bytes.zero 20) []).lifecycleTable ∧
      (singleLifecycle (Bytes.zero 20) []).lifecycleTable[Bytes.zero 20]?.getD [] = [] ∧
      resolveGenerationForAddress
          (processBucket ∅ (singleLifecycle (Bytes.zero 20) [])).value.generations
          (Bytes.zero 20) ≠ .error (.identityAbsent (Bytes.zero 20)) := by
  refine ⟨chronologicalTable_singleLifecycle List.Pairwise.nil, ?_, rfl, ?_⟩
  · intro address observations hget
    obtain ⟨-, rfl⟩ := getElem?_singleLifecycle hget
    decide
  · decide

/-- An account destroyed and created again. -/
def rebornBucket : ReducedTransactionBucket :=
  singleLifecycle (Bytes.zero 20) [destructionAt (Bytes.zero 20) 3, creationAt (Bytes.zero 20) 5]

/-- It has two generations. -/
theorem rebornBucket_resolves :
    ∃ out, (process [rebornBucket] ∅)[0]? = some out ∧
      resolveGenerationForAddress out.value.generations (Bytes.zero 20) =
        .ok { key := { address := Bytes.zero 20, generationId := 1 }
              stateTableProofRoot := Bytes.zero 32 } := by
  have hbucket : [rebornBucket][0]? = some rebornBucket := rfl
  have hchron : ChronologicalTable rebornBucket.lifecycleTable :=
    chronologicalTable_singleLifecycle (by decide)
  have hfew : FewDestroyed rebornBucket.lifecycleTable := by
    intro address observations hget
    obtain ⟨-, rfl⟩ := getElem?_singleLifecycle hget
    decide
  obtain ⟨out, hout, -, haddress, -⟩ := generations_resolved hbucket hchron hfew ∅
  exact ⟨out, hout, (haddress (Bytes.zero 20) _ rfl (by simp)).2.2⟩

end Lifecycle

end KaySentinel.Builder
