import KaySentinel.Builder.Lifecycle.Schema

/-!
# Which lifecycles the verification accepts

The verification of a bucket reports nothing exactly if no list of observations starts with
a destruction, none destroys an account twice in a row, no creation meets the pre-state of
an existing account and no address has more than `2 ^ 32` generations
(`isValid_processBucket_iff`).  That is neither implied by alternation nor implies it.
-/

namespace KaySentinel.Builder

open Cse

namespace Lifecycle

variable {table : OrdMap.Map Address (List ObservedLifecycle)} {preStates : OrdMap.Map Address Bool}

/-- Creations and destructions alternate, and the first is a destruction exactly if the
account existed. -/
def Alternates (existed : Bool) (kinds : List CseLifecyclePayload) : Prop :=
  (∀ kind ∈ kinds.head?, kind.isDestroyed = existed) ∧
    kinds.IsChain fun kind kind' => kind'.isDestroyed = !kind.isDestroyed

/-- The account did or did not exist before the transaction. -/
def existedBefore (preStates : OrdMap.Map Address Bool) (address : Address) : Bool :=
  preStates[address]?.getD false

/-- Every address of the table has a lifecycle that alternates from its pre-state on. -/
def AlternatingTable (preStates : OrdMap.Map Address Bool)
    (table : OrdMap.Map Address (List ObservedLifecycle)) : Prop :=
  ∀ (address : Address) (observations : List ObservedLifecycle),
    table[address]? = some observations →
      Alternates (existedBefore preStates address) (observations.map (·.payload))

lemma alternates_cons_iff {existed : Bool} {kind : CseLifecyclePayload}
    {kinds : List CseLifecyclePayload} :
    Alternates existed (kind :: kinds) ↔
      kind.isDestroyed = existed ∧ Alternates (!existed) kinds := by
  rw [Alternates, Alternates, List.isChain_cons, List.head?_cons]
  constructor
  · rintro ⟨hfirst, hnext, hchain⟩
    have hkind := hfirst kind rfl
    exact ⟨hkind, fun kind' h => by rw [hnext kind' h, hkind], hchain⟩
  · rintro ⟨hkind, hnext, hchain⟩
    refine ⟨fun kind' h => ?_, fun kind' h => by rw [hnext kind' h, hkind], hchain⟩
    obtain rfl := Option.some.inj h
    exact hkind

/-- An alternating lifecycle has a generation for each creation, and one for an account
that existed. -/
lemma generationCount_of_alternates {existed : Bool} {kinds : List CseLifecyclePayload}
    (h : Alternates existed kinds) :
    generationCount existed kinds =
      kinds.countP (!·.isDestroyed) + if existed then 1 else 0 := by
  induction kinds generalizing existed with
  | nil => cases existed <;> rfl
  | cons kind kinds ih =>
    obtain ⟨hkind, hrest⟩ := alternates_cons_iff.mp h
    have hcount := ih hrest
    rw [List.countP_cons]
    cases kind with
    | created p =>
      obtain rfl : false = existed := hkind
      show generationCount true kinds = _
      simpa [isDestroyed_created] using hcount
    | destroyed p =>
      obtain rfl : true = existed := hkind
      show generationCount false kinds + 1 = _
      simp [isDestroyed_destroyed] at hcount ⊢
      omega

/-! ## The generations of one address -/

/-- The observations neither start with a destruction nor have two in a row. -/
def Separated (observations : List ObservedLifecycle) : Prop :=
  (∀ o ∈ observations.head?, o.payload.isDestroyed = false) ∧
    observations.IsChain fun o o' => o.payload.isDestroyed = true → o'.payload.isDestroyed = false

lemma intervalValid_generationsFrom {address : Address} {id : UInt32} {begin : TraceProvenance}
    {isOpen : Bool} {observations : List ObservedLifecycle} (hchron : Chronological observations)
    (hlt : ∀ o ∈ observations, begin.traceOrdinal < o.traceProvenance.traceOrdinal) :
    ∀ g ∈ generationsFrom address id begin isOpen observations, g.IntervalValid := by
  induction observations generalizing id begin isOpen with
  | nil => cases isOpen <;> simp [generationsFrom, CanonicalGeneration.IntervalValid]
  | cons obs rest ih =>
    obtain ⟨hhead, hrest⟩ := List.pairwise_cons.mp hchron
    rw [generationsFrom]
    split
    · refine List.forall_mem_cons.mpr ⟨?_, ih hrest hhead⟩
      intro e he
      obtain rfl := Option.some.inj he
      exact hlt obs (by simp)
    · exact ih hrest hhead

/-- The generation after a destruction begins later exactly if a creation comes next. -/
lemma begins_after_iff (address : Address) (id : UInt32) {begin : TraceProvenance}
    {observations : List ObservedLifecycle} (hchron : Chronological observations)
    (hlt : ∀ o ∈ observations, begin.traceOrdinal < o.traceProvenance.traceOrdinal) :
    (∀ g ∈ (generationsFrom address id begin false observations).head?,
        begin.traceOrdinal < g.begin.traceOrdinal) ↔
      ∀ o ∈ observations.head?, o.payload.isDestroyed = false := by
  cases observations with
  | nil => simp [generationsFrom]
  | cons obs rest =>
    obtain ⟨hhead, hrest⟩ := List.pairwise_cons.mp hchron
    rw [generationsFrom]
    cases hp : obs.payload.isDestroyed with
    | true =>
      simp only [if_true, List.head?_cons, Option.mem_some_iff, forall_eq', hp,
        Bool.true_eq_false, iff_false]
      exact UInt64.lt_irrefl _
    | false =>
      simp only [Bool.false_eq_true, if_false, List.head?_cons, Option.mem_some_iff, forall_eq', hp,
        iff_true]
      intro g hg
      have hobs : begin.traceOrdinal < obs.traceProvenance.traceOrdinal := hlt obs (by simp)
      rcases begin_of_mem_generationsFrom hrest hhead (List.mem_of_mem_head? hg) with
        hlater | ⟨heq, -⟩
      · exact UInt64.lt_trans hobs hlater
      · rwa [← heq]

lemma isChain_endsBefore_generationsFrom {address : Address} {id : UInt32}
    {begin : TraceProvenance} {isOpen : Bool} {observations : List ObservedLifecycle}
    (hchron : Chronological observations) :
    (generationsFrom address id begin isOpen observations).IsChain
        CanonicalGeneration.EndsBefore ↔
      observations.IsChain fun o o' =>
        o.payload.isDestroyed = true → o'.payload.isDestroyed = false := by
  induction observations generalizing id begin isOpen with
  | nil => cases isOpen <;> simp [generationsFrom]
  | cons obs rest ih =>
    obtain ⟨hhead, hrest⟩ := List.pairwise_cons.mp hchron
    rw [generationsFrom, List.isChain_cons]
    cases hp : obs.payload.isDestroyed with
    | true =>
      rw [if_pos rfl, List.isChain_cons, ih hrest]
      refine and_congr_left fun _ => ?_
      simp only [forall_const]
      rw [← begins_after_iff address (id + 1) hrest hhead]
      constructor
      · intro h g hg
        exact h g hg (address_of_mem_generationsFrom (List.mem_of_mem_head? hg)).symm _ rfl
      · intro h g hg _ e he
        obtain rfl := Option.some.inj he
        exact h g hg
    | false => simp [ih hrest]

/-- The intervals of an address pass exactly if its observations are separated. -/
lemma wellFormed_generationsOf_iff (address : Address) {observations : List ObservedLifecycle}
    (hchron : Chronological observations) :
    ((∀ g ∈ generationsOf address observations, g.IntervalValid) ∧
        (generationsOf address observations).IsChain CanonicalGeneration.EndsBefore) ↔
      Separated observations := by
  rw [generationsOf, isChain_endsBefore_generationsFrom hchron, Separated]
  refine and_congr_left fun _ => ?_
  cases observations with
  | nil => simp [generationsFrom, CanonicalGeneration.IntervalValid]
  | cons obs rest =>
    obtain ⟨hhead, hrest⟩ := List.pairwise_cons.mp hchron
    have htail : ∀ {id isOpen}, ∀ g ∈ generationsFrom address id obs.traceProvenance isOpen rest,
        g.IntervalValid := intervalValid_generationsFrom hrest hhead
    rw [generationsFrom]
    cases hp : obs.payload.isDestroyed with
    | true =>
      -- the first generation begins at the destruction that ends it
      simp only [if_true, List.head?_cons, Option.mem_some_iff, forall_eq', hp,
        Bool.true_eq_false, iff_false]
      intro h
      exact UInt64.lt_irrefl _ (h _ (List.mem_cons_self ..) obs.traceProvenance rfl)
    | false => simpa [hp] using htail

/-! ## Collisions -/

/-- The first of the positions in a list, and the others. -/
lemma exists_append_cons_iff {T : Type} {a : T} {l : List T} {P : List T → T → Prop} :
    (∃ pre o post, a :: l = pre ++ o :: post ∧ P pre o) ↔
      P [] a ∨ ∃ pre o post, l = pre ++ o :: post ∧ P (a :: pre) o := by
  constructor
  · rintro ⟨pre, o, post, heq, h⟩
    rcases pre with _ | ⟨b, pre⟩
    · obtain ⟨rfl, -⟩ := List.cons.inj heq
      exact .inl h
    · obtain ⟨rfl, hl⟩ := List.cons.inj heq
      exact .inr ⟨pre, o, post, hl, h⟩
  · rintro (h | ⟨pre, o, post, rfl, h⟩)
    · exact ⟨[], a, l, rfl, h⟩
    · exact ⟨a :: pre, o, post, rfl, h⟩

/-- The 32-bit number of the generation after some observations. -/
def idAfter (id : UInt32) (observations : List ObservedLifecycle) : UInt32 :=
  id + UInt32.ofNat (observations.countP (·.payload.isDestroyed))

lemma idAfter_cons_of_destroyed {id : UInt32} {obs : ObservedLifecycle}
    {observations : List ObservedLifecycle} (h : obs.payload.isDestroyed = true) :
    idAfter id (obs :: observations) = idAfter (id + 1) observations := by
  rw [idAfter, idAfter, List.countP_cons, h, if_pos rfl, UInt32.ofNat_add,
    UInt32.add_comm (UInt32.ofNat _), ← UInt32.add_assoc]
  rfl

lemma idAfter_cons_of_created {id : UInt32} {obs : ObservedLifecycle}
    {observations : List ObservedLifecycle} (h : obs.payload.isDestroyed = false) :
    idAfter id (obs :: observations) = idAfter id observations := by
  rw [idAfter, idAfter, List.countP_cons_of_neg (by simp [h])]

/-- Where the collisions are: at the creations on an account that existed, while the
generation number is zero. -/
lemma mem_collisionsFrom_iff {address : Address} {existed : Bool} {id : UInt32}
    {observations : List ObservedLifecycle} {d : Diagnostic} :
    d ∈ collisionsFrom address existed id observations ↔
      ∃ pre o post, observations = pre ++ o :: post ∧ o.payload.isDestroyed = false ∧
        existed = true ∧ idAfter id pre = 0 ∧
        d = collisionDiagnostic address 0 o.traceProvenance := by
  induction observations generalizing id with
  | nil => simp [collisionsFrom]
  | cons obs rest ih =>
    rw [exists_append_cons_iff, collisionsFrom]
    cases hp : obs.payload.isDestroyed with
    | true => simp [ih, idAfter_cons_of_destroyed hp]
    | false =>
      simp only [idAfter_cons_of_created hp, ← ih, Bool.false_eq_true, if_false, true_and]
      have hid : idAfter id [] = id := by simp [idAfter]
      rw [hid]
      split
      · rename_i hcollides
        rw [List.mem_cons, hcollides.1]
        simp [hcollides.2]
      · rename_i hpasses
        refine ⟨.inr, ?_⟩
        rintro (⟨hexisted, hzero, -⟩ | h)
        · exact absurd ⟨hzero, hexisted⟩ hpasses
        · exact h

/-! ## The verdict on a bucket -/

variable {bucket : ReducedTransactionBucket}

/-- The diagnostics of a bucket: those of the schema, none of them a collision, and the
collisions. -/
lemma processBucket_spec (preStates : OrdMap.Map Address Bool) (bucket : ReducedTransactionBucket) :
    ∃ schema : List Diagnostic,
      (processBucket preStates bucket).diagnostics =
          schema ++ (resolve bucket.lifecycleTable preStates).diagnostics ∧
        (∀ d ∈ schema, d.severity = .error ∧ d.violation.isCollision = false) ∧
        (schema = [] → (processBucket preStates bucket).invariantReport = .passing) ∧
        (schema = [] ↔
          ((processBucket preStates bucket).value.generations.map (·.key)).Nodup ∧
          (∀ g ∈ (processBucket preStates bucket).value.generations, g.IntervalValid) ∧
          (processBucket preStates bucket).value.generations.IsChain fun g g' =>
            (g.cmp g').isLE = true ∧ g.EndsBefore g') := by
  obtain ⟨herror, hpassing, hnil⟩ := CanonicalizationPipeline.verifyGlobalSchema_spec
    (processBucket preStates bucket).value
  refine ⟨_, rfl, herror, hpassing, hnil.trans ?_⟩
  have hbalances : (processBucket preStates bucket).value.balances = [] := rfl
  simp [hbalances]

lemma mem_diagnostics_resolve_iff {d : Diagnostic} :
    d ∈ (resolve table preStates).diagnostics ↔
      ∃ (address : Address) (observations : List ObservedLifecycle),
        table[address]? = some observations ∧
          d ∈ collisionsFrom address (existedBefore preStates address) 0 observations := by
  rw [diagnostics_resolve, List.mem_flatMap]
  constructor
  · rintro ⟨⟨address, observations⟩, hmem, hd⟩
    exact ⟨address, observations, OrdMap.mem_toList_iff.mp hmem, hd⟩
  · rintro ⟨address, observations, hget, hd⟩
    exact ⟨(address, observations), OrdMap.mem_toList_iff.mpr hget, hd⟩

lemma severity_of_mem_diagnostics {d : Diagnostic}
    (h : d ∈ (processBucket preStates bucket).diagnostics) : d.severity = .error := by
  obtain ⟨schema, hdiag, hschema, -⟩ := processBucket_spec preStates bucket
  rw [hdiag] at h
  rcases List.mem_append.mp h with h | h
  · exact (hschema d h).1
  · obtain ⟨address, observations, -, hd⟩ := mem_diagnostics_resolve_iff.mp h
    obtain ⟨-, o, -, -, -, -, -, rfl⟩ := mem_collisionsFrom_iff.mp hd
    rfl

/-- A bucket is valid if there is no diagnostic at all. -/
lemma isValid_iff_diagnostics :
    (processBucket preStates bucket).isValid = true ↔
      (processBucket preStates bucket).diagnostics = [] := by
  rw [PassOutput.isValid, Bool.not_eq_true', List.any_eq_false, List.eq_nil_iff_forall_not_mem]
  constructor
  · intro h d hd
    exact h d hd (by simpa using severity_of_mem_diagnostics hd)
  · intro h d hd
    exact absurd hd (h d)

lemma passing_of_isValid (h : (processBucket preStates bucket).isValid = true) :
    (processBucket preStates bucket).invariantReport = .passing := by
  obtain ⟨schema, hdiag, -, hreport, -⟩ := processBucket_spec preStates bucket
  rw [isValid_iff_diagnostics, hdiag, List.append_eq_nil_iff] at h
  exact hreport h.1

/-! ## Which tables are accepted -/

lemma forall_mem_generationsOfTable_iff {P : CanonicalGeneration → Prop} :
    (∀ g ∈ generationsOfTable table, P g) ↔
      ∀ (address : Address) (observations : List ObservedLifecycle),
        table[address]? = some observations → ∀ g ∈ generationsOf address observations, P g := by
  simp only [generationsOfTable, List.mem_flatMap]
  constructor
  · intro h address observations hget g hg
    exact h g ⟨(address, observations), OrdMap.mem_toList_iff.mpr hget, hg⟩
  · rintro h g ⟨⟨address, observations⟩, hmem, hg⟩
    exact h address observations (OrdMap.mem_toList_iff.mp hmem) g hg

lemma nodup_generationKeys_iff {address : Address} {n : ℕ} :
    (generationKeys address 0 n).Nodup ↔ n ≤ 2 ^ 32 := by
  refine ⟨fun h => ?_, nodup_generationKeys address⟩
  by_contra hlt
  -- number `2 ^ 32` is number zero again
  have heq : (generationKeys address 0 n)[0]? = (generationKeys address 0 n)[2 ^ 32]? := by
    rw [generationKeys, List.getElem?_map, List.getElem?_map,
      List.getElem?_eq_getElem (by simpa using by omega),
      List.getElem?_eq_getElem (by simpa using by omega)]
    simp
  have hlen : 0 < (generationKeys address 0 n).length := by
    simp only [generationKeys, List.length_map, List.length_range']
    omega
  exact absurd ((List.getElem?_inj hlen h).mp heq) (by decide)

lemma nodup_tableKeys_iff :
    (tableKeys table).Nodup ↔
      ∀ (address : Address) (observations : List ObservedLifecycle),
        table[address]? = some observations →
          generationCount true (observations.map (·.payload)) ≤ 2 ^ 32 := by
  rw [tableKeys, List.nodup_flatMap]
  constructor
  · rintro ⟨h, -⟩ address observations hget
    exact nodup_generationKeys_iff.mp (h (address, observations) (OrdMap.mem_toList_iff.mpr hget))
  · refine fun h => ⟨?_, ?_⟩
    · rintro ⟨address, observations⟩ hmem
      exact nodup_generationKeys_iff.mpr (h address observations (OrdMap.mem_toList_iff.mp hmem))
    · refine (OrdMap.pairwise_toList table).imp ?_
      rintro ⟨a, oa⟩ ⟨b, ob⟩ hne key ha hb
      exact hne ((address_of_mem_generationKeys ha).symm.trans (address_of_mem_generationKeys hb))

/-- The verification of a bucket passes exactly if, at every address, the observations are
separated, the generations are not too many for their numbers, and no creation collides. -/
theorem isValid_processBucket_iff (hchron : ChronologicalTable bucket.lifecycleTable) :
    (processBucket preStates bucket).isValid = true ↔
      ∀ (address : Address) (observations : List ObservedLifecycle),
        bucket.lifecycleTable[address]? = some observations →
          Separated observations ∧
          generationCount true (observations.map (·.payload)) ≤ 2 ^ 32 ∧
          collisionsFrom address (existedBefore preStates address) 0 observations = [] := by
  obtain ⟨schema, hdiag, -, -, hschema⟩ := processBucket_spec preStates bucket
  rw [generations_processBucket hchron, map_key_generationsOfTable, nodup_tableKeys_iff] at hschema
  have hchain : ((generationsOfTable bucket.lifecycleTable).IsChain fun g g' =>
        (g.cmp g').isLE = true ∧ g.EndsBefore g') ↔
      (generationsOfTable bucket.lifecycleTable).IsChain CanonicalGeneration.EndsBefore := by
    refine ⟨List.IsChain.imp fun _ _ => And.right, fun h => ?_⟩
    have hsorted := (pairwise_isLE_generationsOfTable hchron).isChain
    rw [List.isChain_iff_forall_rel_of_append_cons_cons] at h hsorted ⊢
    exact fun g g' l₁ l₂ heq => ⟨hsorted heq, h heq⟩
  rw [hchain, forall_mem_generationsOfTable_iff, isChain_generationsOfTable_iff
    fun g g' hne heq => absurd heq hne] at hschema
  have hcollisions : (resolve bucket.lifecycleTable preStates).diagnostics = [] ↔
      ∀ (address : Address) (observations : List ObservedLifecycle),
        bucket.lifecycleTable[address]? = some observations →
          collisionsFrom address (existedBefore preStates address) 0 observations = [] := by
    simp only [List.eq_nil_iff_forall_not_mem, mem_diagnostics_resolve_iff]
    grind
  rw [isValid_iff_diagnostics, hdiag, List.append_eq_nil_iff, hschema, hcollisions]
  constructor
  · rintro ⟨⟨hkeys, hintervals, hends⟩, hfree⟩ address observations hget
    exact ⟨(wellFormed_generationsOf_iff address (hchron _ _ hget)).mp
      ⟨hintervals _ _ hget, hends _ _ hget⟩, hkeys _ _ hget, hfree _ _ hget⟩
  · intro h
    have hwell := fun address observations hget =>
      (wellFormed_generationsOf_iff address (hchron address observations hget)).mpr
        (h address observations hget).1
    exact ⟨⟨fun a o hget => (h a o hget).2.1, fun a o hget => (hwell a o hget).1,
      fun a o hget => (hwell a o hget).2⟩, fun a o hget => (h a o hget).2.2⟩

/-! ### Valid lifecycles -/

lemma separated_iff_of_alternates {existed : Bool} {observations : List ObservedLifecycle}
    (h : Alternates existed (observations.map (·.payload))) :
    Separated observations ↔ (observations ≠ [] → existed = false) := by
  cases observations with
  | nil => simp [Separated]
  | cons obs rest =>
    obtain ⟨hfirst, hchain⟩ := h
    have hobs : obs.payload.isDestroyed = existed := hfirst _ rfl
    rw [List.isChain_map] at hchain
    rw [Separated]
    constructor
    · rintro ⟨hhead, -⟩ -
      rw [← hobs]
      exact hhead obs rfl
    · intro hexisted
      refine ⟨fun o ho => ?_, hchain.imp fun o o' hne ho => by rw [hne, ho]; rfl⟩
      obtain rfl := Option.some.inj ho
      rw [hobs]
      exact hexisted (by simp)

lemma collisionsFrom_eq_nil_of_not_existed {address : Address} {id : UInt32}
    (observations : List ObservedLifecycle) :
    collisionsFrom address false id observations = [] := by
  refine List.eq_nil_iff_forall_not_mem.mpr fun d hd => ?_
  obtain ⟨-, -, -, -, -, hexisted, -⟩ := mem_collisionsFrom_iff.mp hd
  exact absurd hexisted (by simp)

/-- **Verification of alternating lifecycles.**  They pass, with every flag of the report set,
exactly if no address with observations existed before the transaction and none has more than
`2 ^ 32` creations. -/
theorem alternating_accepted_iff {ir : ReducedIr} {i : ℕ} {bucket : ReducedTransactionBucket}
    {preStates : OrdMap.Map Address Bool} (hbucket : ir[i]? = some bucket)
    (hchron : ChronologicalTable bucket.lifecycleTable)
    (halternating : AlternatingTable preStates bucket.lifecycleTable) :
    ∃ out, (process ir preStates)[i]? = some out ∧
      (((∀ d ∈ out.diagnostics, d.severity ≠ .error) ∧ out.invariantReport = .passing) ↔
        ∀ (address : Address) (observations : List ObservedLifecycle),
          bucket.lifecycleTable[address]? = some observations →
            (observations ≠ [] → existedBefore preStates address = false) ∧
            observations.countP (!·.payload.isDestroyed) ≤ 2 ^ 32) := by
  refine ⟨processBucket preStates bucket, ?_, ?_⟩
  · rw [process, List.getElem?_map, hbucket]
    rfl
  have hvalid : ((∀ d ∈ (processBucket preStates bucket).diagnostics, d.severity ≠ .error) ∧
      (processBucket preStates bucket).invariantReport = .passing) ↔
        (processBucket preStates bucket).isValid = true := by
    constructor
    · rintro ⟨h, -⟩
      simpa [PassOutput.isValid] using h
    · intro h
      exact ⟨by simpa [PassOutput.isValid] using h, passing_of_isValid h⟩
  rw [hvalid, isValid_processBucket_iff hchron]
  refine forall_congr' fun address => forall_congr' fun observations =>
    forall_congr' fun hget => ?_
  have halt := halternating address observations hget
  rw [separated_iff_of_alternates halt]
  refine and_congr_right fun hfresh => ?_
  cases observations with
  | nil => simp [generationCount, collisionsFrom]
  | cons obs rest =>
    have hexisted := hfresh (by simp)
    rw [hexisted] at halt ⊢
    have hcount := generationCount_of_alternates halt
    rw [generationCount_eq_lifetimeCount false (by simp),
      ← generationCount_eq_lifetimeCount true (by simp)] at hcount
    rw [hcount, collisionsFrom_eq_nil_of_not_existed, List.countP_map]
    simp [Function.comp_def]

/-- The one address of these buckets existed before the transaction. -/
def preExisting : OrdMap.Map Address Bool :=
  (∅ : OrdMap.Map Address Bool).insert (Bytes.zero 20) true

/-- An account that is created, destroyed and created again. -/
def phoenix : List ObservedLifecycle :=
  [creationAt (Bytes.zero 20) 2, destructionAt (Bytes.zero 20) 3, creationAt (Bytes.zero 20) 5]

lemma alternates_phoenix : Alternates false (phoenix.map (·.payload)) := by
  rw [phoenix]
  exact alternates_cons_iff.mpr ⟨rfl, alternates_cons_iff.mpr ⟨rfl,
    alternates_cons_iff.mpr ⟨rfl, by simp [Alternates]⟩⟩⟩

/-- If it did not exist before, its two generations pass. -/
theorem phoenix_accepted :
    ∃ out, (process [singleLifecycle (Bytes.zero 20) phoenix] ∅)[0]? = some out ∧
      out.value.generations.length = 2 ∧ out.invariantReport = .passing := by
  have hbucket : [singleLifecycle (Bytes.zero 20) phoenix][0]? =
      some (singleLifecycle (Bytes.zero 20) phoenix) := rfl
  have halternating : AlternatingTable ∅
      (singleLifecycle (Bytes.zero 20) phoenix).lifecycleTable := by
    intro address observations hget
    obtain ⟨rfl, rfl⟩ := getElem?_singleLifecycle hget
    exact alternates_phoenix
  obtain ⟨out, hout, hiff⟩ := alternating_accepted_iff hbucket
    (chronologicalTable_singleLifecycle (by decide)) halternating
  have hpassing := (hiff.mpr fun address observations hget => by
    obtain ⟨rfl, rfl⟩ := getElem?_singleLifecycle hget
    exact ⟨fun _ => rfl, by decide⟩).2
  obtain rfl := Option.some.inj hout
  exact ⟨_, rfl, rfl, hpassing⟩

/-- An account destroyed by the transaction. -/
def destroyedBucket : ReducedTransactionBucket :=
  singleLifecycle (Bytes.zero 20) [destructionAt (Bytes.zero 20) 5]

/-- If it existed, its lifecycle alternates, and is refused all the same. -/
theorem destroyedBucket_refused :
    ChronologicalTable destroyedBucket.lifecycleTable ∧
      AlternatingTable preExisting destroyedBucket.lifecycleTable ∧
      ∃ d ∈ (processBucket preExisting destroyedBucket).diagnostics, d.severity = .error := by
  refine ⟨chronologicalTable_singleLifecycle (by decide), fun address observations hget => ?_, ?_⟩
  · obtain ⟨rfl, rfl⟩ := getElem?_singleLifecycle hget
    exact alternates_cons_iff.mpr ⟨rfl, by simp [Alternates]⟩
  · refine ⟨CanonicalizationPipeline.intervalDiagnostic
      { key := { address := Bytes.zero 20, generationId := 0 }
        begin := { TraceProvenance.default with traceOrdinal := 5 }
        fin := some { TraceProvenance.default with traceOrdinal := 5 } }, ?_, rfl⟩
    exact List.mem_cons_self ..

/-! ### Creations on an open generation -/

/-- A generation is open after some observations of an account: the last of them is a
creation, or there is none and the account existed. -/
def openAfter (existed : Bool) (observations : List ObservedLifecycle) : Bool :=
  (observations.getLast?.map fun o => !o.payload.isDestroyed).getD existed

/-- Without a creation on an open generation, separated observations alternate. -/
lemma alternates_of_separated {existed : Bool} {observations : List ObservedLifecycle}
    (hsep : Separated observations)
    (hopen : ∀ pre o post, observations = pre ++ o :: post → o.payload.isDestroyed = false →
      openAfter existed pre = false) :
    Alternates existed (observations.map (·.payload)) := by
  obtain ⟨hfirst, hchain⟩ := hsep
  refine ⟨?_, ?_⟩
  · cases observations with
    | nil => simp
    | cons obs rest =>
      intro kind hkind
      obtain rfl := Option.some.inj hkind
      have hcreated : obs.payload.isDestroyed = false := hfirst obs rfl
      have hclosed : existed = false := hopen [] obs rest rfl hcreated
      rw [hcreated, hclosed]
  · rw [List.isChain_map, List.isChain_iff_forall_rel_of_append_cons_cons]
    rw [List.isChain_iff_forall_rel_of_append_cons_cons] at hchain
    intro o o' l₁ l₂ heq
    have hnext := hchain heq
    cases ho : o.payload.isDestroyed with
    | true => exact hnext ho
    | false =>
      cases ho' : o'.payload.isDestroyed with
      | true => rfl
      | false =>
        have hclosed := hopen (l₁ ++ [o]) o' l₂ (by simpa using heq) ho'
        simp [openAfter, ho] at hclosed

/-- Observations in the order of their ordinals are told apart by their provenance. -/
lemma eq_of_provenance_eq {pre pre' post post' : List ObservedLifecycle}
    {o o' : ObservedLifecycle} (hchron : Chronological (pre ++ o :: post))
    (heq : pre ++ o :: post = pre' ++ o' :: post')
    (hprov : o.traceProvenance = o'.traceProvenance) : pre = pre' := by
  induction pre generalizing pre' with
  | nil =>
    rcases pre' with _ | ⟨b, pre'⟩
    · rfl
    · obtain ⟨rfl, rfl⟩ := List.cons.inj heq
      have hlt := (List.pairwise_cons.mp hchron).1 o' (by simp)
      rw [hprov] at hlt
      exact absurd hlt (UInt64.lt_irrefl _)
  | cons a pre ih =>
    rw [List.cons_append] at hchron
    obtain ⟨hhead, hrest⟩ := List.pairwise_cons.mp hchron
    rcases pre' with _ | ⟨b, pre'⟩
    · obtain ⟨rfl, -⟩ := List.cons.inj heq
      have hlt := hhead o (by simp)
      rw [hprov] at hlt
      exact absurd hlt (UInt64.lt_irrefl _)
    · obtain ⟨rfl, hpre⟩ := List.cons.inj heq
      rw [ih hrest hpre]

lemma idAfter_zero_eq_zero_iff {observations : List ObservedLifecycle} :
    idAfter 0 observations = 0 ↔ 2 ^ 32 ∣ observations.countP (·.payload.isDestroyed) := by
  rw [idAfter, UInt32.zero_add, Nat.dvd_iff_mod_eq_zero, ← UInt32.toNat_inj, UInt32.toNat_ofNat']
  rfl

/-- The collisions that a bucket reports are those of `resolve`. -/
lemma collision_mem_diagnostics_iff {d : Diagnostic} (hcollision : d.violation.isCollision = true) :
    d ∈ (processBucket preStates bucket).diagnostics ↔
      d ∈ (resolve bucket.lifecycleTable preStates).diagnostics := by
  obtain ⟨schema, hdiag, hschema, -⟩ := processBucket_spec preStates bucket
  rw [hdiag, List.mem_append]
  refine ⟨fun h => h.resolve_left fun hmem => ?_, .inr⟩
  rw [(hschema d hmem).2] at hcollision
  exact absurd hcollision (by simp)

/-- A creation is reported as a collision exactly if the account existed and its generation
number is zero. -/
lemma collision_at_iff (preStates : OrdMap.Map Address Bool)
    (hchron : ChronologicalTable bucket.lifecycleTable) {address : Address}
    {pre post : List ObservedLifecycle} {o : ObservedLifecycle}
    (hget : bucket.lifecycleTable[address]? = some (pre ++ o :: post))
    (hcreated : o.payload.isDestroyed = false) :
    (∃ d ∈ (processBucket preStates bucket).diagnostics, d.location = o.traceProvenance ∧
        ∃ generationId, d.violation = .collision address generationId) ↔
      existedBefore preStates address = true ∧
        2 ^ 32 ∣ pre.countP (·.payload.isDestroyed) := by
  rw [← idAfter_zero_eq_zero_iff]
  constructor
  · rintro ⟨d, hd, hlocation, generationId, hviolation⟩
    rw [collision_mem_diagnostics_iff (by rw [hviolation]; rfl)] at hd
    obtain ⟨address', observations, hget', hmem⟩ := mem_diagnostics_resolve_iff.mp hd
    obtain ⟨pre', o', post', rfl, -, hexisted, hid, rfl⟩ := mem_collisionsFrom_iff.mp hmem
    obtain ⟨rfl, -⟩ := LifecycleViolation.collision.inj hviolation
    rw [hget] at hget'
    obtain rfl := eq_of_provenance_eq (hchron _ _ hget) (Option.some.inj hget') hlocation.symm
    exact ⟨hexisted, hid⟩
  · rintro ⟨hexisted, hid⟩
    refine ⟨collisionDiagnostic address 0 o.traceProvenance, ?_, rfl, 0, rfl⟩
    rw [collision_mem_diagnostics_iff rfl, mem_diagnostics_resolve_iff]
    exact ⟨address, _, hget,
      mem_collisionsFrom_iff.mpr ⟨pre, o, post, rfl, hcreated, hexisted, hid, rfl⟩⟩

/-- **Verification of other lifecycles.**  What passes alternates, and every creation on an open
generation is reported as a collision, exactly if every such creation is on an account that
existed and that no destruction, up to the wrap of the generation number, precedes. -/
theorem collisions_reported_iff {ir : ReducedIr} {i : ℕ} {bucket : ReducedTransactionBucket}
    (hbucket : ir[i]? = some bucket) (hchron : ChronologicalTable bucket.lifecycleTable)
    (preStates : OrdMap.Map Address Bool) :
    ∃ out, (process ir preStates)[i]? = some out ∧
      (((out.isValid = true → AlternatingTable preStates bucket.lifecycleTable) ∧
          ∀ (address : Address) (pre : List ObservedLifecycle) (o : ObservedLifecycle)
            (post : List ObservedLifecycle),
            bucket.lifecycleTable[address]? = some (pre ++ o :: post) →
            o.payload.isDestroyed = false →
            openAfter (existedBefore preStates address) pre = true →
              ∃ d ∈ out.diagnostics, d.location = o.traceProvenance ∧
                ∃ generationId, d.violation = .collision address generationId) ↔
        ∀ (address : Address) (pre : List ObservedLifecycle) (o : ObservedLifecycle)
          (post : List ObservedLifecycle),
          bucket.lifecycleTable[address]? = some (pre ++ o :: post) →
          o.payload.isDestroyed = false →
          openAfter (existedBefore preStates address) pre = true →
            existedBefore preStates address = true ∧
              2 ^ 32 ∣ pre.countP (·.payload.isDestroyed)) := by
  refine ⟨processBucket preStates bucket, ?_, ?_⟩
  · rw [process, List.getElem?_map, hbucket]
    rfl
  constructor
  · rintro ⟨-, hreported⟩ address pre o post hget hcreated hopen
    exact (collision_at_iff preStates hchron hget hcreated).mp
      (hreported address pre o post hget hcreated hopen)
  · intro hcond
    have hreported := fun address pre o post hget hcreated hopen =>
      (collision_at_iff preStates hchron hget hcreated).mpr
        (hcond address pre o post hget hcreated hopen)
    refine ⟨fun hvalid address observations hget => ?_, hreported⟩
    have hsep := ((isValid_processBucket_iff hchron).mp hvalid address observations hget).1
    refine alternates_of_separated hsep ?_
    rintro pre o post rfl hcreated
    by_contra hopen
    obtain ⟨d, hd, -⟩ := hreported address pre o post hget hcreated (by simpa using hopen)
    rw [isValid_iff_diagnostics.mp hvalid] at hd
    exact absurd hd (by simp)

/-- An account created by the transaction, whether or not it existed. -/
def createdBucket : ReducedTransactionBucket :=
  singleLifecycle (Bytes.zero 20) [creationAt (Bytes.zero 20) 1]

lemma chronologicalTable_createdBucket : ChronologicalTable createdBucket.lifecycleTable :=
  chronologicalTable_singleLifecycle (by decide)

/-- On an account that existed the creation is reported. -/
theorem createdBucket_reported :
    ∃ out, (process [createdBucket] preExisting)[0]? = some out ∧
      ∃ d ∈ out.diagnostics, ∃ generationId,
        d.violation = .collision (Bytes.zero 20) generationId := by
  have hbucket : [createdBucket][0]? = some createdBucket := rfl
  obtain ⟨out, hout, hiff⟩ :=
    collisions_reported_iff hbucket chronologicalTable_createdBucket preExisting
  have hcond : ∀ (address : Address) (pre : List ObservedLifecycle) (o : ObservedLifecycle)
      (post : List ObservedLifecycle),
      createdBucket.lifecycleTable[address]? = some (pre ++ o :: post) →
      o.payload.isDestroyed = false → openAfter (existedBefore preExisting address) pre = true →
        existedBefore preExisting address = true ∧
          2 ^ 32 ∣ pre.countP (·.payload.isDestroyed) := by
    intro address pre o post hget _ _
    obtain ⟨rfl, heq⟩ := getElem?_singleLifecycle hget
    obtain ⟨rfl, -⟩ := List.singleton_eq_append_iff.mp heq |>.resolve_right (by simp)
    exact ⟨by decide, by simp⟩
  obtain ⟨d, hd, -, hcollision⟩ :=
    (hiff.mpr hcond).2 (Bytes.zero 20) [] (creationAt (Bytes.zero 20) 1) [] rfl rfl rfl
  exact ⟨out, hout, d, hd, hcollision⟩

/-- An account created twice in a row. -/
def recreatedBucket : ReducedTransactionBucket :=
  singleLifecycle (Bytes.zero 20) [creationAt (Bytes.zero 20) 1, creationAt (Bytes.zero 20) 2]

lemma chronologicalTable_recreatedBucket : ChronologicalTable recreatedBucket.lifecycleTable :=
  chronologicalTable_singleLifecycle (by decide)

/-- It passes without a diagnostic. -/
theorem recreatedBucket_accepted :
    ChronologicalTable recreatedBucket.lifecycleTable ∧
      (processBucket ∅ recreatedBucket).isValid = true ∧
      (processBucket ∅ recreatedBucket).diagnostics = [] ∧
      ¬ AlternatingTable ∅ recreatedBucket.lifecycleTable := by
  refine ⟨chronologicalTable_recreatedBucket, by decide, by decide, fun h => ?_⟩
  have halternates := (h (Bytes.zero 20) _ rfl).2
  exact absurd (List.isChain_cons_cons.mp halternates).1 (by decide)

end Lifecycle

end KaySentinel.Builder
