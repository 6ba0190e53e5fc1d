import KaySentinel.Builder.Lifecycle.Acceptance
import KaySentinel.Builder.Lifecycle.Resolution

/-!
# Generations are lifetimes

What a lifecycle says of one moment, without cutting it into generations: whether the account holds
a contract, and how often it was destroyed before.  Of a lifecycle that alternates the generations
say the same, at every moment from the first observation on: `active_generations`.
-/

namespace KaySentinel.Builder

open Cse

namespace Lifecycle

/-! ## One moment of a lifecycle -/

variable {existed : Bool} {observations : List ObservedLifecycle} {t : UInt64}

/-- The observation is not later than `t`. -/
def ObservedLifecycle.By (obs : ObservedLifecycle) (t : UInt64) : Prop :=
  obs.traceProvenance.traceOrdinal ≤ t

instance (obs : ObservedLifecycle) (t : UInt64) : Decidable (ObservedLifecycle.By obs t) :=
  inferInstanceAs (Decidable (_ ≤ _))

/-- The account holds a contract at `t`: the last observation by then is a creation, or there is
none and it existed. -/
def aliveAt (existed : Bool) (observations : List ObservedLifecycle) (t : UInt64) : Bool :=
  match (observations.filter (ObservedLifecycle.By · t)).getLast? with
  | none => existed
  | some obs => !obs.payload.isDestroyed

/-- How often the account was destroyed by `t`. -/
def destroyedBy (observations : List ObservedLifecycle) (t : UInt64) : ℕ :=
  observations.countP fun obs => obs.payload.isDestroyed && decide (ObservedLifecycle.By obs t)

lemma not_by_of_lt {obs : ObservedLifecycle} (h : t < obs.traceProvenance.traceOrdinal) :
    ¬ ObservedLifecycle.By obs t := UInt64.not_le.mpr h

lemma aliveAt_before (h : ∀ obs ∈ observations, ¬ ObservedLifecycle.By obs t) :
    aliveAt existed observations t = existed := by
  have hnone : observations.filter (ObservedLifecycle.By · t) = [] :=
    List.filter_eq_nil_iff.mpr (by simpa using h)
  rw [aliveAt, hnone]
  rfl

lemma destroyedBy_before (h : ∀ obs ∈ observations, ¬ ObservedLifecycle.By obs t) :
    destroyedBy observations t = 0 := by
  rw [destroyedBy, List.countP_eq_zero]
  intro obs hobs
  simp [h obs hobs]

/-- After an observation the account is what the observation makes it. -/
lemma aliveAt_cons {obs : ObservedLifecycle} (h : ObservedLifecycle.By obs t) :
    aliveAt existed (obs :: observations) t =
      aliveAt (!obs.payload.isDestroyed) observations t := by
  rw [aliveAt, aliveAt, List.filter_cons_of_pos (by simpa using h), List.getLast?_cons]
  cases (observations.filter (ObservedLifecycle.By · t)).getLast? <;> rfl

lemma destroyedBy_cons {obs : ObservedLifecycle} (h : ObservedLifecycle.By obs t) :
    destroyedBy (obs :: observations) t =
      destroyedBy observations t + if obs.payload.isDestroyed then 1 else 0 := by
  rw [destroyedBy, destroyedBy, List.countP_cons]
  simp [h]

end Lifecycle

/-- The generation has begun by `t` and not ended. -/
def CanonicalGeneration.ActiveAt (g : CanonicalGeneration) (t : UInt64) : Prop :=
  g.begin.traceOrdinal ≤ t ∧ ∀ fin ∈ g.fin, t < fin.traceOrdinal

instance (g : CanonicalGeneration) (t : UInt64) : Decidable (g.ActiveAt t) :=
  inferInstanceAs (Decidable (_ ∧ _))

namespace Lifecycle

/-! ## The generations at one moment -/

variable {observations : List ObservedLifecycle} {t : UInt64}

/-- The numbers of the generations that are active at `t`. -/
def activeIds (generations : List CanonicalGeneration) (t : UInt64) : List ℕ :=
  (generations.filter (·.ActiveAt t)).map (·.key.generationId.toNat)

lemma activeIds_cons (g : CanonicalGeneration) (generations : List CanonicalGeneration) :
    activeIds (g :: generations) t =
      if g.ActiveAt t then g.key.generationId.toNat :: activeIds generations t
      else activeIds generations t := by
  rw [activeIds, List.filter_cons]
  by_cases hactive : g.ActiveAt t
  · simp [hactive, activeIds]
  · simp [hactive, activeIds]

/-- Of what is left of an alternating lifecycle, the generation in which the account is alive is
active, and no other. -/
lemma activeIds_generationsFrom (address : Address) {id : UInt32} {begin : TraceProvenance}
    {isOpen : Bool} (hchron : Chronological observations)
    (hbegin : ∀ obs ∈ observations, begin.traceOrdinal ≤ obs.traceProvenance.traceOrdinal)
    (halternates : Alternates isOpen (observations.map (·.payload)))
    (hfew : id.toNat + (observations.map (·.payload)).countP CseLifecyclePayload.isDestroyed <
      2 ^ 32) :
    activeIds (generationsFrom address id begin isOpen observations) t =
      if begin.traceOrdinal ≤ t ∧ aliveAt isOpen observations t = true then
        [id.toNat + destroyedBy observations t]
      else [] := by
  induction observations generalizing id begin isOpen with
  | nil =>
    cases isOpen with
    | true =>
      rw [generationsFrom, if_pos rfl, activeIds_cons]
      simp [CanonicalGeneration.ActiveAt, activeIds, aliveAt, destroyedBy]
    | false => simp [generationsFrom, activeIds, aliveAt]
  | cons obs rest ih =>
    obtain ⟨hafter, hrest⟩ := List.pairwise_cons.mp hchron
    obtain ⟨hkind, halternates'⟩ := alternates_cons_iff.mp halternates
    have hle := hbegin obs List.mem_cons_self
    have hafter' : ∀ o ∈ rest,
        obs.traceProvenance.traceOrdinal ≤ o.traceProvenance.traceOrdinal :=
      fun o ho => UInt64.le_of_lt (hafter o ho)
    rw [List.map_cons, List.countP_cons] at hfew
    have hlate : ¬ ObservedLifecycle.By obs t →
        ∀ o ∈ obs :: rest, ¬ ObservedLifecycle.By o t := by
      intro hby o ho
      rcases List.mem_cons.mp ho with rfl | ho
      · exact hby
      · exact not_by_of_lt (UInt64.lt_trans (UInt64.not_le.mp hby) (hafter o ho))
    cases isOpen with
    | true =>
      -- the generation ends with the destruction, and the next one begins
      rw [if_pos hkind] at hfew
      have hid : (id + 1).toNat = id.toNat + 1 := by
        rw [UInt32.toNat_add]
        exact Nat.mod_eq_of_lt (by show id.toNat + 1 < 2 ^ 32; omega)
      rw [generationsFrom, if_pos hkind, activeIds_cons,
        @ih (id + 1) obs.traceProvenance false hrest hafter' halternates' (by omega), hid]
      by_cases hby : ObservedLifecycle.By obs t
      · rw [aliveAt_cons hby, destroyedBy_cons hby, hkind,
          if_neg fun hactive => absurd (hactive.2 _ rfl) (UInt64.not_lt.mpr hby)]
        have hbegun : begin.traceOrdinal ≤ t := UInt64.le_trans hle hby
        have hby' : obs.traceProvenance.traceOrdinal ≤ t := hby
        simp only [hby', hbegun, true_and, Bool.not_true, if_true]
        rw [Nat.add_assoc, Nat.add_comm 1]
      · have hnext : ¬ (obs.traceProvenance.traceOrdinal ≤ t ∧ aliveAt false rest t = true) :=
          fun h => hby h.1
        have hlt : t < obs.traceProvenance.traceOrdinal := UInt64.not_le.mp hby
        rw [aliveAt_before (hlate hby), destroyedBy_before (hlate hby), if_neg hnext]
        simp [CanonicalGeneration.ActiveAt, hlt]
    | false =>
      -- the generation begins with the creation
      have hkind' : ¬ obs.payload.isDestroyed = true := by simp [hkind]
      rw [if_neg hkind'] at hfew
      rw [generationsFrom, if_neg hkind',
        @ih id obs.traceProvenance true hrest hafter' halternates' (by omega)]
      by_cases hby : ObservedLifecycle.By obs t
      · rw [aliveAt_cons hby, destroyedBy_cons hby, hkind]
        have hbegun : begin.traceOrdinal ≤ t := UInt64.le_trans hle hby
        have hby' : obs.traceProvenance.traceOrdinal ≤ t := hby
        simp [hby', hbegun]
      · rw [aliveAt_before (hlate hby), if_neg fun h => hby h.1]
        simp

/-- The first observation is the first that `t` reaches. -/
lemma exists_by_iff {first : ObservedLifecycle} {rest : List ObservedLifecycle}
    (hchron : Chronological (first :: rest)) :
    (∃ obs ∈ first :: rest, ObservedLifecycle.By obs t) ↔ ObservedLifecycle.By first t := by
  constructor
  · rintro ⟨obs, hobs, hby⟩
    rcases List.mem_cons.mp hobs with rfl | hobs
    · exact hby
    · exact UInt64.le_trans (UInt64.le_of_lt ((List.pairwise_cons.mp hchron).1 obs hobs)) hby
  · exact fun hby => ⟨first, List.mem_cons_self, hby⟩

/-- From its first observation on, an account has at most one active generation: the one whose
number is how often it was destroyed so far if it is alive, and none if it is not. -/
lemma activeIds_generationsOf (address : Address) {existed : Bool} (hne : observations ≠ [])
    (hchron : Chronological observations)
    (halternates : Alternates existed (observations.map (·.payload)))
    (hfew : (observations.map (·.payload)).countP CseLifecyclePayload.isDestroyed < 2 ^ 32) :
    activeIds (generationsOf address observations) t =
      if (∃ obs ∈ observations, ObservedLifecycle.By obs t) ∧
          aliveAt existed observations t = true then
        [destroyedBy observations t]
      else [] := by
  obtain ⟨first, rest, rfl⟩ := List.exists_cons_of_ne_nil hne
  obtain ⟨hafter, hrest⟩ := List.pairwise_cons.mp hchron
  obtain ⟨hkind, halternates'⟩ := alternates_cons_iff.mp halternates
  have hafter' : ∀ obs ∈ rest,
      first.traceProvenance.traceOrdinal ≤ obs.traceProvenance.traceOrdinal :=
    fun obs hobs => UInt64.le_of_lt (hafter obs hobs)
  have hgenerations : generationsOf address (first :: rest) =
      generationsFrom address 0 first.traceProvenance true (first :: rest) := rfl
  simp only [hgenerations, exists_by_iff hchron]
  cases existed with
  | true =>
    have hbegin : ∀ obs ∈ first :: rest,
        first.traceProvenance.traceOrdinal ≤ obs.traceProvenance.traceOrdinal :=
      List.forall_mem_cons.mpr ⟨UInt64.le_refl _, hafter'⟩
    have hfrom := @activeIds_generationsFrom (first :: rest) t address 0 first.traceProvenance
      true hchron hbegin halternates (by simpa using hfew)
    rw [hfrom]
    by_cases hby : ObservedLifecycle.By first t
    · have hbegun : first.traceProvenance.traceOrdinal ≤ t := hby
      simp [hby, hbegun]
    · rw [if_neg fun h => hby h.1, if_neg fun h => hby h.1]
  | false =>
    -- the creation only moves the begin of the generation, which is its own ordinal
    have hkind' : ¬ first.payload.isDestroyed = true := by simp [hkind]
    rw [List.map_cons, List.countP_cons, if_neg hkind'] at hfew
    have hfrom := @activeIds_generationsFrom rest t address 0 first.traceProvenance
      true hrest hafter' halternates' (by simpa using hfew)
    rw [generationsFrom, if_neg hkind', hfrom]
    by_cases hby : ObservedLifecycle.By first t
    · have hbegun : first.traceProvenance.traceOrdinal ≤ t := hby
      rw [aliveAt_cons hby, destroyedBy_cons hby, hkind]
      simp [hby, hbegun]
    · rw [if_neg fun h => hby h.1, if_neg fun h => hby h.1]

/-! ## The generations of a bucket -/

variable {bucket : ReducedTransactionBucket} {address : Address}

/-- Of an account with an alternating lifecycle the canonical form has, at every moment from the
first observation on, one active generation while the account is alive and none while it is not;
the number of that generation is how often the account was destroyed before. -/
theorem active_generations (hchron : ChronologicalTable bucket.lifecycleTable)
    (hfew : FewDestroyed bucket.lifecycleTable) (preStates : OrdMap.Map Address Bool)
    (hget : bucket.lifecycleTable[address]? = some observations) (hne : observations ≠ [])
    (halternates :
      Alternates (existedBefore preStates address) (observations.map (·.payload)))
    (t : UInt64) :
    activeIds ((processBucket preStates bucket).value.generations.filter
        (·.key.address = address)) t =
      if (∃ obs ∈ observations, ObservedLifecycle.By obs t) ∧
          aliveAt (existedBefore preStates address) observations t = true then
        [destroyedBy observations t]
      else [] := by
  rw [generations_processBucket hchron, filter_generationsOfTable, hget, Option.map_some,
    Option.getD_some]
  exact activeIds_generationsOf address hne (hchron address observations hget) halternates
    (hfew address observations hget)

/-- At the second creation of `phoenix` its generation is the one numbered 1. -/
theorem phoenix_active :
    activeIds ((processBucket ∅ (singleLifecycle (Bytes.zero 20) phoenix)).value.generations.filter
      (·.key.address = Bytes.zero 20)) 5 = [1] := by
  have hfew : FewDestroyed (singleLifecycle (Bytes.zero 20) phoenix).lifecycleTable := by
    intro address observations hget
    obtain ⟨-, rfl⟩ := getElem?_singleLifecycle hget
    decide
  rw [active_generations (chronologicalTable_singleLifecycle (by decide)) hfew ∅ rfl
    (by simp [phoenix]) alternates_phoenix 5]
  decide

end Lifecycle

end KaySentinel.Builder
