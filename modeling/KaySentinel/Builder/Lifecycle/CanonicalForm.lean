import KaySentinel.Builder.Lifecycle.Coherence

/-!
# The canonical form

`CanonicalizationPipeline.process` brings each of its three lists into a normal form.  A second
pass changes nothing (`process_process`).  The result depends on the order of the inputs
exactly if two different facts tie where neither is dropped (`process_perm_iff`), and its keys
are distinct exactly if no generation of an address lies between two that share a key
(`process_keys_iff`).
-/

namespace KaySentinel.Builder

open Cse NormalForm

/-- What `==` compares of a provenance: the ordinal alone. -/
def TraceProvenance.compared (p : TraceProvenance) : TraceProvenance :=
  { TraceProvenance.default with traceOrdinal := p.traceOrdinal }

section MapProvenance

variable (observe : TraceProvenance → TraceProvenance)

def CanonicalGeneration.mapProvenance (g : CanonicalGeneration) : CanonicalGeneration :=
  { g with begin := observe g.begin, fin := g.fin.map observe }

def CanonicalBalance.mapProvenance (b : CanonicalBalance) : CanonicalBalance :=
  { b with location := observe b.location }

/-- The schema with each provenance seen through `observe`. -/
def CanonicalSemanticIr.mapProvenance (ir : CanonicalSemanticIr) : CanonicalSemanticIr where
  preStates := ir.preStates
  generations := ir.generations.map (CanonicalGeneration.mapProvenance observe)
  balances := ir.balances.map (CanonicalBalance.mapProvenance observe)

end MapProvenance

/-- What the derived `==` decides. -/
def CanonicalSemanticIr.SameFacts (ir ir' : CanonicalSemanticIr) : Prop :=
  ir.mapProvenance TraceProvenance.compared = ir'.mapProvenance TraceProvenance.compared

lemma CanonicalSemanticIr.mapProvenance_id (ir : CanonicalSemanticIr) :
    ir.mapProvenance id = ir := by
  have hgeneration : CanonicalGeneration.mapProvenance id = id := by
    funext g
    simp [CanonicalGeneration.mapProvenance]
  have hbalance : CanonicalBalance.mapProvenance id = id := rfl
  simp [CanonicalSemanticIr.mapProvenance, hgeneration, hbalance]

namespace CanonicalizationPipeline

/-! ## Normal forms -/

variable {preStates : List CanonicalPreState} {generations : List CanonicalGeneration}
  {balances : List CanonicalBalance}

lemma keyCmp_of_key_eq {T : Type} (key : T → GenerationKey) {a b : T} (h : key a = key b) :
    keyCmp key a b = .eq := by
  rw [keyCmp, h]
  exact Std.ReflCmp.compare_self

lemma key_eq_of_keyCmp {T : Type} (key : T → GenerationKey) (a b : T) (h : keyCmp key a b = .eq) :
    key a = key b :=
  GenerationKey.eq_of_cmp_eq h

lemma key_eq_of_cmp (a b : CanonicalGeneration) (h : a.cmp b = .eq) : a.key = b.key :=
  (CanonicalGeneration.cmp_eq_iff.mp h).1

/-- The value of `process`, list by list. -/
lemma value_process :
    (process preStates generations balances).value =
      { preStates := normalize (keyCmp CanonicalPreState.key) CanonicalPreState.key preStates
        generations := normalize CanonicalGeneration.cmp CanonicalGeneration.key generations
        balances := normalize (keyCmp CanonicalBalance.key) CanonicalBalance.key balances } := rfl

/-- Where the entries are sorted by their keys, each starts a run. -/
lemma startsRun_keyCmp {T : Type} (key : T → GenerationKey) (l : List T) (a : T) :
    StartsRun (keyCmp key) key l a := by
  intro c _ hkey hlt
  rw [keyCmp_of_key_eq key hkey] at hlt
  exact absurd hlt (by simp)

lemma uninterrupted_keyCmp {T : Type} (key : T → GenerationKey) (l : List T) :
    Uninterrupted (keyCmp key) key l := by
  intro a _ b _ c _ hab hbc hac
  rw [keyCmp] at hab hbc
  rw [← hac] at hbc
  exact (GenerationKey.eq_of_cmp_eq (Std.OrientedCmp.isLE_antisymm hab hbc)).symm

/-! ## Idempotence -/

/-- **Idempotence.** -/
theorem process_process (preStates : List CanonicalPreState)
    (generations : List CanonicalGeneration) (balances : List CanonicalBalance) :
    let first := process preStates generations balances
    process first.value.preStates first.value.generations first.value.balances = first := by
  intro first
  have hvalue : (process first.value.preStates first.value.generations
      first.value.balances).value = first.value := by
    rw [value_process, show first.value = _ from value_process]
    simp only [normalize_normalize (key_eq_of_keyCmp _), normalize_normalize key_eq_of_cmp]
  -- diagnostics and report are those of the value
  have hout : ∀ preStates generations balances,
      process preStates generations balances =
        { value := (process preStates generations balances).value
          diagnostics := (verifyGlobalSchema (process preStates generations balances).value).1
          invariantReport :=
            (verifyGlobalSchema (process preStates generations balances).value).2 } :=
    fun _ _ _ => rfl
  rw [hout, hvalue]
  exact (hout _ _ _).symm

/-! ## Keys -/

/-- The keys of `out` are distinct, and those of `l`. -/
def Deduplicated {T : Type} (key : T → GenerationKey) (l out : List T) : Prop :=
  (out.map key).Nodup ∧ ∀ k, k ∈ out.map key ↔ k ∈ l.map key

lemma deduplicated_normalize_iff {T : Type} {cmp : T → T → Ordering} [Std.TransCmp cmp]
    {key : T → GenerationKey} (hkey : ∀ a b, cmp a b = .eq → key a = key b) {l : List T} :
    Deduplicated key l (normalize cmp key l) ↔ Uninterrupted cmp key l := by
  rw [Deduplicated, nodup_map_key_normalize_iff hkey]
  exact and_iff_left fun k => mem_map_key_normalize hkey

/-- **Keys.**  None is lost, but generations that share one are both kept if another generation
of the address lies between them. -/
theorem process_keys_iff (preStates : List CanonicalPreState)
    (generations : List CanonicalGeneration) (balances : List CanonicalBalance) :
    let value := (process preStates generations balances).value
    (Deduplicated (·.key) preStates value.preStates ∧
        Deduplicated (·.key) generations value.generations ∧
        Deduplicated (·.key) balances value.balances) ↔
      Uninterrupted CanonicalGeneration.cmp (·.key) generations := by
  intro value
  have hpre : Deduplicated (·.key) preStates value.preStates :=
    (deduplicated_normalize_iff (key_eq_of_keyCmp _)).mpr (uninterrupted_keyCmp _ _)
  have hbal : Deduplicated (·.key) balances value.balances :=
    (deduplicated_normalize_iff (key_eq_of_keyCmp _)).mpr (uninterrupted_keyCmp _ _)
  refine Iff.trans ?_ (deduplicated_normalize_iff key_eq_of_cmp)
  exact ⟨fun h => h.2.1, fun h => ⟨hpre, h, hbal⟩⟩

/-- The second generation is dropped if no other comes between the first and the third. -/
theorem three_generations_two_keys :
    let generations := [generationAt 0 1 none, generationAt 1 2 none, generationAt 0 3 none]
    ¬Deduplicated (·.key) generations (process [] generations []).value.generations := by
  rintro generations ⟨hnodup, -⟩
  exact absurd hnodup (by decide +kernel)

/-! ## The order of the inputs -/

/-- No order of the inputs gives a value that `same` tells apart, or another validity. -/
def OrderIndependent (same : CanonicalSemanticIr → CanonicalSemanticIr → Prop)
    (preStates : List CanonicalPreState) (generations : List CanonicalGeneration)
    (balances : List CanonicalBalance) : Prop :=
  ∀ preStates' generations' balances', preStates'.Perm preStates →
    generations'.Perm generations → balances'.Perm balances →
      same (process preStates' generations' balances').value
          (process preStates generations balances).value ∧
        (process preStates' generations' balances').isValid =
          (process preStates generations balances).isValid

/-- Facts that tie, and of which one is kept, are the same. -/
structure Unconflicted (observe : TraceProvenance → TraceProvenance)
    (preStates : List CanonicalPreState) (generations : List CanonicalGeneration)
    (balances : List CanonicalBalance) : Prop where
  preStates : ∀ p ∈ preStates, ∀ p' ∈ preStates, p.key = p'.key → p = p'
  generations : ∀ g ∈ generations, ∀ g' ∈ generations, g.key = g'.key →
    g.begin.traceOrdinal = g'.begin.traceOrdinal →
      StartsRun CanonicalGeneration.cmp (·.key) generations g →
        g.mapProvenance observe = g'.mapProvenance observe
  balances : ∀ b ∈ balances, ∀ b' ∈ balances, b.key = b'.key →
    b.mapProvenance observe = b'.mapProvenance observe

section Observe

variable {observe : TraceProvenance → TraceProvenance}
  (hobserve : ∀ p, (observe p).traceOrdinal = p.traceOrdinal)
include hobserve

lemma cmp_mapProvenance (g g' : CanonicalGeneration) :
    (g.mapProvenance observe).cmp (g'.mapProvenance observe) = g.cmp g' := by
  simp only [CanonicalGeneration.cmp, CanonicalGeneration.mapProvenance, hobserve]

lemma intervalValid_mapProvenance (g : CanonicalGeneration) :
    (g.mapProvenance observe).IntervalValid ↔ g.IntervalValid := by
  simp [CanonicalGeneration.IntervalValid, CanonicalGeneration.mapProvenance, hobserve]

lemma endsBefore_mapProvenance (g g' : CanonicalGeneration) :
    (g.mapProvenance observe).EndsBefore (g'.mapProvenance observe) ↔ g.EndsBefore g' := by
  simp [CanonicalGeneration.EndsBefore, CanonicalGeneration.mapProvenance, hobserve]

/-- The verification looks at the ordinals alone. -/
lemma verifyGlobalSchema_mapProvenance (ir : CanonicalSemanticIr) :
    (verifyGlobalSchema (ir.mapProvenance observe)).1 = [] ↔ (verifyGlobalSchema ir).1 = [] := by
  have hkeys : (ir.mapProvenance observe).generations.map (·.key) =
      ir.generations.map (·.key) := by
    simp only [CanonicalSemanticIr.mapProvenance, List.map_map]
    rfl
  rw [(verifyGlobalSchema_spec _).2.2, (verifyGlobalSchema_spec _).2.2, hkeys]
  simp only [CanonicalSemanticIr.mapProvenance, List.forall_mem_map, List.isChain_map,
    cmp_mapProvenance hobserve, intervalValid_mapProvenance hobserve,
    endsBefore_mapProvenance hobserve]
  rfl

lemma isValid_process_congr {preStates' : List CanonicalPreState}
    {generations' : List CanonicalGeneration} {balances' : List CanonicalBalance}
    (h : (process preStates' generations' balances').value.mapProvenance observe =
      (process preStates generations balances).value.mapProvenance observe) :
    (process preStates' generations' balances').isValid =
      (process preStates generations balances).isValid := by
  have hvalid : ∀ preStates generations balances,
      (process preStates generations balances).isValid = true ↔
        (verifyGlobalSchema (process preStates generations balances).value).1 = [] := by
    intro preStates generations balances
    obtain ⟨herror, -, -⟩ :=
      verifyGlobalSchema_spec (process preStates generations balances).value
    rw [List.eq_nil_iff_forall_not_mem]
    simp only [PassOutput.isValid, Bool.not_eq_true', List.any_eq_false, decide_eq_true_eq]
    exact ⟨fun h d hd => h d hd (herror d hd).1, fun h d hd => absurd hd (h d)⟩
  rw [Bool.eq_iff_iff, hvalid, hvalid, ← verifyGlobalSchema_mapProvenance hobserve, h,
    verifyGlobalSchema_mapProvenance hobserve]

/-- Order independence, for any observation that keeps the ordinals. -/
lemma orderIndependent_iff :
    OrderIndependent (fun ir ir' => ir.mapProvenance observe = ir'.mapProvenance observe)
        preStates generations balances ↔
      Unconflicted observe preStates generations balances := by
  have hpre := map_normalize_perm_iff (key_eq_of_keyCmp CanonicalPreState.key)
    (f := id) (l := preStates)
  have hgen := map_normalize_perm_iff key_eq_of_cmp
    (f := CanonicalGeneration.mapProvenance observe) (l := generations)
  have hbal := map_normalize_perm_iff (key_eq_of_keyCmp CanonicalBalance.key)
    (f := CanonicalBalance.mapProvenance observe) (l := balances)
  constructor
  · intro h
    refine ⟨?_, ?_, ?_⟩
    · intro p hp p' hp' hkey
      refine hpre.mp (fun l' hperm => ?_) p hp p' hp' (keyCmp_of_key_eq _ hkey)
        (startsRun_keyCmp _ _ _)
      have hsame := (h l' generations balances hperm (.refl _) (.refl _)).1
      rw [List.map_id, List.map_id]
      exact congrArg CanonicalSemanticIr.preStates hsame
    · intro g hg g' hg' hkey hbegin hrun
      refine hgen.mp (fun l' hperm => ?_) g hg g' hg'
        (CanonicalGeneration.cmp_eq_iff.mpr ⟨hkey, hbegin⟩) hrun
      have hsame := (h preStates l' balances (.refl _) hperm (.refl _)).1
      exact congrArg CanonicalSemanticIr.generations hsame
    · intro b hb b' hb' hkey
      refine hbal.mp (fun l' hperm => ?_) b hb b' hb' (keyCmp_of_key_eq _ hkey)
        (startsRun_keyCmp _ _ _)
      have hsame := (h preStates generations l' (.refl _) (.refl _) hperm).1
      exact congrArg CanonicalSemanticIr.balances hsame
  · intro h preStates' generations' balances' hpreperm hgenperm hbalperm
    have hsame : (process preStates' generations' balances').value.mapProvenance observe =
        (process preStates generations balances).value.mapProvenance observe := by
      rw [value_process, value_process, CanonicalSemanticIr.mk.injEq]
      refine ⟨?_, ?_, ?_⟩
      · have heq := hpre.mpr (fun p hp p' hp' htie _ =>
          h.preStates p hp p' hp' (key_eq_of_keyCmp _ p p' htie)) preStates' hpreperm
        rwa [List.map_id, List.map_id] at heq
      · refine hgen.mpr (fun g hg g' hg' htie hrun => ?_) generations' hgenperm
        obtain ⟨hkey, hbegin⟩ := CanonicalGeneration.cmp_eq_iff.mp htie
        exact h.generations g hg g' hg' hkey hbegin hrun
      · exact hbal.mpr (fun b hb b' hb' htie _ =>
          h.balances b hb b' hb' (key_eq_of_keyCmp _ b b' htie)) balances' hbalperm
    exact ⟨hsame, isValid_process_congr hobserve hsame⟩

end Observe

/-- **The order of the inputs** shows exactly if two different facts tie of which one is
kept, whether values are compared in full or by the derived `==`. -/
theorem process_perm_iff (preStates : List CanonicalPreState)
    (generations : List CanonicalGeneration) (balances : List CanonicalBalance) :
    (OrderIndependent (· = ·) preStates generations balances ↔
        Unconflicted id preStates generations balances) ∧
      (OrderIndependent CanonicalSemanticIr.SameFacts preStates generations balances ↔
        Unconflicted TraceProvenance.compared preStates generations balances) := by
  refine ⟨?_, orderIndependent_iff fun _ => rfl⟩
  have hid : OrderIndependent (fun ir ir' => ir.mapProvenance id = ir'.mapProvenance id)
      preStates generations balances ↔ Unconflicted id preStates generations balances :=
    orderIndependent_iff fun _ => rfl
  simpa only [CanonicalSemanticIr.mapProvenance_id] using hid

/-- Whether an account existed before is decided by the fact that comes first. -/
theorem two_pre_states_one_key :
    let fact (existed : Bool) : CanonicalPreState :=
      { key := { address := Bytes.zero 20, generationId := 0 }, existedBeforeTx := existed }
    ([fact true, fact false].Perm [fact false, fact true]) ∧
      (process [fact true, fact false] [] []).value ≠
        (process [fact false, fact true] [] []).value :=
  ⟨.swap .., by decide +kernel⟩

end CanonicalizationPipeline

end KaySentinel.Builder
