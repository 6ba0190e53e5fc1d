import KaySentinel.Builder.Lifecycle.Resolve
import KaySentinel.Lib.NormalForm

/-!
# Canonical generations

`CanonicalizationPipeline.process` sorts and deduplicates the generations and checks the
result; `Lifecycle.process` runs both lifecycle passes over every bucket.  The keys of the
canonical generations of an address depend on the kinds of its lifecycle events alone
(`perm_canonicalKeys`).
-/

namespace KaySentinel.Builder

open Cse NormalForm

structure CanonicalPreState where
  key : GenerationKey
  existedBeforeTx : Bool
deriving DecidableEq

structure CanonicalGeneration where
  key : GenerationKey
  begin : TraceProvenance
  fin : Option TraceProvenance
deriving DecidableEq

structure CanonicalBalance where
  key : GenerationKey
  value : List.Vector UInt64 4
  location : TraceProvenance
deriving DecidableEq

structure CanonicalSemanticIr where
  preStates : List CanonicalPreState
  generations : List CanonicalGeneration
  balances : List CanonicalBalance
deriving DecidableEq

namespace GenerationKey

/-- The derived order: by address, then generation. -/
def cmp (a b : GenerationKey) : Ordering :=
  (compare a.address b.address).then (compare a.generationId b.generationId)

instance : Std.TransCmp cmp :=
  inferInstanceAs (Std.TransCmp (compareLex (compareOn address) (compareOn generationId)))

lemma eq_of_cmp_eq {a b : GenerationKey} (h : a.cmp b = .eq) : a = b := by
  simp only [cmp, Ordering.then_eq_eq, Std.LawfulEqCmp.compare_eq_iff_eq] at h
  exact GenerationKey.ext h.1 h.2

/-- What `{:?}` prints for a key. -/
def debug (key : GenerationKey) : String :=
  "GenerationKey \x7b address: " ++ key.address.debug ++ ", generation_id: " ++
    toString key.generationId.toNat ++ " \x7d"

end GenerationKey

/-- By address, then by the ordinal of the beginning, then by generation. -/
def CanonicalGeneration.cmp (a b : CanonicalGeneration) : Ordering :=
  ((compare a.key.address b.key.address).then
    (compare a.begin.traceOrdinal b.begin.traceOrdinal)).then
      (compare a.key.generationId b.key.generationId)

namespace CanonicalGeneration

instance : Std.TransCmp cmp :=
  inferInstanceAs (Std.TransCmp
    (compareLex (compareLex (compareOn fun g : CanonicalGeneration => g.key.address)
      (compareOn fun g => g.begin.traceOrdinal)) (compareOn fun g => g.key.generationId)))

/-- Generations tie if they have one key and begin at one ordinal. -/
lemma cmp_eq_iff {a b : CanonicalGeneration} :
    a.cmp b = .eq ↔ a.key = b.key ∧ a.begin.traceOrdinal = b.begin.traceOrdinal := by
  simp only [cmp, Ordering.then_eq_eq, Std.LawfulEqCmp.compare_eq_iff_eq]
  constructor
  · rintro ⟨⟨haddress, hbegin⟩, hid⟩
    exact ⟨GenerationKey.ext haddress hid, hbegin⟩
  · rintro ⟨hkey, hbegin⟩
    rw [hkey, hbegin]
    exact ⟨⟨rfl, rfl⟩, rfl⟩

lemma isLE_address_of_cmp {a b : CanonicalGeneration} (h : (a.cmp b).isLE = true) :
    (compare a.key.address b.key.address).isLE = true :=
  Ordering.isLE_left_of_isLE_then (Ordering.isLE_left_of_isLE_then h)

lemma begin_le_of_cmp {a b : CanonicalGeneration} (haddress : a.key.address = b.key.address)
    (h : (a.cmp b).isLE = true) : a.begin.traceOrdinal ≤ b.begin.traceOrdinal := by
  have hself : compare a.key.address b.key.address = .eq :=
    Std.LawfulEqCmp.compare_eq_iff_eq.mpr haddress
  simp only [cmp, hself, Ordering.eq_then] at h
  exact Std.isLE_compare.mp (Ordering.isLE_left_of_isLE_then h)

end CanonicalGeneration

namespace CanonicalizationPipeline

def duplicateKeyDiagnostic (gen : CanonicalGeneration) : Diagnostic where
  severity := .error
  location := gen.begin
  violation := .duplicateKey gen.key
  explanation := "Key uniqueness violation: " ++ gen.key.debug

def intervalDiagnostic (gen : CanonicalGeneration) : Diagnostic where
  severity := .error
  location := gen.begin
  violation := .intervalInvalid gen.key
  explanation := "Temporal well-formedness breach for " ++ gen.key.debug

def integrityDiagnostic (bal : CanonicalBalance) : Diagnostic where
  severity := .error
  location := bal.location
  violation := .integrityBreach bal.key
  explanation := "Referential integrity breach for " ++ bal.key.debug

def orderingDiagnostic (g : CanonicalGeneration) : Diagnostic where
  severity := .error
  location := g.begin
  violation := .orderingBreach
  explanation := "Deterministic order violation detected within generations"

def overlapDiagnostic (g : CanonicalGeneration) : Diagnostic where
  severity := .error
  location := g.begin
  violation := .overlapDetected g.key.address
  explanation := "Temporal overlap breach at trace ordinal " ++ toString g.begin.traceOrdinal.toNat

/-- The state of the verification pass. -/
structure VerifyState where
  diagnostics : List Diagnostic
  report : InvariantReport
  seenGenerationKeys : List GenerationKey

/-- The loop over the generations: unique keys, and intervals that begin before they end. -/
def verifyGeneration (s : VerifyState) (gen : CanonicalGeneration) : VerifyState :=
  let s :=
    if gen.key ∈ s.seenGenerationKeys then
      { s with
        report := { s.report with keysUnique := false }
        diagnostics := s.diagnostics ++ [duplicateKeyDiagnostic gen] }
    else
      { s with seenGenerationKeys := s.seenGenerationKeys ++ [gen.key] }
  match gen.fin with
  | none => s
  | some endCoord =>
      if gen.begin.traceOrdinal ≥ endCoord.traceOrdinal then
        { s with
          report := { s.report with intervalsValid := false }
          diagnostics := s.diagnostics ++ [intervalDiagnostic gen] }
      else
        s

/-- The loop over the balances: each refers to a generation of the list. -/
def verifyBalance (s : VerifyState) (bal : CanonicalBalance) : VerifyState :=
  if bal.key ∈ s.seenGenerationKeys then
    s
  else
    { s with
      report := { s.report with referentialIntegrity := false }
      diagnostics := s.diagnostics ++ [integrityDiagnostic bal] }

/-- The loop over neighbouring generations: order, and no overlap within an address. -/
def verifyWindow (s : VerifyState) (window : CanonicalGeneration × CanonicalGeneration) :
    VerifyState :=
  let (g1, g2) := window
  let s :=
    if g1.cmp g2 = .gt then
      { s with
        report := { s.report with deterministicOrder := false }
        diagnostics := s.diagnostics ++ [orderingDiagnostic g2] }
    else
      s
  if g1.key.address = g2.key.address then
    match g1.fin with
    | none => s
    | some endCoord =>
        if endCoord.traceOrdinal ≥ g2.begin.traceOrdinal then
          { s with
            report := { s.report with intervalsValid := false }
            diagnostics := s.diagnostics ++ [overlapDiagnostic g2] }
        else
          s
  else
    s

def verifyGlobalSchema (ir : CanonicalSemanticIr) : List Diagnostic × InvariantReport :=
  let s : VerifyState :=
    { diagnostics := []
      report := { keysUnique := true, referentialIntegrity := true, deterministicOrder := true
                  intervalsValid := true }
      seenGenerationKeys := [] }
  let s := ir.generations.foldl verifyGeneration s
  -- the set of active generations holds the same keys as the set of seen ones
  let s := ir.balances.foldl verifyBalance s
  let s := (ir.generations.zip ir.generations.tail).foldl verifyWindow s
  (s.diagnostics, s.report)

def verifyAlreadyCanonical (ir : CanonicalSemanticIr) : List Diagnostic × InvariantReport :=
  verifyGlobalSchema ir

/-- The order of `sort_by_key(|t| t.key)`. -/
def keyCmp {T : Type} (key : T → GenerationKey) (a b : T) : Ordering :=
  (key a).cmp (key b)

instance {T : Type} (key : T → GenerationKey) : Std.TransCmp (keyCmp key) where
  eq_swap {a b} := Std.OrientedCmp.eq_swap (a := key a) (b := key b)
  isLE_trans {a b c} := Std.TransCmp.isLE_trans (a := key a) (b := key b) (c := key c)

/-- Each list is sorted, and `dedup_by(|a, b| a.key == b.key)` keeps the first of consecutive
entries with one key. -/
def process (preStates : List CanonicalPreState) (generations : List CanonicalGeneration)
    (balances : List CanonicalBalance) : PassOutput CanonicalSemanticIr :=
  let canonicalIr : CanonicalSemanticIr :=
    { preStates := normalize (keyCmp CanonicalPreState.key) CanonicalPreState.key preStates
      generations := normalize CanonicalGeneration.cmp CanonicalGeneration.key generations
      balances := normalize (keyCmp CanonicalBalance.key) CanonicalBalance.key balances }
  let (diagnostics, report) := verifyGlobalSchema canonicalIr
  { value := canonicalIr, diagnostics := diagnostics, invariantReport := report }

end CanonicalizationPipeline

namespace Lifecycle

/-- Both lifecycle passes over one bucket. -/
def processBucket (preStates : OrdMap.Map Address Bool) (bucket : ReducedTransactionBucket) :
    PassOutput CanonicalSemanticIr :=
  let semanticPass := resolve bucket.lifecycleTable preStates
  let canonicalPreStates : List CanonicalPreState :=
    semanticPass.value.preStates.map fun p =>
      { key := { address := p.address, generationId := 0 }, existedBeforeTx := p.existedBeforeTx }
  let canonicalGenerations : List CanonicalGeneration :=
    semanticPass.value.generations.map fun g =>
      { key := { address := g.address, generationId := g.generationId }
        begin := g.begin, fin := g.fin }
  let canonicalPass :=
    CanonicalizationPipeline.process canonicalPreStates canonicalGenerations []
  { canonicalPass with diagnostics := canonicalPass.diagnostics ++ semanticPass.diagnostics }

def process (ir : ReducedIr) (preStates : OrdMap.Map Address Bool) :
    List (PassOutput CanonicalSemanticIr) :=
  ir.map (processBucket preStates)

/-! ## The keys of the canonical generations -/

variable {table : OrdMap.Map Address (List ObservedLifecycle)}

/-- The keys of the generations of a lifecycle table, before they are sorted. -/
def tableKeys (table : OrdMap.Map Address (List ObservedLifecycle)) : List GenerationKey :=
  table.toList.flatMap fun (address, observations) =>
    generationKeys address 0 (generationCount true (observations.map (·.payload)))

lemma map_key_resolve (preStates : OrdMap.Map Address Bool) :
    (resolve table preStates).value.generations.map GenerationRelation.key = tableKeys table := by
  simp only [resolve, tableKeys, List.map_flatMap, map_key_resolveAddress]

lemma address_of_mem_generationKeys {address : Address} {first n : ℕ} {key : GenerationKey}
    (h : key ∈ generationKeys address first n) : key.address = address := by
  obtain ⟨i, -, rfl⟩ := List.mem_map.mp h
  rfl

/-- Every address has fewer than `2 ^ 32` destructions. -/
def FewDestroyed (table : OrdMap.Map Address (List ObservedLifecycle)) : Prop :=
  ∀ (address : Address) (observations : List ObservedLifecycle),
    table[address]? = some observations →
      (observations.map (·.payload)).countP CseLifecyclePayload.isDestroyed < 2 ^ 32

lemma nodup_tableKeys (h : FewDestroyed table) : (tableKeys table).Nodup := by
  rw [tableKeys, List.nodup_flatMap]
  constructor
  · rintro ⟨address, observations⟩ hmem
    have hfew := h address observations (OrdMap.mem_toList_iff.mp hmem)
    have hcount := generationCount_le true (observations.map (·.payload))
    exact nodup_generationKeys address (by omega)
  · refine (OrdMap.pairwise_toList table).imp ?_
    rintro ⟨a, oa⟩ ⟨b, ob⟩ hne key ha hb
    exact hne ((address_of_mem_generationKeys ha).symm.trans (address_of_mem_generationKeys hb))

/-- Sorting and deduplicating keeps every generation. -/
theorem perm_canonicalKeys {bucket : ReducedTransactionBucket}
    (h : FewDestroyed bucket.lifecycleTable) (preStates : OrdMap.Map Address Bool) :
    ((processBucket preStates bucket).value.generations.map (·.key)).Perm
      (tableKeys bucket.lifecycleTable) := by
  have hkeys : ((resolve bucket.lifecycleTable preStates).value.generations.map fun g =>
      ({ key := { address := g.address, generationId := g.generationId }
         begin := g.begin, fin := g.fin } : CanonicalGeneration)).map (·.key) =
      tableKeys bucket.lifecycleTable := by
    rw [← map_key_resolve preStates, List.map_map]
    rfl
  have hperm := @perm_normalize _ _ CanonicalGeneration.cmp CanonicalGeneration.key _ _
    (hkeys ▸ nodup_tableKeys h)
  exact (hperm.map CanonicalGeneration.key).trans (List.Perm.of_eq hkeys)

end Lifecycle

end KaySentinel.Builder
