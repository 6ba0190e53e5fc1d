import KaySentinel.Builder.Reduce

/-!
# Resolving lifecycles into generations

`Lifecycle.resolve` cuts the lifecycle events of each address into generations: the spans
between one creation and the next destruction.  `map_key_generationsOf` lists the
generations of an address as a function of the kinds of its events alone.
-/

namespace KaySentinel.Builder

open Cse

/-- One identity generation of an account. -/
@[ext]
structure GenerationKey where
  address : Address
  generationId : UInt32
deriving DecidableEq

structure AccountPreStateRelation where
  address : Address
  existedBeforeTx : Bool
deriving DecidableEq

structure GenerationRelation where
  address : Address
  generationId : UInt32
  begin : TraceProvenance
  fin : Option TraceProvenance
deriving DecidableEq

structure SemanticIr where
  preStates : List AccountPreStateRelation
  generations : List GenerationRelation
deriving DecidableEq

/-! ## Diagnostics -/

inductive Severity where
  | error
  | warning
deriving DecidableEq

inductive LifecycleViolation where
  | collision (address : Address) (generationId : UInt32)
  | duplicateKey (key : GenerationKey)
  | integrityBreach (key : GenerationKey)
  | intervalInvalid (key : GenerationKey)
  | overlapDetected (address : Address)
  | orderingBreach
deriving DecidableEq

structure Diagnostic where
  severity : Severity
  location : TraceProvenance
  violation : LifecycleViolation
  explanation : String
deriving DecidableEq

structure InvariantReport where
  keysUnique : Bool
  referentialIntegrity : Bool
  deterministicOrder : Bool
  intervalsValid : Bool
deriving DecidableEq

structure PassOutput (T : Type) where
  value : T
  diagnostics : List Diagnostic
  invariantReport : InvariantReport
deriving DecidableEq

/-- The kind of a lifecycle event. -/
def CseLifecyclePayload.isDestroyed : CseLifecyclePayload → Bool
  | .destroyed _ => true
  | .created _ => false

namespace Lifecycle

/-- The state of the loop over the observations of one address. -/
structure ResolveState where
  generations : List GenerationRelation
  diagnostics : List Diagnostic
  currentGenId : UInt32
  begin : TraceProvenance
  genOpen : Bool

def collisionDiagnostic (address : Address) (generationId : UInt32)
    (location : TraceProvenance) : Diagnostic where
  severity := .error
  location := location
  violation := .collision address generationId
  explanation := "Contract creation observed on account " ++ address.debug ++
    " while generation " ++ toString generationId.toNat ++ " was already active"

def resolveStep (address : Address) (existedBeforeTx : Bool) (s : ResolveState)
    (obs : ObservedLifecycle) : ResolveState :=
  match obs.payload with
  | .created _ =>
      let existedBefore := if s.currentGenId = 0 then existedBeforeTx else false
      { s with
        diagnostics :=
          if existedBefore then
            s.diagnostics ++ [collisionDiagnostic address s.currentGenId obs.traceProvenance]
          else
            s.diagnostics
        begin := obs.traceProvenance
        genOpen := true }
  | .destroyed _ =>
      { s with
        generations := s.generations ++
          [{ address := address, generationId := s.currentGenId, begin := s.begin,
             fin := some obs.traceProvenance }]
        -- `current_gen_id += 1`
        currentGenId := s.currentGenId + 1
        begin := obs.traceProvenance
        genOpen := false }

/-- The generation that is still open after the loop, if there is one. -/
def openGeneration (address : Address) (s : ResolveState) : List GenerationRelation :=
  if s.genOpen then
    [{ address := address, generationId := s.currentGenId, begin := s.begin, fin := none }]
  else
    []

/-- The generations and the diagnostics of one address. -/
def resolveAddress (address : Address) (existedBeforeTx : Bool)
    (observations : List ObservedLifecycle) : List GenerationRelation × List Diagnostic :=
  let s := observations.foldl (resolveStep address existedBeforeTx)
    { generations := [], diagnostics := [], currentGenId := 0
      begin := (observations.head?.map (·.traceProvenance)).getD .default, genOpen := true }
  (s.generations ++ openGeneration address s, s.diagnostics)

def resolve (lifecycleTable : OrdMap.Map Address (List ObservedLifecycle))
    (preStates : OrdMap.Map Address Bool) : PassOutput SemanticIr where
  value :=
    { preStates := lifecycleTable.toList.map fun (address, _) =>
        { address := address, existedBeforeTx := preStates[address]?.getD false }
      generations := lifecycleTable.toList.flatMap fun (address, observations) =>
        (resolveAddress address (preStates[address]?.getD false) observations).1 }
  diagnostics := lifecycleTable.toList.flatMap fun (address, observations) =>
    (resolveAddress address (preStates[address]?.getD false) observations).2
  invariantReport :=
    { keysUnique := true, referentialIntegrity := true
      -- not guaranteed until canonicalize
      deterministicOrder := false, intervalsValid := true }

/-! ## The generations of one address -/

/-- The number of generations that the events of one address are cut into; `isOpen` tells
whether one is open at the start. -/
def generationCount : Bool → List CseLifecyclePayload → ℕ
  | isOpen, [] => if isOpen then 1 else 0
  | _, .created _ :: rest => generationCount true rest
  | _, .destroyed _ :: rest => generationCount false rest + 1

lemma generationCount_le (isOpen : Bool) (kinds : List CseLifecyclePayload) :
    generationCount isOpen kinds ≤ kinds.countP CseLifecyclePayload.isDestroyed + 1 := by
  induction kinds generalizing isOpen with
  | nil =>
    rw [generationCount]
    split <;> simp
  | cons kind kinds ih =>
    cases kind with
    | created p => simpa [generationCount, CseLifecyclePayload.isDestroyed] using ih true
    | destroyed p =>
      have := ih false
      simp only [generationCount, List.countP_cons, CseLifecyclePayload.isDestroyed, if_true]
      omega

/-- The keys of `n` generations of an address, numbered from `first`. -/
def generationKeys (address : Address) (first n : ℕ) : List GenerationKey :=
  (List.range' first n).map fun i => { address := address, generationId := UInt32.ofNat i }

def GenerationRelation.key (g : GenerationRelation) : GenerationKey :=
  { address := g.address, generationId := g.generationId }

/-- The loop over the events of an address, started at any generation. -/
lemma map_key_foldl_resolveStep (address : Address) (existed : Bool)
    (observations : List ObservedLifecycle) (s : ResolveState) (first : ℕ)
    (hs : s.currentGenId = UInt32.ofNat first) :
    let t := observations.foldl (resolveStep address existed) s
    (t.generations ++ openGeneration address t).map GenerationRelation.key =
      s.generations.map GenerationRelation.key ++
        generationKeys address first
          (generationCount s.genOpen (observations.map (·.payload))) := by
  induction observations generalizing s first with
  | nil =>
    cases hopen : s.genOpen <;>
      simp [openGeneration, generationCount, generationKeys, GenerationRelation.key, hopen, hs]
  | cons obs observations ih =>
    simp only [List.foldl_cons, List.map_cons]
    cases hp : obs.payload with
    | created p =>
      have hstep : (resolveStep address existed s obs).currentGenId = UInt32.ofNat first := by
        simp [resolveStep, hp, hs]
      rw [ih _ first hstep]
      simp [resolveStep, hp, generationCount]
    | destroyed p =>
      have hstep : (resolveStep address existed s obs).currentGenId =
          UInt32.ofNat (first + 1) := by
        simp [resolveStep, hp, hs]
      rw [ih _ (first + 1) hstep]
      simp [resolveStep, hp, generationCount, generationKeys, GenerationRelation.key, hs,
        List.range'_succ]

/-- The generations of an address are numbered from zero; how many there are depends on the
kinds of its lifecycle events alone. -/
theorem map_key_resolveAddress (address : Address) (existed : Bool)
    (observations : List ObservedLifecycle) :
    (resolveAddress address existed observations).1.map GenerationRelation.key =
      generationKeys address 0 (generationCount true (observations.map (·.payload))) := by
  have h := map_key_foldl_resolveStep address existed observations
    { generations := [], diagnostics := [], currentGenId := 0
      begin := (observations.head?.map (·.traceProvenance)).getD .default, genOpen := true }
    0 rfl
  simp only [List.map_nil, List.nil_append] at h
  rw [← h]
  rfl

lemma nodup_generationKeys (address : Address) {n : ℕ} (h : n ≤ 2 ^ 32) :
    (generationKeys address 0 n).Nodup := by
  refine (List.nodup_range' (n := n)).map_on ?_
  intro i hi j hj heq
  have hid : UInt32.ofNat i = UInt32.ofNat j := congrArg GenerationKey.generationId heq
  simp only [List.mem_range', Nat.zero_add, one_mul] at hi hj
  obtain ⟨i, hi, rfl⟩ := hi
  obtain ⟨j, hj, rfl⟩ := hj
  have := congrArg UInt32.toNat hid
  simp only [UInt32.toNat_ofNat'] at this
  omega

end Lifecycle

end KaySentinel.Builder
