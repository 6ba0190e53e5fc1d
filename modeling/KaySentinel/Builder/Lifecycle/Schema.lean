import KaySentinel.Builder.Lifecycle.Resolution

/-!
# The schema verification

`verifyGlobalSchema` reports nothing exactly if the keys of the generations are distinct,
every interval begins before it ends, every balance refers to a generation and neighbours
neither are out of order nor overlap (`verifyGlobalSchema_spec`).
-/

namespace KaySentinel.Builder

open Cse

/-- `PassOutput::is_valid`. -/
def PassOutput.isValid {T : Type} (out : PassOutput T) : Bool :=
  !out.diagnostics.any (·.severity = .error)

/-- The report of a pass that finds nothing wrong. -/
def InvariantReport.passing : InvariantReport :=
  { keysUnique := true, referentialIntegrity := true, deterministicOrder := true
    intervalsValid := true }

/-- The diagnostic is of a creation on an open generation. -/
def LifecycleViolation.isCollision : LifecycleViolation → Bool
  | .collision _ _ => true
  | _ => false

/-- The interval of a generation begins before it ends. -/
def CanonicalGeneration.IntervalValid (g : CanonicalGeneration) : Prop :=
  ∀ e, g.fin = some e → g.begin.traceOrdinal < e.traceOrdinal

/-- Of two neighbours of one address the first ends before the second begins. -/
def CanonicalGeneration.EndsBefore (g g' : CanonicalGeneration) : Prop :=
  g.key.address = g'.key.address →
    ∀ e, g.fin = some e → e.traceOrdinal < g'.begin.traceOrdinal

namespace CanonicalizationPipeline

/-- What every state of the verification satisfies: it reports errors only, none of them a
collision, and while it has reported none the report passes. -/
structure VerifyState.Sound (s : VerifyState) : Prop where
  severity : ∀ d ∈ s.diagnostics, d.severity = .error
  violation : ∀ d ∈ s.diagnostics, d.violation.isCollision = false
  report : s.diagnostics = [] → s.report = .passing

/-- Adding a diagnostic that is no collision. -/
lemma VerifyState.Sound.push {s t : VerifyState} (h : s.Sound) {d : Diagnostic}
    (ht : t.diagnostics = s.diagnostics ++ [d]) (hseverity : d.severity = .error)
    (hviolation : d.violation.isCollision = false) : t.Sound where
  severity := by
    intro d' hd'
    rw [ht, List.mem_append, List.mem_singleton] at hd'
    rcases hd' with hd' | rfl
    · exact h.severity d' hd'
    · exact hseverity
  violation := by
    intro d' hd'
    rw [ht, List.mem_append, List.mem_singleton] at hd'
    rcases hd' with hd' | rfl
    · exact h.violation d' hd'
    · exact hviolation
  report := by
    intro hnil
    rw [ht] at hnil
    exact absurd hnil (by simp)

/-! ## The loop over the generations -/

/-- The first half of a step: the key. -/
def verifyKey (s : VerifyState) (gen : CanonicalGeneration) : VerifyState :=
  if gen.key ∈ s.seenGenerationKeys then
    { s with
      report := { s.report with keysUnique := false }
      diagnostics := s.diagnostics ++ [duplicateKeyDiagnostic gen] }
  else
    { s with seenGenerationKeys := s.seenGenerationKeys ++ [gen.key] }

/-- The second half of a step: the interval. -/
def verifyInterval (s : VerifyState) (gen : CanonicalGeneration) : VerifyState :=
  match gen.fin with
  | none => s
  | some endCoord =>
      if gen.begin.traceOrdinal ≥ endCoord.traceOrdinal then
        { s with
          report := { s.report with intervalsValid := false }
          diagnostics := s.diagnostics ++ [intervalDiagnostic gen] }
      else
        s

lemma verifyGeneration_eq (s : VerifyState) (gen : CanonicalGeneration) :
    verifyGeneration s gen = verifyInterval (verifyKey s gen) gen := rfl

lemma verifyKey_spec {s : VerifyState} (h : s.Sound) (gen : CanonicalGeneration) :
    (verifyKey s gen).Sound ∧
      ((verifyKey s gen).diagnostics = [] ↔
        s.diagnostics = [] ∧ gen.key ∉ s.seenGenerationKeys) ∧
      (gen.key ∉ s.seenGenerationKeys →
        (verifyKey s gen).seenGenerationKeys = s.seenGenerationKeys ++ [gen.key]) := by
  rw [verifyKey]
  split
  · rename_i hmem
    exact ⟨h.push rfl rfl rfl, by simp [hmem], fun hnot => absurd hmem hnot⟩
  · rename_i hmem
    exact ⟨⟨h.severity, h.violation, h.report⟩, by simp [hmem], fun _ => rfl⟩

lemma verifyInterval_spec {s : VerifyState} (h : s.Sound) (gen : CanonicalGeneration) :
    (verifyInterval s gen).Sound ∧
      ((verifyInterval s gen).diagnostics = [] ↔ s.diagnostics = [] ∧ gen.IntervalValid) ∧
      (verifyInterval s gen).seenGenerationKeys = s.seenGenerationKeys := by
  rw [verifyInterval, CanonicalGeneration.IntervalValid]
  cases hfin : gen.fin with
  | none => exact ⟨h, by simp, rfl⟩
  | some e =>
    by_cases hge : gen.begin.traceOrdinal ≥ e.traceOrdinal
    · simp only [if_pos hge]
      refine ⟨h.push rfl rfl rfl, ?_, trivial⟩
      simpa using fun _ => UInt64.not_lt.mpr hge
    · simp only [if_neg hge]
      refine ⟨h, ?_, trivial⟩
      simpa using fun _ => UInt64.not_le.mp hge

lemma foldl_verifyGeneration {s : VerifyState} (h : s.Sound) (gens : List CanonicalGeneration) :
    (gens.foldl verifyGeneration s).Sound ∧
      ((gens.foldl verifyGeneration s).diagnostics = [] ↔ s.diagnostics = [] ∧
        (∀ key ∈ s.seenGenerationKeys, key ∉ gens.map (·.key)) ∧ (gens.map (·.key)).Nodup ∧
        ∀ g ∈ gens, g.IntervalValid) := by
  induction gens generalizing s with
  | nil => exact ⟨h, by simp⟩
  | cons gen gens ih =>
    obtain ⟨hkey, hkeynil, hseen⟩ := verifyKey_spec h gen
    obtain ⟨hinterval, hintervalnil, hkeep⟩ := verifyInterval_spec hkey gen
    rw [← verifyGeneration_eq] at hinterval hintervalnil hkeep
    obtain ⟨hsound, hnil⟩ := ih hinterval
    refine ⟨hsound, ?_⟩
    rw [List.foldl_cons, hnil, hintervalnil, hkeynil, hkeep, List.map_cons, List.nodup_cons,
      List.forall_mem_cons]
    constructor
    · rintro ⟨⟨⟨hdiag, hnew⟩, hvalid⟩, hdisjoint, hnodup, hall⟩
      rw [hseen hnew] at hdisjoint
      refine ⟨hdiag, ?_, ⟨hdisjoint _ (by simp), hnodup⟩, hvalid, hall⟩
      intro key hmem hin
      rcases List.mem_cons.mp hin with rfl | hin
      · exact hnew hmem
      · exact hdisjoint key (by simp [hmem]) hin
    · rintro ⟨hdiag, hdisjoint, ⟨hnot, hnodup⟩, hvalid, hall⟩
      have hnew : gen.key ∉ s.seenGenerationKeys :=
        fun hmem => hdisjoint _ hmem (List.mem_cons_self ..)
      refine ⟨⟨⟨hdiag, hnew⟩, hvalid⟩, ?_, hnodup, hall⟩
      rw [hseen hnew]
      intro key hmem hin
      rcases List.mem_append.mp hmem with hmem | hmem
      · exact hdisjoint key hmem (List.mem_cons_of_mem _ hin)
      · rw [List.mem_singleton.mp hmem] at hin
        exact hnot hin

/-- The keys seen are those seen before and those of the generations. -/
lemma mem_seenGenerationKeys_foldl {s : VerifyState} {gens : List CanonicalGeneration}
    {key : GenerationKey} :
    key ∈ (gens.foldl verifyGeneration s).seenGenerationKeys ↔
      key ∈ s.seenGenerationKeys ∨ key ∈ gens.map (·.key) := by
  induction gens generalizing s with
  | nil => simp
  | cons gen gens ih =>
    have hstep : key ∈ (verifyGeneration s gen).seenGenerationKeys ↔
        key ∈ s.seenGenerationKeys ∨ key = gen.key := by
      have hinterval : (verifyGeneration s gen).seenGenerationKeys =
          (verifyKey s gen).seenGenerationKeys := by
        rw [verifyGeneration_eq, verifyInterval]
        split
        · rfl
        · split <;> rfl
      rw [hinterval, verifyKey]
      split
      · rename_i hmem
        refine ⟨.inl, ?_⟩
        rintro (h | rfl)
        · exact h
        · exact hmem
      · simp
    rw [List.foldl_cons, ih, hstep, List.map_cons, List.mem_cons, or_assoc]

/-! ## The loop over the balances -/

lemma foldl_verifyBalance {s : VerifyState} (h : s.Sound) (bals : List CanonicalBalance) :
    (bals.foldl verifyBalance s).Sound ∧
      ((bals.foldl verifyBalance s).diagnostics = [] ↔ s.diagnostics = [] ∧
        ∀ bal ∈ bals, bal.key ∈ s.seenGenerationKeys) := by
  induction bals generalizing s with
  | nil => exact ⟨h, by simp⟩
  | cons bal bals ih =>
    rw [List.foldl_cons, List.forall_mem_cons]
    by_cases hmem : bal.key ∈ s.seenGenerationKeys
    · have hstep : verifyBalance s bal = s := if_pos hmem
      obtain ⟨hsound, hnil⟩ := ih h
      rw [hstep]
      exact ⟨hsound, by simpa [hmem] using hnil⟩
    · have hstep : verifyBalance s bal =
          { s with
            report := { s.report with referentialIntegrity := false }
            diagnostics := s.diagnostics ++ [integrityDiagnostic bal] } := if_neg hmem
      obtain ⟨hsound, hnil⟩ := ih (s := verifyBalance s bal) (by
        rw [hstep]
        exact h.push rfl rfl rfl)
      refine ⟨hsound, ?_⟩
      rw [hnil, hstep]
      simp [hmem]

/-! ## The loop over the neighbours -/

/-- The first half of a step: the order. -/
def verifyOrder (s : VerifyState) (g1 g2 : CanonicalGeneration) : VerifyState :=
  if g1.cmp g2 = .gt then
    { s with
      report := { s.report with deterministicOrder := false }
      diagnostics := s.diagnostics ++ [orderingDiagnostic g2] }
  else
    s

/-- The second half of a step: the overlap. -/
def verifyOverlap (s : VerifyState) (g1 g2 : CanonicalGeneration) : VerifyState :=
  if g1.key.address = g2.key.address then
    match g1.fin with
    | none => s
    | some endCoord =>
        if endCoord.traceOrdinal ≥ g2.begin.traceOrdinal then
          { s with
            report := { s.report with intervalsValid := false }
            diagnostics := s.diagnostics ++ [overlapDiagnostic g2] }
        else
          s
  else
    s

lemma verifyWindow_eq (s : VerifyState) (g1 g2 : CanonicalGeneration) :
    verifyWindow s (g1, g2) = verifyOverlap (verifyOrder s g1 g2) g1 g2 := rfl

lemma verifyOrder_spec {s : VerifyState} (h : s.Sound) (g1 g2 : CanonicalGeneration) :
    (verifyOrder s g1 g2).Sound ∧
      ((verifyOrder s g1 g2).diagnostics = [] ↔
        s.diagnostics = [] ∧ (g1.cmp g2).isLE = true) := by
  rw [verifyOrder]
  cases hcmp : g1.cmp g2 with
  | gt => exact ⟨h.push rfl rfl rfl, by simp⟩
  | lt => exact ⟨h, by simp⟩
  | eq => exact ⟨h, by simp⟩

lemma verifyOverlap_spec {s : VerifyState} (h : s.Sound) (g1 g2 : CanonicalGeneration) :
    (verifyOverlap s g1 g2).Sound ∧
      ((verifyOverlap s g1 g2).diagnostics = [] ↔ s.diagnostics = [] ∧ g1.EndsBefore g2) := by
  rw [verifyOverlap, CanonicalGeneration.EndsBefore]
  by_cases haddress : g1.key.address = g2.key.address
  · simp only [if_pos haddress]
    cases hfin : g1.fin with
    | none => exact ⟨h, by simp⟩
    | some e =>
      by_cases hge : e.traceOrdinal ≥ g2.begin.traceOrdinal
      · simp only [if_pos hge]
        refine ⟨h.push rfl rfl rfl, ?_⟩
        simpa [haddress] using fun _ => UInt64.not_lt.mpr hge
      · simp only [if_neg hge]
        refine ⟨h, ?_⟩
        simpa [haddress] using fun _ => UInt64.not_le.mp hge
  · simp only [if_neg haddress]
    exact ⟨h, by simp [haddress]⟩

lemma foldl_verifyWindow {s : VerifyState} (h : s.Sound) (gens : List CanonicalGeneration) :
    ((gens.zip gens.tail).foldl verifyWindow s).Sound ∧
      (((gens.zip gens.tail).foldl verifyWindow s).diagnostics = [] ↔ s.diagnostics = [] ∧
        gens.IsChain fun g g' => (g.cmp g').isLE = true ∧ g.EndsBefore g') := by
  induction gens generalizing s with
  | nil => exact ⟨h, by simp⟩
  | cons g1 rest ih =>
    cases rest with
    | nil => exact ⟨h, by simp⟩
    | cons g2 rest =>
      obtain ⟨horder, hordernil⟩ := verifyOrder_spec h g1 g2
      obtain ⟨hoverlap, hoverlapnil⟩ := verifyOverlap_spec horder g1 g2
      rw [← verifyWindow_eq] at hoverlap hoverlapnil
      obtain ⟨hsound, hnil⟩ := ih hoverlap
      refine ⟨hsound, ?_⟩
      rw [List.isChain_cons_cons]
      show (((g2 :: rest).zip rest).foldl verifyWindow (verifyWindow s (g1, g2))).diagnostics =
        [] ↔ _
      rw [List.tail_cons] at hnil
      rw [hnil, hoverlapnil, hordernil, and_assoc, and_assoc, and_assoc]

/-- **The schema verification.** -/
theorem verifyGlobalSchema_spec (ir : CanonicalSemanticIr) :
    let out := verifyGlobalSchema ir
    (∀ d ∈ out.1, d.severity = .error ∧ d.violation.isCollision = false) ∧
      (out.1 = [] → out.2 = .passing) ∧
      (out.1 = [] ↔ (ir.generations.map (·.key)).Nodup ∧
        (∀ g ∈ ir.generations, g.IntervalValid) ∧
        (∀ bal ∈ ir.balances, bal.key ∈ ir.generations.map (·.key)) ∧
        ir.generations.IsChain fun g g' => (g.cmp g').isLE = true ∧ g.EndsBefore g') := by
  have hstart : VerifyState.Sound
      { diagnostics := [], report := .passing, seenGenerationKeys := [] } :=
    ⟨by simp, by simp, fun _ => rfl⟩
  obtain ⟨hgens, hgensnil⟩ := foldl_verifyGeneration hstart ir.generations
  obtain ⟨hbals, hbalsnil⟩ := foldl_verifyBalance hgens ir.balances
  obtain ⟨hsound, hnil⟩ := foldl_verifyWindow hbals ir.generations
  refine ⟨fun d hd => ⟨hsound.severity d hd, hsound.violation d hd⟩, hsound.report, ?_⟩
  refine hnil.trans ?_
  rw [hbalsnil, hgensnil]
  simp [mem_seenGenerationKeys_foldl, and_assoc]

end CanonicalizationPipeline

end KaySentinel.Builder
