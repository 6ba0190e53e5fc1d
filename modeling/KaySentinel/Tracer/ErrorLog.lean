import KaySentinel.Tracer.Discipline

/-!
# The error log of any run

The error log of the tracer, for calls in any order, and what it tells beside a stream that Gate 1
accepts: `Tracer.clean_iff_oneBlock`.
-/

namespace KaySentinel

open Emes NestedLog Validation

/-! ## What calls add -/

/-- The codes in the error log after calls, with `depth` open frames before them. -/
def audit : ℕ → List InternalErrorCode → List Hook → List InternalErrorCode
  | _, codes, [] => codes
  | depth, codes, call :: calls =>
      audit (call.depthAfter depth) (Tracer.kept call codes ++ call.violation depth) calls

/-- The codes that calls add to the error log, with `depth` open frames before them. -/
def violations : ℕ → List Hook → List InternalErrorCode
  | _, [] => []
  | depth, call :: calls => call.violation depth ++ violations (call.depthAfter depth) calls

lemma audit_eq {depth : ℕ} {codes : List InternalErrorCode} {calls : List Hook}
    (h : ∀ call ∈ calls, call.clears = false) :
    audit depth codes calls = codes ++ violations depth calls := by
  induction calls generalizing depth codes with
  | nil => exact (List.append_nil codes).symm
  | cons call calls ih =>
    obtain ⟨hcall, hcalls⟩ := List.forall_mem_cons.mp h
    rw [audit, ih hcalls, Tracer.kept, hcall, violations, List.append_assoc]
    rfl

lemma unmatched_eq_false {depth : ℕ} {call : Hook} (h : call.violation depth = []) :
    call.unmatched depth = false := by
  cases call with
  | onExit flag =>
    simp only [Hook.violation, ite_eq_right_iff, List.cons_ne_nil, imp_false] at h
    simpa [Hook.unmatched] using h
  | _ => rfl

/-- Calls that add no error are all matched. -/
lemma matched_eq_self {depth : ℕ} {calls : List Hook} (h : violations depth calls = []) :
    matched depth calls = calls := by
  induction calls generalizing depth with
  | nil => rfl
  | cons call calls ih =>
    obtain ⟨hcall, hcalls⟩ := List.append_eq_nil_iff.mp h
    rw [matched, if_neg (by rw [unmatched_eq_false hcall]; exact Bool.false_ne_true), ih hcalls]

lemma violations_append_forest (depth : ℕ) (hooks : HookForest) (calls : List Hook) :
    violations depth (HookForest.calls hooks ++ calls) = violations depth calls := by
  induction hooks generalizing depth calls with
  | nil => rfl
  | leaf hook rest ih => exact ih depth calls
  | node frame inner rest ihinner ihrest =>
    rw [HookForest.calls, List.cons_append, List.append_assoc, List.cons_append, violations,
      ihinner, violations]
    exact ihrest depth calls

lemma violations_append_parts (parts : List (MutationHook ⊕ TxCalls)) (calls : List Hook) :
    violations 0 (parts.flatMap HookBlock.partCalls ++ calls) = violations 0 calls := by
  induction parts with
  | nil => rfl
  | cons part parts ih =>
    rw [List.flatMap_cons, List.append_assoc]
    cases part with
    | inl hook => exact ih
    | inr tx =>
      rw [HookBlock.partCalls, TxCalls.calls, List.cons_append, List.append_assoc, violations]
      exact (violations_append_forest 0 tx.body _).trans ih

lemma clears_forest (hooks : HookForest) :
    ∀ call ∈ HookForest.calls hooks, call.clears = false := by
  rw [HookForest.calls_eq_word]
  simp only [List.mem_map, forall_exists_index, and_imp]
  rintro _ letter - rfl
  cases letter <;> rfl

lemma clears_parts (parts : List (MutationHook ⊕ TxCalls)) :
    ∀ call ∈ parts.flatMap HookBlock.partCalls ++ [.onBlockEnd], call.clears = false := by
  intro call hcall
  rcases List.mem_append.mp hcall with hcall | hcall
  · obtain ⟨part, -, hcall⟩ := List.mem_flatMap.mp hcall
    cases part with
    | inl hook =>
      obtain rfl := List.mem_singleton.mp hcall
      rfl
    | inr tx =>
      rcases List.mem_cons.mp hcall with rfl | hcall
      · rfl
      rcases List.mem_append.mp hcall with hcall | hcall
      · exact clears_forest tx.body call hcall
      · obtain rfl := List.mem_singleton.mp hcall
        rfl
  · obtain rfl := List.mem_singleton.mp hcall
    rfl

namespace Tracer

variable {t t' : Tracer}

lemma length_openIdsAfter (t : Tracer) (call : Hook) :
    (t.openIdsAfter call).length = call.depthAfter t.openIds.length := by
  cases call with
  | onExit flag => exact List.length_tail
  | _ => rfl

/-- The error log of a run. -/
lemma codes_of_run {calls : List Hook} (h : t.run calls = .ok t') :
    t'.codes = audit t.openIds.length t.codes calls := by
  induction calls generalizing t with
  | nil =>
    obtain rfl := Except.ok.inj h
    rfl
  | cons call calls ih =>
    obtain ⟨mid, hcall, hrun⟩ := run_cons_eq_ok.mp h
    have heffect := effect_of_call hcall
    have hlength : t.frameStack.length = t.openIds.length := (List.length_map _).symm
    rw [ih hrun, heffect.openIds, length_openIdsAfter, heffect.codes, audit, hlength]

end Tracer

/-- A block that has begun does not begin again. -/
lemma begun_of_hookStep {place place' : BlockPlace OpenCalls} {call : Hook}
    (hplace : place ≠ .before) (h : hookStep place call = some place') :
    place' ≠ .before ∧ call.clears = false := by
  have hunmatched : ∀ {depth}, call.unmatched depth = true → call.clears = false := by
    intro depth hun
    cases call with
    | onBlockStart header => cases hun
    | _ => rfl
  rcases place with _ | (_ | ⟨depth, count, reverted⟩) | _
  · exact absurd rfl hplace
  · rcases hookStep_outside_cases h with ⟨rfl, rfl⟩ | ⟨tx, from_, rfl, rfl⟩ | ⟨hun, rfl⟩ |
      ⟨hook, rfl, rfl⟩
    · exact ⟨by simp, rfl⟩
    · exact ⟨by simp, rfl⟩
    · exact ⟨by simp, hunmatched hun⟩
    · exact ⟨by simp, rfl⟩
  · rcases hookStep_inside_cases h with ⟨args, rfl, -, -, -, rfl⟩ | ⟨hun, rfl⟩ |
      ⟨letter, rfl, -, tx, rfl, -⟩
    · exact ⟨by simp, rfl⟩
    · exact ⟨by simp, hunmatched hun⟩
    · exact ⟨by simp, by cases letter <;> rfl⟩
  · cases call with
    | onExit flag =>
      obtain rfl := Option.some.inj h
      exact ⟨hplace, rfl⟩
    | _ => cases h

/-- From a block that has begun to its end, an empty log means that no call is left out. -/
lemma violations_of_walk {place : BlockPlace OpenCalls} {codes : List InternalErrorCode}
    {calls : List Hook} (hplace : place ≠ .before) (hwalk : hookWalk place calls = some .after)
    (hlog : audit place.depth codes calls = []) :
    codes = [] ∧ violations place.depth calls = [] := by
  induction calls generalizing place codes with
  | nil => exact ⟨hlog, rfl⟩
  | cons call calls ih =>
    obtain ⟨place', hstep, hrest⟩ := Option.bind_eq_some_iff.mp hwalk
    have hafter := depth_of_hookStep hstep
    obtain ⟨hplace', hclears⟩ := begun_of_hookStep hplace hstep
    rw [audit, ← hafter] at hlog
    obtain ⟨hcodes, hviolations⟩ := ih hplace' hrest hlog
    rw [Tracer.kept, hclears] at hcodes
    obtain ⟨hnil, hviolation⟩ := List.append_eq_nil_iff.mp hcodes
    refine ⟨hnil, ?_⟩
    rw [violations, ← hafter, hviolations, hviolation]
    rfl

/-! ## One block -/

/-- `OnExit`s without a frame, and then one block. -/
def OneBlock (calls : List Hook) : Prop :=
  ∃ (flags : List Bool) (b : HookBlock), b.Agrees ∧ calls = flags.map Hook.onExit ++ b.calls

lemma oneBlock_of_walk {codes : List InternalErrorCode} {calls : List Hook}
    (hwalk : hookWalk .before calls = some .after) (hlog : audit 0 codes calls = []) :
    OneBlock calls := by
  induction calls generalizing codes with
  | nil => cases hwalk
  | cons call calls ih =>
    obtain ⟨place, hstep, hrest⟩ := Option.bind_eq_some_iff.mp hwalk
    cases call with
    | onBlockStart header =>
      obtain rfl := Option.some.inj hstep
      obtain ⟨-, hviolations⟩ := violations_of_walk (by simp) hrest hlog
      obtain ⟨parts, hparts, hmatched⟩ := exists_parts hrest
      rw [show matched 0 calls = calls from matched_eq_self hviolations] at hmatched
      exact ⟨[], ⟨header, parts⟩, hparts, congrArg (Hook.onBlockStart header :: ·) hmatched⟩
    | onExit flag =>
      obtain rfl := Option.some.inj hstep
      obtain ⟨flags, b, hagrees, rfl⟩ := ih hrest hlog
      exact ⟨flag :: flags, b, hagrees, rfl⟩
    | _ => cases hstep

lemma walk_of_oneBlock {calls : List Hook} (h : OneBlock calls) :
    hookWalk .before calls = some .after := by
  obtain ⟨flags, b, hagrees, rfl⟩ := h
  induction flags with
  | nil => exact hookWalk_block hagrees
  | cons flag flags ih => exact ih

lemma audit_of_oneBlock {codes : List InternalErrorCode} {calls : List Hook} (h : OneBlock calls) :
    audit 0 codes calls = [] := by
  obtain ⟨flags, b, hagrees, rfl⟩ := h
  induction flags generalizing codes with
  | nil =>
    have hclear : audit 0 codes b.calls =
        audit 0 [] (b.parts.flatMap HookBlock.partCalls ++ [.onBlockEnd]) := rfl
    rw [List.map_nil, List.nil_append, hclear, audit_eq (clears_parts b.parts),
      violations_append_parts]
    rfl
  | cons flag flags ih => exact ih

/-- **The error log tells the rest.**  Whatever calls a new tracer completes, its error log holds
an error for each `OnExit` without a frame and each `OnTxEnd` with open frames since the last
`OnBlockStart`.  It is empty beside events that Gate 1 accepts exactly if the calls are those of
one block, after nothing but `OnExit`s. -/
theorem Tracer.clean_iff_oneBlock {env : Option EnvironmentDescriptor} {calls : List Hook}
    {t : Tracer} (h : (Tracer.new env).run calls = .ok t) :
    t.errorLog.map InternalTracerError.code = audit 0 [] calls ∧
      (verifyGate1Invariants t.events = .ok () ∧ t.errorLog = [] ↔ OneBlock calls) := by
  have hcodes : t.codes = audit 0 [] calls := Tracer.codes_of_run h
  obtain ⟨htracks, hplace⟩ := Tracer.tracks_of_run (Tracer.Tracks.new env) h
  have hwalk : t.place = hookWalk .before calls := hplace
  have hempty : t.errorLog = [] ↔ audit 0 [] calls = [] := by
    rw [← hcodes, Tracer.codes, List.map_eq_nil_iff]
  refine ⟨hcodes, ?_⟩
  rw [htracks.verify_iff, hwalk, hempty]
  exact ⟨fun hboth => oneBlock_of_walk hboth.1 hboth.2,
    fun hblock => ⟨walk_of_oneBlock hblock, audit_of_oneBlock hblock⟩⟩

/-- The error log of `strayCalls` holds the `OnExit` in the transaction. -/
theorem strayCalls_logged :
    ∃ t, (Tracer.new none).run strayCalls = .ok t ∧
      t.errorLog.map InternalTracerError.code = [.errEmptyFrameStack] ∧ ¬ OneBlock strayCalls := by
  have hrun : ∃ t, (Tracer.new none).run strayCalls = .ok t := ⟨_, rfl⟩
  obtain ⟨t, h⟩ := hrun
  obtain ⟨hcodes, hclean⟩ := Tracer.clean_iff_oneBlock h
  have hlog : t.errorLog.map InternalTracerError.code = [.errEmptyFrameStack] := hcodes
  refine ⟨t, h, hlog, fun hblock => ?_⟩
  rw [(hclean.mpr hblock).2] at hlog
  cases hlog

end KaySentinel
