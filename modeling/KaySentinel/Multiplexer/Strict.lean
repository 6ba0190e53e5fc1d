import KaySentinel.Multiplexer.Broadcast

/-!
# The broadcast in strict mode

In strict mode a panic of a sink reaches the host.  `strict_run` says that the mode makes no
difference until the first panic, and that nothing happens after it.
-/

namespace KaySentinel.Multiplexer

variable {T : HostTypes} {P : Type}

/-- What would be delivered from the `k`-th hook call on if no sink was ever evicted. -/
def offers (panics : ℕ → HookSink → Option P) (sinks : List HookSink) (k : ℕ)
    (calls : List (HookCall T)) : List (Delivery T P) :=
  (calls.zipIdx k).flatMap fun p => sinks.map (delivery panics p.2 p.1)

/-- A run of a broadcast that ends with the first of the deliveries in which the sink panics. -/
inductive EndsAtPanic (b : BroadcastSink) (deliveries : List (Delivery T P)) :
    Outcome T P → Prop where
  | calm (h : ∀ d ∈ deliveries, d.panic = none) :
      EndsAtPanic b deliveries { sink := b, log := deliveries, rethrown := none }
  | panic {pre post : List (Delivery T P)} {d : Delivery T P} {r : P}
      (h : deliveries = pre ++ d :: post) (hpre : ∀ e ∈ pre, e.panic = none)
      (hd : d.panic = some r) :
      EndsAtPanic b deliveries
        { sink := b.recordAndEvacuate d.sink.name d.call.callback
          log := pre ++ [d]
          rethrown := some r }

namespace EndsAtPanic

variable {b : BroadcastSink} {first second : List (Delivery T P)} {outcome : Outcome T P}

/-- A panic ends whatever would have followed. -/
lemma of_rethrown (h : EndsAtPanic b first outcome) (hpanic : outcome.rethrown ≠ none) :
    EndsAtPanic b (first ++ second) outcome := by
  cases h with
  | calm _ => exact absurd rfl hpanic
  | @panic pre post d r heq hpre hd =>
    have hsplit : first ++ second = pre ++ d :: (post ++ second) := by
      rw [heq, List.append_assoc, List.cons_append]
    exact .panic hsplit hpre hd

/-- A run goes on after deliveries without a panic. -/
lemma append (h : ∀ d ∈ first, d.panic = none) (hrest : EndsAtPanic b second outcome) :
    EndsAtPanic b (first ++ second) { outcome with log := first ++ outcome.log } := by
  cases hrest with
  | calm hsecond => exact .calm (List.forall_mem_append.mpr ⟨h, hsecond⟩)
  | @panic pre post d r heq hpre hd =>
    have hsplit : first ++ second = (first ++ pre) ++ d :: post := by
      rw [heq, List.append_assoc]
    simp only [← List.append_assoc]
    exact .panic hsplit (List.forall_mem_append.mpr ⟨h, hpre⟩) hd

lemma log_isPrefix (h : EndsAtPanic b first outcome) : outcome.log <+: first := by
  cases h with
  | calm _ => exact List.prefix_refl _
  | @panic pre post d r heq _ _ => exact ⟨post, by rw [heq, List.append_assoc]; rfl⟩

/-- No sink panics exactly if the host sees no panic. -/
lemma rethrown_eq_none_iff (h : EndsAtPanic b first outcome) :
    outcome.rethrown = none ↔ ∀ d ∈ first, d.panic = none := by
  cases h with
  | calm hfirst => exact iff_of_true rfl hfirst
  | @panic pre post d r heq _ hd =>
    refine iff_of_false (by simp) fun hall => ?_
    have hnone := hall d (by rw [heq]; simp)
    rw [hd] at hnone
    cases hnone

lemma eq_of_rethrown (h : EndsAtPanic b first outcome) (hcalm : outcome.rethrown = none) :
    outcome = { sink := b, log := first, rethrown := none } := by
  cases h with
  | calm _ => rfl
  | panic _ _ _ => cases hcalm

end EndsAtPanic

/-! ## Runs in strict mode -/

variable {panics : ℕ → HookSink → Option P} {b : BroadcastSink}

lemma dispatch_strict (hstrict : b.strictMode = true) (index : ℕ) (call : HookCall T)
    (snapshot : List HookSink) :
    EndsAtPanic b (snapshot.map (delivery panics index call))
      (b.dispatch panics index call.callback call snapshot) := by
  induction snapshot with
  | nil => exact .calm (by simp)
  | cons s rest ih =>
    rw [BroadcastSink.dispatch]
    cases hpanic : panics index s with
    | none =>
      have hcalm : ∀ d ∈ [delivery panics index call s], d.panic = none := by
        simpa [delivery] using hpanic
      have hstep := ih.append hcalm
      simpa [BroadcastSink.guard, delivery, hpanic] using hstep
    | some r =>
      have hend : EndsAtPanic b ((s :: rest).map (delivery panics index call))
          { sink := b.recordAndEvacuate s.name call.callback
            log := [] ++ [delivery panics index call s]
            rethrown := some r } :=
        .panic rfl (List.forall_mem_nil _) hpanic
      simpa [BroadcastSink.guard, hstrict, delivery, hpanic] using hend

lemma hooks_strict (hstrict : b.strictMode = true) (index : ℕ) (call : HookCall T) :
    EndsAtPanic b (b.active.map (delivery panics index call)) (b.hooks panics index call) := by
  have hdispatch := @dispatch_strict T P panics b hstrict index call b.active
  cases call <;> exact hdispatch

lemma offers_cons (sinks : List HookSink) (k : ℕ) (call : HookCall T)
    (calls : List (HookCall T)) :
    offers panics sinks k (call :: calls) =
      sinks.map (delivery panics k call) ++ offers panics sinks (k + 1) calls := by
  rw [offers, List.zipIdx_cons, List.flatMap_cons]
  rfl

lemma run_strict (hstrict : b.strictMode = true) (k : ℕ) (calls : List (HookCall T)) :
    EndsAtPanic b (offers panics b.active k calls) (b.run panics k calls) := by
  induction calls generalizing k with
  | nil => exact .calm (by simp [offers])
  | cons call calls ih =>
    have hfirst := @hooks_strict T P panics b hstrict k call
    rw [offers_cons, BroadcastSink.run]
    cases hrethrown : (b.hooks panics k call).rethrown with
    | some r => exact hfirst.of_rethrown (hrethrown ▸ Option.some_ne_none r)
    | none =>
      have hcalm := hfirst.rethrown_eq_none_iff.mp hrethrown
      rw [hfirst.eq_of_rethrown hrethrown]
      exact (ih (k + 1)).append hcalm

/-! ## Both modes -/

/-- While no sink panics, all stay active. -/
lemma evict_of_calm {sinks : List HookSink} {k : ℕ} (h : ∀ s ∈ sinks, panics k s = none) :
    Eviction.evict HookSink.name (panicsIn panics k) sinks = sinks := by
  refine List.filter_eq_self.mpr fun t ht => List.all_eq_true.mpr fun s hs => ?_
  simp [panicsIn, h s hs]

/-- Up to the first panic the two modes deliver the same. -/
lemma strict_log_isPrefix {strict calm : BroadcastSink} (hstrict : strict.strictMode = true)
    (hcalm : calm.strictMode = false) (hactive : strict.active = calm.active) (k : ℕ)
    (calls : List (HookCall T)) :
    (strict.run panics k calls).log <+: (calm.run panics k calls).log ∧
      ((strict.run panics k calls).rethrown = none →
        (strict.run panics k calls).log = (calm.run panics k calls).log) := by
  induction calls generalizing k calm with
  | nil => exact ⟨List.prefix_refl _, fun _ => rfl⟩
  | cons call calls ih =>
    have hfirst := @hooks_strict T P panics strict hstrict k call
    have hhooks := @hooks_eq T P panics calm hcalm k call
    rw [hactive] at hfirst
    cases hrethrown : (strict.hooks panics k call).rethrown with
    | some r =>
      rw [BroadcastSink.run, hrethrown, BroadcastSink.run, hhooks]
      refine ⟨hfirst.log_isPrefix.trans (List.prefix_append _ _), fun hnone => ?_⟩
      rw [hrethrown] at hnone
      cases hnone
    | none =>
      have hnone := hfirst.rethrown_eq_none_iff.mp hrethrown
      have hquiet : ∀ s ∈ calm.active, panics k s = none := fun s hs =>
        hnone _ (List.mem_map_of_mem hs)
      rw [BroadcastSink.run, BroadcastSink.run, hhooks, hfirst.eq_of_rethrown hrethrown,
        evict_of_calm hquiet]
      obtain ⟨hstart, heq⟩ := @ih ⟨calm.active, false,
        calm.panicReports ++ reportsOf (calm.active.map (delivery panics k call))⟩
        rfl hactive (k + 1)
      exact ⟨(List.prefix_append_right_inj _).mpr hstart,
        fun h => congrArg (calm.active.map (delivery panics k call) ++ ·) (heq h)⟩

/-- **Strict mode.**  A run in strict mode delivers every hook call to every sink, in order, up to
and including the first call in which a sink panics.  There it ends: the host sees the panic, one
report is made, and the sinks of that name are evicted.  The mode of isolation delivers the same up
to there, and the same altogether if no sink panics. -/
theorem strict_run (names : List String) (calls : List (HookCall T))
    (panics : ℕ → HookSink → Option P) :
    EndsAtPanic (newBroadcastSink true names) (offers panics (initialSinks names) 0 calls)
        ((newBroadcastSink true names).run panics 0 calls) ∧
      ((newBroadcastSink true names).run panics 0 calls).log <+:
        ((newBroadcastSink false names).run panics 0 calls).log ∧
      (((newBroadcastSink true names).run panics 0 calls).rethrown = none →
        ((newBroadcastSink true names).run panics 0 calls).log =
          ((newBroadcastSink false names).run panics 0 calls).log) :=
  have hstart := @strict_log_isPrefix T P panics (newBroadcastSink true names)
    (newBroadcastSink false names) rfl rfl rfl 0 calls
  ⟨run_strict rfl 0 calls, hstart⟩

end KaySentinel.Multiplexer
