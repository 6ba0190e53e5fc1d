import KaySentinel.Cse.Transaction

/-!
# Feeding a validator past its rejections

`advance` runs `validate_and_advance` with the two fields as mutable state, which an error does
not roll back.  `advance_of_error` shows that there is nothing to roll back: the fields are
assigned only after the last check.  So a validator that is fed on after its rejections ends
where the events it accepted lead (`validateAll_accepted`).
-/

namespace KaySentinel.Cse

namespace CseValidator

/-- The envelope safety checks. -/
def envelopeM (payload : CsePayload) : ExceptT ValidationError (StateM CseValidator) Unit := do
  match payload with
  | .beginTransaction =>
      if (← get).inTransaction then
        throw (.invalidBoundaryCondition "Nested transaction boundary initiated")
      modify fun v => { v with inTransaction := true }
  | .endTransaction =>
      if !(← get).inTransaction then
        throw (.invalidBoundaryCondition "Termination signature without active envelope")
      modify fun v => { v with inTransaction := false }
  | _ =>
      if !(← get).inTransaction then
        throw (.invalidBoundaryCondition "Semantic event occurring outside active envelope")

/-- The body of `validate_and_advance`. -/
def advanceM (event : CanonicalSemanticEvent) :
    ExceptT ValidationError (StateM CseValidator) Unit := do
  -- syntactic structural compliance checks
  liftM event.validate
  -- continuous sequence assertion
  if event.context.normative.sequenceNumber ≠ (← get).expectedSequence then
    throw (.sequenceBreakage (← get).expectedSequence event.context.normative.sequenceNumber)
  envelopeM event.payload
  modify fun v => { v with expectedSequence := v.expectedSequence + 1 }

/-- What a call of `validate_and_advance` returns, and the fields after it. -/
def advance (v : CseValidator) (event : CanonicalSemanticEvent) :
    Except ValidationError Unit × CseValidator := (advanceM event).run.run v

/-- Feed every event, whatever became of the ones before it: the validator at the end and the
accepted events. -/
def feed (v : CseValidator) : List CanonicalSemanticEvent →
    CseValidator × List CanonicalSemanticEvent
  | [] => (v, [])
  | event :: events =>
      match v.advance event with
      | (.ok (), v') => ((feed v' events).1, event :: (feed v' events).2)
      | (.error _, v') => feed v' events

variable {v : CseValidator} {event : CanonicalSemanticEvent}

lemma run_envelopeM_of_ok {payload : CsePayload} {b : Bool}
    (h : envelope v.inTransaction payload = .ok b) :
    (envelopeM payload).run.run v = (.ok (), { v with inTransaction := b }) := by
  obtain ⟨expectedSequence, inTransaction⟩ := v
  cases payload <;> cases inTransaction <;> cases h <;> rfl

/-- A failed envelope check has assigned nothing. -/
lemma run_envelopeM_of_error {payload : CsePayload} {err : ValidationError}
    (h : envelope v.inTransaction payload = .error err) :
    (envelopeM payload).run.run v = (.error err, v) := by
  obtain ⟨expectedSequence, inTransaction⟩ := v
  cases payload <;> cases inTransaction <;> cases h <;> rfl

/-- The call succeeds or fails as the pure description says, and a call that fails has assigned
nothing. -/
theorem advance_cases (v : CseValidator) (event : CanonicalSemanticEvent) :
    (∃ v', v.validateAndAdvance event = .ok v' ∧ v.advance event = (.ok (), v')) ∨
      ∃ err, v.validateAndAdvance event = .error err ∧ v.advance event = (.error err, v) := by
  cases hvalid : event.validate with
  | error err =>
    refine .inr ⟨err, ?_, ?_⟩
    · simp [validateAndAdvance, hvalid, bind, Except.bind]
    · rw [advance, advanceM, hvalid]
      rfl
  | ok u =>
    have hlift : (liftM (Except.ok u : Except ValidationError Unit) :
        ExceptT ValidationError (StateM CseValidator) Unit) = pure u := rfl
    have hget : ((get : ExceptT ValidationError (StateM CseValidator) CseValidator).run).run v =
        pure (.ok v, v) := rfl
    by_cases hseq : event.context.normative.sequenceNumber = v.expectedSequence
    · cases henv : envelope v.inTransaction event.payload with
      | error err =>
        refine .inr ⟨err, ?_, ?_⟩
        · simp [validateAndAdvance, hvalid, hseq, henv, bind, Except.bind]
        · simp [advance, advanceM, hvalid, hlift, hget, hseq, run_envelopeM_of_error henv]
          rfl
      | ok b =>
        refine .inl ⟨{ expectedSequence := v.expectedSequence + 1, inTransaction := b }, ?_, ?_⟩
        · exact validateAndAdvance_eq_ok_iff.mpr ⟨hvalid, hseq, henv, rfl⟩
        · simp [advance, advanceM, hvalid, hlift, hget, hseq, run_envelopeM_of_ok henv]
          rfl
    · refine .inr ⟨.sequenceBreakage v.expectedSequence event.context.normative.sequenceNumber,
        ?_, ?_⟩
      · simp [validateAndAdvance, hvalid, hseq, bind, Except.bind, throw, throwThe,
          MonadExceptOf.throw]
      · simp [advance, advanceM, hvalid, hlift, hget, hseq]
        rfl

/-- A rejected call leaves the fields as they were. -/
lemma advance_of_error {v' : CseValidator} {err : ValidationError}
    (h : v.advance event = (.error err, v')) : v' = v := by
  rcases v.advance_cases event with ⟨next, -, hok⟩ | ⟨err', -, herr⟩
  · rw [hok] at h
    cases h
  · rw [herr] at h
    exact (Prod.mk.inj h).2.symm

lemma feed_cons_of_ok {v' : CseValidator} (h : v.advance event = (.ok (), v'))
    (events : List CanonicalSemanticEvent) :
    v.feed (event :: events) = ((v'.feed events).1, event :: (v'.feed events).2) := by
  rw [feed, h]

lemma feed_cons_of_error {err : ValidationError} (h : v.advance event = (.error err, v))
    (events : List CanonicalSemanticEvent) : v.feed (event :: events) = v.feed events := by
  rw [feed, h]

/-- The accepted events alone are all accepted, and lead to the same validator. -/
theorem validateAll_accepted (v : CseValidator) (events : List CanonicalSemanticEvent) :
    v.validateAll (v.feed events).2 = .ok (v.feed events).1 := by
  induction events generalizing v with
  | nil => rfl
  | cons event events ih =>
    rcases v.advance_cases event with ⟨v', hpure, hok⟩ | ⟨err, -, herr⟩
    · rw [feed_cons_of_ok hok, validateAll, List.foldlM_cons, hpure]
      exact ih v'
    · rw [feed_cons_of_error herr]
      exact ih v

/-- A stream that is accepted as a whole is accepted event by event. -/
theorem feed_of_validateAll {v' : CseValidator} {events : List CanonicalSemanticEvent}
    (h : v.validateAll events = .ok v') : v.feed events = (v', events) := by
  induction events generalizing v with
  | nil =>
    obtain rfl := Except.ok.inj h
    rfl
  | cons event events ih =>
    rw [validateAll, List.foldlM_cons] at h
    rcases v.advance_cases event with ⟨mid, hpure, hok⟩ | ⟨err, hpure, -⟩
    · rw [hpure] at h
      rw [feed_cons_of_ok hok, ih h]
    · rw [hpure] at h
      cases h

lemma length_accepted_le (v : CseValidator) (events : List CanonicalSemanticEvent) :
    (v.feed events).2.length ≤ events.length := by
  induction events generalizing v with
  | nil => exact Nat.le_refl 0
  | cons event events ih =>
    rcases v.advance_cases event with ⟨v', -, hok⟩ | ⟨err, -, herr⟩
    · rw [feed_cons_of_ok hok]
      exact Nat.succ_le_succ (ih v')
    · rw [feed_cons_of_error herr]
      exact (ih v).trans (Nat.le_succ _)

/-! ## Accepted streams -/

/-- What is known of a stream that a validator accepts. -/
structure Accepted (v : CseValidator) (events : List CanonicalSemanticEvent)
    (v' : CseValidator) : Prop where
  valid : ∀ e ∈ events, e.validate = .ok ()
  numbered : NumberedFrom v.expectedSequence events
  envelope : envelopeAll v.inTransaction (events.map (·.payload)) = .ok v'.inTransaction

/-- An accepted stream is valid, numbered and has a sound envelope. -/
theorem accepted_of_validateAll {v' : CseValidator} {events : List CanonicalSemanticEvent}
    (h : v.validateAll events = .ok v') : Accepted v events v' := by
  induction events generalizing v with
  | nil =>
    obtain rfl := Except.ok.inj h
    exact ⟨by simp, by intro i e he; simp at he, rfl⟩
  | cons event events ih =>
    obtain ⟨mid, hstep, hfold⟩ := Fallible.foldlM_cons_eq_ok.mp h
    have hrest := ih hfold
    obtain ⟨hvalid, hseq, henv, hnext⟩ := validateAndAdvance_eq_ok_iff.mp hstep
    refine ⟨?_, .cons hseq (hnext ▸ hrest.numbered), ?_⟩
    · simpa [hvalid] using hrest.valid
    · rw [List.map_cons, envelopeAll, List.foldlM_cons, henv]
      exact hrest.envelope

end CseValidator

end KaySentinel.Cse
