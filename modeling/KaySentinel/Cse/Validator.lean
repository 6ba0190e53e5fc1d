import KaySentinel.Cse.Event
import KaySentinel.Lib.Fallible

/-!
# Validating a stream event by event

`CseValidator` checks each event on its own, the density of the sequence numbers and the
transaction envelope.  `validateAll_numbered` says that on a densely numbered stream with a
sound envelope only the first of these can fail.
-/

namespace KaySentinel.Cse

inductive ValidationError where
  | unsupportedVersion (expected found : UInt32)
  | sequenceBreakage (expected found : UInt64)
  | invalidPayloadState (msg : String)
  | invalidBoundaryCondition (msg : String)
deriving DecidableEq

/-- `self.version as u32` -/
def CseVersion.toU32 : CseVersion → UInt32
  | .v1 => 1

def abiVersion : UInt32 := 1

/-- The checks of an event on its own. -/
def CanonicalSemanticEvent.validate (event : CanonicalSemanticEvent) :
    Except ValidationError Unit :=
  if event.version.toU32 ≠ abiVersion then
    .error (.unsupportedVersion abiVersion event.version.toU32)
  else
    match event.payload with
    | .balanceChanged p =>
        if p.previousBalance = p.currentBalance then
          .error (.invalidPayloadState "No-op balance change signature")
        else .ok ()
    | .storageSlotUpdated p =>
        if p.previousValue = p.currentValue then
          .error (.invalidPayloadState "No-op storage mutation signature")
        else .ok ()
    | .contractCreated p =>
        if p.address = Bytes.zero 20 then
          .error (.invalidPayloadState "Deployment targeting null address")
        else .ok ()
    | _ => .ok ()

structure CseValidator where
  expectedSequence : UInt64
  inTransaction : Bool
deriving DecidableEq

namespace CseValidator

def new : CseValidator := { expectedSequence := 0, inTransaction := false }

/-- The envelope check: whether a transaction is open after the payload. -/
def envelope (inTransaction : Bool) : CsePayload → Except ValidationError Bool
  | .beginTransaction =>
      if inTransaction then
        .error (.invalidBoundaryCondition "Nested transaction boundary initiated")
      else .ok true
  | .endTransaction =>
      if !inTransaction then
        .error (.invalidBoundaryCondition "Termination signature without active envelope")
      else .ok false
  | _ =>
      if !inTransaction then
        .error (.invalidBoundaryCondition "Semantic event occurring outside active envelope")
      else .ok inTransaction

/-- One event.  `expected_sequence += 1` wraps here; a stream shorter than `2 ^ 64` does not
get there. -/
def validateAndAdvance (v : CseValidator) (event : CanonicalSemanticEvent) :
    Except ValidationError CseValidator := do
  event.validate
  if event.context.normative.sequenceNumber ≠ v.expectedSequence then
    throw (.sequenceBreakage v.expectedSequence event.context.normative.sequenceNumber)
  let inTransaction ← envelope v.inTransaction event.payload
  return { expectedSequence := v.expectedSequence + 1, inTransaction := inTransaction }

/-- Feed a stream, up to the first rejection. -/
def validateAll (v : CseValidator) (events : List CanonicalSemanticEvent) :
    Except ValidationError CseValidator := events.foldlM validateAndAdvance v

end CseValidator

/-- The payloads that an event may not carry: a balance or slot that keeps its value, a contract
created at the zero address. -/
def CsePayload.Degenerate : CsePayload → Prop
  | .balanceChanged p => p.previousBalance = p.currentBalance
  | .storageSlotUpdated p => p.previousValue = p.currentValue
  | .contractCreated p => p.address = Bytes.zero 20
  | _ => False

instance : DecidablePred CsePayload.Degenerate
  | .balanceChanged p => inferInstanceAs (Decidable (p.previousBalance = p.currentBalance))
  | .storageSlotUpdated p => inferInstanceAs (Decidable (p.previousValue = p.currentValue))
  | .contractCreated p => inferInstanceAs (Decidable (p.address = Bytes.zero 20))
  | .beginTransaction | .endTransaction | .transientStorageUpdated _ | .nonceUpdated _
  | .codeUpdated _ | .contractDestroyed _ | .logEmitted _ | .gasRefundChanged _
  | .accessListTouched _ => .isFalse not_false

/-- Of the checks of an event on its own only those of the payload can fail. -/
lemma CanonicalSemanticEvent.validate_cases (event : CanonicalSemanticEvent) :
    (event.validate = .ok () ∧ ¬ event.payload.Degenerate) ∨
      ∃ msg, event.validate = .error (.invalidPayloadState msg) ∧ event.payload.Degenerate := by
  obtain ⟨version, context, payload⟩ := event
  have hversion : version.toU32 = abiVersion := by
    cases version
    rfl
  simp only [validate, hversion, ne_eq, not_true_eq_false, if_false]
  cases payload with
  | balanceChanged p =>
    by_cases h : p.previousBalance = p.currentBalance
    · exact .inr ⟨_, if_pos h, h⟩
    · exact .inl ⟨if_neg h, h⟩
  | storageSlotUpdated p =>
    by_cases h : p.previousValue = p.currentValue
    · exact .inr ⟨_, if_pos h, h⟩
    · exact .inl ⟨if_neg h, h⟩
  | contractCreated p =>
    by_cases h : p.address = Bytes.zero 20
    · exact .inr ⟨_, if_pos h, h⟩
    · exact .inl ⟨if_neg h, h⟩
  | _ => exact .inl ⟨rfl, not_false⟩

namespace CseValidator

/-! ## The envelope of a bracketed stream -/

/-- The envelope check of a list of payloads. -/
def envelopeAll (inTransaction : Bool) (ps : List CsePayload) : Except ValidationError Bool :=
  ps.foldlM envelope inTransaction

lemma envelopeAll_append (inTransaction : Bool) (ps ps' : List CsePayload) :
    envelopeAll inTransaction (ps ++ ps') =
      (envelopeAll inTransaction ps).bind (envelopeAll · ps') := List.foldlM_append ..

lemma envelopeAll_inside {ps : List CsePayload} (h : ∀ p ∈ ps, p.isBoundary = false) :
    envelopeAll true ps = .ok true := by
  induction ps with
  | nil => rfl
  | cons p ps ih =>
    have hp : envelope true p = .ok true := by
      have hboundary := h p (by simp)
      cases p with
      | beginTransaction => simp [CsePayload.isBoundary] at hboundary
      | endTransaction => simp [CsePayload.isBoundary] at hboundary
      | _ => rfl
    rw [envelopeAll, List.foldlM_cons, hp]
    exact ih fun p' hp' => h p' (by simp [hp'])

lemma envelopeAll_bracketed {ps : List CsePayload} (h : ∀ p ∈ ps, p.isBoundary = false) :
    envelopeAll false (bracketed ps) = .ok false := by
  have hbody : envelopeAll true (ps ++ [.endTransaction]) = .ok false := by
    rw [envelopeAll_append, envelopeAll_inside h]
    rfl
  exact hbody

/-- Whole transactions leave no transaction open. -/
lemma envelopeAll_flatMap_bracketed {segments : List (List CsePayload)}
    (h : ∀ seg ∈ segments, ∀ p ∈ seg, p.isBoundary = false) :
    envelopeAll false (segments.flatMap bracketed) = .ok false := by
  induction segments with
  | nil => rfl
  | cons seg segments ih =>
    rw [List.flatMap_cons, envelopeAll_append, envelopeAll_bracketed (h seg (by simp))]
    exact ih fun seg' hseg' => h seg' (by simp [hseg'])

/-! ## Numbered streams -/

/-- The sequence numbers count up from `n`. -/
def NumberedFrom (n : UInt64) (events : List CanonicalSemanticEvent) : Prop :=
  ∀ i e, events[i]? = some e → e.context.normative.sequenceNumber = n + UInt64.ofNat i

lemma NumberedFrom.tail {n : UInt64} {e : CanonicalSemanticEvent}
    {events : List CanonicalSemanticEvent} (h : NumberedFrom n (e :: events)) :
    NumberedFrom (n + 1) events := by
  intro i e' he'
  rw [h (i + 1) e' (by simpa using he'), UInt64.ofNat_add, UInt64.add_assoc,
    UInt64.add_comm (UInt64.ofNat i)]
  rfl

lemma NumberedFrom.cons {n : UInt64} {e : CanonicalSemanticEvent}
    {events : List CanonicalSemanticEvent} (he : e.context.normative.sequenceNumber = n)
    (h : NumberedFrom (n + 1) events) : NumberedFrom n (e :: events) := by
  intro i e' he'
  cases i with
  | zero =>
    obtain rfl : e = e' := by simpa using he'
    rw [he]
    exact (UInt64.add_zero n).symm
  | succ i =>
    show e'.context.normative.sequenceNumber = n + UInt64.ofNat (i + 1)
    rw [h i e' (by simpa using he'), UInt64.ofNat_add, UInt64.add_assoc,
      UInt64.add_comm (UInt64.ofNat i)]
    rfl

variable {v v' : CseValidator} {e : CanonicalSemanticEvent}

/-- An accepted event passes the three checks, and the validator moves on. -/
lemma validateAndAdvance_eq_ok_iff :
    v.validateAndAdvance e = .ok v' ↔
      e.validate = .ok () ∧ e.context.normative.sequenceNumber = v.expectedSequence ∧
        envelope v.inTransaction e.payload = .ok v'.inTransaction ∧
        v'.expectedSequence = v.expectedSequence + 1 := by
  obtain ⟨expected', inTransaction'⟩ := v'
  cases hvalid : e.validate with
  | error err => simp [validateAndAdvance, hvalid, bind, Except.bind]
  | ok u =>
    by_cases hseq : e.context.normative.sequenceNumber = v.expectedSequence
    · cases henv : envelope v.inTransaction e.payload with
      | error err => simp [validateAndAdvance, hvalid, hseq, henv, bind, Except.bind]
      | ok b =>
        simp [validateAndAdvance, hvalid, hseq, henv, bind, Except.bind, pure, Except.pure,
          and_comm, eq_comm]
    · simp [validateAndAdvance, hvalid, hseq, bind, Except.bind, throw, throwThe,
        MonadExceptOf.throw]

/-- An event in sequence that the envelope allows is rejected only for its payload. -/
lemma validateAndAdvance_cases {inTransaction : Bool}
    (hseq : e.context.normative.sequenceNumber = v.expectedSequence)
    (henv : envelope v.inTransaction e.payload = .ok inTransaction) :
    (¬ e.payload.Degenerate ∧ v.validateAndAdvance e =
        .ok { expectedSequence := v.expectedSequence + 1, inTransaction := inTransaction }) ∨
      ∃ msg, e.payload.Degenerate ∧ v.validateAndAdvance e = .error (.invalidPayloadState msg) := by
  rcases e.validate_cases with ⟨hvalid, hdegenerate⟩ | ⟨msg, hinvalid, hdegenerate⟩
  · refine .inl ⟨hdegenerate, ?_⟩
    simp only [validateAndAdvance, hvalid, hseq, henv, bind, Except.bind, ne_eq, not_true_eq_false,
      if_false, pure, Except.pure]
  · refine .inr ⟨msg, hdegenerate, ?_⟩
    simp only [validateAndAdvance, hinvalid, bind, Except.bind]

/-- **First rejection.**  A stream in sequence with a sound envelope is accepted if no payload is
degenerate, and otherwise rejected at the first degenerate one. -/
theorem validateAll_numbered {events : List CanonicalSemanticEvent} {inTransaction : Bool}
    (hseq : NumberedFrom v.expectedSequence events)
    (henv : envelopeAll v.inTransaction (events.map (·.payload)) = .ok inTransaction) :
    ((∀ e ∈ events, ¬ e.payload.Degenerate) ∧ ∃ v', v.validateAll events = .ok v' ∧
        v'.inTransaction = inTransaction) ∨
      ∃ pre e post v' msg, events = pre ++ e :: post ∧ v.validateAll pre = .ok v' ∧
        v'.validateAndAdvance e = .error (.invalidPayloadState msg) ∧ e.payload.Degenerate ∧
        v.validateAll events = .error (.invalidPayloadState msg) := by
  induction events generalizing v with
  | nil =>
    obtain rfl := Except.ok.inj henv
    exact .inl ⟨by simp, v, rfl, rfl⟩
  | cons e events ih =>
    have hhead : e.context.normative.sequenceNumber = v.expectedSequence := by
      simpa using hseq 0 e rfl
    obtain ⟨mid, hstep, henvs⟩ := Fallible.foldlM_cons_eq_ok.mp henv
    rcases validateAndAdvance_cases hhead hstep with ⟨hvalid, hok⟩ | ⟨msg, hdegenerate, herr⟩
    · have hcons : ∀ l, v.validateAll (e :: l) =
          validateAll { expectedSequence := v.expectedSequence + 1, inTransaction := mid } l := by
        intro l
        rw [validateAll, List.foldlM_cons, hok]
        rfl
      have hrest := ih (v := { expectedSequence := v.expectedSequence + 1, inTransaction := mid })
        hseq.tail henvs
      rcases hrest with
        ⟨hall, v', hv', hin⟩ | ⟨pre, e', post, v', msg, rfl, hpre, herr, hdegenerate, hrun⟩
      · exact .inl ⟨by simpa [hvalid] using hall, v', (hcons events).trans hv', hin⟩
      · exact .inr ⟨e :: pre, e', post, v', msg, rfl, (hcons pre).trans hpre, herr, hdegenerate,
          (hcons _).trans hrun⟩
    · refine .inr ⟨[], e, events, v, msg, rfl, rfl, herr, hdegenerate, ?_⟩
      rw [validateAll, List.foldlM_cons, herr]
      rfl

end CseValidator

end KaySentinel.Cse
