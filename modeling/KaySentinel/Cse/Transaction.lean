import KaySentinel.Cse.Validator

/-!
# Transactions of a stream

The envelope check reads a stream as a word over three kinds of letters.  It accepts a word
without an error exactly if the word is a list of whole transactions and then, if a transaction
is left open, the beginning of one.
-/

namespace KaySentinel.Cse

/-- The events of one transaction. -/
@[ext]
structure Transaction where
  begin : CanonicalSemanticEvent
  body : List CanonicalSemanticEvent
  fin : CanonicalSemanticEvent
  begin_payload : begin.payload = .beginTransaction
  body_payload : ∀ e ∈ body, e.payload.isBoundary = false
  fin_payload : fin.payload = .endTransaction

def Transaction.events (t : Transaction) : List CanonicalSemanticEvent :=
  t.begin :: (t.body ++ [t.fin])

namespace Transaction

variable {t t' : Transaction} {rest rest' : List CanonicalSemanticEvent}

/-- The first event of a transaction that ends it is its last. -/
lemma takeWhile_body (t : Transaction) (rest : List CanonicalSemanticEvent) :
    (t.body ++ t.fin :: rest).takeWhile (!·.payload.isBoundary) = t.body := by
  have hfin : t.fin.payload.isBoundary = true := by rw [t.fin_payload]; rfl
  rw [List.takeWhile_append_of_pos fun e he => by simp [t.body_payload e he]]
  simp [hfin]

lemma events_append_inj (h : t.events ++ rest = t'.events ++ rest') : t = t' ∧ rest = rest' := by
  have hcons : t.begin :: (t.body ++ t.fin :: rest) = t'.begin :: (t'.body ++ t'.fin :: rest') := by
    simpa [events] using h
  obtain ⟨hbegin, htail⟩ := List.cons.inj hcons
  have hbody : t.body = t'.body := by
    rw [← t.takeWhile_body rest, htail, t'.takeWhile_body]
  rw [hbody] at htail
  obtain ⟨hfin, hrest⟩ := List.cons.inj (List.append_cancel_left htail)
  exact ⟨Transaction.ext hbegin hbody hfin, hrest⟩

/-- A stream is a list of whole transactions in one way at most. -/
lemma flatMap_events_inj {txs txs' : List Transaction}
    (h : txs.flatMap events = txs'.flatMap events) : txs = txs' := by
  induction txs generalizing txs' with
  | nil =>
    cases txs' with
    | nil => rfl
    | cons t' txs' => simp [events] at h
  | cons t txs ih =>
    cases txs' with
    | nil => simp [events] at h
    | cons t' txs' =>
      rw [List.flatMap_cons, List.flatMap_cons] at h
      obtain ⟨rfl, hrest⟩ := events_append_inj h
      rw [ih hrest]

end Transaction

/-- The stream is a list of whole transactions. -/
def WellBracketed (events : List CanonicalSemanticEvent) : Prop :=
  ∃ txs : List Transaction, events = txs.flatMap Transaction.events

/-- What a stream may hold after its last whole transaction: nothing, or the beginning of a
transaction that is still open. -/
def Pending : Bool → List CanonicalSemanticEvent → Prop
  | false, rest => rest = []
  | true, rest => ∃ begin body, rest = begin :: body ∧ begin.payload = .beginTransaction ∧
      ∀ e ∈ body, e.payload.isBoundary = false

/-- Some event ends every transaction that is still open. -/
lemma Pending.exists_wellBracketed {inTransaction : Bool} {rest : List CanonicalSemanticEvent}
    (h : Pending inTransaction rest) : ∃ more, WellBracketed (rest ++ more) := by
  cases inTransaction with
  | false =>
    obtain rfl := h
    exact ⟨[], [], rfl⟩
  | true =>
    obtain ⟨begin, body, rfl, hbegin, hbody⟩ := h
    exact ⟨[{ begin with payload := .endTransaction }],
      [⟨begin, body, { begin with payload := .endTransaction }, hbegin, hbody, rfl⟩], by
        simp [Transaction.events]⟩

namespace CseValidator

/-- The three kinds of letters that the envelope check reads. -/
lemma envelope_eq_ok_iff {b b' : Bool} {p : CsePayload} :
    envelope b p = .ok b' ↔
      (p = .beginTransaction ∧ b = false ∧ b' = true) ∨
      (p = .endTransaction ∧ b = true ∧ b' = false) ∨
      (p.isBoundary = false ∧ b = true ∧ b' = true) := by
  cases p <;> cases b <;> cases b' <;> simp [envelope, CsePayload.isBoundary]

/-- The envelope check accepts whole transactions and the beginning of one more. -/
theorem envelopeAll_eq_ok_iff {events : List CanonicalSemanticEvent} {inTransaction : Bool} :
    envelopeAll false (events.map (·.payload)) = .ok inTransaction ↔
      ∃ (txs : List Transaction) (rest : List CanonicalSemanticEvent),
        events = txs.flatMap Transaction.events ++ rest ∧ Pending inTransaction rest := by
  constructor
  · intro h
    induction events using List.reverseRecOn generalizing inTransaction with
    | nil =>
      obtain rfl := Except.ok.inj h
      exact ⟨[], [], rfl, rfl⟩
    | append_singleton events e ih =>
      rw [List.map_append, envelopeAll_append] at h
      cases hmid : envelopeAll false (events.map (·.payload)) with
      | error err =>
        rw [hmid] at h
        cases h
      | ok mid =>
        have hstep : envelope mid e.payload = .ok inTransaction := by
          rw [hmid] at h
          simpa [Except.bind, envelopeAll] using h
        obtain ⟨txs, rest, rfl, hrest⟩ := ih hmid
        rcases envelope_eq_ok_iff.mp hstep with
          ⟨hp, rfl, rfl⟩ | ⟨hp, rfl, rfl⟩ | ⟨hp, rfl, rfl⟩
        · obtain rfl := hrest
          exact ⟨txs, [e], by simp, e, [], rfl, hp, by simp⟩
        · -- the open transaction is complete
          obtain ⟨begin, body, rfl, hbegin, hbody⟩ := hrest
          exact ⟨txs ++ [⟨begin, body, e, hbegin, hbody, hp⟩], [], by simp [Transaction.events],
            rfl⟩
        · obtain ⟨begin, body, rfl, hbegin, hbody⟩ := hrest
          refine ⟨txs, begin :: (body ++ [e]), by simp, begin, body ++ [e], rfl, hbegin, ?_⟩
          intro e' he'
          rcases List.mem_append.mp he' with he' | he'
          · exact hbody e' he'
          · rw [List.mem_singleton.mp he']
            exact hp
  · rintro ⟨txs, rest, rfl, hrest⟩
    have htxs : (txs.flatMap Transaction.events).map (·.payload) =
        (txs.map fun t => t.body.map (·.payload)).flatMap bracketed := by
      rw [List.map_flatMap, List.flatMap_map]
      refine List.flatMap_congr fun t _ => ?_
      simp [Transaction.events, bracketed, t.begin_payload, t.fin_payload]
    rw [List.map_append, htxs, envelopeAll_append, envelopeAll_flatMap_bracketed]
    · cases inTransaction with
      | false =>
        obtain rfl := hrest
        rfl
      | true =>
        obtain ⟨begin, body, rfl, hbegin, hbody⟩ := hrest
        show envelopeAll false (begin.payload :: body.map (·.payload)) = .ok true
        rw [hbegin]
        exact envelopeAll_inside (by simpa using hbody)
    · intro seg hseg
      obtain ⟨t, _, rfl⟩ := List.mem_map.mp hseg
      simpa using t.body_payload

/-- The envelope check ends outside a transaction exactly on whole transactions. -/
lemma envelopeAll_eq_ok_false_iff {events : List CanonicalSemanticEvent} :
    envelopeAll false (events.map (·.payload)) = .ok false ↔ WellBracketed events := by
  rw [envelopeAll_eq_ok_iff]
  constructor
  · rintro ⟨txs, rest, rfl, rfl⟩
    exact ⟨txs, List.append_nil _⟩
  · rintro ⟨txs, rfl⟩
    exact ⟨txs, [], (List.append_nil _).symm, rfl⟩

end CseValidator

end KaySentinel.Cse
