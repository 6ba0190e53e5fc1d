import KaySentinel.Bridge.Scope
import KaySentinel.Validation.Walk

/-!
# The interior of an accepted stream

What the walk of Gate 1 says about the events that the bridge sees: its stack holds the ids of
the open frames, and it reads one transaction after the other.
-/

namespace KaySentinel.Conformance

open Emes Bridge Validation

/-! ## The interior -/

/-- The bridge's view of a stream that Gate 1 accepts. -/
lemma exists_interior {stream : List Event} (h : verifyGate1Invariants stream = .ok ()) :
    ∃ start inner, goEvents stream = .blockStart start :: (inner ++ [.blockCommit]) ∧
      walk none inner = some none := by
  obtain ⟨start, interior, seq, commit, rfl, -, hwalk⟩ := verifyGate1Invariants_iff_walks.mp h
  exact ⟨{ number := start.number }, goEvents interior, by simp [goEvents, EventData.goEvent],
    hwalk⟩

/-- An event that is no block event splits the interior. -/
lemma split_interior {start : BlockStartData} {inner pre post : List GoEvent} {event : GoEvent}
    (h : GoEvent.blockStart start :: (inner ++ [.blockCommit]) = pre ++ event :: post)
    (hstart : event ≠ .blockStart start) (hcommit : event ≠ .blockCommit) :
    ∃ pre' post', pre = .blockStart start :: pre' ∧ post = post' ++ [.blockCommit] ∧
      inner = pre' ++ event :: post' := by
  rcases pre with _ | ⟨first, pre⟩
  · exact absurd (List.cons_eq_cons.mp h).1.symm hstart
  rw [List.cons_append] at h
  obtain ⟨rfl, hrest⟩ := List.cons_eq_cons.mp h
  rcases List.eq_nil_or_concat' post with rfl | ⟨post, last, rfl⟩
  · exact absurd (List.append_singleton_inj.mp hrest).2.symm hcommit
  · rw [← List.cons_append, ← List.append_assoc] at hrest
    obtain ⟨hinner, rfl⟩ := List.append_singleton_inj.mp hrest
    exact ⟨pre, post, rfl, rfl, hinner⟩

lemma mutation_ne_block {event : GoEvent} {m : Mutation} (hm : event.mutation? = some m)
    (start : BlockStartData) : event ≠ .blockStart start ∧ event ≠ .blockCommit := by
  constructor <;> rintro rfl <;> simp [GoEvent.mutation?] at hm

/-! ## The walk opens the frames -/

/-- The stack of a place. -/
def stackAt (p : Place) : List UInt64 := p.elim [] (·.frameStack)

variable {event : GoEvent}

lemma stackAt_walkStep {p p' : Place} {opened : List FrameEnterData}
    (hp : stackAt p = opened.map (·.frameId)) (h : walkStep p event = some p') :
    stackAt p' = (enterStep opened event).map (·.frameId) := by
  rcases p with _ | ⟨stack, count, reverted⟩
  · rcases walkStep_none_cases h with ⟨data, rfl, rfl⟩ | ⟨⟨m, hm⟩, rfl⟩
    · rfl
    · rw [enterStep_of_mutation hm, hp]
  · have hp' : stack = opened.map (·.frameId) := hp
    rcases walkStep_some_cases h with ⟨data, rfl, rfl, -, -, rfl⟩ | ⟨data, rfl, -, rfl⟩ |
      ⟨data, rest, rfl, hstack, rfl⟩ | ⟨⟨m, hm⟩, rfl⟩
    · exact hp'
    · exact congrArg (data.frameId :: ·) hp'
    · rw [hp'] at hstack
      obtain ⟨top, opened, rfl, -, hrest⟩ := List.map_eq_cons_iff.mp hstack
      exact hrest.symm
    · rw [enterStep_of_mutation hm]
      exact hp

/-- The stack of Gate 1 holds the ids of the open frames. -/
lemma stackAt_walk {events : List GoEvent} {p : Place} (h : walk none events = some p) :
    stackAt p = (openFrames events).map (·.frameId) := by
  induction events using List.reverseRecOn generalizing p with
  | nil =>
    obtain rfl := Option.some.inj h
    rfl
  | append_singleton events event ih =>
    rw [walk_append, Option.bind_eq_some_iff] at h
    obtain ⟨q, hwalk, hstep⟩ := h
    rw [walk_cons, Option.bind_eq_some_iff] at hstep
    obtain ⟨_, hstep, ⟨⟩⟩ := hstep
    rw [openFrames_concat]
    exact stackAt_walkStep (ih hwalk) hstep

lemma mem_openFrames {events : List GoEvent} {data : FrameEnterData}
    (h : data ∈ openFrames events) : .frameEnter data ∈ events := by
  induction events using List.reverseRecOn with
  | nil => simp [openFrames] at h
  | append_singleton events event ih =>
    rw [openFrames_concat] at h
    rw [List.mem_append, List.mem_singleton]
    cases event with
    | transactionStart start => simp [enterStep] at h
    | frameEnter data' =>
      rcases List.mem_cons.mp h with rfl | h
      · exact .inr rfl
      · exact .inl (ih h)
    | frameExit data' => exact .inl (ih (List.mem_of_mem_tail h))
    | _ => exact .inl (ih h)

/-! ## Transactions of the walk -/

/-- From inside a transaction the walk reads the rest of it and its end. -/
lemma exists_end_of_walk {tx : OpenTransaction} {events : List GoEvent}
    (h : walk (some tx) events = some none) :
    ∃ body fin rest, events = body ++ .transactionEnd fin :: rest ∧ Inside body ∧
      walk none rest = some none := by
  induction events generalizing tx with
  | nil => simp at h
  | cons event events ih =>
    rw [walk_cons, Option.bind_eq_some_iff] at h
    obtain ⟨p, hstep, hwalk⟩ := h
    have hinside : ∀ tx', p = some tx' → event.isTransactionEnd = false →
        event.isTransactionStart = false → ∃ body fin rest,
          event :: events = body ++ .transactionEnd fin :: rest ∧ Inside body ∧
            walk none rest = some none := by
      rintro tx' rfl hend hstart
      obtain ⟨body, fin, rest, rfl, hbody, hrest⟩ := ih hwalk
      refine ⟨event :: body, fin, rest, rfl, ?_, hrest⟩
      rintro e (_ | ⟨_, he⟩)
      · exact ⟨hend, hstart⟩
      · exact hbody e he
    obtain ⟨stack, count, reverted⟩ := tx
    rcases walkStep_some_cases hstep with ⟨data, rfl, -, -, -, rfl⟩ | ⟨data, rfl, -, rfl⟩ |
      ⟨data, rest, rfl, -, rfl⟩ | ⟨⟨m, hm⟩, rfl⟩
    · exact ⟨[], data, events, rfl, by simp [Inside], hwalk⟩
    · exact hinside _ rfl rfl rfl
    · exact hinside _ rfl rfl rfl
    · exact hinside _ rfl (not_boundary_of_mutation hm).2 (not_boundary_of_mutation hm).1

/-- What holds of nothing, and whose truth is kept when a mutation or a whole transaction goes
ahead, holds of whatever walks from outside a transaction to outside. -/
lemma walk_induction {motive : List GoEvent → Prop} (nil : motive [])
    (mutation : ∀ event m events, event.mutation? = some m → motive events →
      motive (event :: events))
    (transaction : ∀ start body fin rest, Inside body →
      walk (some .start) (body ++ .transactionEnd fin :: rest) = some none → motive rest →
      motive (.transactionStart start :: (body ++ .transactionEnd fin :: rest)))
    {events : List GoEvent} (h : walk none events = some none) : motive events := by
  induction hn : events.length using Nat.strong_induction_on generalizing events with
  | _ n ih =>
  subst hn
  rcases events with _ | ⟨event, events⟩
  · exact nil
  rw [walk_cons, Option.bind_eq_some_iff] at h
  obtain ⟨p, hstep, hwalk⟩ := h
  rcases walkStep_none_cases hstep with ⟨data, rfl, rfl⟩ | ⟨⟨m, hm⟩, rfl⟩
  · obtain ⟨body, fin, rest, rfl, hbody, hrest⟩ := exists_end_of_walk hwalk
    exact transaction data body fin rest hbody hwalk
      (ih rest.length (by simp; omega) hrest rfl)
  · exact mutation event m events hm (ih events.length (by simp) hwalk rfl)

/-- The walk reads the body of the transaction up to its end. -/
def WalksThrough (span : TransactionSpan) : Prop :=
  Inside span.body ∧
    ∃ rest, walk (some .start) (span.body ++ .transactionEnd span.fin :: rest) = some none

lemma walksThrough_of_accepted {stream : List Event}
    (h : verifyGate1Invariants stream = .ok ()) :
    ∀ span ∈ spans (goEvents stream), WalksThrough span := by
  obtain ⟨start, inner, hgo, hwalk⟩ := exists_interior h
  rw [hgo, spans_cons_of_not_start _ rfl]
  refine walk_induction (motive := fun events =>
    ∀ span ∈ spans (events ++ [.blockCommit]), WalksThrough span) ?_ ?_ ?_ hwalk
  · simp [spans]
  · intro event m events hm ih
    rwa [List.cons_append, spans_cons_of_not_start _ (not_boundary_of_mutation hm).1]
  · intro start body fin rest hbody hwalk ih
    rw [List.cons_append, List.append_assoc, List.cons_append, spans_start _ hbody]
    rintro span (_ | ⟨_, hspan⟩)
    · exact ⟨hbody, rest, hwalk⟩
    · exact ih span hspan

end KaySentinel.Conformance
