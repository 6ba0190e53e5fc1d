import KaySentinel.Bridge.Translate
import KaySentinel.Validation.Gate1

/-!
# The walk of Gate 1

Between the first and the last event the loop of Gate 1 is a walk over the transactions, which
reads no more of an event than the bridge does.
-/

namespace KaySentinel.Validation

open Emes Bridge

/-- What the loop knows of an open transaction. -/
structure OpenTransaction where
  frameStack : List UInt64
  rootFrameCount : ℕ
  rootFrameReverted : Bool
deriving DecidableEq

/-- The open transaction, if there is one. -/
abbrev Place := Option OpenTransaction

/-- A transaction that has just started. -/
def OpenTransaction.start : OpenTransaction := ⟨[], 0, false⟩

def walkStep : Place → GoEvent → Option Place
  | none, .transactionStart _ => some (some .start)
  | some tx, .transactionEnd data =>
      if tx.frameStack = [] ∧ tx.rootFrameCount ≤ 1 ∧
          (tx.rootFrameCount = 1 → data.reverted = tx.rootFrameReverted) then
        some none
      else none
  | some ⟨[], count, reverted⟩, .frameEnter data =>
      if data.parentFrameId = sentinel then
        some (some ⟨[data.frameId], count + 1, reverted⟩)
      else none
  | some ⟨top :: rest, count, reverted⟩, .frameEnter data =>
      if data.parentFrameId = top then
        some (some ⟨data.frameId :: top :: rest, count, reverted⟩)
      else none
  | some ⟨top :: rest, count, reverted⟩, .frameExit data =>
      if top = data.frameId then
        some (some ⟨rest, count, if rest = [] then data.reverted else reverted⟩)
      else none
  | p, .balanceMutation _ => some p
  | p, .nonceMutation _ => some p
  | p, .codeMutation _ => some p
  | p, .storageMutation _ => some p
  | p, .accountCreated _ => some p
  | p, .selfDestruct _ => some p
  | _, _ => none

/-- Walk over events from a place. -/
def walk (p : Place) (events : List GoEvent) : Option Place := events.foldlM walkStep p

@[simp] lemma walk_nil (p : Place) : walk p [] = some p := rfl

lemma walk_cons (p : Place) (event : GoEvent) (events : List GoEvent) :
    walk p (event :: events) = (walkStep p event).bind (walk · events) := rfl

lemma walk_append (p : Place) (events events' : List GoEvent) :
    walk p (events ++ events') = (walk p events).bind (walk · events') := by
  simp only [walk, List.foldlM_append]
  rfl

/-! ## What a step does -/

section

variable {p : Place} {event : GoEvent}

lemma walkStep_mutation {m : UInt64 × Cse.CsePayload} (h : event.mutation? = some m) (p : Place) :
    walkStep p event = some p := by
  cases event <;> first | rcases p with _ | ⟨_ | _, _, _⟩ <;> rfl |
    exact absurd h (by simp [GoEvent.mutation?])

lemma walkStep_none_cases (h : walkStep none event = some p) :
    (∃ data, event = .transactionStart data ∧ p = some .start) ∨
      (∃ m, event.mutation? = some m) ∧ p = none := by
  cases event with
  | transactionStart data => exact .inl ⟨data, rfl, (Option.some.inj h).symm⟩
  | blockStart data => simp [walkStep] at h
  | blockCommit => simp [walkStep] at h
  | transactionEnd data => simp [walkStep] at h
  | frameEnter data => simp [walkStep] at h
  | frameExit data => simp [walkStep] at h
  | _ => exact .inr ⟨⟨_, rfl⟩, (Option.some.inj h).symm⟩

/-- In a transaction a step ends it with every frame closed and a flag that agrees with its
only root frame, opens a frame under the innermost one, closes the innermost one, or is a
mutation. -/
lemma walkStep_some_cases {stack : List UInt64} {count : ℕ} {reverted : Bool}
    (h : walkStep (some ⟨stack, count, reverted⟩) event = some p) :
    (∃ data, event = .transactionEnd data ∧ stack = [] ∧ count ≤ 1 ∧
        (count = 1 → data.reverted = reverted) ∧ p = none) ∨
      (∃ data, event = .frameEnter data ∧ data.parentFrameId = stack.headD sentinel ∧
        p = some ⟨data.frameId :: stack, if stack = [] then count + 1 else count, reverted⟩) ∨
      (∃ data rest, event = .frameExit data ∧ stack = data.frameId :: rest ∧
        p = some ⟨rest, count, if rest = [] then data.reverted else reverted⟩) ∨
      (∃ m, event.mutation? = some m) ∧ p = some ⟨stack, count, reverted⟩ := by
  cases event with
  | transactionStart data => rcases stack with _ | _ <;> simp [walkStep] at h
  | blockStart data => rcases stack with _ | _ <;> simp [walkStep] at h
  | blockCommit => rcases stack with _ | _ <;> simp [walkStep] at h
  | transactionEnd data =>
    simp only [walkStep] at h
    split_ifs at h with hend
    exact .inl ⟨data, rfl, hend.1, hend.2.1, hend.2.2, (Option.some.inj h).symm⟩
  | frameEnter data =>
    rcases stack with _ | ⟨top, rest⟩
    · simp only [walkStep] at h
      split_ifs at h with hparent
      exact .inr (.inl ⟨data, rfl, hparent, (Option.some.inj h).symm⟩)
    · simp only [walkStep] at h
      split_ifs at h with hparent
      exact .inr (.inl ⟨data, rfl, hparent, (Option.some.inj h).symm⟩)
  | frameExit data =>
    rcases stack with _ | ⟨top, rest⟩
    · simp [walkStep] at h
    · obtain ⟨hid, h⟩ := Option.ite_none_right_eq_some.mp h
      exact .inr (.inr (.inl ⟨data, rest, rfl, by rw [hid], (Option.some.inj h).symm⟩))
  | _ =>
    have hp : p = some ⟨stack, count, reverted⟩ := by
      rw [walkStep_mutation rfl] at h
      exact (Option.some.inj h).symm
    exact .inr (.inr (.inr ⟨⟨_, rfl⟩, hp⟩))

/-- A transaction that ends has at most one root frame. -/
lemma rootFrameCount_le_one {stack : List UInt64} {count : ℕ} {reverted : Bool}
    {events : List GoEvent} (h : walk (some ⟨stack, count, reverted⟩) events = some none) :
    count ≤ 1 := by
  induction events generalizing stack count reverted with
  | nil => simp at h
  | cons event events ih =>
    rw [walk_cons, Option.bind_eq_some_iff] at h
    obtain ⟨p, hstep, hwalk⟩ := h
    rcases walkStep_some_cases hstep with ⟨_, -, -, hcount, -, -⟩ | ⟨data, -, -, rfl⟩ |
      ⟨data, rest, -, -, rfl⟩ | ⟨-, rfl⟩
    · exact hcount
    · have hle := ih hwalk
      split_ifs at hle
      · exact Nat.le_of_succ_le hle
      · exact hle
    · exact ih hwalk
    · exact ih hwalk

end

/-! ## The loop walks -/

/-- The place of the loop. -/
def Gate1State.place (s : Gate1State) : Place :=
  if s.txOpen then some ⟨s.frameStack, s.rootFrameCount, s.rootFrameReverted⟩ else none

variable {len i : ℕ} {s s' : Gate1State}

/-- Strictly inside the stream the `switch` is a step of the walk. -/
lemma place_gate1Switch (data : EventData) (hpos : 0 < i) (hlen : i + 1 < len) :
    (gate1Switch len i s data).toOption.map Gate1State.place = walkStep s.place data.goEvent := by
  have hfirst : i ≠ 0 := by omega
  have hlast : i ≠ len - 1 := by omega
  cases hopen : s.txOpen with
  | false =>
    cases data with
    | blockStart ev => simp [gate1Switch, hfirst, Except.toOption, walkStep, EventData.goEvent]
    | blockCommit ev => simp [gate1Switch, hlast, Except.toOption, walkStep, EventData.goEvent]
    | _ => simp [gate1Switch, hopen, Except.toOption, walkStep, EventData.goEvent,
        Gate1State.place, OpenTransaction.start]
  | true =>
    cases data with
    | blockStart ev => simp [gate1Switch, hfirst, Except.toOption, walkStep, EventData.goEvent]
    | blockCommit ev => simp [gate1Switch, hlast, Except.toOption, walkStep, EventData.goEvent]
    | transactionEnd ev =>
      have hplace : s.place = some ⟨s.frameStack, s.rootFrameCount, s.rootFrameReverted⟩ := by
        simp [Gate1State.place, hopen]
      by_cases hs : s.frameStack = []
      · by_cases hcount : 1 < s.rootFrameCount
        · simp [gate1Switch, hopen, hs, hcount, hplace, walkStep, EventData.goEvent,
            Except.toOption, Nat.not_le.mpr hcount]
        · by_cases hroot : s.rootFrameCount = 1 ∧ ev.reverted ≠ s.rootFrameReverted
          · simp [gate1Switch, hopen, hs, hroot, hplace, walkStep, EventData.goEvent,
              Except.toOption]
          · simp [gate1Switch, hopen, hs, hcount, hroot, walkStep, EventData.goEvent,
              Except.toOption, Nat.not_lt.mp hcount, Gate1State.place]
      · simp [gate1Switch, hopen, hs, hplace, walkStep, EventData.goEvent, Except.toOption]
    | frameEnter ev =>
      rcases hs : s.frameStack with _ | ⟨top, rest⟩
      · by_cases hparent : ev.parentFrameId = sentinel <;>
          simp [gate1Switch, hopen, hs, hparent, Except.toOption, walkStep, EventData.goEvent,
            Gate1State.place]
      · by_cases hparent : ev.parentFrameId = top <;>
          simp [gate1Switch, hopen, hs, hparent, Except.toOption, walkStep, EventData.goEvent,
            Gate1State.place]
    | frameExit ev =>
      rcases hs : s.frameStack with _ | ⟨top, rest⟩
      · simp [gate1Switch, hopen, hs, Except.toOption, walkStep, EventData.goEvent,
          Gate1State.place]
      · by_cases hid : top = ev.frameId <;>
          simp [gate1Switch, hopen, hs, hid, Except.toOption, walkStep, EventData.goEvent,
            Gate1State.place]
    | _ => simp [gate1Switch, hopen, Except.toOption, walkStep, EventData.goEvent,
        Gate1State.place]

lemma sequence_gate1Switch {data : EventData} (h : gate1Switch len i s data = .ok s') :
    s'.prevSeq = s.prevSeq ∧ s'.seqInitialized = s.seqInitialized := by
  cases data with
  | blockStart ev =>
    simp only [gate1Switch] at h
    split_ifs at h
    cases h
    exact ⟨rfl, rfl⟩
  | blockCommit ev =>
    simp only [gate1Switch] at h
    split_ifs at h
    cases h
    exact ⟨rfl, rfl⟩
  | transactionStart ev =>
    simp only [gate1Switch] at h
    split_ifs at h
    cases h
    exact ⟨rfl, rfl⟩
  | transactionEnd ev =>
    simp only [gate1Switch] at h
    split_ifs at h
    cases h
    exact ⟨rfl, rfl⟩
  | frameEnter ev =>
    rcases hs : s.frameStack with _ | ⟨top, rest⟩
    all_goals
      simp only [gate1Switch, hs] at h
      split_ifs at h
      cases h
      exact ⟨rfl, rfl⟩
  | frameExit ev =>
    rcases hs : s.frameStack with _ | ⟨top, rest⟩
    all_goals
      simp only [gate1Switch, hs] at h
      split_ifs at h
    all_goals
      cases h
      exact ⟨rfl, rfl⟩
  | _ =>
    cases h
    exact ⟨rfl, rfl⟩

/-- The sequence numbers grow strictly from event to event. -/
def Increasing (stream : List Event) : Prop :=
  List.IsChain (· < ·) (stream.map (·.sequence))

instance (stream : List Event) : Decidable (Increasing stream) :=
  inferInstanceAs (Decidable (List.IsChain _ _))

/-- From event one on the loop succeeds and ends outside a transaction exactly if the sequence
numbers grow and the interior walks from the place of the loop to outside. -/
lemma gate1Loop_interior {interior : List Event} {last : Event} {ev : BlockCommitEvent}
    (hlast : last.data = .blockCommit ev) (hpos : 0 < i) (hlen : i + interior.length + 1 = len)
    (hseq : s.seqInitialized = true) :
    (∃ s', gate1Loop len i s (interior ++ [last]) = .ok s' ∧ s'.txOpen = false) ↔
      List.IsChain (· < ·) (s.prevSeq :: (interior ++ [last]).map (·.sequence)) ∧
        walk s.place (goEvents interior) = some none := by
  induction interior generalizing i s with
  | nil =>
    have hi : i = len - 1 := by simp at hlen; omega
    have hplace : walk s.place (goEvents []) = some none ↔ s.txOpen = false := by
      cases hopen : s.txOpen <;> simp [goEvents, Gate1State.place, hopen]
    rw [hplace]
    by_cases hlt : s.prevSeq < last.sequence
    · have hle : ¬ last.sequence ≤ s.prevSeq := UInt64.not_le.mpr hlt
      cases hopen : s.txOpen <;>
        simp [gate1Loop, gate1Step, gate1Switch, hlast, hle, hlt, ← hi, hopen, bind, Except.bind]
    · have hle : last.sequence ≤ s.prevSeq := UInt64.not_lt.mp hlt
      simp [gate1Loop, gate1Step, hseq, hle, hlt, bind, Except.bind]
  | cons e interior ih =>
    have hstep : (gate1Switch len i { s with prevSeq := e.sequence, seqInitialized := true }
        e.data).toOption.map Gate1State.place = walkStep s.place e.data.goEvent :=
      place_gate1Switch e.data hpos (by simp at hlen; omega)
    have hgo : goEvents (e :: interior) = e.data.goEvent :: goEvents interior := rfl
    rw [hgo, walk_cons, ← hstep, List.cons_append, List.map_cons, List.isChain_cons_cons]
    by_cases hlt : s.prevSeq < e.sequence
    · have hle : ¬ e.sequence ≤ s.prevSeq := UInt64.not_le.mpr hlt
      cases hok : gate1Switch len i { s with prevSeq := e.sequence, seqInitialized := true }
          e.data with
      | error err =>
        simp [gate1Loop, gate1Step, hle, hok, bind, Except.bind, Except.toOption]
      | ok mid =>
        obtain ⟨hprev, hinit⟩ := sequence_gate1Switch hok
        have hrest := ih (s := mid) (Nat.succ_pos i) (by simp at hlen; omega) hinit
        rw [hprev] at hrest
        simpa [gate1Loop, gate1Step, hle, hlt, hok, bind, Except.bind, Except.toOption] using hrest
    · have hle : e.sequence ≤ s.prevSeq := UInt64.not_lt.mp hlt
      simp [gate1Loop, gate1Step, hseq, hle, hlt, bind, Except.bind]

/-- The loop after the `BlockStart`. -/
def Gate1State.started : Gate1State := { Gate1State.init with seqInitialized := true }

lemma gate1Step_blockStart (len : ℕ) (start : BlockStartEvent) :
    gate1Step len 0 .init ⟨0, .blockStart start⟩ = .ok .started := rfl

/-- On a stream with the right first and last event Gate 1 checks the sequence numbers and
walks over the interior. -/
lemma verifyGate1Invariants_between {start : BlockStartEvent} {interior : List Event}
    {seq : UInt64} {commit : BlockCommitEvent} :
    verifyGate1Invariants
        (⟨0, .blockStart start⟩ :: (interior ++ [⟨seq, .blockCommit commit⟩])) = .ok () ↔
      Increasing (⟨0, .blockStart start⟩ :: (interior ++ [⟨seq, .blockCommit commit⟩])) ∧
        walk none (goEvents interior) = some none := by
  have hloop := @gate1Loop_interior (interior.length + 2) 1 .started interior
    ⟨seq, .blockCommit commit⟩ commit rfl Nat.one_pos (by omega) rfl
  have hverify : verifyGate1Invariants
        (⟨0, .blockStart start⟩ :: (interior ++ [⟨seq, .blockCommit commit⟩])) = .ok () ↔
      ∃ s', gate1Loop (interior.length + 2) 1 .started
        (interior ++ [⟨seq, .blockCommit commit⟩]) = .ok s' ∧ s'.txOpen = false := by
    have hlast : (⟨0, .blockStart start⟩ :: (interior ++ [⟨seq, .blockCommit commit⟩])).getLast? =
        some (⟨seq, .blockCommit commit⟩ : Event) := by
      rw [← List.cons_append, List.getLast?_concat]
    have hlen : (⟨0, .blockStart start⟩ :: (interior ++ [⟨seq, .blockCommit commit⟩])).length =
        interior.length + 2 := by simp
    simp only [verifyGate1Invariants, List.head?_cons, hlast, hlen, gate1Loop,
      gate1Step_blockStart]
    cases hl : gate1Loop (interior.length + 2) 1 .started
        (interior ++ [⟨seq, .blockCommit commit⟩]) with
    | error err => simp [hl, bind, Except.bind]
    | ok s' =>
      cases hopen : s'.txOpen <;>
        simp [hl, bind, Except.bind, hopen, throw, throwThe, MonadExceptOf.throw, pure, Except.pure]
  rw [hverify, hloop]
  rfl

/-- The stream is a `BlockStart` of sequence number zero, an interior that walks from outside a
transaction to outside, and a `BlockCommit`, with growing sequence numbers. -/
def Walks (stream : List Event) : Prop :=
  ∃ start interior seq commit,
    stream = ⟨0, .blockStart start⟩ :: (interior ++ [⟨seq, .blockCommit commit⟩]) ∧
      Increasing stream ∧ walk none (goEvents interior) = some none

/-- Gate 1 accepts exactly the streams that walk. -/
lemma verifyGate1Invariants_iff_walks {stream : List Event} :
    verifyGate1Invariants stream = .ok () ↔ Walks stream := by
  constructor
  · intro h
    rcases stream with _ | ⟨⟨seq, data⟩, events⟩
    · simp [verifyGate1Invariants] at h
    cases data with
    | blockStart start =>
      by_cases hseq : seq = 0
      · subst hseq
        rcases List.eq_nil_or_concat' events with rfl | ⟨interior, ⟨seq, data⟩, rfl⟩
        · simp [verifyGate1Invariants] at h
        cases data with
        | blockCommit commit =>
          exact ⟨start, interior, seq, commit, rfl, verifyGate1Invariants_between.mp h⟩
        | _ => simp [verifyGate1Invariants, List.getLast?_cons] at h
      · simp [verifyGate1Invariants, hseq] at h
    | _ => simp [verifyGate1Invariants] at h
  · rintro ⟨start, interior, seq, commit, rfl, hwalks⟩
    exact verifyGate1Invariants_between.mpr hwalks

end KaySentinel.Validation
