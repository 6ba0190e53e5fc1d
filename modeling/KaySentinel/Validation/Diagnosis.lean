import KaySentinel.Tracer.Validity

/-!
# What an error of Gate 1 points at

A stream that Gate 1 rejects has a first event with which it cannot be completed any more.  Gate 1
points at this event, with one exception: a second root frame of a transaction is let in, and found
later (`verifyGate1Invariants_error`).
-/

namespace KaySentinel.Validation

open Emes Bridge

/-- Some stream that starts with the events is accepted. -/
def Completable (pre : List Event) : Prop :=
  ∃ post, verifyGate1Invariants (pre ++ post) = .ok ()

/-- The events before `e` can be completed.  With `e` there are at most streams that end there, and
this one does not. -/
structure FirstBad (pre : List Event) (e : Event) (post : List Event) : Prop where
  completable : Completable pre
  stuck : ∀ rest, verifyGate1Invariants (pre ++ e :: rest) = .ok () → rest = [] ∧ post ≠ []

/-! ## Completing a walk -/

/-- How many events it takes to leave the transaction. -/
def depth : Place → ℕ
  | none => 0
  | some tx => tx.frameStack.length + 1

/-- Exits of all frames, and the end of the transaction. -/
def closing : Place → List EventData
  | none => []
  | some tx =>
      tx.frameStack.map (fun id => .frameExit { frameId := id, reverted := false }) ++
        [.transactionEnd
          { txIndex := 0, reverted := if tx.frameStack = [] then tx.rootFrameReverted else false }]

lemma length_closing (p : Place) : (closing p).length = depth p := by
  cases p with
  | none => rfl
  | some tx => simp [closing, depth]

lemma walk_exits (count : ℕ) (stack : List UInt64) (reverted : Bool) :
    walk (some ⟨stack, count, reverted⟩)
        ((stack.map fun id => EventData.frameExit { frameId := id, reverted := false }).map
          EventData.goEvent) =
      some (some ⟨[], count, if stack = [] then reverted else false⟩) := by
  induction stack generalizing reverted with
  | nil => rfl
  | cons top rest ih =>
    have hstep : walkStep (some ⟨top :: rest, count, reverted⟩)
        (EventData.frameExit { frameId := top, reverted := false }).goEvent =
          some (some ⟨rest, count, if rest = [] then false else reverted⟩) := if_pos rfl
    rw [List.map_cons, List.map_cons, walk_cons, hstep, Option.bind_some, ih,
      if_neg (List.cons_ne_nil _ _)]
    split_ifs <;> rfl

/-- With one root frame at most, a transaction can be left. -/
lemma walk_closing {p : Place} (hroots : ∀ tx ∈ p, tx.rootFrameCount ≤ 1) :
    walk p ((closing p).map EventData.goEvent) = some none := by
  rcases p with - | ⟨stack, count, reverted⟩
  · rfl
  have hcount : count ≤ 1 := hroots _ rfl
  rw [closing, List.map_append, walk_append, walk_exits, Option.bind_some]
  simp [walk_cons, EventData.goEvent, walkStep, hcount]

lemma depth_walkStep {p p' : Place} {event : GoEvent} (h : walkStep p event = some p') :
    depth p' ≤ depth p + 1 := by
  rcases p with - | ⟨stack, count, reverted⟩
  · rcases walkStep_none_cases h with ⟨data, -, rfl⟩ | ⟨-, rfl⟩
    · exact le_rfl
    · exact Nat.zero_le _
  · rcases walkStep_some_cases h with ⟨data, -, -, -, -, rfl⟩ | ⟨data, -, -, rfl⟩ |
      ⟨data, rest, -, rfl, rfl⟩ | ⟨-, rfl⟩
    · exact Nat.zero_le _
    · exact le_rfl
    · simp only [depth, List.length_cons]
      omega
    · exact Nat.le_succ _

lemma depth_walk {p p' : Place} {events : List GoEvent} (h : walk p events = some p') :
    depth p' ≤ depth p + events.length := by
  induction events generalizing p with
  | nil =>
    obtain rfl := Option.some.inj h
    exact le_rfl
  | cons event events ih =>
    rw [walk_cons, Option.bind_eq_some_iff] at h
    obtain ⟨q, hstep, hwalk⟩ := h
    have hq := depth_walkStep hstep
    have hp' := ih hwalk
    rw [List.length_cons]
    omega

/-- The sequence number of the last event, behind a `BlockStart` of sequence number zero. -/
def lastSequence (events : List Event) : UInt64 := (events.map (·.sequence)).getLast?.getD 0

/-- What has been walked over can be completed if the sequence numbers leave room for it. -/
lemma completable_of_walk {start : BlockStartEvent} {events : List Event} {p : Place}
    (hwalk : walk none (goEvents events) = some p) (hroots : ∀ tx ∈ p, tx.rootFrameCount ≤ 1)
    (hincreasing : Increasing (⟨0, .blockStart start⟩ :: events))
    (hroom : (lastSequence events).toNat + events.length + 2 < 2 ^ 64) :
    Completable (⟨0, .blockStart start⟩ :: events) := by
  have hdepth : depth p ≤ events.length := by
    have h := depth_walk hwalk
    rwa [depth, zero_add, goEvents, List.length_map] at h
  have hlt : (lastSequence events).toNat + 1 < 2 ^ 64 := by omega
  have hsucc : (lastSequence events + 1).toNat = (lastSequence events).toNat + 1 :=
    toNat_add_ofNat hlt
  -- the completion: leave the transaction, and commit
  let rest := stamp (lastSequence events + 1) (closing p)
  let commit : UInt64 := lastSequence events + 1 + UInt64.ofNat (closing p).length
  have hstamp : rest ++ [⟨commit, .blockCommit { stateRoot := Bytes.zero 32 }⟩] =
      stamp (lastSequence events + 1)
        (closing p ++ [.blockCommit { stateRoot := Bytes.zero 32 }]) := by
    rw [stamp_append]
    rfl
  have hrest : Increasing (rest ++ [⟨commit, .blockCommit { stateRoot := Bytes.zero 32 }⟩]) := by
    rw [hstamp]
    refine increasing_stamp ?_
    rw [hsucc, List.length_append, length_closing, List.length_singleton]
    omega
  refine ⟨rest ++ [⟨commit, .blockCommit { stateRoot := Bytes.zero 32 }⟩],
    verifyGate1Invariants_iff_walks.mpr ⟨start, events ++ rest, commit,
      { stateRoot := Bytes.zero 32 }, ?_, ?_, ?_⟩⟩
  · rw [List.cons_append, List.append_assoc]
  · rw [Increasing, List.map_append]
    refine List.IsChain.append hincreasing hrest ?_
    intro x hx y hy
    have hx' : x = lastSequence events := by
      rw [List.map_cons, List.getLast?_cons] at hx
      exact (Option.mem_some.mp hx).symm
    have hy' : y = lastSequence events + 1 := by
      rw [hstamp] at hy
      cases hclosing : closing p with
      | nil =>
        rw [hclosing] at hy
        exact (Option.mem_some.mp hy).symm
      | cons e es =>
        rw [hclosing] at hy
        exact (Option.mem_some.mp hy).symm
    rw [hx', hy', UInt64.lt_iff_toNat_lt, hsucc]
    exact Nat.lt_succ_self _
  · have hgo : goEvents (events ++ rest) =
        goEvents events ++ (closing p).map EventData.goEvent := by
      rw [goEvents, List.map_append, ← goEvents, ← goEvents_stamp]
      rfl
    rw [hgo, walk_append, hwalk, Option.bind_some, walk_closing hroots]

/-! ## Several root frames -/

lemma walk_singleton (p : Place) (event : GoEvent) : walk p [event] = walkStep p event := by
  rw [walk_cons]
  cases walkStep p event <;> rfl

/-- A transaction that has several root frames has entered a second one. -/
lemma exists_second_root_of_walk {events : List GoEvent} {tx : OpenTransaction}
    (hwalk : walk none events = some (some tx)) (hroots : 1 < tx.rootFrameCount) :
    ∃ before data after reverted, events = before ++ .frameEnter data :: after ∧
      data.parentFrameId = sentinel ∧ walk none before = some (some ⟨[], 1, reverted⟩) := by
  induction events using List.reverseRecOn generalizing tx with
  | nil => simp at hwalk
  | append_singleton events event ih =>
    rw [walk_append, Option.bind_eq_some_iff] at hwalk
    obtain ⟨p, hbefore, hstep⟩ := hwalk
    rw [walk_singleton] at hstep
    have hearlier : ∀ tx' : OpenTransaction, p = some tx' → 1 < tx'.rootFrameCount →
        ∃ before data after reverted, events ++ [event] = before ++ .frameEnter data :: after ∧
          data.parentFrameId = sentinel ∧
          walk none before = some (some ⟨[], 1, reverted⟩) := by
      rintro tx' rfl hroots'
      obtain ⟨before, data, after, reverted, rfl, hparent, hwalk⟩ := ih hbefore hroots'
      exact ⟨before, data, after ++ [event], reverted, by simp, hparent, hwalk⟩
    rcases p with - | ⟨stack, count, reverted⟩
    · rcases walkStep_none_cases hstep with ⟨data, -, htx⟩ | ⟨-, htx⟩
      · obtain rfl := Option.some.inj htx
        exact absurd hroots (by decide)
      · cases htx
    · rcases walkStep_some_cases hstep with ⟨data, -, -, -, -, htx⟩ | ⟨data, rfl, hparent, htx⟩ |
        ⟨data, rest, -, rfl, htx⟩ | ⟨-, htx⟩
      · cases htx
      · obtain rfl := Option.some.inj htx
        by_cases hstack : stack = []
        · subst hstack
          have hcount : 1 < count + 1 := hroots
          by_cases hsecond : count = 1
          · subst hsecond
            exact ⟨events, data, [], reverted, rfl, hparent, hbefore⟩
          · exact hearlier _ rfl (by simp only; omega)
        · simp only [hstack, if_false] at hroots
          exact hearlier _ rfl hroots
      · obtain rfl := Option.some.inj htx
        exact hearlier _ rfl hroots
      · obtain rfl := Option.some.inj htx
        exact hearlier _ rfl hroots

/-- After several root frames the transaction does not end. -/
lemma transactionEnd_notMem_of_walk {events : List GoEvent} {tx : OpenTransaction} {p : Place}
    (hroots : 1 < tx.rootFrameCount) (h : walk (some tx) events = some p)
    (data : TransactionEndData) : .transactionEnd data ∉ events := by
  induction events generalizing tx with
  | nil => simp
  | cons event events ih =>
    rw [walk_cons, Option.bind_eq_some_iff] at h
    obtain ⟨q, hstep, hwalk⟩ := h
    rw [List.mem_cons, not_or]
    rcases walkStep_some_cases hstep with ⟨_, -, -, hcount, -, -⟩ | ⟨enter, rfl, -, rfl⟩ |
      ⟨exit, rest, rfl, -, rfl⟩ | ⟨⟨m, hm⟩, rfl⟩
    · exact absurd hroots (Nat.not_lt.mpr hcount)
    · refine ⟨by simp, ih ?_ hwalk⟩
      split_ifs
      · exact Nat.lt_succ_of_lt hroots
      · exact hroots
    · exact ⟨by simp, ih (by exact hroots) hwalk⟩
    · refine ⟨fun heq => ?_, ih hroots hwalk⟩
      rw [← heq] at hm
      cases hm

/-! ## The loop stops at an event -/

variable {len i : ℕ} {s s' : Gate1State} {e : Event} {err : Gate1Error} {events : List Event}

/-- An error of the loop is that of a step. -/
lemma gate1Loop_eq_error (h : gate1Loop len i s events = .error err) :
    ∃ pre e post s', events = pre ++ e :: post ∧ gate1Loop len i s pre = .ok s' ∧
      gate1Step len (i + pre.length) s' e = .error err := by
  induction events generalizing i s with
  | nil => cases h
  | cons e events ih =>
    cases hstep : gate1Step len i s e with
    | error err' =>
      rw [gate1Loop, hstep] at h
      exact ⟨[], e, events, s, rfl, rfl, hstep.trans h⟩
    | ok mid =>
      rw [gate1Loop, hstep] at h
      obtain ⟨pre, e', post, s', rfl, hpre, herr⟩ := ih h
      refine ⟨e :: pre, e', post, s', rfl, ?_, ?_⟩
      · rw [gate1Loop, hstep]
        exact hpre
      · rw [List.length_cons, Nat.add_comm pre.length, ← Nat.add_assoc]
        exact herr

lemma gate1Loop_append_eq_ok {events' : List Event}
    (h : gate1Loop len i s (events ++ events') = .ok s') :
    ∃ mid, gate1Loop len i s events = .ok mid := by
  induction events generalizing i s with
  | nil => exact ⟨s, rfl⟩
  | cons e events ih =>
    cases hstep : gate1Step len i s e with
    | error err =>
      rw [List.cons_append, gate1Loop, hstep] at h
      cases h
    | ok next =>
      rw [List.cons_append, gate1Loop, hstep] at h
      rw [gate1Loop, hstep]
      exact ih h

lemma gate1Step_eq_ok (h : gate1Step len i s e = .ok s') :
    (s.seqInitialized = true → s.prevSeq < e.sequence) ∧
      gate1Switch len i { s with prevSeq := e.sequence, seqInitialized := true } e.data =
        .ok s' := by
  rw [gate1Step] at h
  split_ifs at h with hseq
  refine ⟨fun hinit => ?_, h⟩
  rw [not_and] at hseq
  exact UInt64.not_le.mp (hseq hinit)

/-- Over events of the interior the loop walks. -/
lemma gate1Loop_eq_ok (hpos : 0 < i) (hlen : i + events.length < len)
    (hinit : s.seqInitialized = true) (h : gate1Loop len i s events = .ok s') :
    walk s.place (goEvents events) = some s'.place ∧ s'.seqInitialized = true ∧
      List.IsChain (· < ·) (s.prevSeq :: events.map (·.sequence)) ∧
      s'.prevSeq = (events.map (·.sequence)).getLast?.getD s.prevSeq := by
  induction events generalizing i s with
  | nil =>
    cases h
    exact ⟨rfl, hinit, by simp, rfl⟩
  | cons e events ih =>
    rw [List.length_cons] at hlen
    cases hstep : gate1Step len i s e with
    | error err =>
      rw [gate1Loop, hstep] at h
      cases h
    | ok mid =>
      rw [gate1Loop, hstep] at h
      obtain ⟨hlt, hswitch⟩ := gate1Step_eq_ok hstep
      obtain ⟨hprev, hmid⟩ := sequence_gate1Switch hswitch
      obtain ⟨hwalk, hinit', hchain, hlast⟩ := ih (Nat.succ_pos i) (by omega) hmid h
      have hplace := @place_gate1Switch len i
        { s with prevSeq := e.sequence, seqInitialized := true } e.data hpos (by omega)
      rw [hswitch] at hplace
      have hfirst : walkStep s.place e.data.goEvent = some mid.place := hplace.symm
      refine ⟨?_, hinit', ?_, ?_⟩
      · show walk s.place (e.data.goEvent :: goEvents events) = some s'.place
        rw [walk_cons, hfirst]
        exact hwalk
      · rw [List.map_cons, List.isChain_cons_cons]
        rw [hprev] at hchain
        exact ⟨hlt hinit, hchain⟩
      · rw [hlast, hprev, List.map_cons, List.getLast?_cons]
        rfl

lemma index_gate1Switch {data : EventData} (h : gate1Switch len i s data = .error err) :
    err.index = i := by
  cases data with
  | frameEnter ev =>
    rcases hstack : s.frameStack with _ | ⟨top, rest⟩
    all_goals
      simp only [gate1Switch, hstack] at h
      split_ifs at h
    all_goals
      cases h
      rfl
  | frameExit ev =>
    rcases hstack : s.frameStack with _ | ⟨top, rest⟩
    all_goals
      simp only [gate1Switch, hstack] at h
      split_ifs at h
    all_goals
      cases h
      rfl
  | balanceMutation ev => cases h
  | nonceMutation ev => cases h
  | codeMutation ev => cases h
  | storageMutation ev => cases h
  | accountCreated ev => cases h
  | selfDestruct ev => cases h
  | _ =>
    simp only [gate1Switch] at h
    split_ifs at h
    all_goals
      cases h
      rfl

lemma open_of_place_eq_some {tx : OpenTransaction} (h : s.place = some tx) :
    s.txOpen = true ∧ s.frameStack = tx.frameStack ∧ s.rootFrameCount = tx.rootFrameCount := by
  rw [Gate1State.place] at h
  split_ifs at h with hopen
  obtain rfl := Option.some.inj h
  exact ⟨hopen, rfl, rfl⟩

/-- A step reports the index of its event. -/
lemma index_gate1Step (h : gate1Step len i s e = .error err) : err.index = i := by
  rw [gate1Step] at h
  split_ifs at h
  · cases h
    rfl
  · exact index_gate1Switch h

lemma walkStep_blockCommit (p : Place) (ev : BlockCommitEvent) :
    walkStep p (EventData.blockCommit ev).goEvent = none := by
  rcases p with - | ⟨_ | _, _, _⟩ <;> rfl

/-- The last check of Gate 1 never fails. -/
lemma closed_of_gate1Step_blockCommit {commit : BlockCommitEvent}
    (hdata : e.data = .blockCommit commit) (h : gate1Step len i s e = .ok s') :
    s'.txOpen = false := by
  obtain ⟨-, hswitch⟩ := gate1Step_eq_ok h
  rw [hdata, gate1Switch] at hswitch
  split_ifs at hswitch with hlast hopen
  cases hswitch
  exact Bool.not_eq_true _ ▸ hopen

section

variable {start : BlockStartEvent} {pre post : List Event}

/-- After an event on which the loop stops no stream is accepted that goes on like this one. -/
lemma stuck_of_gate1Step (hwalk : walk none (goEvents pre) = some s.place)
    (hprev : s.prevSeq = lastSequence pre) (hlen : len = pre.length + post.length + 2)
    (hcommit : post = [] → ∃ commit, e.data = .blockCommit commit)
    (herr : gate1Step len (1 + pre.length) s e = .error err) (rest : List Event)
    (haccepted : verifyGate1Invariants (⟨0, .blockStart start⟩ :: (pre ++ e :: rest)) = .ok ()) :
    rest = [] ∧ post ≠ [] := by
  obtain ⟨start', interior, seq, commit, heq, hincreasing, hinterior⟩ :=
    verifyGate1Invariants_iff_walks.mp haccepted
  obtain ⟨-, htail⟩ := List.cons.inj heq
  -- the sequence number of the event is fine
  have hlt : s.prevSeq < e.sequence := by
    have hchain : List.IsChain (· < ·)
        ((0 :: pre.map (·.sequence)) ++ (e :: rest).map (·.sequence)) := by
      rw [List.cons_append, ← List.map_append]
      exact hincreasing
    refine (List.isChain_append.mp hchain).2.2 s.prevSeq ?_ e.sequence rfl
    rw [hprev, List.getLast?_cons]
    rfl
  have hswitch : gate1Switch len (1 + pre.length)
      { s with prevSeq := e.sequence, seqInitialized := true } e.data = .error err := by
    rwa [gate1Step, if_neg fun h => absurd h.2 (UInt64.not_le.mpr hlt)] at herr
  rcases List.eq_nil_or_concat' rest with rfl | ⟨rest, x, rfl⟩
  · -- the event is the commit of the accepted stream, outside any transaction
    refine ⟨rfl, fun hpost => ?_⟩
    obtain ⟨rfl, hlast⟩ := List.append_inj' htail rfl
    obtain rfl := List.singleton_inj.mp hlast
    have hclosed : s.txOpen = false := by
      have hplace : s.place = none := Option.some.inj (hwalk.symm.trans hinterior)
      rw [Gate1State.place] at hplace
      split_ifs at hplace with hopen
      exact Bool.not_eq_true _ ▸ hopen
    have hindex : 1 + pre.length = len - 1 := by
      rw [hlen, hpost, List.length_nil]
      omega
    simp [gate1Switch, ← hindex, hclosed] at hswitch
  · -- the event is inside the accepted stream
    exfalso
    rw [← List.cons_append, ← List.append_assoc] at htail
    obtain ⟨rfl, -⟩ := List.append_inj' htail rfl
    have hstep : walkStep s.place e.data.goEvent ≠ none := by
      intro hnone
      rw [goEvents, List.map_append, ← goEvents, walk_append, hwalk, Option.bind_some,
        List.map_cons, walk_cons, hnone] at hinterior
      cases hinterior
    by_cases hpost : post = []
    · obtain ⟨commit', hdata⟩ := hcommit hpost
      rw [hdata] at hstep
      exact hstep (walkStep_blockCommit _ _)
    · have hpos := List.length_pos_iff.mpr hpost
      have hplace := @place_gate1Switch len (1 + pre.length)
        { s with prevSeq := e.sequence, seqInitialized := true } e.data (by omega) (by omega)
      rw [hswitch] at hplace
      exact hstep hplace.symm

lemma walkStep_second_root {enter : FrameEnterEvent} {reverted : Bool}
    (hdata : e.data = .frameEnter enter) (hparent : enter.parentFrameId = sentinel) :
    walkStep (some ⟨[], 1, reverted⟩) e.data.goEvent =
      some (some ⟨[enter.frameId], 2, reverted⟩) := by
  rw [hdata]
  exact if_pos hparent

/-- After a second root frame no stream is accepted. -/
lemma not_accepted_of_second_root {enter : FrameEnterEvent} {reverted : Bool}
    (hwalk : walk none (goEvents pre) = some (some ⟨[], 1, reverted⟩))
    (hdata : e.data = .frameEnter enter) (hparent : enter.parentFrameId = sentinel)
    (rest : List Event) :
    verifyGate1Invariants (⟨0, .blockStart start⟩ :: (pre ++ e :: rest)) ≠ .ok () := by
  intro haccepted
  obtain ⟨start', interior, seq, commit, heq, -, hinterior⟩ :=
    verifyGate1Invariants_iff_walks.mp haccepted
  obtain ⟨-, htail⟩ := List.cons.inj heq
  rcases List.eq_nil_or_concat' rest with rfl | ⟨rest, x, rfl⟩
  · obtain ⟨-, hlast⟩ := List.append_inj' htail rfl
    obtain rfl := List.singleton_inj.mp hlast
    cases hdata
  · rw [← List.cons_append, ← List.append_assoc] at htail
    obtain ⟨rfl, -⟩ := List.append_inj' htail rfl
    rw [goEvents, List.map_append, ← goEvents, walk_append, hwalk, Option.bind_some,
      List.map_cons, walk_cons, walkStep_second_root hdata hparent, Option.bind_some] at hinterior
    exact absurd (rootFrameCount_le_one hinterior) (by decide)

/-- A place in a stream where a frame is entered that claims to be a root. -/
lemma exists_enter {before after : List GoEvent} {data : FrameEnterData}
    (h : goEvents events = before ++ .frameEnter data :: after) :
    ∃ pre e post enter, events = pre ++ e :: post ∧ goEvents pre = before ∧
      e.data = .frameEnter enter ∧ enter.parentFrameId = data.parentFrameId := by
  obtain ⟨pre, rest, rfl, hpre, hrest⟩ := List.map_eq_append_iff.mp h
  obtain ⟨e, post, rfl, he, -⟩ := List.map_eq_cons_iff.mp hrest
  cases hdata : e.data with
  | frameEnter enter =>
    rw [hdata] at he
    obtain rfl := GoEvent.frameEnter.inj he
    exact ⟨pre, e, post, enter, rfl, hpre, hdata, rfl⟩
  | _ =>
    rw [hdata] at he
    cases he

lemma lastSequence_cases (events : List Event) :
    lastSequence events = 0 ∨ ∃ e ∈ events, lastSequence events = e.sequence := by
  rw [lastSequence, List.getLast?_map]
  cases hlast : events.getLast? with
  | none => exact .inl rfl
  | some e => exact .inr ⟨e, List.mem_of_getLast? hlast, rfl⟩

/-- The event enters a second root frame: where the loop meets it, in a stream of `len` events, a
transaction is open, all its frames are closed again, and one of them was a root frame. -/
def SecondRoot (len : ℕ) (pre : List Event) (e : Event) : Prop :=
  ∃ s enter, gate1Loop len 0 .init pre = .ok s ∧
    s.txOpen = true ∧ s.frameStack = [] ∧ s.rootFrameCount = 1 ∧
    e.data = .frameEnter enter ∧ enter.parentFrameId = sentinel

/-- Gate 1 points at the first bad event, or this is a second root frame and Gate 1 points at a
later event, at the end of the transaction at the latest. -/
def PointsAt (err : Gate1Error) (pre : List Event) (e : Event) (post : List Event) : Prop :=
  err.index = pre.length ∨
    SecondRoot (pre ++ e :: post).length pre e ∧ ∃ between later rest,
      post = between ++ later :: rest ∧ err.index = pre.length + 1 + between.length ∧
        ∀ e' ∈ between, ∀ ev, e'.data ≠ .transactionEnd ev

/-- Where the loop is inside a transaction with several root frames it has let a second one
through, and the transaction has not ended since. -/
lemma exists_secondRoot_of_loop {tx : OpenTransaction} (start : BlockStartEvent)
    (hlen : 1 + events.length < len) (h : gate1Loop len 1 .started events = .ok s)
    (hplace : s.place = some tx) (hcount : 1 < tx.rootFrameCount) :
    ∃ pre e rest reverted, events = pre ++ e :: rest ∧
      walk none (goEvents pre) = some (some ⟨[], 1, reverted⟩) ∧
      SecondRoot len (⟨0, .blockStart start⟩ :: pre) e ∧
      ∀ e' ∈ rest, ∀ ev, e'.data ≠ .transactionEnd ev := by
  obtain ⟨hwalk, -, -, -⟩ := gate1Loop_eq_ok Nat.one_pos hlen rfl h
  have hstarted : Gate1State.started.place = none := rfl
  rw [hplace, hstarted] at hwalk
  obtain ⟨before, data, after, reverted, hevents, hparent, hbefore⟩ :=
    exists_second_root_of_walk hwalk hcount
  obtain ⟨pre, e, rest, enter, rfl, rfl, hdata, henter⟩ := exists_enter hevents
  have hroot := henter.trans hparent
  refine ⟨pre, e, rest, reverted, rfl, hbefore, ?_, fun x hx ev hend => ?_⟩
  · -- the loop has got as far as this event
    obtain ⟨mid, hmid⟩ := gate1Loop_append_eq_ok h
    rw [List.length_append] at hlen
    obtain ⟨hmidwalk, -, -, -⟩ := gate1Loop_eq_ok Nat.one_pos (by omega) rfl hmid
    have hmidplace : mid.place = some ⟨[], 1, reverted⟩ :=
      Option.some.inj (hmidwalk.symm.trans hbefore)
    obtain ⟨hopen, hstack, hcount⟩ := open_of_place_eq_some hmidplace
    exact ⟨mid, enter, hmid, hopen, hstack, hcount, hdata, hroot⟩
  · rw [goEvents, List.map_append, ← goEvents, walk_append, hbefore, Option.bind_some,
      List.map_cons, walk_cons, walkStep_second_root hdata hroot, Option.bind_some] at hwalk
    have hmem : x.data.goEvent ∈ rest.map (·.data.goEvent) := List.mem_map_of_mem hx
    rw [hend] at hmem
    exact transactionEnd_notMem_of_walk (by exact one_lt_two) hwalk _ hmem

/-- Where the loop stops there is a first bad event. -/
lemma exists_firstBad {interior : List Event} {seq : UInt64} {commit : BlockCommitEvent}
    (hroom : ∀ e ∈ interior, e.sequence.toNat + interior.length + 2 < 2 ^ 64)
    (hlength : interior.length + 2 < 2 ^ 64)
    (h : gate1Loop (interior.length + 2) 1 .started (interior ++ [⟨seq, .blockCommit commit⟩]) =
      .error err) :
    ∃ pre e post, ⟨0, .blockStart start⟩ :: (interior ++ [⟨seq, .blockCommit commit⟩]) =
      pre ++ e :: post ∧ FirstBad pre e post ∧ PointsAt err pre e post := by
  obtain ⟨pre, e, post, s, heq, hpre, herr⟩ := gate1Loop_eq_error h
  have hlen : interior.length + 1 = pre.length + (post.length + 1) := by
    simpa using congrArg List.length heq
  obtain ⟨hwalk, -, hchain, hprev⟩ := gate1Loop_eq_ok Nat.one_pos (by omega) rfl hpre
  have hindex := index_gate1Step herr
  -- what is before the event is part of the interior
  have hmem : ∀ e' ∈ pre, e' ∈ interior := by
    have hpre : pre <+: interior := List.prefix_of_prefix_length_le ⟨e :: post, heq.symm⟩
      (List.prefix_append _ _) (by omega)
    exact fun e' he' => hpre.subset he'
  have hcompletable : ∀ {events rest : List Event} {p : Place}, pre = events ++ rest →
      walk none (goEvents events) = some p → (∀ tx ∈ p, tx.rootFrameCount ≤ 1) →
      Completable (⟨0, .blockStart start⟩ :: events) := by
    rintro events rest p rfl hwalk hroots
    refine completable_of_walk hwalk hroots ?_ ?_
    · rw [List.map_append, ← List.cons_append] at hchain
      exact hchain.left_of_append
    · rw [List.length_append] at hlen
      rcases lastSequence_cases events with hlast | ⟨e', he', hlast⟩
      · rw [hlast, UInt64.toNat_zero]
        omega
      · have hroom' := hroom e' (hmem e' (List.mem_append_left _ he'))
        rw [hlast]
        omega
  by_cases hroots : ∀ tx ∈ s.place, tx.rootFrameCount ≤ 1
  · refine ⟨⟨0, .blockStart start⟩ :: pre, e, post, by rw [heq]; rfl,
      ⟨hcompletable (List.append_nil pre).symm hwalk hroots, fun rest haccepted => ?_⟩, .inl ?_⟩
    · refine stuck_of_gate1Step hwalk hprev (by omega) (fun hpost => ?_) herr rest haccepted
      subst hpost
      obtain ⟨-, hlast⟩ := List.append_inj' heq rfl
      exact ⟨commit, by rw [← List.singleton_inj.mp hlast]⟩
    · rw [hindex, List.length_cons]
      push_cast
      omega
  · -- the transaction has entered a second root frame before
    obtain ⟨tx, htx, hcount⟩ : ∃ tx, s.place = some tx ∧ 1 < tx.rootFrameCount := by
      simpa using hroots
    obtain ⟨pre, e', rest, reverted, rfl, hbefore, hsecond, hend⟩ :=
      exists_secondRoot_of_loop start (by omega) hpre htx hcount
    rw [List.length_append, List.length_cons] at hlen
    have hlength : (⟨0, .blockStart start⟩ :: pre ++ e' :: (rest ++ e :: post)).length =
        interior.length + 2 := by
      simp only [List.cons_append, List.length_cons, List.length_append]
      omega
    refine ⟨⟨0, .blockStart start⟩ :: pre, e', rest ++ e :: post, by rw [heq]; simp,
      ⟨hcompletable rfl hbefore (by simp), fun rest' haccepted => ?_⟩,
      .inr ⟨by rwa [hlength], rest, e, post, rfl, ?_, hend⟩⟩
    · obtain ⟨_, enter, -, -, -, -, hdata, hparent⟩ := hsecond
      exact absurd haccepted (not_accepted_of_second_root hbefore hdata hparent rest')
    · rw [hindex, List.length_cons, List.length_append, List.length_cons]
      push_cast
      omega

end

/-! ## Before and after the loop -/

lemma closed_of_gate1Loop {seq : UInt64} {commit : BlockCommitEvent}
    (h : gate1Loop len i s (events ++ [⟨seq, .blockCommit commit⟩]) = .ok s') :
    s'.txOpen = false := by
  induction events generalizing i s with
  | nil =>
    cases hstep : gate1Step len i s ⟨seq, .blockCommit commit⟩ with
    | error err =>
      rw [List.nil_append, gate1Loop, hstep] at h
      cases h
    | ok last =>
      rw [List.nil_append, gate1Loop, hstep] at h
      cases h
      exact closed_of_gate1Step_blockCommit rfl hstep
  | cons e events ih =>
    cases hstep : gate1Step len i s e with
    | error err =>
      rw [List.cons_append, gate1Loop, hstep] at h
      cases h
    | ok mid =>
      rw [List.cons_append, gate1Loop, hstep] at h
      exact ih h

/-- Of a stream with the right first and last event an error is one of the loop: after the loop no
transaction is open. -/
lemma gate1Loop_of_error {start : BlockStartEvent} {interior : List Event} {seq : UInt64}
    {commit : BlockCommitEvent}
    (h : verifyGate1Invariants
      (⟨0, .blockStart start⟩ :: (interior ++ [⟨seq, .blockCommit commit⟩])) = .error err) :
    gate1Loop (interior.length + 2) 1 .started (interior ++ [⟨seq, .blockCommit commit⟩]) =
      .error err := by
  have hlast : (⟨0, .blockStart start⟩ :: (interior ++ [⟨seq, .blockCommit commit⟩])).getLast? =
      some (⟨seq, .blockCommit commit⟩ : Event) := by
    rw [← List.cons_append, List.getLast?_concat]
  have hlen : (⟨0, .blockStart start⟩ :: (interior ++ [⟨seq, .blockCommit commit⟩])).length =
      interior.length + 2 := by simp
  simp only [verifyGate1Invariants, List.head?_cons, hlast, hlen, gate1Loop,
    gate1Step_blockStart] at h
  cases hloop : gate1Loop (interior.length + 2) 1 .started
      (interior ++ [⟨seq, .blockCommit commit⟩]) with
  | error err' => simpa [hloop, bind, Except.bind] using h
  | ok s' =>
    simp [hloop, bind, Except.bind, closed_of_gate1Loop hloop, pure, Except.pure] at h

lemma verify_uncommitted {start : BlockStartEvent}
    (hcommit : ∀ rest seq commit,
      ⟨0, .blockStart start⟩ :: events ≠ rest ++ [(⟨seq, .blockCommit commit⟩ : Event)]) :
    verifyGate1Invariants (⟨0, .blockStart start⟩ :: events) =
      .error ⟨(⟨0, .blockStart start⟩ :: events : List Event).length - 1, "block-encapsulation",
        "stream must end with BlockCommitEvent"⟩ := by
  obtain ⟨rest, ⟨seq, data⟩, heq⟩ :=
    (List.eq_nil_or_concat' (⟨0, .blockStart start⟩ :: events)).resolve_left (List.cons_ne_nil _ _)
  have hlast : (⟨0, .blockStart start⟩ :: events).getLast? = some (⟨seq, data⟩ : Event) := by
    rw [heq, List.getLast?_concat]
  simp only [verifyGate1Invariants, List.head?_cons, hlast, Option.map_some]
  cases data with
  | blockCommit commit => exact absurd heq (hcommit rest seq commit)
  | _ => rfl

lemma completable_nil : Completable [] :=
  ⟨[⟨0, .blockStart { emesVersion := "", number := 0, timestamp := 0 }⟩,
    ⟨1, .blockCommit { stateRoot := Bytes.zero 32 }⟩], by decide⟩

/-- **What an error points at**, as long as the sequence numbers stay below `2 ^ 64` by the length
of the stream.  The stream is empty, or it starts well but does not end with a `BlockCommit`, or
Gate 1 points at the first event with which the stream cannot be completed.  That a transaction has
a second root frame is found only later.  The check after the loop never fails. -/
theorem verifyGate1Invariants_error {stream : List Event} {err : Gate1Error}
    (hroom : ∀ e ∈ stream, e.sequence.toNat + stream.length < 2 ^ 64)
    (h : verifyGate1Invariants stream = .error err) :
    ((stream = [] ∧ err = ⟨-1, "block-encapsulation", "empty event stream"⟩) ∨
      ((∃ start rest, stream = ⟨0, .blockStart start⟩ :: rest) ∧
        (∀ rest seq commit, stream ≠ rest ++ [⟨seq, .blockCommit commit⟩]) ∧
        err = ⟨stream.length - 1, "block-encapsulation",
          "stream must end with BlockCommitEvent"⟩) ∨
      ∃ pre e post, stream = pre ++ e :: post ∧ FirstBad pre e post ∧ PointsAt err pre e post) ∧
    ∀ interior seq commit s, stream = interior ++ [⟨seq, .blockCommit commit⟩] →
      gate1Loop stream.length 0 .init stream = .ok s → s.txOpen = false := by
  have hclosed : ∀ interior seq commit s, stream = interior ++ [⟨seq, .blockCommit commit⟩] →
      gate1Loop stream.length 0 .init stream = .ok s → s.txOpen = false := by
    intro interior seq commit s heq hloop
    rw [heq] at hloop
    exact closed_of_gate1Loop hloop
  refine ⟨?_, hclosed⟩
  clear hclosed
  rcases stream with _ | ⟨⟨seq, data⟩, events⟩
  · refine .inl ⟨rfl, ?_⟩
    cases h
    rfl
  refine .inr ?_
  -- a bad first event
  have hfirst : (∀ start, (⟨seq, data⟩ : Event) ≠ ⟨0, .blockStart start⟩) → err.index = 0 →
      ∃ pre e post, (⟨seq, data⟩ : Event) :: events = pre ++ e :: post ∧ FirstBad pre e post ∧
        PointsAt err pre e post := by
    intro hne hindex
    refine ⟨[], _, events, rfl, ⟨completable_nil, fun rest haccepted => ?_⟩, .inl hindex⟩
    obtain ⟨start, _, _, _, heq, -⟩ := verifyGate1Invariants_iff_walks.mp haccepted
    exact absurd (List.cons.inj heq).1 (hne start)
  cases data with
  | blockStart start =>
    by_cases hseq : seq = 0
    · subst hseq
      by_cases hcommit : ∃ rest seq commit,
          ⟨0, .blockStart start⟩ :: events = rest ++ [(⟨seq, .blockCommit commit⟩ : Event)]
      · obtain ⟨_ | ⟨first, interior⟩, seq, commit, heq⟩ := hcommit
        · cases heq
        rw [List.cons_append] at heq
        obtain ⟨rfl, rfl⟩ := List.cons.inj heq
        have hlength : (interior ++ [(⟨seq, .blockCommit commit⟩ : Event)]).length =
          interior.length + 1 := by simp
        refine .inr (exists_firstBad (fun e he => ?_) ?_ (gate1Loop_of_error h))
        · have hroom' := hroom e (by simp [he])
          rw [List.length_cons, hlength] at hroom'
          omega
        · have hroom' := hroom _ List.mem_cons_self
          rw [List.length_cons, hlength, UInt64.toNat_zero] at hroom'
          omega
      · have hne : ∀ rest seq commit,
            ⟨0, .blockStart start⟩ :: events ≠ rest ++ [(⟨seq, .blockCommit commit⟩ : Event)] :=
          fun rest seq commit heq => hcommit ⟨rest, seq, commit, heq⟩
        rw [verify_uncommitted hne] at h
        exact .inl ⟨⟨start, events, rfl⟩, hne, (Except.error.inj h).symm⟩
    · refine .inr (hfirst (fun start' heq => hseq (congrArg Event.sequence heq)) ?_)
      simp [verifyGate1Invariants, hseq] at h
      rw [← h]
  | _ =>
    refine .inr (hfirst (fun start' heq => by cases heq) ?_)
    simp [verifyGate1Invariants] at h
    rw [← h]

/-- A root frame. -/
def rootFrame (id : UInt64) : EventData :=
  .frameEnter
    { frameId := id, parentFrameId := sentinel, depth := 0, type := .frameCall,
      from_ := Bytes.zero 20, to_ := Bytes.zero 20 }

/-- A transaction with two root frames. -/
def twoRoots : List Event :=
  stamp 0
    [.blockStart { emesVersion := "EMES-V1", number := 1, timestamp := 10 },
      .transactionStart
        { txIndex := 0, hash := Bytes.zero 32, from_ := Bytes.zero 20, to_ := none,
          value := Bytes.zero 32, gasLimit := 21000, gasPrice := Bytes.zero 32, nonce := 0 },
      rootFrame 0, .frameExit { frameId := 0, reverted := false },
      rootFrame 1, .frameExit { frameId := 1, reverted := false },
      .transactionEnd { txIndex := 0, reverted := false },
      .blockCommit { stateRoot := Bytes.zero 32 }]

/-- What Gate 1 says of `twoRoots`. -/
def twoRootsError : Gate1Error where
  index := 6
  rule := "t1-consistency"
  msg := "transaction contains " ++ toString 2 ++
    " root frames; exactly one is required when any root frame is present"

theorem twoRoots_diagnosed :
    verifyGate1Invariants twoRoots = .error twoRootsError ∧
      ∃ pre e post, twoRoots = pre ++ e :: post ∧ FirstBad pre e post ∧
        PointsAt twoRootsError pre e post := by
  have herr : verifyGate1Invariants twoRoots = .error twoRootsError := rfl
  refine ⟨herr, ?_⟩
  rcases (verifyGate1Invariants_error (by decide) herr).1 with ⟨hnil, -⟩ | ⟨-, -, hindex⟩ | h
  · cases hnil
  · exact absurd (congrArg Gate1Error.rule hindex) (by decide)
  · exact h

end KaySentinel.Validation
