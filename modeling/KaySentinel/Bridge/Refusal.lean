import KaySentinel.Bridge.Scope

/-!
# Where the bridge stops

The bridge stops at the first event after which no continuation of the stream would be accepted,
and its error tells why: `translate_eq_error_iff`.
-/

namespace KaySentinel.Bridge

open Cse

/-- Why an event at the index `i` is refused at a position. -/
def refusal? (i : ℕ) : Position → GoEvent → Option BridgeError
  | some _, .transactionStart _ => some (.transactionStartWhileOpen i)
  | none, .transactionEnd _ => some (.eventOutsideTransaction i)
  | some (_ :: _), .transactionEnd _ => some (.unbalancedFrames i)
  | none, .frameEnter _ => some (.eventOutsideTransaction i)
  | none, .frameExit _ => some (.eventOutsideTransaction i)
  | some [], .frameExit _ => some (.unbalancedFrames i)
  | some (frame :: _), .frameExit data =>
      if frame.1 = data.frameId then none else some (.unbalancedFrames i)
  | p, event =>
      match event.mutation? with
      | none => none
      | some m =>
          if m.1 = noFrame then
            none
          else
            match p with
            | some (frame :: _) =>
                if frame.1.toNat < 2 ^ 32 then
                  if frame.2.toNat < 2 ^ 32 then none else some (.frameIdOverflow frame.2)
                else
                  some (.frameIdOverflow frame.1)
            -- the index of a mutation is not known where it is appended
            | _ => some (.unbalancedFrames usizeMax)

variable {config : BridgeConfig} {i : ℕ} {s : TranslateState} {event : GoEvent} {p : Position}
  {e : BridgeError} {events pre : List GoEvent}

lemma refusal?_mutation {m : Mutation} (h : event.mutation? = some m) (i : ℕ) (p : Position) :
    refusal? i p event =
      if m.1 = noFrame then
        none
      else
        match p with
        | some (frame :: _) =>
            if frame.1.toNat < 2 ^ 32 then
              if frame.2.toNat < 2 ^ 32 then none else some (.frameIdOverflow frame.2)
            else
              some (.frameIdOverflow frame.1)
        | _ => some (.unbalancedFrames usizeMax) := by
  cases event <;> first | cases h; rcases p with _ | _ | _ <;> rfl |
    exact absurd h (by simp [GoEvent.mutation?])

/-- An event is refused exactly if the grammar has no step for it. -/
lemma isSome_refusal?_iff : (refusal? i p event).isSome = true ↔ bracketStep p event = none := by
  cases event using GoEvent.casesByKind with
  | mutation event m hm =>
    rw [refusal?_mutation hm, bracketStep_mutation hm]
    by_cases hstamp : m.1 = noFrame
    · simp [hstamp]
    · rcases p with _ | _ | ⟨frame, frames⟩
      · simp [hstamp]
      · simp [hstamp]
      · by_cases hid : frame.1.toNat < 2 ^ 32
        · by_cases hdepth : frame.2.toNat < 2 ^ 32
          · simp only [hstamp, hid, hdepth, and_self, if_true, if_false]
            simp
          · simp only [hstamp, hid, hdepth, and_false, if_true, if_false]
            simp
        · simp only [hstamp, hid, false_and, if_false]
          simp
  | frameExit data =>
    rcases p with _ | _ | ⟨frame, frames⟩
    · simp [refusal?, bracketStep]
    · simp [refusal?, bracketStep]
    · by_cases hid : frame.1 = data.frameId <;> simp [refusal?, bracketStep, hid]
  | blockStart data | blockCommit =>
    rcases p with _ | _ | ⟨frame, frames⟩ <;> simp [refusal?, bracketStep, GoEvent.mutation?]
  | transactionStart data | transactionEnd data | frameEnter data =>
    rcases p with _ | _ | ⟨frame, frames⟩ <;> simp [refusal?, bracketStep, GoEvent.mutation?]

/-! ## The loop -/

lemma position_of_open (hopen : s.txOpen = true) :
    s.position = some (s.frameStack.map fun frame => (frame.frameId, frame.depth)) := by
  rw [TranslateState.position, if_pos hopen]

lemma position_of_closed (hopen : s.txOpen = false) : s.position = none := by
  rw [TranslateState.position, if_neg (by simp [hopen])]

lemma appendMutation_eq_error_iff (hinv : s.Inv) {m : Mutation} (hm : event.mutation? = some m) :
    appendMutation config s m.1 m.2 = .error e ↔ refusal? i s.position event = some e := by
  rw [refusal?_mutation hm]
  by_cases hstamp : m.1 = noFrame
  · rw [if_pos hstamp, hstamp, appendMutation_noFrame]
    simp
  rw [if_neg hstamp]
  cases hs : s.frameStack with
  | nil =>
    rw [appendMutation_nil hstamp hs, Except.error.injEq]
    cases hopen : s.txOpen with
    | false => rw [position_of_closed hopen, Option.some.injEq]
    | true =>
      rw [position_of_open hopen, hs, List.map_nil, Option.some.injEq]
  | cons top rest =>
    have hopen : s.txOpen = true := by
      by_contra hclosed
      rw [hinv (by simpa using hclosed)] at hs
      cases hs
    rw [position_of_open hopen, hs, List.map_cons]
    by_cases hid : top.frameId.toNat < 2 ^ 32
    · by_cases hdepth : top.depth.toNat < 2 ^ 32
      · rw [appendMutation_cons hstamp hs ⟨hid, hdepth⟩]
        simp only [hid, hdepth, if_true]
        simp
      · simp only [appendMutation, if_neg hstamp, hs, toU32, hid, hdepth, if_true, if_false, bind,
          Except.bind, pure, Except.pure, Except.error.injEq, Option.some.injEq]
    · simp only [appendMutation, if_neg hstamp, hs, toU32, hid, if_false, bind,
        Except.bind, pure, Except.pure, Except.error.injEq, Option.some.injEq]

/-- A step fails with the error for its position. -/
lemma translateStep_eq_error_iff (hinv : s.Inv) :
    translateStep config i s event = .error e ↔ refusal? i s.position event = some e := by
  cases event using GoEvent.casesByKind with
  | mutation event m hm =>
    rw [translateStep_mutation hm]
    exact appendMutation_eq_error_iff hinv hm
  | blockStart data =>
    rcases s.position with _ | _ | ⟨frame, frames⟩ <;>
      simp [translateStep, refusal?, GoEvent.mutation?]
  | blockCommit =>
    rcases s.position with _ | _ | ⟨frame, frames⟩ <;>
      simp [translateStep, refusal?, GoEvent.mutation?]
  | transactionStart data =>
    cases hopen : s.txOpen with
    | false =>
      rw [position_of_closed hopen]
      simp [translateStep, refusal?, hopen, GoEvent.mutation?]
    | true =>
      rw [position_of_open hopen]
      simp [translateStep, refusal?, hopen]
  | transactionEnd data =>
    cases hopen : s.txOpen with
    | false =>
      rw [position_of_closed hopen]
      simp [translateStep, refusal?, hopen]
    | true =>
      rw [position_of_open hopen]
      cases hs : s.frameStack with
      | nil => simp [translateStep, refusal?, hopen, hs, GoEvent.mutation?]
      | cons top rest => simp [translateStep, refusal?, hopen, hs]
  | frameEnter data =>
    cases hopen : s.txOpen with
    | false =>
      rw [position_of_closed hopen]
      simp [translateStep, refusal?, hopen]
    | true =>
      rw [position_of_open hopen]
      cases hs : s.frameStack with
      | nil => simp [translateStep, refusal?, hopen, hs, GoEvent.mutation?]
      | cons top rest => simp [translateStep, refusal?, hopen, hs, GoEvent.mutation?]
  | frameExit data =>
    cases hopen : s.txOpen with
    | false =>
      rw [position_of_closed hopen]
      simp [translateStep, refusal?, hopen]
    | true =>
      rw [position_of_open hopen]
      cases hs : s.frameStack with
      | nil => simp [translateStep, refusal?, hopen, hs]
      | cons popped rest =>
        by_cases hid : popped.frameId = data.frameId
        · have hstep : ∃ s', translateStep config i s (.frameExit data) = .ok s' := by
            simp only [translateStep, hopen, hs, hid, Bool.not_true, Bool.false_eq_true, if_false,
              ne_eq, not_true_eq_false]
            cases data.reverted with
            | true => exact ⟨_, rfl⟩
            | false => cases rest with
              | nil => exact ⟨_, rfl⟩
              | cons parent outer => exact ⟨_, rfl⟩
          obtain ⟨s', hs'⟩ := hstep
          rw [hs']
          simp [refusal?, hid]
        · simp [translateStep, refusal?, hopen, hs, hid]

/-- The loop fails at the first event that is refused. -/
lemma translateLoop_eq_error_iff (hinv : s.Inv) :
    translateLoop config i s events = .error e ↔
      ∃ pre event post p, events = pre ++ event :: post ∧ readFrom s.position pre = some p ∧
        refusal? (i + pre.length) p event = some e := by
  induction events generalizing i s with
  | nil =>
    refine iff_of_false (by simp [translateLoop]) ?_
    rintro ⟨pre, event, post, p, h, -, -⟩
    simp at h
  | cons event events ih =>
    obtain ⟨hposition, hinv'⟩ := @position_translateStep config i s event hinv
    rw [translateLoop]
    cases hstep : translateStep config i s event with
    | error e' =>
      have hrefused := (translateStep_eq_error_iff hinv).mp hstep
      constructor
      · rintro ⟨⟩
        exact ⟨[], event, events, s.position, rfl, rfl, hrefused⟩
      · rintro ⟨pre, event', post, p, h, hread, hp⟩
        cases pre with
        | nil =>
          obtain ⟨rfl, -⟩ := List.cons.inj h
          obtain rfl := Option.some.inj hread
          exact congrArg Except.error (Option.some.inj (hrefused.symm.trans hp))
        | cons first pre =>
          obtain ⟨rfl, -⟩ := List.cons.inj h
          rw [readFrom_cons, ← hposition, hstep] at hread
          cases hread
    | ok mid =>
      rw [hstep] at hposition
      have hmid : bracketStep s.position event = some mid.position := hposition.symm
      refine (ih (hinv' mid hstep)).trans ?_
      constructor
      · rintro ⟨pre, event', post, p, rfl, hread, hp⟩
        refine ⟨event :: pre, event', post, p, rfl, ?_, ?_⟩
        · rw [readFrom_cons, hmid]
          exact hread
        · rw [List.length_cons, Nat.add_comm pre.length, ← Nat.add_assoc]
          exact hp
      · rintro ⟨pre, event', post, p, h, hread, hp⟩
        cases pre with
        | nil =>
          obtain ⟨rfl, -⟩ := List.cons.inj h
          obtain rfl := Option.some.inj hread
          have hnone := isSome_refusal?_iff.mp (Option.isSome_of_eq_some hp)
          rw [hmid] at hnone
          cases hnone
        | cons first pre =>
          obtain ⟨rfl, rfl⟩ := List.cons.inj h
          rw [readFrom_cons, hmid] at hread
          refine ⟨pre, event', post, p, rfl, hread, ?_⟩
          rw [List.length_cons, Nat.add_comm pre.length, ← Nat.add_assoc] at hp
          exact hp

/-! ## Continuations -/

/-- Some continuation of the stream is accepted. -/
def Viable (config : BridgeConfig) (pre : List GoEvent) : Prop :=
  ∃ post out, translate (pre ++ post) config = .ok out

/-- The events that close what is open at a position. -/
def closing : Position → List GoEvent
  | none => []
  | some frames =>
      frames.map (fun frame => .frameExit { frameId := frame.1, reverted := false }) ++
        [.transactionEnd { txIndex := 0, reverted := false }]

lemma readFrom_closing (p : Position) : readFrom p (closing p) = some none := by
  cases p with
  | none => rfl
  | some frames =>
    rw [closing]
    induction frames with
    | nil => rfl
    | cons frame frames ih =>
      rw [List.map_cons, List.cons_append, readFrom_cons]
      have hstep : bracketStep (some (frame :: frames))
          (.frameExit { frameId := frame.1, reverted := false }) = some (some frames) := if_pos rfl
      rw [hstep]
      exact ih

/-- Whatever the grammar reads can be continued. -/
lemma viable_iff : Viable config pre ↔ ∃ p, readFrom none pre = some p := by
  constructor
  · rintro ⟨post, hout⟩
    have hread : readFrom none (pre ++ post) = some none := (translate_isOk_iff config).mp hout
    rw [readFrom_append] at hread
    obtain ⟨p, hp, -⟩ := Option.bind_eq_some_iff.mp hread
    exact ⟨p, hp⟩
  · rintro ⟨p, hp⟩
    refine ⟨closing p, (translate_isOk_iff config).mpr ?_⟩
    rw [Bracketed, readFrom_append, hp]
    exact readFrom_closing p

/-- The bridge stops at `event`: what comes before it can be continued to an accepted stream, with
it that is no longer so, and the error is the one for its position. -/
structure StopsAt (config : BridgeConfig) (pre : List GoEvent) (event : GoEvent)
    (e : BridgeError) : Prop where
  viable : Viable config pre
  dead : ¬ Viable config (pre ++ [event])
  error : ∃ p, readFrom none pre = some p ∧ refusal? pre.length p event = some e

lemma stopsAt_iff : StopsAt config pre event e ↔
    ∃ p, readFrom none pre = some p ∧ refusal? pre.length p event = some e := by
  refine ⟨StopsAt.error, ?_⟩
  rintro ⟨p, hread, hrefused⟩
  refine ⟨viable_iff.mpr ⟨p, hread⟩, fun hviable => ?_, p, hread, hrefused⟩
  obtain ⟨q, hq⟩ := viable_iff.mp hviable
  have hstep : readFrom p [event] = bracketStep p event := by
    rw [readFrom_cons]
    exact Option.bind_fun_some _
  rw [readFrom_append, hread, Option.bind_some, hstep,
    isSome_refusal?_iff.mp (Option.isSome_of_eq_some hrefused)] at hq
  cases hq

/-- **Where the bridge stops.**  It fails exactly in two cases.  Either there is a first event after
which no continuation of the stream would be accepted, and the error is the one for that event; or
the stream itself could be continued, but ends inside a transaction. -/
theorem translate_eq_error_iff (config : BridgeConfig) (events : List GoEvent) (e : BridgeError) :
    translate events config = .error e ↔
      (∃ pre event post, events = pre ++ event :: post ∧ StopsAt config pre event e) ∨
        Viable config events ∧ (∃ frames, readFrom none events = some (some frames)) ∧
          e = .eventOutsideTransaction events.length := by
  have hinv : TranslateState.init.Inv := fun _ => rfl
  have hloop := @translateLoop_eq_error_iff config 0 .init e events hinv
  simp only [Nat.zero_add] at hloop
  have hstops : (∃ pre event post, events = pre ++ event :: post ∧ StopsAt config pre event e) ↔
      translateLoop config 0 .init events = .error e := by
    rw [hloop]
    simp only [stopsAt_iff, exists_and_left]
    rfl
  have hposition : (translateLoop config 0 .init events).toOption.map TranslateState.position =
      readFrom none events := position_translateLoop hinv
  rw [hstops, translate]
  cases hrun : translateLoop config 0 .init events with
  | error e' =>
    rw [hrun] at hposition
    have hnone : ¬ ∃ frames, readFrom none events = some (some frames) := by
      rintro ⟨frames, hframes⟩
      rw [← hposition] at hframes
      cases hframes
    simp [bind, Except.bind, hnone]
  | ok s =>
    rw [hrun] at hposition
    have hread : readFrom none events = some s.position := hposition.symm
    rw [viable_iff, hread]
    cases hopen : s.txOpen with
    | false => simp [bind, Except.bind, hopen, position_of_closed hopen, pure, Except.pure]
    | true =>
      rw [position_of_open hopen]
      simp [bind, Except.bind, hopen, throw, throwThe, MonadExceptOf.throw, eq_comm]

end KaySentinel.Bridge
