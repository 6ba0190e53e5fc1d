import KaySentinel.Bridge.Survival

/-!
# Which streams the bridge accepts

`Bracketed` is the grammar of the streams `translate` accepts.  It leaves one thing
unchecked: a mutation stamped "no frame" is accepted outside every transaction, and then
dropped.
-/

namespace KaySentinel.Bridge

open Cse NestedLog

/-- The position in a stream: the id and depth of the open frames, innermost first, if a
transaction is open. -/
abbrev Position := Option (List (UInt64 × UInt64))

/-- The grammar, one event at a time. -/
def bracketStep : Position → GoEvent → Option Position
  | p, .blockStart _ => some p
  | p, .blockCommit => some p
  | none, .transactionStart _ => some (some [])
  | some _, .transactionStart _ => none
  | some [], .transactionEnd _ => some none
  | _, .transactionEnd _ => none
  | some frames, .frameEnter data => some (some ((data.frameId, data.depth) :: frames))
  | none, .frameEnter _ => none
  | some (frame :: frames), .frameExit data =>
      if frame.1 = data.frameId then some (some frames) else none
  | _, .frameExit _ => none
  | p, event =>
      match event.mutation? with
      | none => some p
      | some m =>
          if m.1 = noFrame then
            some p
          else
            match p with
            | some (frame :: _) =>
                if frame.1.toNat < 2 ^ 32 ∧ frame.2.toNat < 2 ^ 32 then some p else none
            | _ => none

/-- Read a stream from a position. -/
def readFrom (p : Position) (events : List GoEvent) : Option Position :=
  events.foldlM bracketStep p

lemma readFrom_cons (p : Position) (event : GoEvent) (events : List GoEvent) :
    readFrom p (event :: events) = (bracketStep p event).bind (readFrom · events) := rfl

/-- Transactions and frames are properly bracketed, every mutation stamped with a frame
lies in an open frame, and that frame's id and depth fit `u32`. -/
def Bracketed (events : List GoEvent) : Prop := readFrom none events = some none

instance (events : List GoEvent) : Decidable (Bracketed events) :=
  inferInstanceAs (Decidable (_ = _))

lemma bracketStep_mutation {event : GoEvent} {m : Mutation} (h : event.mutation? = some m)
    (p : Position) :
    bracketStep p event =
      if m.1 = noFrame then
        some p
      else
        match p with
        | some (frame :: _) =>
            if frame.1.toNat < 2 ^ 32 ∧ frame.2.toNat < 2 ^ 32 then some p else none
        | _ => none := by
  cases event <;> first | cases h; rcases p with _ | _ | _ <;> rfl |
    exact absurd h (by simp [GoEvent.mutation?])

/-! ## The loop reads the grammar -/

/-- No frame is open outside a transaction. -/
def TranslateState.Inv (s : TranslateState) : Prop := s.txOpen = false → s.frameStack = []

/-- The position of the loop of `translate`. -/
def TranslateState.position (s : TranslateState) : Position :=
  if s.txOpen then some (s.frameStack.map fun frame => (frame.frameId, frame.depth)) else none

variable {config : BridgeConfig} {i : ℕ} {s s' : TranslateState} {event : GoEvent}

lemma position_appendMutation (hinv : s.Inv) (m : Mutation) (h : event.mutation? = some m) :
    (appendMutation config s m.1 m.2).toOption.map TranslateState.position =
        bracketStep s.position event ∧
      ∀ s', appendMutation config s m.1 m.2 = .ok s' → s'.Inv := by
  obtain ⟨frameId, payload⟩ := m
  rw [bracketStep_mutation h]
  by_cases hf : frameId = noFrame
  · subst hf
    rw [appendMutation_noFrame]
    refine ⟨rfl, ?_⟩
    rintro _ ⟨⟩
    exact hinv
  · simp only [if_neg hf]
    cases hs : s.frameStack with
    | nil =>
      rw [appendMutation_nil hf hs]
      refine ⟨?_, by rintro _ ⟨⟩⟩
      cases hopen : s.txOpen <;> simp [TranslateState.position, hopen, hs, Except.toOption]
    | cons top rest =>
      have hopen : s.txOpen = true := by
        by_contra hopen
        rw [hinv (by simpa using hopen)] at hs
        exact absurd hs (by simp)
      by_cases hfits : top.Fits
      · rw [appendMutation_cons hf hs hfits]
        refine ⟨?_, ?_⟩
        · have hfits' : top.frameId.toNat < 2 ^ 32 ∧ top.depth.toNat < 2 ^ 32 := hfits
          simp only [TranslateState.position, hopen, if_true, hs, List.map_cons, if_pos hfits']
          rfl
        · rintro _ ⟨⟩
          intro hclosed
          rw [hopen] at hclosed
          exact absurd hclosed (by simp)
      · refine ⟨?_, fun s' hok => absurd (fits_of_appendMutation hf hs hok) hfits⟩
        have hnone : (appendMutation config s frameId payload).toOption = none := by
          cases hok : appendMutation config s frameId payload with
          | error e => rfl
          | ok s' => exact absurd (fits_of_appendMutation hf hs hok) hfits
        have hfits' : ¬ (top.frameId.toNat < 2 ^ 32 ∧ top.depth.toNat < 2 ^ 32) := hfits
        simp only [hnone, TranslateState.position, hopen, if_true, hs, List.map_cons,
          if_neg hfits', Option.map_none]

/-- A step of the loop succeeds exactly when the grammar allows it, and moves to the
position the grammar gives. -/
lemma position_translateStep (hinv : s.Inv) :
    (translateStep config i s event).toOption.map TranslateState.position =
        bracketStep s.position event ∧
      ∀ s', translateStep config i s event = .ok s' → s'.Inv := by
  cases event using GoEvent.casesByKind with
  | mutation event m hm =>
    rw [translateStep_mutation hm]
    exact position_appendMutation hinv m hm
  | blockStart data => exact ⟨rfl, by rintro _ ⟨⟩; exact hinv⟩
  | blockCommit => exact ⟨rfl, by rintro _ ⟨⟩; exact hinv⟩
  | transactionStart data =>
    cases hopen : s.txOpen with
    | false =>
      simp only [translateStep, TranslateState.position, hopen, Bool.false_eq_true, if_false]
      exact ⟨rfl, by rintro _ ⟨⟩; exact fun h => absurd h (by simp)⟩
    | true =>
      simp only [translateStep, TranslateState.position, hopen, if_true]
      exact ⟨rfl, by rintro _ ⟨⟩⟩
  | transactionEnd data =>
    cases hopen : s.txOpen with
    | false =>
      simp only [translateStep, TranslateState.position, hopen, Bool.not_false,
        Bool.false_eq_true, if_true, if_false]
      exact ⟨rfl, by rintro _ ⟨⟩⟩
    | true =>
      simp only [translateStep, TranslateState.position, hopen, Bool.not_true,
        Bool.false_eq_true, if_false, if_true]
      cases hs : s.frameStack with
      | nil => exact ⟨rfl, by rintro _ ⟨⟩; exact fun _ => rfl⟩
      | cons top rest => exact ⟨rfl, by rintro _ ⟨⟩⟩
  | frameEnter data =>
    cases hopen : s.txOpen with
    | false =>
      simp only [translateStep, TranslateState.position, hopen, Bool.not_false,
        Bool.false_eq_true, if_true, if_false]
      exact ⟨rfl, by rintro _ ⟨⟩⟩
    | true =>
      simp only [translateStep, TranslateState.position, hopen, Bool.not_true,
        Bool.false_eq_true, if_false, if_true]
      exact ⟨rfl, by rintro _ ⟨⟩; exact fun h => absurd h (by simp)⟩
  | frameExit data =>
    cases hopen : s.txOpen with
    | false =>
      simp only [translateStep, TranslateState.position, hopen, Bool.not_false,
        Bool.false_eq_true, if_true, if_false]
      exact ⟨rfl, by rintro _ ⟨⟩⟩
    | true =>
      simp only [translateStep, TranslateState.position, hopen, Bool.not_true,
        Bool.false_eq_true, if_false, if_true]
      rcases hs : s.frameStack with _ | ⟨popped, rest⟩
      · exact ⟨rfl, by rintro _ ⟨⟩⟩
      · by_cases hid : popped.frameId = data.frameId
        · cases hrev : data.reverted with
          | true =>
            simp only [ne_eq, hid, not_true_eq_false, if_false, if_true]
            exact ⟨by simp [bracketStep, hid, Except.toOption, TranslateState.position],
              by rintro _ ⟨⟩; exact fun h => absurd h (by simp)⟩
          | false =>
            cases rest with
            | nil =>
              simp only [ne_eq, hid, not_true_eq_false, if_false, Bool.false_eq_true]
              exact ⟨by simp [bracketStep, hid, Except.toOption, TranslateState.position],
                by rintro _ ⟨⟩; exact fun h => absurd h (by simp)⟩
            | cons parent outer =>
              simp only [ne_eq, hid, not_true_eq_false, if_false, Bool.false_eq_true]
              exact ⟨by simp [bracketStep, hid, Except.toOption, TranslateState.position],
                by rintro _ ⟨⟩; exact fun h => absurd h (by simp)⟩
        · simp only [ne_eq, hid, not_false_eq_true, if_true]
          exact ⟨by simp [bracketStep, hid, Except.toOption], by rintro _ ⟨⟩⟩

lemma position_translateLoop {events : List GoEvent} (hinv : s.Inv) :
    (translateLoop config i s events).toOption.map TranslateState.position =
      readFrom s.position events := by
  induction events generalizing i s with
  | nil => rfl
  | cons event events ih =>
    obtain ⟨hstep, hinv'⟩ := position_translateStep hinv
    rw [readFrom_cons, ← hstep, translateLoop]
    cases hok : translateStep config i s event with
    | error e => rfl
    | ok mid => exact ih (hinv' mid hok)

/-- `translate` accepts exactly the bracketed streams. -/
theorem translate_isOk_iff (config : BridgeConfig) {events : List GoEvent} :
    (∃ out, translate events config = .ok out) ↔ Bracketed events := by
  have hinit : TranslateState.init.Inv := fun _ => rfl
  have hpos : (translateLoop config 0 .init events).toOption.map TranslateState.position =
      readFrom none events := position_translateLoop hinit
  have hread : Bracketed events ↔
      (translateLoop config 0 .init events).toOption.map TranslateState.position = some none := by
    rw [hpos]
    rfl
  rw [hread]
  constructor
  · rintro ⟨out, hout⟩
    obtain ⟨s, hloop, hclosed, -⟩ := translate_eq_ok.mp hout
    simp [hloop, Except.toOption, TranslateState.position, hclosed]
  · intro h
    obtain ⟨s, hs, hclosed⟩ := Option.map_eq_some_iff.mp h
    have hloop : translateLoop config 0 .init events = .ok s := by
      cases hl : translateLoop config 0 .init events with
      | error e => simp [hl, Except.toOption] at hs
      | ok s' => simpa [hl, Except.toOption] using hs
    refine ⟨_, translate_eq_ok.mpr ⟨s, hloop, ?_, rfl⟩⟩
    by_contra hopen
    simp [TranslateState.position, hopen] at hclosed

/-! ## Mutations outside every transaction -/

/-- The mutations of a list of events. -/
def mutations (events : List GoEvent) : List Mutation := events.filterMap GoEvent.mutation?

/-- The mutations that lie outside every transaction; `inside` tells whether one is open
at the start. -/
def strayMutations : Bool → List GoEvent → List Mutation
  | _, [] => []
  | inside, event :: events =>
      match event.mutation? with
      | some m => if inside then strayMutations inside events else m :: strayMutations inside events
      | none =>
          strayMutations ((inside || event.isTransactionStart) && !event.isTransactionEnd) events

/-- The mutations of a transaction that survive it and are stamped with a frame. -/
def scopedSurviving (body : List GoEvent) : List Mutation :=
  (surviving body).filter (·.1 ≠ noFrame)

/-- The output holds, beside the boundary markers, every mutation of the stream stamped
"no frame" exactly once, and the survivors among the others. -/
def ForwardsFrameless (events : List GoEvent) (out : List CanonicalSemanticEvent) : Prop :=
  ((out.map (·.payload)).filter (!·.isBoundary)).Perm
    (((mutations events).filter (·.1 = noFrame) ++
      (transactions events).flatMap scopedSurviving).map Prod.snd)

/-- If the stream is accepted, each of its mutations lies in a transaction, and none of
the frameless ones is lost. -/
def LosesNoMutation (events : List GoEvent) (config : BridgeConfig) : Prop :=
  ∀ out, translate events config = .ok out →
    strayMutations false events = [] ∧ ForwardsFrameless events out

/-- A mutation does not move the position, and one stamped with a frame needs an open
transaction. -/
lemma bracketStep_of_mutation {p p' : Position} {m : Mutation} (hm : event.mutation? = some m)
    (h : bracketStep p event = some p') : p' = p ∧ (m.1 = noFrame ∨ p.isSome) := by
  rw [bracketStep_mutation hm] at h
  split_ifs at h with hf
  · exact ⟨(Option.some.inj h).symm, .inl hf⟩
  · rcases p with _ | _ | ⟨frame, frames⟩ <;> simp only [reduceCtorEq] at h
    split_ifs at h
    exact ⟨(Option.some.inj h).symm, .inr rfl⟩

/-- How the events move the position. -/
inductive Moves : Position → GoEvent → Position → Prop where
  | mutation {p : Position} {event : GoEvent} (m : Mutation) (hm : event.mutation? = some m) :
      Moves p event p
  | blockStart {p : Position} (data : BlockStartData) : Moves p (.blockStart data) p
  | blockCommit {p : Position} : Moves p .blockCommit p
  | transactionStart (data : TransactionStartData) :
      Moves none (.transactionStart data) (some [])
  | transactionEnd (data : TransactionEndData) : Moves (some []) (.transactionEnd data) none
  | frameEnter (frames : List (UInt64 × UInt64)) (data : FrameEnterData) :
      Moves (some frames) (.frameEnter data) (some ((data.frameId, data.depth) :: frames))
  | frameExit (frame : UInt64 × UInt64) (frames : List (UInt64 × UInt64)) (data : FrameExitData) :
      Moves (some (frame :: frames)) (.frameExit data) (some frames)

lemma moves_of_bracketStep {p p' : Position} (h : bracketStep p event = some p') :
    Moves p event p' := by
  cases event using GoEvent.casesByKind with
  | mutation event m hm =>
    obtain ⟨rfl, -⟩ := bracketStep_of_mutation hm h
    exact .mutation m hm
  | blockStart data =>
    obtain rfl := Option.some.inj h
    exact .blockStart data
  | blockCommit =>
    obtain rfl := Option.some.inj h
    exact .blockCommit
  | transactionStart data =>
    cases p with
    | none =>
      obtain rfl := Option.some.inj h
      exact .transactionStart data
    | some frames => simp [bracketStep] at h
  | transactionEnd data =>
    rcases p with _ | _ | ⟨frame, frames⟩
    · simp [bracketStep] at h
    · obtain rfl := Option.some.inj h
      exact .transactionEnd data
    · simp [bracketStep] at h
  | frameEnter data =>
    cases p with
    | none => simp [bracketStep] at h
    | some frames =>
      obtain rfl := Option.some.inj h
      exact .frameEnter frames data
  | frameExit data =>
    rcases p with _ | _ | ⟨frame, frames⟩
    · simp [bracketStep] at h
    · simp [bracketStep] at h
    · obtain ⟨-, h⟩ := Option.ite_none_right_eq_some.mp h
      obtain rfl := Option.some.inj h
      exact .frameExit frame frames data

/-- How the other events open and close the transaction. -/
lemma bracketStep_of_no_mutation {p p' : Position} (hm : event.mutation? = none)
    (h : bracketStep p event = some p') :
    (event.isTransactionStart = true ∧ event.isTransactionEnd = false ∧ p = none ∧
        p'.isSome = true) ∨
      (event.isTransactionStart = false ∧ event.isTransactionEnd = true ∧ p.isSome = true ∧
        p' = none) ∨
      (event.isTransactionStart = false ∧ event.isTransactionEnd = false ∧
        p'.isSome = p.isSome) := by
  cases moves_of_bracketStep h with
  | mutation m hm' =>
    rw [hm] at hm'
    exact absurd hm' (by simp)
  | blockStart data => exact .inr (.inr ⟨rfl, rfl, rfl⟩)
  | blockCommit => exact .inr (.inr ⟨rfl, rfl, rfl⟩)
  | transactionStart data => exact .inl ⟨rfl, rfl, rfl, rfl⟩
  | transactionEnd data => exact .inr (.inl ⟨rfl, rfl, rfl, rfl⟩)
  | frameEnter frames data => exact .inr (.inr ⟨rfl, rfl, rfl⟩)
  | frameExit frame frames data => exact .inr (.inr ⟨rfl, rfl, rfl⟩)

/-- In a stream read from `p`, every mutation lies in a transaction or is stray. -/
lemma mutations_perm {p : Position} {events : List GoEvent} (h : readFrom p events = some none) :
    (mutations events).Perm
      ((if p.isSome then mutations (events.takeWhile (!·.isTransactionEnd)) else []) ++
        (strayMutations p.isSome events ++ (transactions events).flatMap mutations)) := by
  induction events generalizing p with
  | nil =>
    obtain rfl := Option.some.inj h
    exact .nil
  | cons event events ih =>
    rw [readFrom_cons, Option.bind_eq_some_iff] at h
    obtain ⟨p', hstep, hread⟩ := h
    have hrest := ih hread
    cases hm : event.mutation? with
    | some m =>
      obtain ⟨rfl, -⟩ := bracketStep_of_mutation hm hstep
      obtain ⟨hstart, hend⟩ := not_boundary_of_mutation hm
      cases hp : p'.isSome with
      | false =>
        simpa [mutations, hm, strayMutations, transactions, hstart, hp] using hrest
      | true =>
        simpa [mutations, hm, strayMutations, transactions, hstart, hend, hp] using hrest
    | none =>
      have hskip : mutations (event :: events) = mutations events := by simp [mutations, hm]
      rw [hskip]
      rcases bracketStep_of_no_mutation hm hstep with
        ⟨hstart, hend, rfl, hp'⟩ | ⟨hstart, hend, hp, rfl⟩ | ⟨hstart, hend, hp⟩
      · -- the body of the new transaction comes first
        simp only [hp', if_true] at hrest
        simp only [strayMutations, hm, hstart, hend, transactions, Option.isSome_none,
          Bool.false_eq_true, if_false, if_true, Bool.false_or, Bool.not_false, Bool.and_true,
          List.nil_append, List.flatMap_cons]
        exact hrest.trans (List.perm_append_comm_assoc _ _ _)
      · simpa [strayMutations, hm, hstart, hend, transactions, hp, mutations] using hrest
      · simp only [hp] at hrest
        simpa [strayMutations, hm, hstart, hend, transactions, mutations] using hrest

/-- The stray mutations of a stream that the grammar allows are stamped "no frame". -/
lemma noFrame_of_mem_strayMutations {p : Position} {events : List GoEvent}
    (h : readFrom p events = some none) {m : Mutation}
    (hm : m ∈ strayMutations p.isSome events) : m.1 = noFrame := by
  induction events generalizing p with
  | nil => simp [strayMutations] at hm
  | cons event events ih =>
    rw [readFrom_cons, Option.bind_eq_some_iff] at h
    obtain ⟨p', hstep, hread⟩ := h
    cases hev : event.mutation? with
    | some m' =>
      obtain ⟨rfl, hstamp⟩ := bracketStep_of_mutation hev hstep
      simp only [strayMutations, hev] at hm
      split_ifs at hm with hp
      · exact ih hread hm
      · rcases List.mem_cons.mp hm with rfl | hm
        · exact hstamp.resolve_right hp
        · exact ih hread hm
    | none =>
      have hinside : p'.isSome =
          ((p.isSome || event.isTransactionStart) && !event.isTransactionEnd) := by
        rcases bracketStep_of_no_mutation hev hstep with
          ⟨hstart, hend, rfl, hp'⟩ | ⟨hstart, hend, hp, rfl⟩ | ⟨hstart, hend, hp⟩
        · simp [hstart, hend, hp']
        · simp [hend]
        · simp [hstart, hend, hp]
      simp only [strayMutations, hev, ← hinside] at hm
      exact ih hread hm

/-- A mutation of a body is an item of its nested log, direct if stamped "no frame". -/
lemma items_ops (body : List GoEvent) : items (ops body) = mutations body := by
  induction body with
  | nil => rfl
  | cons event body ih =>
    have hcons : items (ops (event :: body)) = items (ops [event]) ++ items (ops body) := by
      rw [ops_cons, items, List.filterMap_append]
      rfl
    have hcons' : mutations (event :: body) = mutations [event] ++ mutations body := by
      simp only [mutations, ← List.filterMap_append, List.singleton_append]
    rw [hcons, hcons', ih]
    congr 1
    cases event <;> rfl

lemma direct_of_mem_ops {body : List GoEvent} {m : Mutation} {direct : Bool}
    (h : .item m direct ∈ ops body) : direct = decide (m.1 = noFrame) := by
  obtain ⟨event, -, hop⟩ := List.mem_filterMap.mp h
  cases hm : event.mutation? with
  | some m' =>
    rw [op?_mutation hm] at hop
    obtain ⟨rfl, rfl⟩ := Op.item.inj (Option.some.inj hop)
    rfl
  | none => cases event <;> simp_all [GoEvent.op?, GoEvent.mutation?]

/-- All mutations of a body that are stamped "no frame" survive it. -/
lemma filter_noFrame_surviving (body : List GoEvent) :
    (surviving body).filter (·.1 = noFrame) = (mutations body).filter (·.1 = noFrame) := by
  rw [surviving, filter_survivors 0 ?_, items_ops]
  intro m direct hmem hm
  rw [direct_of_mem_ops hmem]
  exact hm

/-- The survivors of a body come from mutation events. -/
lemma exists_mutation_of_mem_surviving {body : List GoEvent} {m : Mutation}
    (h : m ∈ surviving body) : ∃ event ∈ body, event.mutation? = some m := by
  have hmem : m ∈ mutations body := by
    rw [← items_ops]
    exact (survivors_sublist 0 (ops body)).subset h
  exact List.mem_filterMap.mp hmem

/-- The payloads of mutations are no boundary markers. -/
lemma isBoundary_of_mutation {m : Mutation} (h : event.mutation? = some m) :
    m.2.isBoundary = false := by
  cases event <;> simp_all [GoEvent.mutation?] <;> (subst h; rfl)

lemma isBoundary_of_mem_kept {body : List GoEvent} {kept : List CsePayload}
    (hkept : Keeps body kept) {p : CsePayload} (hp : p ∈ kept) : p.isBoundary = false := by
  obtain ⟨m, hm, rfl⟩ := List.mem_map.mp (hkept.perm.mem_iff.mp hp)
  obtain ⟨event, -, hevent⟩ := exists_mutation_of_mem_surviving hm
  exact isBoundary_of_mutation hevent

/-- The payloads of an accepted stream that are no boundary markers are those of the
survivors of its transactions. -/
lemma payloads_perm {events : List GoEvent} {out : List CanonicalSemanticEvent}
    (h : translate events config = .ok out) :
    ((out.map (·.payload)).filter (!·.isBoundary)).Perm
      (((transactions events).flatMap surviving).map Prod.snd) := by
  obtain ⟨segments, hsegments, hout⟩ := translate_segments h
  rw [hout]
  clear hout h
  generalize transactions events = bodies at hsegments ⊢
  induction hsegments with
  | nil => exact .nil
  | @cons body kept bodies segments hkept _ ih =>
    have hkept' : (bracketed kept).filter (!·.isBoundary) = kept := by
      have hall : ∀ payload ∈ kept, (!payload.isBoundary) = true := by
        intro payload hmem
        simp [isBoundary_of_mem_kept hkept hmem]
      rw [bracketed, List.filter_cons_of_neg (by simp [CsePayload.isBoundary]), List.filter_append,
        List.filter_eq_self.mpr hall]
      exact List.append_nil kept
    rw [List.flatMap_cons, List.flatMap_cons, List.filter_append, List.map_append, hkept']
    exact hkept.perm.append ih

/-- A stream without stray mutations has all its mutations in its transactions. -/
lemma mutations_perm_of_no_stray {events : List GoEvent} (h : Bracketed events)
    (hstray : strayMutations false events = []) :
    (mutations events).Perm ((transactions events).flatMap mutations) := by
  simpa [hstray] using mutations_perm h

/-- An accepted stream without stray mutations loses none of the frameless ones. -/
lemma forwardsFrameless {events : List GoEvent} {out : List CanonicalSemanticEvent}
    (h : translate events config = .ok out) (hstray : strayMutations false events = []) :
    ForwardsFrameless events out := by
  refine (payloads_perm h).trans (List.Perm.map _ ?_)
  have hbracketed : Bracketed events := (translate_isOk_iff config).mp ⟨out, h⟩
  have hframeless : ((mutations events).filter (·.1 = noFrame)).Perm
      (((transactions events).flatMap surviving).filter (·.1 = noFrame)) := by
    refine ((mutations_perm_of_no_stray hbracketed hstray).filter _).trans ?_
    simp only [List.filter_flatMap, filter_noFrame_surviving]
    exact .refl _
  have hscoped : (transactions events).flatMap scopedSurviving =
      ((transactions events).flatMap surviving).filter (·.1 ≠ noFrame) := by
    rw [List.filter_flatMap]
    rfl
  rw [hscoped]
  refine (List.filter_append_perm (fun m => decide (m.1 = noFrame)) _).symm.trans ?_
  simp only [ne_eq, decide_not]
  exact hframeless.symm.append_right _

/-- **No lost mutation, exactly.**  The bridge meets its promise on a stream unless the
stream is one that it accepts although a frameless mutation lies outside every
transaction: the sibling branches for frames and for `TransactionEnd` reject such an
event, the one for mutations does not look at `txOpen`. -/
theorem losesNoMutation_iff (events : List GoEvent) (config : BridgeConfig) :
    LosesNoMutation events config ↔
      (Bracketed events → ∀ m ∈ strayMutations false events, m.1 ≠ noFrame) := by
  constructor
  · intro h hbracketed
    obtain ⟨out, hout⟩ := (translate_isOk_iff config).mpr hbracketed
    simp [(h out hout).1]
  · intro h out hout
    have hbracketed := (translate_isOk_iff config).mp ⟨out, hout⟩
    have hstray : strayMutations false events = [] := by
      rw [List.eq_nil_iff_forall_not_mem]
      intro m hm
      exact h hbracketed m hm (noFrame_of_mem_strayMutations (p := none) hbracketed hm)
    exact ⟨hstray, forwardsFrameless hout hstray⟩

/-- A stream with a frameless balance mutation before its only transaction. -/
def strayStream : List GoEvent :=
  [.blockStart { number := 7 },
    .balanceMutation { frameId := noFrame, address := Bytes.fill 20 0xAA,
                       before := Bytes.zero 32, after := Bytes.fill 32 1 },
    .transactionStart { txIndex := 0, hash := Bytes.zero 32 },
    .transactionEnd { txIndex := 0, reverted := false },
    .blockCommit]

/-- The mutation of `strayStream` is swallowed. -/
theorem strayStream_loses_mutation : ¬ LosesNoMutation strayStream ⟨1⟩ := by
  intro h
  have hbracketed : Bracketed strayStream := by decide
  obtain ⟨out, hout⟩ := (translate_isOk_iff ⟨1⟩).mpr hbracketed
  exact absurd (h out hout).1 (by decide)

end KaySentinel.Bridge
