import KaySentinel.Bridge.Acceptance

/-!
# The frames around a mutation

A mutation of an accepted stream survives if it is stamped "no frame" or every frame open
around it commits.  Whether it survives is read off the output, by comparison with the stream
without it.
-/

namespace KaySentinel.Bridge

open Cse NestedLog

/-! ## Open frames -/

/-- How an event changes the open frames, innermost first. -/
def enterStep (opened : List FrameEnterData) : GoEvent → List FrameEnterData
  | .transactionStart _ => []
  | .frameEnter data => data :: opened
  | .frameExit _ => opened.tail
  | _ => opened

/-- The frames open after a stream, innermost first. -/
def openFrames (events : List GoEvent) : List FrameEnterData := events.foldl enterStep []

lemma openFrames_concat (events : List GoEvent) (event : GoEvent) :
    openFrames (events ++ [event]) = enterStep (openFrames events) event := by
  simp only [openFrames, List.foldl_append, List.foldl_cons, List.foldl_nil]

lemma enterStep_of_mutation {event : GoEvent} {m : Mutation} (h : event.mutation? = some m)
    (opened : List FrameEnterData) : enterStep opened event = opened := by
  cases event <;> first | rfl | exact absurd h (by simp [GoEvent.mutation?])

lemma readFrom_append (p : Position) (events events' : List GoEvent) :
    readFrom p (events ++ events') = (readFrom p events).bind (readFrom · events') := by
  simp only [readFrom, List.foldlM_append]
  rfl

/-- The open frames of a position. -/
def Position.frames (p : Position) : List (UInt64 × UInt64) := p.getD []

variable {config : BridgeConfig} {event : GoEvent}

/-- A step of the grammar opens and closes frames like the event. -/
lemma frames_bracketStep {p p' : Position} {opened : List FrameEnterData}
    (hp : p.frames = opened.map fun data => (data.frameId, data.depth))
    (h : bracketStep p event = some p') :
    p'.frames = (enterStep opened event).map fun data => (data.frameId, data.depth) := by
  cases moves_of_bracketStep h with
  | mutation m hm => rwa [enterStep_of_mutation hm]
  | blockStart data => exact hp
  | blockCommit => exact hp
  | transactionStart data => rfl
  | transactionEnd data => exact hp
  | frameEnter frames data => exact congrArg ((data.frameId, data.depth) :: ·) hp
  | frameExit frame frames data =>
    rcases opened with _ | ⟨top, rest⟩
    · simp [Position.frames] at hp
    · exact (List.cons_eq_cons.mp hp).2

lemma frames_readFrom {events : List GoEvent} {p : Position} (h : readFrom none events = some p) :
    p.frames = (openFrames events).map fun data => (data.frameId, data.depth) := by
  induction events using List.reverseRecOn generalizing p with
  | nil =>
    obtain rfl := Option.some.inj h
    rfl
  | append_singleton events event ih =>
    rw [readFrom_append, Option.bind_eq_some_iff] at h
    obtain ⟨q, hread, hstep⟩ := h
    rw [readFrom_cons, Option.bind_eq_some_iff] at hstep
    obtain ⟨_, hstep, ⟨⟩⟩ := hstep
    rw [openFrames_concat]
    exact frames_bracketStep (ih hread) hstep

/-! ## The transaction around an event -/

/-- The events of a transaction between its first and its last. -/
def Inside (body : List GoEvent) : Prop :=
  ∀ e ∈ body, e.isTransactionEnd = false ∧ e.isTransactionStart = false

/-- A step that starts or ends no transaction stays in it, with as many open frames as the
nested log has after it. -/
lemma bracketStep_inside {frames : List (UInt64 × UInt64)} {p : Position}
    (hend : event.isTransactionEnd = false) (h : bracketStep (some frames) event = some p) :
    event.isTransactionStart = false ∧
      ∃ frames', p = some frames' ∧ openAfter frames.length (ops [event]) = frames'.length := by
  cases moves_of_bracketStep h with
  | mutation m hm =>
    refine ⟨(not_boundary_of_mutation hm).1, frames, rfl, ?_⟩
    rw [ops, List.filterMap_cons, op?_mutation hm]
    rfl
  | blockStart data => exact ⟨rfl, frames, rfl, rfl⟩
  | blockCommit => exact ⟨rfl, frames, rfl, rfl⟩
  | transactionEnd data => simp [GoEvent.isTransactionEnd] at hend
  | frameEnter frames data => exact ⟨rfl, _, rfl, rfl⟩
  | frameExit frame frames data => exact ⟨rfl, frames, rfl, rfl⟩

/-- Only a `TransactionStart` leads into a transaction. -/
lemma transactionStart_of_bracketStep {frames : List (UInt64 × UInt64)}
    (h : bracketStep none event = some (some frames)) :
    ∃ start, event = .transactionStart start ∧ frames = [] := by
  cases moves_of_bracketStep h with
  | transactionStart start => exact ⟨start, rfl, rfl⟩

/-- From inside a transaction the grammar reads the rest of it and its end. -/
lemma exists_end {frames : List (UInt64 × UInt64)} {post : List GoEvent}
    (h : readFrom (some frames) post = some none) :
    ∃ body fin rest, post = body ++ .transactionEnd fin :: rest ∧ Inside body ∧
      openAfter frames.length (ops body) = 0 ∧ readFrom none rest = some none := by
  induction post generalizing frames with
  | nil => simp [readFrom] at h
  | cons event post ih =>
    rw [readFrom_cons, Option.bind_eq_some_iff] at h
    obtain ⟨p, hstep, hread⟩ := h
    cases hend : event.isTransactionEnd with
    | true =>
      cases event with
      | transactionEnd fin =>
        rcases frames with _ | ⟨frame, frames⟩
        · obtain rfl := Option.some.inj hstep
          exact ⟨[], fin, post, rfl, by simp [Inside], rfl, hread⟩
        · simp [bracketStep] at hstep
      | _ => simp [GoEvent.isTransactionEnd] at hend
    | false =>
      obtain ⟨hstart, frames', rfl, hopen⟩ := bracketStep_inside hend hstep
      obtain ⟨body, fin, rest, rfl, hbody, hclosed, hrest⟩ := ih hread
      refine ⟨event :: body, fin, rest, rfl, ?_, ?_, hrest⟩
      · rintro e (_ | ⟨_, he⟩)
        · exact ⟨hend, hstart⟩
        · exact hbody e he
      · rw [ops_cons, openAfter_append, hopen, hclosed]

/-- Inside a transaction, what has been read since its start. -/
lemma exists_start {frames : List (UInt64 × UInt64)} {pre : List GoEvent}
    (h : readFrom none pre = some (some frames)) :
    ∃ front start body, pre = front ++ .transactionStart start :: body ∧ Inside body ∧
      readFrom none front = some none ∧ openAfter 0 (ops body) = frames.length := by
  induction pre using List.reverseRecOn generalizing frames with
  | nil => simp [readFrom] at h
  | append_singleton pre event ih =>
    rw [readFrom_append, Option.bind_eq_some_iff] at h
    obtain ⟨p, hread, hlast⟩ := h
    rw [readFrom_cons, Option.bind_eq_some_iff] at hlast
    obtain ⟨_, hstep, ⟨⟩⟩ := hlast
    cases p with
    | none =>
      obtain ⟨start, rfl, rfl⟩ := transactionStart_of_bracketStep hstep
      exact ⟨pre, start, [], rfl, by simp [Inside], hread, rfl⟩
    | some outer =>
      have hend : event.isTransactionEnd = false := by
        cases event with
        | transactionEnd fin => rcases outer with _ | _ <;> simp [bracketStep] at hstep
        | _ => rfl
      obtain ⟨hstart, frames', hframes, hopen⟩ := bracketStep_inside hend hstep
      obtain rfl := Option.some.inj hframes
      obtain ⟨front, start, body, rfl, hbody, hfront, hlen⟩ := ih hread
      refine ⟨front, start, body ++ [event], by simp, ?_, hfront, ?_⟩
      · intro e he
        rcases List.mem_append.mp he with he | he
        · exact hbody e he
        · rw [List.mem_singleton.mp he]
          exact ⟨hend, hstart⟩
      · rw [ops_append, openAfter_append, hlen, hopen]

/-- The transactions of a stream that ends outside a transaction come first. -/
lemma transactions_append_of_read {front : List GoEvent} (rest : List GoEvent)
    (h : readFrom none front = some none) :
    transactions (front ++ rest) = transactions front ++ transactions rest := by
  -- a transaction is read as a whole, so the induction is on the length
  induction hn : front.length using Nat.strong_induction_on generalizing front with
  | _ n ih =>
  subst hn
  rcases front with _ | ⟨event, front⟩
  · rfl
  rw [readFrom_cons, Option.bind_eq_some_iff] at h
  obtain ⟨p, hstep, hread⟩ := h
  cases p with
  | none =>
    have hstart : event.isTransactionStart = false := by
      cases event with
      | transactionStart start => simp [bracketStep] at hstep
      | _ => rfl
    rw [List.cons_append, transactions, hstart, transactions, hstart]
    exact ih front.length (by simp) hread rfl
  | some frames =>
    obtain ⟨start, rfl, -⟩ := transactionStart_of_bracketStep hstep
    obtain ⟨body, fin, front, rfl, hbody, -, hfront⟩ := exists_end hread
    have hlt : front.length <
        (GoEvent.transactionStart start :: (body ++ .transactionEnd fin :: front)).length := by
      simp only [List.length_cons, List.length_append]
      omega
    rw [List.cons_append, List.append_assoc, List.cons_append, transactions_start _ hbody,
      transactions_start _ hbody, ih front.length hlt hfront rfl, List.cons_append]

/-! ## Which mutation survives -/

/-- The mutation `event` between `pre` and `post` is kept in the output: without it the output
has the same payloads but for its own. -/
def Survives (config : BridgeConfig) (pre : List GoEvent) (event : GoEvent)
    (post : List GoEvent) : Prop :=
  ∃ m out out', event.mutation? = some m ∧ translate (pre ++ event :: post) config = .ok out ∧
    translate (pre ++ post) config = .ok out' ∧
    (out.map (·.payload)).Perm (m.2 :: out'.map (·.payload))

/-- The payloads of an accepted stream are those of the survivors of its transactions, each
between two boundary markers. -/
lemma translate_perm {events : List GoEvent} {out : List CanonicalSemanticEvent}
    (h : translate events config = .ok out) :
    (out.map (·.payload)).Perm
      ((transactions events).flatMap fun body => bracketed ((surviving body).map Prod.snd)) := by
  obtain ⟨segments, hsegments, hout⟩ := translate_segments h
  rw [hout]
  clear h hout
  generalize transactions events = bodies at hsegments ⊢
  induction hsegments with
  | nil => exact .nil
  | cons hkept _ ih =>
    rw [List.flatMap_cons, List.flatMap_cons]
    exact ((hkept.perm.append_right _).cons _).append ih

/-- A stream is accepted without a mutation of it. -/
lemma translate_without {pre post : List GoEvent} {m : Mutation}
    {out : List CanonicalSemanticEvent} (hm : event.mutation? = some m)
    (h : translate (pre ++ event :: post) config = .ok out) :
    ∃ out', translate (pre ++ post) config = .ok out' := by
  have hread : readFrom none (pre ++ event :: post) = some none :=
    (translate_isOk_iff config).mp ⟨out, h⟩
  refine (translate_isOk_iff config).mpr ?_
  rw [readFrom_append, Option.bind_eq_some_iff] at hread
  obtain ⟨p, hpre, hread⟩ := hread
  rw [readFrom_cons, Option.bind_eq_some_iff] at hread
  obtain ⟨q, hstep, hpost⟩ := hread
  obtain ⟨rfl, -⟩ := bracketStep_of_mutation hm hstep
  rw [Bracketed, readFrom_append, hpre]
  exact hpost

lemma ops_mutation {m : Mutation} (hm : event.mutation? = some m) :
    ops [event] = [.item m (m.1 = noFrame)] := by
  rw [ops, List.filterMap_cons, op?_mutation hm]
  rfl

lemma surviving_insert {body : List GoEvent} (m : Mutation) (hm : event.mutation? = some m)
    (body' : List GoEvent) : surviving (body ++ event :: body') =
      survivors 0 (ops body ++ .item m (m.1 = noFrame) :: ops body') := by
  rw [surviving, ops_append, ops_cons, ops_mutation hm]
  rfl

/-- The transaction around a mutation, in the stream with it and in the one without it. -/
lemma exists_transaction_around {pre post : List GoEvent} {m : Mutation}
    {frames : List (UInt64 × UInt64)} (hm : event.mutation? = some m)
    (hpre : readFrom none pre = some (some frames))
    (hpost : readFrom (some frames) post = some none) :
    ∃ before body body' after,
      transactions (pre ++ event :: post) = before ++ (body ++ event :: body') :: after ∧
        transactions (pre ++ post) = before ++ (body ++ body') :: after ∧
        openAfter 0 (ops body) = frames.length ∧
        (AllCommit frames.length (ops post) ↔ AllCommit frames.length (ops body')) := by
  obtain ⟨front, start, body, rfl, hbody, hfront, hopen⟩ := exists_start hpre
  obtain ⟨body', fin, rest, rfl, hbody', hclosed, -⟩ := exists_end hpost
  have hevent : event.isTransactionEnd = false ∧ event.isTransactionStart = false :=
    (not_boundary_of_mutation hm).symm
  have hwith : Inside (body ++ event :: body') := by
    intro e he
    rcases List.mem_append.mp he with he | he
    · exact hbody e he
    · rcases List.mem_cons.mp he with rfl | he
      · exact hevent
      · exact hbody' e he
  have hwithout : Inside (body ++ body') := by
    intro e he
    rcases List.mem_append.mp he with he | he
    · exact hbody e he
    · exact hbody' e he
  refine ⟨transactions front, body, body', transactions rest, ?_, ?_, hopen, ?_⟩
  · rw [List.append_assoc, List.cons_append, transactions_append_of_read _ hfront,
      ← transactions_start rest hwith, List.append_assoc, List.cons_append]
  · rw [List.append_assoc, List.cons_append, transactions_append_of_read _ hfront,
      ← transactions_start rest hwithout, List.append_assoc]
  · -- the frames around the mutation are closed before the transaction ends
    refine forall₂_congr fun n hn => ?_
    obtain ⟨reverted, hflag⟩ := exists_exitFlag hclosed hn
    rw [ops_append, exitFlag_append hflag, hflag]

lemma bracketed_perm_cons {kept kept' : List CsePayload} {payload : CsePayload}
    (h : kept.Perm (payload :: kept')) : (bracketed kept).Perm (payload :: bracketed kept') := by
  have hcons : (bracketed kept).Perm (bracketed (payload :: kept')) := (h.append_right _).cons _
  exact hcons.trans (.swap payload .beginTransaction _)

/-- **Survival of a mutation.**  In a transaction of an accepted stream a mutation is kept in
the output exactly if it is stamped "no frame" or every frame open around it commits. -/
theorem survives_iff {pre post : List GoEvent} {m : Mutation} {frames : List (UInt64 × UInt64)}
    {out : List CanonicalSemanticEvent} (hm : event.mutation? = some m)
    (h : translate (pre ++ event :: post) config = .ok out)
    (hpre : readFrom none pre = some (some frames)) :
    Survives config pre event post ↔ m.1 = noFrame ∨ AllCommit frames.length (ops post) := by
  obtain ⟨out', hout'⟩ := translate_without hm h
  have hread : readFrom none (pre ++ event :: post) = some none :=
    (translate_isOk_iff config).mp ⟨out, h⟩
  rw [readFrom_append, hpre, Option.bind_some, readFrom_cons, Option.bind_eq_some_iff] at hread
  obtain ⟨q, hstep, hpost⟩ := hread
  obtain ⟨rfl, -⟩ := bracketStep_of_mutation hm hstep
  obtain ⟨before, body, body', after, hwith, hwithout, hopen, hcommit⟩ :=
    exists_transaction_around hm hpre hpost
  have hperm := translate_perm h
  have hperm' := translate_perm hout'
  rw [hwith, List.flatMap_append, List.flatMap_cons, surviving_insert m hm] at hperm
  rw [hwithout, List.flatMap_append, List.flatMap_cons, surviving, ops_append] at hperm'
  have hsurvives : Survives config pre event post ↔
      (out.map (·.payload)).Perm (m.2 :: out'.map (·.payload)) := by
    constructor
    · rintro ⟨m₁, out₁, out₁', hm₁, h₁, h₁', hp⟩
      obtain rfl := Option.some.inj (hm.symm.trans hm₁)
      obtain rfl := Except.ok.inj (h.symm.trans h₁)
      obtain rfl := Except.ok.inj (hout'.symm.trans h₁')
      exact hp
    · exact fun hp => ⟨m, out, out', hm, h, hout', hp⟩
  rw [hsurvives, hcommit]
  by_cases hkeep : m.1 = noFrame ∨ AllCommit frames.length (ops body')
  · refine iff_of_true ?_ hkeep
    have hinsert : (survivors 0 (ops body ++ .item m (m.1 = noFrame) :: ops body')).Perm
        (m :: survivors 0 (ops body ++ ops body')) :=
      survivors_insert_perm m (by rwa [hopen, decide_eq_true_eq])
    have hkept := bracketed_perm_cons (hinsert.map Prod.snd)
    refine hperm.trans (.trans ?_ (hperm'.cons m.2).symm)
    exact ((hkept.append_right _).append_left _).trans List.perm_middle
  · refine iff_of_false ?_ hkeep
    rw [survivors_insert_eq m (by rwa [hopen, decide_eq_true_eq])] at hperm
    intro hp
    have hlen := hp.length_eq
    rw [hperm.length_eq, List.length_cons, hperm'.length_eq] at hlen
    omega

/-- The position of an accepted stream before one of its events. -/
lemma exists_position {pre post : List GoEvent} {out : List CanonicalSemanticEvent}
    (h : translate (pre ++ event :: post) config = .ok out) :
    ∃ p q, readFrom none pre = some p ∧ bracketStep p event = some q ∧
      p.frames.length = (openFrames pre).length := by
  have hread : readFrom none (pre ++ event :: post) = some none :=
    (translate_isOk_iff config).mp ⟨out, h⟩
  rw [readFrom_append, Option.bind_eq_some_iff] at hread
  obtain ⟨p, hpre, hread⟩ := hread
  rw [readFrom_cons, Option.bind_eq_some_iff] at hread
  obtain ⟨q, hstep, -⟩ := hread
  exact ⟨p, q, hpre, hstep, by rw [frames_readFrom hpre, List.length_map]⟩

/-- A stamped mutation of an accepted stream is kept exactly if all frames open around it
commit. -/
lemma survives_stamped_iff {pre post : List GoEvent} {m : Mutation}
    {out : List CanonicalSemanticEvent} (hm : event.mutation? = some m) (hstamp : m.1 ≠ noFrame)
    (h : translate (pre ++ event :: post) config = .ok out) :
    Survives config pre event post ↔ AllCommit (openFrames pre).length (ops post) := by
  obtain ⟨p, q, hpre, hstep, hlen⟩ := exists_position h
  obtain ⟨-, hsome⟩ := bracketStep_of_mutation hm hstep
  obtain ⟨frames, rfl⟩ := Option.isSome_iff_exists.mp (hsome.resolve_left hstamp)
  rw [survives_iff hm h hpre, or_iff_right hstamp, ← hlen]
  rfl

/-- Any mutation inside frames that all commit is kept. -/
lemma survives_of_allCommit {pre post : List GoEvent} {m : Mutation}
    {out : List CanonicalSemanticEvent} (hm : event.mutation? = some m)
    (hopen : openFrames pre ≠ []) (h : translate (pre ++ event :: post) config = .ok out)
    (hcommit : AllCommit (openFrames pre).length (ops post)) : Survives config pre event post := by
  obtain ⟨p, q, hpre, -, hlen⟩ := exists_position h
  have hpos := List.length_pos_iff.mpr hopen
  cases p with
  | none => simp [Position.frames] at hlen; omega
  | some frames =>
    have hlen' : frames.length = (openFrames pre).length := hlen
    exact (survives_iff hm h hpre).mpr (.inr (hlen' ▸ hcommit))

end KaySentinel.Bridge
