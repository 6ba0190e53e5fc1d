import KaySentinel.Bridge.Acceptance
import KaySentinel.Builder.Reduce
import KaySentinel.Lib.Pointwise

/-!
# The pipeline implements journal rollback

`Machine` is a journaled state machine over the canonical keys: a frame saves a snapshot
of the store, a reverted frame restores it.  For every run of the machine, translating,
partitioning and reducing its event stream succeeds and computes, for each transaction,
the first and the last value of every key that has changed hands.
-/

namespace KaySentinel.Bridge

open Cse Builder Journal NestedLog

/-- A value for every canonical key. -/
abbrev KeyStore := Store CanonicalKey.Value

/-- An open call frame and the snapshot taken when it was entered. -/
structure MachineFrame where
  frameId : UInt64
  depth : UInt64
  snapshot : KeyStore

/-- The journaled machine: the current values, the open frames, the values at the start of
the open transaction, and the values at the start and the end of each finished one. -/
structure Machine where
  current : KeyStore
  frames : List MachineFrame
  start : Option KeyStore
  finished : List (KeyStore × KeyStore)

namespace Machine

def init (s₀ : KeyStore) : Machine :=
  { current := s₀, frames := [], start := none, finished := [] }

/-- The stamp of a mutation: the innermost open frame, or "no frame". -/
def stamp (m : Machine) : UInt64 :=
  match m.frames with
  | [] => noFrame
  | frame :: _ => frame.frameId

def step (m : Machine) : GoEvent → Option Machine
  | .blockStart _ => some m
  | .blockCommit => some m
  | .transactionStart _ =>
      match m.start with
      | none => some { m with start := some m.current }
      | some _ => none
  | .transactionEnd _ =>
      match m.start, m.frames with
      | some s, [] => some { m with start := none, finished := m.finished ++ [(s, m.current)] }
      | _, _ => none
  | .frameEnter data =>
      if m.start.isSome ∧ data.frameId.toNat < 2 ^ 32 ∧ data.depth.toNat < 2 ^ 32 then
        some { m with frames :=
          { frameId := data.frameId, depth := data.depth, snapshot := m.current } :: m.frames }
      else
        none
  | .frameExit data =>
      match m.frames with
      | [] => none
      | frame :: rest =>
          if frame.frameId = data.frameId then
            some { m with
              current := if data.reverted then frame.snapshot else m.current
              frames := rest }
          else
            none
  | event =>
      match event.mutation? with
      | none => some m
      | some (frameId, payload) =>
          if m.start.isSome ∧ frameId = m.stamp then
            match transition? payload with
            | none => some m
            | some w => (apply m.current w).map fun s => { m with current := s }
          else
            none

def run (m : Machine) (events : List GoEvent) : Option Machine := events.foldlM step m

lemma run_cons (m : Machine) (event : GoEvent) (events : List GoEvent) :
    m.run (event :: events) = (m.step event).bind (run · events) := rfl

/-- Frames are open only inside a transaction, and their ids and depths fit `u32`. -/
structure Inv (m : Machine) : Prop where
  closed : m.start = none → m.frames = []
  fits : ∀ frame ∈ m.frames, frame.frameId.toNat < 2 ^ 32 ∧ frame.depth.toNat < 2 ^ 32

lemma inv_init (s₀ : KeyStore) : (init s₀).Inv := ⟨fun _ => rfl, by simp [init]⟩

/-- The position of the machine in its stream. -/
def position (m : Machine) : Position :=
  m.start.map fun _ => m.frames.map fun frame => (frame.frameId, frame.depth)

variable {m m' : Machine} {event : GoEvent}

/-- Fitting ids differ from "no frame", so the stamp tells whether a frame is open. -/
lemma stamp_eq_noFrame_iff (hinv : m.Inv) : m.stamp = noFrame ↔ m.frames = [] := by
  rw [stamp]
  cases hf : m.frames with
  | nil => simp
  | cons frame rest =>
    have hfits := (hinv.fits frame (by simp [hf])).1
    simp only [reduceCtorEq, iff_false]
    rintro heq
    rw [heq] at hfits
    exact absurd hfits (by decide)

/-- The step of a mutation. -/
lemma step_mutation {frameId : UInt64} {payload : CsePayload}
    (hm : event.mutation? = some (frameId, payload)) (h : m.step event = some m') :
    m.start.isSome ∧ frameId = m.stamp ∧ m'.start = m.start ∧ m'.frames = m.frames ∧
      m'.finished = m.finished ∧
      match transition? payload with
      | none => m'.current = m.current
      | some w => apply m.current w = some m'.current := by
  have hstep : m.step event =
      if m.start.isSome ∧ frameId = m.stamp then
        match transition? payload with
        | none => some m
        | some w => (apply m.current w).map fun s => { m with current := s }
      else
        none := by
    cases event <;> first | cases hm; rfl | exact absurd hm (by simp [GoEvent.mutation?])
  rw [hstep] at h
  split_ifs at h with hstamp
  cases hw : transition? payload with
  | none =>
    rw [hw] at h
    obtain rfl := Option.some.inj h
    exact ⟨hstamp.1, hstamp.2, rfl, rfl, rfl, rfl⟩
  | some w =>
    rw [hw] at h
    obtain ⟨s, hs, rfl⟩ := Option.map_eq_some_iff.mp h
    exact ⟨hstamp.1, hstamp.2, rfl, rfl, rfl, hs⟩

/-- The step of a `FrameEnter`. -/
lemma step_frameEnter {data : FrameEnterData} (h : m.step (.frameEnter data) = some m') :
    m.start.isSome ∧ (data.frameId.toNat < 2 ^ 32 ∧ data.depth.toNat < 2 ^ 32) ∧
      m' = { m with frames :=
        { frameId := data.frameId, depth := data.depth, snapshot := m.current } :: m.frames } := by
  simp only [step] at h
  split_ifs at h with hcond
  exact ⟨hcond.1, hcond.2, (Option.some.inj h).symm⟩

/-- The step of a `FrameExit`. -/
lemma step_frameExit {data : FrameExitData} (h : m.step (.frameExit data) = some m') :
    ∃ frame rest, m.frames = frame :: rest ∧ frame.frameId = data.frameId ∧
      m' = { m with
        current := if data.reverted then frame.snapshot else m.current
        frames := rest } := by
  simp only [step] at h
  rcases hf : m.frames with _ | ⟨frame, rest⟩
  · simp [hf] at h
  · simp only [hf] at h
    obtain ⟨hid, h⟩ := Option.ite_none_right_eq_some.mp h
    exact ⟨frame, rest, rfl, hid, (Option.some.inj h).symm⟩

/-- The machine steps only where the grammar of the bridge allows it. -/
lemma position_step (hinv : m.Inv) (h : m.step event = some m') :
    bracketStep m.position event = some m'.position ∧ m'.Inv := by
  cases event using GoEvent.casesByKind with
  | mutation event mutation hm =>
    obtain ⟨frameId, payload⟩ := mutation
    obtain ⟨hopen, rfl, hstart, hframes, -⟩ := step_mutation hm h
    have hpos : m'.position = m.position := by rw [position, position, hstart, hframes]
    refine ⟨?_, ⟨by rw [hstart, hframes]; exact hinv.closed, by rw [hframes]; exact hinv.fits⟩⟩
    rw [hpos, bracketStep_mutation hm]
    by_cases hf : m.stamp = noFrame
    · rw [if_pos hf]
    · rw [if_neg hf]
      obtain ⟨s, hs⟩ := Option.isSome_iff_exists.mp hopen
      obtain ⟨frame, rest, hcons⟩ := List.exists_cons_of_ne_nil
        fun hnil => hf ((stamp_eq_noFrame_iff hinv).mpr hnil)
      simp only [position, hs, hcons, Option.map_some, List.map_cons]
      rw [if_pos (hinv.fits frame (by simp [hcons]))]
  | blockStart data =>
    obtain rfl := Option.some.inj h
    exact ⟨rfl, hinv⟩
  | blockCommit =>
    obtain rfl := Option.some.inj h
    exact ⟨rfl, hinv⟩
  | transactionStart data =>
    simp only [step] at h
    cases hs : m.start with
    | some s => simp [hs] at h
    | none =>
      rw [hs] at h
      obtain rfl := Option.some.inj h
      exact ⟨by simp [position, hs, bracketStep, hinv.closed hs], by simp, hinv.fits⟩
  | transactionEnd data =>
    simp only [step] at h
    split at h
    · rename_i s hs hf
      obtain rfl := Option.some.inj h
      exact ⟨by simp [position, hs, hf, bracketStep], fun _ => hf, hinv.fits⟩
    · exact absurd h (by simp)
  | frameEnter data =>
    obtain ⟨hopen, hfits, rfl⟩ := step_frameEnter h
    obtain ⟨s, hs⟩ := Option.isSome_iff_exists.mp hopen
    refine ⟨by simp [position, hs, bracketStep], by simp [hs], ?_⟩
    rintro frame (_ | ⟨_, hmem⟩)
    · exact hfits
    · exact hinv.fits frame hmem
  | frameExit data =>
    obtain ⟨frame, rest, hf, hid, rfl⟩ := step_frameExit h
    cases hs : m.start with
    | none => simp [hinv.closed hs] at hf
    | some s =>
      refine ⟨by simp [position, hs, hf, bracketStep, hid], by simp, ?_⟩
      exact fun frame' hmem => hinv.fits frame' (by simp [hf, hmem])

lemma position_run {events : List GoEvent} (hinv : m.Inv) (h : m.run events = some m') :
    readFrom m.position events = some m'.position := by
  induction events generalizing m with
  | nil =>
    obtain rfl := Option.some.inj h
    rfl
  | cons event events ih =>
    rw [run_cons, Option.bind_eq_some_iff] at h
    obtain ⟨mid, hstep, hrun⟩ := h
    obtain ⟨hpos, hinv'⟩ := position_step hinv hstep
    rw [readFrom_cons, hpos]
    exact ih hinv' hrun

/-! ## One transaction -/

/-- The buffers `b` reconstruct the open transaction, which started in `s`. -/
def Simulated (m : Machine) (s : KeyStore) (b : Buffers CsePayload) : Prop :=
  Sim transition? s m.current (m.frames.map (·.snapshot)) b.out b.stack

/-- Inside a transaction every step of the machine is matched by the buffers. -/
lemma step_inside {s : KeyStore} (hinv : m.Inv) (hs : m.start = some s)
    (hend : event.isTransactionEnd = false) (h : m.step event = some m') :
    m'.start = some s ∧ m'.finished = m.finished ∧ event.isTransactionStart = false ∧
      ∀ b, m.Simulated s b → ∃ b', b.run (payloadOps [event]) = some b' ∧ m'.Simulated s b' := by
  -- one logged item is one step of the store with snapshots
  have hsim : ∀ op b, payloadOps [event] = [op] → m.Simulated s b →
      (Frames.step transition? ⟨m.current, m.frames.map (·.snapshot)⟩ op =
        some ⟨m'.current, m'.frames.map (·.snapshot)⟩) →
      (∀ p direct, op = .item p direct → (direct = true ↔ m.frames.map (·.snapshot) = [])) →
      ∃ b', b.run (payloadOps [event]) = some b' ∧ m'.Simulated s b' := by
    intro op b hops hb hstep hop
    have hb' : Sim transition? s m.current (m.frames.map (·.snapshot)) b.out b.stack := hb
    obtain ⟨b', hb', hsim'⟩ := sim_step
      (m := ⟨m.current, m.frames.map fun frame : MachineFrame => frame.snapshot⟩) hb' hstep hop
    refine ⟨b', ?_, hsim'⟩
    rw [hops, Buffers.run_cons, hb']
    rfl
  cases event using GoEvent.casesByKind with
  | mutation event mutation hm =>
    obtain ⟨frameId, payload⟩ := mutation
    obtain ⟨-, rfl, hstart, hframes, hfinished, hcurrent⟩ := step_mutation hm h
    refine ⟨hstart.trans hs, hfinished, (not_boundary_of_mutation hm).1, fun b hb => ?_⟩
    refine hsim (.item payload (m.stamp = noFrame)) b ?_ hb ?_ ?_
    · simp [payloadOps, ops, op?_mutation hm, Op.map]
    · rw [hframes]
      cases hw : transition? payload with
      | none =>
        rw [hw] at hcurrent
        simp [Frames.step, hw, hcurrent]
      | some w =>
        rw [hw] at hcurrent
        simp [Frames.step, hw, hcurrent]
    · rintro p direct heq
      obtain ⟨-, rfl⟩ := Op.item.inj heq
      simp [stamp_eq_noFrame_iff hinv]
  | blockStart data =>
    obtain rfl := Option.some.inj h
    exact ⟨hs, rfl, rfl, fun b hb => ⟨b, rfl, hb⟩⟩
  | blockCommit =>
    obtain rfl := Option.some.inj h
    exact ⟨hs, rfl, rfl, fun b hb => ⟨b, rfl, hb⟩⟩
  | transactionStart data => simp [step, hs] at h
  | transactionEnd data => simp [GoEvent.isTransactionEnd] at hend
  | frameEnter data =>
    obtain ⟨-, -, rfl⟩ := step_frameEnter h
    refine ⟨hs, rfl, rfl, fun b hb => hsim .enter b rfl hb ?_ (by simp)⟩
    simp [Frames.step]
  | frameExit data =>
    obtain ⟨frame, rest, hf, -, rfl⟩ := step_frameExit h
    refine ⟨hs, rfl, rfl, fun b hb => hsim (.exit data.reverted) b rfl hb ?_ (by simp)⟩
    simp [Frames.step, hf]

/-- From inside a transaction the machine reaches the `TransactionEnd` that closes it, and
what the buffers keep of the body leads from the start of the transaction to its end. -/
lemma run_inside {events : List GoEvent} {s : KeyStore} (hinv : m.Inv) (hs : m.start = some s)
    (h : m.run events = some m') (hclosed : m'.start = none) :
    ∃ (body : List GoEvent) (fin : TransactionEndData) (rest : List GoEvent) (mid : Machine),
      events = body ++ .transactionEnd fin :: rest ∧
      (∀ e ∈ body, e.isTransactionEnd = false ∧ e.isTransactionStart = false) ∧
      (∀ b, m.Simulated s b → ∃ kept, b.run (payloadOps body) = some ⟨kept, []⟩ ∧
        replay s (writesOf kept) = some mid.current) ∧
      mid.Inv ∧ mid.start = none ∧ mid.finished = m.finished ++ [(s, mid.current)] ∧
      mid.run rest = some m' := by
  induction events generalizing m with
  | nil =>
    obtain rfl := Option.some.inj h
    rw [hs] at hclosed
    exact absurd hclosed (by simp)
  | cons event events ih =>
    rw [run_cons, Option.bind_eq_some_iff] at h
    obtain ⟨mid, hstep, hrun⟩ := h
    have hinv' := (position_step hinv hstep).2
    cases hend : event.isTransactionEnd with
    | true =>
      cases event with
      | transactionEnd fin =>
        simp only [step, hs] at hstep
        rcases hf : m.frames with _ | ⟨frame, rest⟩
        · rw [hf] at hstep
          obtain rfl := Option.some.inj hstep
          refine ⟨[], fin, events, _, rfl, by simp, ?_, hinv', rfl, rfl, hrun⟩
          rintro ⟨out, stack⟩ hb
          simp only [Simulated, hf, List.map_nil] at hb
          cases stack with
          | nil => exact ⟨out, rfl, hb⟩
          | cons _ _ => exact hb.elim
        · simp [hf] at hstep
      | _ => simp [GoEvent.isTransactionEnd] at hend
    | false =>
      obtain ⟨hs', hfinished, hstart, hsim⟩ := step_inside hinv hs hend hstep
      obtain ⟨body, fin, rest, last, rfl, hbody, hkept, hlast, hnone, hout, hrest⟩ :=
        ih hinv' hs' hrun
      refine ⟨event :: body, fin, rest, last, rfl, ?_, ?_, hlast, hnone, ?_, hrest⟩
      · rintro e (_ | ⟨_, he⟩)
        · exact ⟨hend, hstart⟩
        · exact hbody e he
      · intro b hb
        obtain ⟨b', hb', hsim'⟩ := hsim b hb
        obtain ⟨kept, hrun', hreplay⟩ := hkept b' hsim'
        refine ⟨kept, ?_, hreplay⟩
        rw [payloadOps_cons, Buffers.run_append, hb']
        exact hrun'
      · rw [hout, hfinished]

/-- The payloads that the buffers keep of a transaction body lead from the values at the
start of the transaction to those at its end. -/
def Journals (body : List GoEvent) (span : KeyStore × KeyStore) : Prop :=
  ∃ kept, Keeps body kept ∧ replay span.1 (writesOf kept) = some span.2

/-- A completed run of the machine finishes one transaction after the other. -/
lemma run_outside {events : List GoEvent} (hinv : m.Inv) (hs : m.start = none)
    (h : m.run events = some m') (hclosed : m'.start = none) :
    ∃ spans, m'.finished = m.finished ++ spans ∧
      List.Forall₂ Journals (transactions events) spans := by
  -- a transaction is consumed as a whole, so the induction is on the length
  induction hn : events.length using Nat.strong_induction_on generalizing m events with
  | _ n ih =>
  subst hn
  cases events with
  | nil =>
    obtain rfl := Option.some.inj h
    exact ⟨[], by simp, .nil⟩
  | cons event events =>
    rw [run_cons, Option.bind_eq_some_iff] at h
    obtain ⟨mid, hstep, hrun⟩ := h
    have hinv' := (position_step hinv hstep).2
    cases event using GoEvent.casesByKind with
    | mutation event mutation hm =>
      obtain ⟨frameId, payload⟩ := mutation
      have hopen := (step_mutation hm hstep).1
      rw [hs] at hopen
      exact absurd hopen (by simp)
    | blockStart data =>
      obtain rfl := Option.some.inj hstep
      have := ih events.length (by simp) hinv hs hrun rfl
      exact this
    | blockCommit =>
      obtain rfl := Option.some.inj hstep
      have := ih events.length (by simp) hinv hs hrun rfl
      exact this
    | transactionStart data =>
      simp only [step, hs, Option.some.injEq] at hstep
      subst hstep
      obtain ⟨body, fin, rest, last, rfl, hbody, hkept, hlast, hnone, hout, hrest⟩ :=
        run_inside hinv' rfl hrun hclosed
      obtain ⟨spans, hspans, hforall⟩ :=
        ih rest.length (by simp; omega) hlast hnone hrest rfl
      refine ⟨(m.current, last.current) :: spans, ?_, ?_⟩
      · rw [hspans, hout]
        simp
      · rw [transactions_start _ hbody]
        refine .cons (hkept ⟨[], []⟩ ?_) hforall
        simp [Simulated, hinv.closed hs, Sim, writes]
    | transactionEnd data => simp [step, hs] at hstep
    | frameEnter data => simp [step, hs] at hstep
    | frameExit data => simp [step, hinv.closed hs] at hstep

/-- The bridge accepts the stream of every completed run. -/
lemma bracketed_of_run {events : List GoEvent} {s₀ : KeyStore}
    (h : (init s₀).run events = some m) (hclosed : m.start = none) : Bracketed events := by
  have hread := position_run (inv_init s₀) h
  have hpos : m.position = none := by rw [position, hclosed, Option.map_none]
  rw [hpos] at hread
  exact hread

end Machine

/-! ## The tables of a transaction -/

/-- A state table records the change of the store from `span.1` to `span.2`: an entry holds
the two values of its key, and a key without an entry has not changed. -/
def Records (table : OrdMap.Map CanonicalKey ReducedVariant) (span : KeyStore × KeyStore) : Prop :=
  ∀ k, match table[k]? with
    | none => span.2 k = span.1 k
    | some variant =>
        ∃ t, variant = .of k t ∧ t.initial = span.1 k ∧ t.terminal = span.2 k

/-- The reduction of payloads that replay from one store to another records the change. -/
lemma Records.of_tabulates {ps : List CsePayload} {span : KeyStore × KeyStore}
    {table : OrdMap.Map CanonicalKey ReducedVariant} (htab : Tabulates ps table)
    (h : replay span.1 (writesOf ps) = some span.2) : Records table span := by
  intro k
  have hchain : chain (span.1 k) (historyAt k ps) = some (span.2 k) := replay_eq_some_iff.mp h k
  rcases htab k with ⟨hnil, hnone⟩ | ⟨v, a, rest, t, hcons, hsome, hinitial, hreduced⟩
  · rw [hnone]
    rw [hnil] at hchain
    exact (Option.some.inj hchain).symm
  · rw [hsome]
    have hv : span.1 k = v := by
      rw [hcons] at hchain
      exact (chain_cons_eq_some.mp hchain).1
    rw [hv, hreduced] at hchain
    exact ⟨t, rfl, hinitial.trans hv.symm, Option.some.inj hchain⟩

lemma gasRefunds_of_keeps {body : List GoEvent} {kept : List CsePayload}
    (hkept : Keeps body kept) : gasRefunds kept = [] := by
  rw [gasRefunds, List.filterMap_eq_nil_iff]
  intro p hp
  obtain ⟨m, hm, rfl⟩ := List.mem_map.mp (hkept.perm.mem_iff.mp hp)
  obtain ⟨event, -, hevent⟩ := exists_mutation_of_mem_surviving hm
  cases event <;> simp_all [GoEvent.mutation?] <;> (subst hevent; rfl)

/-- Payloads that replay have continuous timelines. -/
lemma continuous_of_replay {ps : List CsePayload} {s t : KeyStore}
    (h : replay s (writesOf ps) = some t) (hgas : gasRefunds ps = []) : Continuous ps where
  states k := linked_of_chain (replay_eq_some_iff.mp h k)
  gasRefunds := by
    rw [hgas]
    trivial

/-- **Rollback simulation.**  For every run of the journaled machine that ends outside a
transaction, `translate`, `Partition.process` and `Reduce.process` all succeed on its event
stream, and the state table of each transaction's bucket records the values of the keys at
its start and at its end. -/
theorem rollback_simulation {s₀ : KeyStore} {events : List GoEvent} {m : Machine}
    (config : BridgeConfig) (hrun : (Machine.init s₀).run events = some m)
    (hclosed : m.start = none) :
    ∃ out raw reduced, translate events config = .ok out ∧ Partition.process out = .ok raw ∧
      Reduce.process raw = .ok reduced ∧
      List.Forall₂ (fun bucket span => Records bucket.stateTable span) reduced m.finished := by
  obtain ⟨out, hout⟩ := (translate_isOk_iff config).mpr (Machine.bracketed_of_run hrun hclosed)
  obtain ⟨segments, hsegments, hpayloads⟩ := translate_segments hout
  obtain ⟨spans, hspans, hjournals⟩ :=
    Machine.run_outside (Machine.inv_init s₀) rfl hrun hclosed
  have hboundary : ∀ seg ∈ segments, ∀ p ∈ seg, p.isBoundary = false := by
    intro seg hseg p hp
    obtain ⟨body, -, hkeeps⟩ := Pointwise.exists_left hsegments hseg
    exact isBoundary_of_mem_kept hkeeps hp
  obtain ⟨raw, hraw, hbuckets⟩ := Partition.process_segments hpayloads hboundary
  obtain rfl : m.finished = spans := hspans
  -- the buffers keep one list of payloads for each body, so the segments replay
  have hreplay : List.Forall₂ (fun seg span => gasRefunds seg = [] ∧
      replay span.1 (writesOf seg) = some span.2) segments m.finished := by
    refine (Pointwise.trans (Pointwise.symm hsegments) hjournals).imp ?_
    rintro seg span ⟨body, hkeeps, kept, hkept, hreplay⟩
    have heq : some (⟨kept, []⟩ : Buffers CsePayload) = some ⟨seg, []⟩ := hkept.symm.trans hkeeps
    obtain ⟨rfl, -⟩ := Buffers.mk.inj (Option.some.inj heq)
    exact ⟨gasRefunds_of_keeps hkeeps, hreplay⟩
  have hreduce : List.Forall₂ (fun bucket span => ∃ reduced,
      Reduce.processBucket bucket = .ok reduced ∧ Records reduced.stateTable span)
      raw m.finished := by
    refine (Pointwise.trans hbuckets hreplay).imp ?_
    rintro bucket span ⟨seg, ⟨ctx, body, rfl, rfl⟩, hgas, hreplay⟩
    rcases Reduce.processBucket_cases ctx body with ⟨reduced, hok, -, htab, -⟩ | ⟨_, _, -, hnot⟩
    · exact ⟨reduced, hok, .of_tabulates htab hreplay⟩
    · exact absurd (continuous_of_replay hreplay hgas) hnot
  obtain ⟨reduced, hreduced, hrecords⟩ := Pointwise.choose hreduce
  exact ⟨out, raw, reduced, hout, hraw, Reduce.process_eq_ok hreduced, hrecords⟩

/-- The stores of `nestedStream`: one account holds a balance of nine. -/
def nestedStore : KeyStore := fun k =>
  match k with
  | .balance address => if address = Bytes.fill 20 1 then Bytes.last 31 9 else Bytes.zero 32
  | .nonce _ => 0
  | .code _ => Bytes.zero 32
  | .storage _ _ => Bytes.zero 32
  | .transient _ _ => Bytes.zero 32

/-- `nestedStream` is a run of the machine from `nestedStore`. -/
theorem nestedStream_rollback :
    ∃ m out raw reduced, (Machine.init nestedStore).run nestedStream = some m ∧
      translate nestedStream ⟨1⟩ = .ok out ∧ Partition.process out = .ok raw ∧
      Reduce.process raw = .ok reduced ∧
      List.Forall₂ (fun bucket span => Records bucket.stateTable span) reduced m.finished := by
  have hrun : ((Machine.init nestedStore).run nestedStream).map (·.start.isNone) = some true := by
    decide
  obtain ⟨m, hm, hnone⟩ := Option.map_eq_some_iff.mp hrun
  obtain ⟨out, raw, reduced, h⟩ :=
    rollback_simulation ⟨1⟩ hm (Option.isNone_iff_eq_none.mp hnone)
  exact ⟨m, out, raw, reduced, hm, h⟩

end KaySentinel.Bridge
