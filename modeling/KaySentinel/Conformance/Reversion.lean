import KaySentinel.Conformance.Interior
import KaySentinel.Lib.Pointwise

/-!
# Reverted transactions

The bridge never reads `TransactionEnd.reverted`.  Gate 1 makes sure that it agrees with the
root frame, so the bridge drops the stamped mutations of a reverted transaction with that frame
and keeps those that only the root frame of a committed one is around.
-/

namespace KaySentinel.Conformance

open Cse Emes Bridge Validation NestedLog

variable {event : GoEvent}

/-! ## The flag of the root frame -/

/-- A transaction with an open frame has counted its root frame. -/
def CountsRoot (p : Place) : Prop := ∀ tx, p = some tx → tx.frameStack ≠ [] → 1 ≤ tx.rootFrameCount

lemma countsRoot_walkStep {p p' : Place} (hp : CountsRoot p) (h : walkStep p event = some p') :
    CountsRoot p' := by
  rintro tx rfl hne
  rcases p with _ | ⟨stack, count, reverted⟩
  · rcases walkStep_none_cases h with ⟨data, -, heq⟩ | ⟨-, heq⟩
    · obtain rfl := Option.some.inj heq
      exact absurd rfl hne
    · simp at heq
  · rcases walkStep_some_cases h with ⟨data, -, -, -, -, heq⟩ | ⟨data, -, -, heq⟩ |
      ⟨data, rest, -, rfl, heq⟩ | ⟨-, heq⟩
    · simp at heq
    · obtain rfl := Option.some.inj heq
      show 1 ≤ if stack = [] then count + 1 else count
      split_ifs with hs
      · exact Nat.le_add_left 1 count
      · exact hp _ rfl hs
    · obtain rfl := Option.some.inj heq
      exact hp ⟨data.frameId :: rest, count, reverted⟩ rfl (by simp)
    · obtain rfl := Option.some.inj heq
      exact hp _ rfl hne

lemma countsRoot_walk {events : List GoEvent} {p p' : Place} (hp : CountsRoot p)
    (h : walk p events = some p') : CountsRoot p' := by
  induction events generalizing p with
  | nil =>
    obtain rfl := Option.some.inj h
    exact hp
  | cons event events ih =>
    rw [walk_cons, Option.bind_eq_some_iff] at h
    obtain ⟨q, hstep, hwalk⟩ := h
    exact ih (countsRoot_walkStep hp hstep) hwalk

/-- The flag with which the root frame exits, if it has exited or is open. -/
def rootFlag (stack : List UInt64) (reverted : Bool) (body : List GoEvent) : Option Bool :=
  if stack = [] then some reverted else exitFlag (stack.length - 1) (ops body)

/-- After its only root frame has been entered, a transaction ends with the flag of that
frame. -/
lemma rootFlag_of_walk {stack : List UInt64} {reverted : Bool} {body : List GoEvent}
    {fin : TransactionEndData} {rest : List GoEvent} (hbody : Inside body)
    (h : walk (some ⟨stack, 1, reverted⟩) (body ++ .transactionEnd fin :: rest) = some none) :
    rootFlag stack reverted body = some fin.reverted := by
  induction body generalizing stack reverted with
  | nil =>
    rw [List.nil_append, walk_cons, Option.bind_eq_some_iff] at h
    obtain ⟨p, hstep, -⟩ := h
    obtain ⟨⟨hs, -, hflag⟩, -⟩ := Option.ite_none_right_eq_some.mp hstep
    rw [rootFlag, if_pos hs, hflag rfl]
  | cons event body ih =>
    rw [List.cons_append, walk_cons, Option.bind_eq_some_iff] at h
    obtain ⟨p, hstep, hwalk⟩ := h
    have hbody' : Inside body := fun e he => hbody e (by simp [he])
    rw [rootFlag, ops_cons]
    rcases walkStep_some_cases hstep with ⟨data, rfl, -, -, -, -⟩ | ⟨data, rfl, -, rfl⟩ |
      ⟨data, outer, rfl, rfl, rfl⟩ | ⟨⟨m, hm⟩, rfl⟩
    · exact absurd (hbody (.transactionEnd data) (by simp)).1 (by simp [GoEvent.isTransactionEnd])
    · by_cases hs : stack = []
      · -- a second root frame
        rw [if_pos hs] at hwalk
        exact absurd (rootFrameCount_le_one hwalk) (by decide)
      · rw [if_neg hs] at hwalk
        have hrest := ih hbody' hwalk
        rw [rootFlag, if_neg (by simp)] at hrest
        have hlen : stack.length - 1 + 1 = stack.length :=
          Nat.sub_add_cancel (List.length_pos_iff.mpr hs)
        rw [if_neg hs, ← hrest]
        show exitFlag (stack.length - 1 + 1) (ops body) = exitFlag stack.length (ops body)
        rw [hlen]
    · have hrest := ih hbody' hwalk
      rcases outer with _ | ⟨parent, outer⟩
      · exact hrest
      · exact hrest
    · have hrest := ih hbody' hwalk
      rw [ops_mutation hm]
      exact hrest

/-! ## A reverted transaction -/

lemma mutations_cons (event : GoEvent) (body : List GoEvent) :
    mutations (event :: body) = event.mutation?.toList ++ mutations body := by
  rw [mutations, List.filterMap_cons]
  cases event.mutation? <;> rfl

/-- In the rest of a reverted transaction only the mutations stamped "no frame" survive. -/
lemma survivors_of_reverted {stack : List UInt64} {count : ℕ} {reverted : Bool}
    {body : List GoEvent} {fin : TransactionEndData} {rest : List GoEvent} {b : Buffers CsePayload}
    {kept : List CsePayload} (hbody : Inside body) (hroot : stack ≠ [] → 1 ≤ count)
    (hfin : fin.reverted = true) (hb : b.stack.length = stack.length)
    (hrun : b.run (payloadOps body) = some ⟨kept, []⟩)
    (h : walk (some ⟨stack, count, reverted⟩) (body ++ .transactionEnd fin :: rest) =
      some none) :
    survivors stack.length (ops body) = (mutations body).filter (·.1 = noFrame) := by
  induction body generalizing stack count reverted b with
  | nil => rfl
  | cons event body ih =>
    have hwalks := h
    rw [payloadOps_cons, Buffers.run_append, Option.bind_eq_some_iff] at hrun
    obtain ⟨b', hevent, hrun⟩ := hrun
    rw [List.cons_append, walk_cons, Option.bind_eq_some_iff] at h
    obtain ⟨p, hstep, hwalk⟩ := h
    have hbody' : Inside body := fun e he => hbody e (by simp [he])
    rcases walkStep_some_cases hstep with ⟨data, rfl, -, -, -, -⟩ | ⟨data, rfl, -, rfl⟩ |
      ⟨data, outer, rfl, rfl, rfl⟩ | ⟨⟨m, hm⟩, rfl⟩
    · exact absurd (hbody (.transactionEnd data) (by simp)).1 (by simp [GoEvent.isTransactionEnd])
    · have henter : b.step .enter = some b' := by rwa [← Buffers.run_singleton]
      have hlen : b'.stack.length = stack.length + 1 := by
        rw [length_stack_step henter, hb]
      refine ih hbody' (fun _ => ?_) hlen hrun hwalk
      split_ifs with hs
      · exact Nat.le_add_left 1 count
      · exact hroot hs
    · have hexit : b.step (.exit data.reverted) = some b' := by rwa [← Buffers.run_singleton]
      have hlen : b'.stack.length = outer.length := by
        rw [length_stack_step hexit, hb, List.length_cons, Nat.add_sub_cancel]
      exact ih hbody' (fun _ => hroot (by simp)) hlen hrun hwalk
    · have hops : payloadOps [event] = [.item m.2 (m.1 = noFrame)] := by
        rw [payloadOps, ops_mutation hm]
        rfl
      rw [hops, Buffers.run_singleton] at hevent
      have hrest := ih hbody' hroot (by rw [length_stack_step hevent, hb]) hrun hwalk
      rw [ops_cons, ops_mutation hm, mutations_cons, hm, List.singleton_append, survivors, hrest]
      by_cases hstamp : m.1 = noFrame
      · simp [hstamp]
      · -- a frame is open, so the root frame is, and it reverts
        have hs : stack ≠ [] := by
          rintro rfl
          have hnil : b.stack = [] := List.eq_nil_of_length_eq_zero hb
          simp [Buffers.step, hstamp, hnil] at hevent
        have hcount : count = 1 := Nat.le_antisymm (rootFrameCount_le_one hwalks) (hroot hs)
        subst hcount
        have hflag : exitFlag (stack.length - 1) (ops body) = some true := by
          have hroot' := rootFlag_of_walk hbody' hwalk
          rwa [rootFlag, if_neg hs, hfin] at hroot'
        have hlost : ¬ AllCommit stack.length (ops body) := by
          intro hall
          have hcommit := hall (stack.length - 1) (Nat.sub_lt (List.length_pos_iff.mpr hs) one_pos)
          rw [hflag] at hcommit
          simp at hcommit
        simp [hstamp, hlost]

/-- The bridge keeps of a reverted transaction only what is stamped "no frame". -/
def RevertedKeepsFrameless (span : TransactionSpan) (kept : List CsePayload) : Prop :=
  span.fin.reverted = true →
    kept.Perm (((mutations span.body).filter (·.1 = noFrame)).map Prod.snd)

lemma revertedKeepsFrameless {span : TransactionSpan} {kept : List CsePayload}
    (hwalks : WalksThrough span) (hkept : Keeps span.body kept) :
    RevertedKeepsFrameless span kept := by
  obtain ⟨hbody, rest, hwalk⟩ := hwalks
  intro hfin
  have hsurviving : surviving span.body = (mutations span.body).filter (·.1 = noFrame) :=
    survivors_of_reverted (b := ⟨[], []⟩) hbody (by simp) hfin rfl hkept hwalk
  rw [← hsurviving]
  exact hkept.perm

/-! ## A committed transaction -/

/-- In a transaction that commits, a mutation around which only the root frame is open is
kept. -/
lemma survives_of_committed {stream : List Event} {config : BridgeConfig}
    {out : List CanonicalSemanticEvent} {pre body rest : List GoEvent} {fin : TransactionEndData}
    {m : Mutation} (haccepted : verifyGate1Invariants stream = .ok ())
    (hout : translate (goEvents stream) config = .ok out)
    (heq : goEvents stream = pre ++ event :: (body ++ .transactionEnd fin :: rest))
    (hm : event.mutation? = some m) (hbody : Inside body) (hfin : fin.reverted = false)
    (hroot : (openFrames pre).length = 1) :
    Survives config pre event (body ++ .transactionEnd fin :: rest) := by
  obtain ⟨start, inner, hgo, hwalk⟩ := exists_interior haccepted
  obtain ⟨hne, hne'⟩ := mutation_ne_block hm start
  obtain ⟨pre', post', rfl, hpost, rfl⟩ := split_interior (hgo.symm.trans heq) hne hne'
  rw [walk_append, Option.bind_eq_some_iff] at hwalk
  obtain ⟨p, hpre, hwalk⟩ := hwalk
  rw [walk_cons, walkStep_mutation hm, Option.bind_some] at hwalk
  -- the place of the mutation: one frame is open, the root frame
  have hstack : (stackAt p).length = 1 := by
    have hlen := congrArg List.length (stackAt_walk hpre)
    rw [List.length_map] at hlen
    exact hlen.trans hroot
  rcases p with _ | ⟨stack, count, reverted⟩
  · simp [stackAt] at hstack
  have hs : stack ≠ [] := by
    rintro rfl
    simp [stackAt] at hstack
  have hcount : count = 1 := Nat.le_antisymm (rootFrameCount_le_one hwalk)
    (countsRoot_walk (by simp [CountsRoot]) hpre _ rfl hs)
  subst hcount
  -- its transaction is the one that ends with `fin`
  obtain ⟨body', fin', rest', rfl, hbody', -⟩ := exists_end_of_walk hwalk
  have hsame : body ++ .transactionEnd fin :: rest =
      body' ++ .transactionEnd fin' :: (rest' ++ [.blockCommit]) := by
    rw [hpost, List.append_assoc, List.cons_append]
  have hbodies : body = body' := by
    have hwhile : (body ++ GoEvent.transactionEnd fin :: rest).takeWhile
        (!·.isTransactionEnd) = body := takeWhile_body rest hbody
    rw [← hwhile, hsame, takeWhile_body _ hbody']
  subst hbodies
  obtain ⟨hfins, -⟩ := List.cons_eq_cons.mp (List.append_cancel_left hsame)
  obtain rfl := GoEvent.transactionEnd.inj hfins
  have hflag : exitFlag 0 (ops body) = some false := by
    have hroot' := rootFlag_of_walk hbody hwalk
    have hlen : stack.length = 1 := hstack
    rwa [rootFlag, if_neg hs, hlen, hfin] at hroot'
  rw [heq] at hout
  refine survives_of_allCommit hm (List.length_pos_iff.mp (hroot ▸ one_pos)) hout ?_
  intro n hn
  obtain rfl : n = 0 := by omega
  rw [ops_append]
  exact exitFlag_append hflag _

/-- **T1 stands in for `TransactionEnd.reverted`.**  Between the boundary markers of a reverted
transaction the output holds the payloads of its mutations stamped "no frame" and no others.
In a committed one it holds every mutation around which exactly one frame is open. -/
theorem reverted_justified {stream : List Event} {config : BridgeConfig}
    {out : List CanonicalSemanticEvent} (haccepted : verifyGate1Invariants stream = .ok ())
    (hout : translate (goEvents stream) config = .ok out) :
    (∃ segments, out.map (·.payload) = segments.flatMap bracketed ∧
        List.Forall₂ RevertedKeepsFrameless (spans (goEvents stream)) segments) ∧
      ∀ pre event body fin rest m,
        goEvents stream = pre ++ event :: (body ++ .transactionEnd fin :: rest) →
        event.mutation? = some m → Inside body → fin.reverted = false →
        (openFrames pre).length = 1 →
        Survives config pre event (body ++ .transactionEnd fin :: rest) := by
  refine ⟨?_, fun pre event body fin rest m heq hm hbody hfin hroot =>
    survives_of_committed haccepted hout heq hm hbody hfin hroot⟩
  obtain ⟨segments, hsegments, hpayloads⟩ := translate_segments hout
  obtain ⟨⟨hbodies, -⟩, -⟩ := translate_spans hout
  rw [← hbodies, List.forall₂_map_left_iff] at hsegments
  have hwalks := (List.forall₂_and_left _ _).mpr
    ⟨walksThrough_of_accepted haccepted, hsegments⟩
  exact ⟨segments, hpayloads, hwalks.imp fun _ _ h => revertedKeepsFrameless h.1 h.2⟩

/-- A transaction that reverts, with a frameless mutation and one in its root frame, and one
that commits a mutation in its root frame. -/
def outcomesStream : List Event :=
  [⟨0, .blockStart { emesVersion := "EMES-V1", number := 7, timestamp := 0 }⟩,
    ⟨1, .transactionStart { txIndex := 0, hash := Bytes.zero 32, from_ := Bytes.fill 20 1,
                            to_ := some (Bytes.fill 20 2), value := Bytes.zero 32,
                            gasLimit := 21000, gasPrice := Bytes.zero 32, nonce := 0 }⟩,
    ⟨2, .nonceMutation { frameId := noFrame, address := Bytes.fill 20 1, before := 0,
                         after := 1 }⟩,
    ⟨3, .frameEnter { frameId := 0, parentFrameId := sentinel, depth := 0, type := .frameCall,
                      from_ := Bytes.fill 20 1, to_ := Bytes.fill 20 2 }⟩,
    ⟨4, .balanceMutation { frameId := 0, address := Bytes.fill 20 1, before := Bytes.last 31 9,
                           after := Bytes.last 31 8 }⟩,
    ⟨5, .frameExit { frameId := 0, reverted := true }⟩,
    ⟨6, .transactionEnd { txIndex := 0, reverted := true }⟩,
    ⟨7, .transactionStart { txIndex := 0, hash := Bytes.fill 32 1, from_ := Bytes.fill 20 1,
                            to_ := some (Bytes.fill 20 2), value := Bytes.zero 32,
                            gasLimit := 21000, gasPrice := Bytes.zero 32, nonce := 1 }⟩,
    ⟨8, .frameEnter { frameId := 0, parentFrameId := sentinel, depth := 0, type := .frameCall,
                      from_ := Bytes.fill 20 1, to_ := Bytes.fill 20 2 }⟩,
    ⟨9, .balanceMutation { frameId := 0, address := Bytes.fill 20 1, before := Bytes.last 31 9,
                           after := Bytes.last 31 7 }⟩,
    ⟨10, .frameExit { frameId := 0, reverted := false }⟩,
    ⟨11, .transactionEnd { txIndex := 0, reverted := false }⟩,
    ⟨12, .blockCommit { stateRoot := Bytes.zero 32 }⟩]

/-- The mutation of the committed transaction of `outcomesStream` is kept, the one in the root
frame of the reverted transaction is not. -/
theorem outcomesStream_justified :
    ∃ out, translate (goEvents outcomesStream) ⟨1⟩ = .ok out ∧
      (∃ segments, out.map (·.payload) = segments.flatMap bracketed ∧
        List.Forall₂ RevertedKeepsFrameless (spans (goEvents outcomesStream)) segments) ∧
      Survives ⟨1⟩ ((goEvents outcomesStream).take 9)
        (.balanceMutation { frameId := 0, address := Bytes.fill 20 1, before := Bytes.last 31 9,
                            after := Bytes.last 31 7 })
        ((goEvents outcomesStream).drop 10) := by
  have htranslated : ∃ out, translate (goEvents outcomesStream) ⟨1⟩ = .ok out := ⟨_, rfl⟩
  obtain ⟨out, hout⟩ := htranslated
  obtain ⟨hreverted, hcommitted⟩ := reverted_justified (by decide) hout
  refine ⟨out, hout, hreverted, ?_⟩
  refine hcommitted _ _ [.frameExit { frameId := 0, reverted := false }]
    { txIndex := 0, reverted := false } [.blockCommit] _ rfl rfl ?_ rfl rfl
  simp [Inside, GoEvent.isTransactionEnd, GoEvent.isTransactionStart]

end KaySentinel.Conformance
