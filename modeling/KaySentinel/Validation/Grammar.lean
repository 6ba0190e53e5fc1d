import KaySentinel.Lib.Bracketing
import KaySentinel.Validation.Walk

/-!
# The grammar of Gate 1

`Grammar` describes the streams that Gate 1 is for: an interior of transactions, each around at
most one tree of frames.  `verifyGate1Invariants_iff_grammar` shows that the one-pass check
accepts exactly these.
-/

namespace KaySentinel.Validation

open Emes Bridge Bracketing

/-! ## The grammar -/

/-- Frames as brackets. -/
def frames : Shape EventData UInt64 where
  enter
    | .frameEnter ev => some (ev.frameId, ev.parentFrameId)
    | _ => none
  exit
    | .frameExit ev => some ev.frameId
    | _ => none

/-- A transaction without mutations: a start, at most one frame tree, an end that agrees with
the root frame. -/
inductive Transaction : List EventData → Prop
  | frameless (start : TransactionStartEvent) (fin : TransactionEndEvent) :
      Transaction [.transactionStart start, .transactionEnd fin]
  | framed {start : TransactionStartEvent} {enter : FrameEnterEvent} {inner : List EventData}
      {exit : FrameExitEvent} {fin : TransactionEndEvent} (hparent : enter.parentFrameId = sentinel)
      (hinner : Trees frames enter.frameId inner) (hexit : exit.frameId = enter.frameId)
      (hreverted : fin.reverted = exit.reverted) :
      Transaction (.transactionStart start :: .frameEnter enter ::
        (inner ++ [.frameExit exit, .transactionEnd fin]))

/-- A sequence of transactions. -/
def Transactions (word : List EventData) : Prop :=
  ∃ txs : List (List EventData), (∀ tx ∈ txs, Transaction tx) ∧ word = txs.flatten

def withoutMutations (word : List EventData) : List EventData := word.filter (!·.isMutation)

/-- The events between the first and the last one. -/
def interior (stream : List Event) : List Event := stream.tail.dropLast

structure Grammar (stream : List Event) : Prop where
  /-- The first event is the only `BlockStart` and has the sequence number zero. -/
  blockStart : ∃ start rest, stream = ⟨0, .blockStart start⟩ :: rest ∧
    ∀ e ∈ rest, ∀ ev, e.data ≠ .blockStart ev
  /-- The last event is the only `BlockCommit`. -/
  blockCommit : ∃ rest seq commit, stream = rest ++ [⟨seq, .blockCommit commit⟩] ∧
    ∀ e ∈ rest, ∀ ev, e.data ≠ .blockCommit ev
  increasing : (stream.map (·.sequence)).Pairwise (· < ·)
  transactions : Transactions (withoutMutations ((interior stream).map (·.data)))

/-! ## The walk over frame trees -/

/-- The words over which Gate 1 walks with the stack, in a transaction with one root frame that
is still open, or to the end of it. -/
def WalksWith (reverted : Bool) (stack : List UInt64) (word : List EventData) : Prop :=
  walk (some ⟨stack, 1, reverted⟩) (word.map EventData.goEvent) = some none

lemma walk_mutation {e : EventData} (h : e.isMutation = true) (p : Place) :
    walkStep p e.goEvent = some p := by
  cases e with
  | balanceMutation ev => exact walkStep_mutation rfl p
  | nonceMutation ev => exact walkStep_mutation rfl p
  | codeMutation ev => exact walkStep_mutation rfl p
  | storageMutation ev => exact walkStep_mutation rfl p
  | accountCreated ev => exact walkStep_mutation rfl p
  | selfDestruct ev => exact walkStep_mutation rfl p
  | _ => simp [EventData.isMutation] at h

/-- The walk passes over mutations. -/
lemma walk_withoutMutations (p : Place) (word : List EventData) :
    walk p ((withoutMutations word).map EventData.goEvent) =
      walk p (word.map EventData.goEvent) := by
  induction word generalizing p with
  | nil => rfl
  | cons e word ih =>
    rw [withoutMutations, List.filter_cons]
    cases hm : e.isMutation with
    | true =>
      rw [List.map_cons, walk_cons, walk_mutation hm]
      exact ih p
    | false =>
      simp only [Bool.not_false, if_true, List.map_cons, walk_cons]
      exact Option.bind_congr fun p' _ => ih p'

/-- Inside the root frame the walk enters a child of the innermost frame or exits that frame. -/
lemma walksWith_step {reverted : Bool} {id : UInt64} {outer : List UInt64}
    {word : List EventData} (hword : ∀ e ∈ word, e.isMutation = false)
    (h : WalksWith reverted (id :: outer) word) :
    ∃ e rest, word = e :: rest ∧
      ((∃ child, frames.enter e = some (child, id) ∧
          WalksWith reverted (child :: id :: outer) rest) ∨
        (frames.exit e = some id ∧ ∃ ev, e = .frameExit ev ∧
          WalksWith (if outer = [] then ev.reverted else reverted) outer rest)) := by
  rcases word with _ | ⟨e, rest⟩
  · simp [WalksWith] at h
  rw [WalksWith, List.map_cons, walk_cons, Option.bind_eq_some_iff] at h
  obtain ⟨p, hstep, hwalk⟩ := h
  have hm : e.isMutation = false := hword e (by simp)
  refine ⟨e, rest, rfl, ?_⟩
  cases e with
  | frameEnter ev =>
    obtain ⟨hparent, hp⟩ := Option.ite_none_right_eq_some.mp hstep
    obtain rfl := Option.some.inj hp
    have hparent' : ev.parentFrameId = id := hparent
    exact .inl ⟨ev.frameId, by rw [← hparent']; rfl, hwalk⟩
  | frameExit ev =>
    obtain ⟨hid, hp⟩ := Option.ite_none_right_eq_some.mp hstep
    obtain rfl := Option.some.inj hp
    have hid' : id = ev.frameId := hid
    exact .inr ⟨by rw [hid']; rfl, ev, rfl, hwalk⟩
  | transactionEnd ev => simp [EventData.goEvent, walkStep] at hstep
  | transactionStart ev => simp [EventData.goEvent, walkStep] at hstep
  | blockStart ev => simp [EventData.goEvent, walkStep] at hstep
  | blockCommit ev => simp [EventData.goEvent, walkStep] at hstep
  | _ => simp [EventData.isMutation] at hm

/-- From inside the root frame the walk reads a list of trees and the exit of the frame. -/
lemma exists_trees_of_walksWith {reverted : Bool} {id : UInt64} {word : List EventData}
    (hword : ∀ e ∈ word, e.isMutation = false) (h : WalksWith reverted [id] word) :
    ∃ inner ev rest, word = inner ++ .frameExit ev :: rest ∧ Trees frames id inner ∧
      ev.frameId = id ∧ WalksWith ev.reverted [] rest := by
  obtain ⟨inner, x, rest, rfl, hinner, hexit, -, ev, rfl, hrest⟩ := exists_trees (S := frames)
    (P := fun stack word => (∀ e ∈ word, e.isMutation = false) ∧ WalksWith reverted stack word)
    (Q := fun outer e rest => (∀ e ∈ rest, e.isMutation = false) ∧
      ∃ ev, e = .frameExit ev ∧
        WalksWith (if outer = [] then ev.reverted else reverted) outer rest)
    (fun id outer word ⟨hword, hwalk⟩ => by
      obtain ⟨e, rest, rfl, hcases⟩ := walksWith_step hword hwalk
      have hrest : ∀ e ∈ rest, e.isMutation = false := fun e he => hword e (by simp [he])
      refine ⟨e, rest, rfl, ?_⟩
      rcases hcases with ⟨child, henter, hchild⟩ | ⟨hexit, hback⟩
      · exact .inl ⟨child, henter, hrest, hchild⟩
      · exact .inr ⟨hexit, hrest, hback⟩)
    (fun id outer e rest ⟨hrest, ev, _, hback⟩ => ⟨hrest, hback⟩)
    ⟨hword, h⟩
  exact ⟨inner, ev, rest, rfl, hinner, Option.some.inj hexit, hrest⟩

/-- The walk passes over the trees under the innermost frame. -/
lemma walksWith_append {reverted : Bool} {id : UInt64} {outer : List UInt64}
    {inner rest : List EventData} (hinner : Trees frames id inner)
    (h : WalksWith reverted (id :: outer) rest) :
    WalksWith reverted (id :: outer) (inner ++ rest) := by
  refine absorb_trees (P := WalksWith reverted) ?_ ?_ hinner h
  · intro id outer e child rest henter hrest
    cases e <;> simp only [frames, reduceCtorEq] at henter
    rename_i ev
    obtain ⟨rfl, rfl⟩ := Prod.mk.inj (Option.some.inj henter)
    simpa [WalksWith, walk_cons, EventData.goEvent, walkStep] using hrest
  · intro id parent outer x rest hexit hrest
    cases x <;> simp only [frames, reduceCtorEq] at hexit
    rename_i ev
    obtain rfl := Option.some.inj hexit
    simpa [WalksWith, walk_cons, EventData.goEvent, walkStep] using hrest

/-! ## The walk over transactions -/

lemma walk_of_transaction {tx : List EventData} (h : Transaction tx) :
    walk none (tx.map EventData.goEvent) = some none := by
  cases h with
  | frameless start fin =>
    simp [walk_cons, EventData.goEvent, walkStep, OpenTransaction.start]
  | @framed start enter inner exit fin hparent hinner hexit hreverted =>
    have hroot : WalksWith false [enter.frameId]
        (inner ++ [.frameExit exit, .transactionEnd fin]) := by
      refine walksWith_append hinner ?_
      simp [WalksWith, walk_cons, EventData.goEvent, walkStep, hexit, hreverted]
    rw [List.map_cons, walk_cons, List.map_cons]
    simp only [EventData.goEvent, walkStep, OpenTransaction.start, Option.bind_some, walk_cons,
      hparent, if_true]
    exact hroot

lemma walk_of_transactions {word : List EventData} (h : Transactions word) :
    walk none (word.map EventData.goEvent) = some none := by
  obtain ⟨txs, htxs, rfl⟩ := h
  induction txs with
  | nil => rfl
  | cons tx txs ih =>
    rw [List.flatten_cons, List.map_append, walk_append,
      walk_of_transaction (htxs tx (by simp)), Option.bind_some]
    exact ih fun tx' h => htxs tx' (by simp [h])

lemma Transactions.cons {tx word : List EventData} (htx : Transaction tx)
    (h : Transactions word) : Transactions (tx ++ word) := by
  obtain ⟨txs, htxs, rfl⟩ := h
  refine ⟨tx :: txs, ?_, rfl⟩
  rintro t (_ | ⟨_, ht⟩)
  · exact htx
  · exact htxs t ht

/-- From the start of a transaction the walk reads its end, or a root frame, the trees in it
and then its end. -/
lemma exists_transaction {start : TransactionStartEvent} {word : List EventData}
    (hword : ∀ e ∈ word, e.isMutation = false)
    (h : walk (some ⟨[], 0, false⟩) (word.map EventData.goEvent) = some none) :
    ∃ tx rest, .transactionStart start :: word = tx ++ rest ∧ Transaction tx ∧ tx ≠ [] ∧
      walk none (rest.map EventData.goEvent) = some none := by
  rcases word with _ | ⟨e, word⟩
  · simp at h
  have hm : e.isMutation = false := hword e (by simp)
  have hword' : ∀ e ∈ word, e.isMutation = false := fun e he => hword e (by simp [he])
  rw [List.map_cons, walk_cons, Option.bind_eq_some_iff] at h
  obtain ⟨p, hstep, hwalk⟩ := h
  cases e with
  | transactionEnd fin =>
    obtain rfl : none = p := by simpa [EventData.goEvent, walkStep] using hstep
    exact ⟨_, word, rfl, .frameless start fin, by simp, hwalk⟩
  | frameEnter enter =>
    obtain ⟨hparent, hp⟩ := Option.ite_none_right_eq_some.mp hstep
    obtain rfl := Option.some.inj hp
    obtain ⟨inner, exit, rest, rfl, hinner, hexit, hout⟩ := exists_trees_of_walksWith hword' hwalk
    -- only the end of the transaction may follow the exit of the root frame
    rcases rest with _ | ⟨e, rest⟩
    · simp [WalksWith] at hout
    have hm' : e.isMutation = false := hword' e (by simp)
    rw [WalksWith, List.map_cons, walk_cons, Option.bind_eq_some_iff] at hout
    obtain ⟨p, hstep', hwalk'⟩ := hout
    cases e with
    | transactionEnd fin =>
      obtain ⟨hend, hp⟩ := Option.ite_none_right_eq_some.mp hstep'
      obtain rfl := Option.some.inj hp
      have hreverted : fin.reverted = exit.reverted := hend.2.2 rfl
      refine ⟨.transactionStart start :: .frameEnter enter ::
        (inner ++ [.frameExit exit, .transactionEnd fin]), rest, by simp,
        .framed hparent hinner hexit hreverted, by simp, hwalk'⟩
    | frameEnter ev =>
      obtain ⟨-, hp⟩ := Option.ite_none_right_eq_some.mp hstep'
      obtain rfl := Option.some.inj hp
      exact absurd (rootFrameCount_le_one hwalk') (by decide)
    | frameExit ev => simp [EventData.goEvent, walkStep] at hstep'
    | transactionStart ev => simp [EventData.goEvent, walkStep] at hstep'
    | blockStart ev => simp [EventData.goEvent, walkStep] at hstep'
    | blockCommit ev => simp [EventData.goEvent, walkStep] at hstep'
    | _ => simp [EventData.isMutation] at hm'
  | frameExit ev => simp [EventData.goEvent, walkStep] at hstep
  | transactionStart ev => simp [EventData.goEvent, walkStep] at hstep
  | blockStart ev => simp [EventData.goEvent, walkStep] at hstep
  | blockCommit ev => simp [EventData.goEvent, walkStep] at hstep
  | _ => simp [EventData.isMutation] at hm

lemma transactions_of_walk {word : List EventData} (hword : ∀ e ∈ word, e.isMutation = false)
    (h : walk none (word.map EventData.goEvent) = some none) : Transactions word := by
  -- a transaction is read as a whole, so the induction is on the length
  induction hn : word.length using Nat.strong_induction_on generalizing word with
  | _ n ih =>
  subst hn
  rcases word with _ | ⟨e, word⟩
  · exact ⟨[], by simp, rfl⟩
  rw [List.map_cons, walk_cons, Option.bind_eq_some_iff] at h
  obtain ⟨p, hstep, hwalk⟩ := h
  have hm : e.isMutation = false := hword e (by simp)
  cases e with
  | transactionStart start =>
    obtain rfl := Option.some.inj hstep
    obtain ⟨tx, rest, heq, htx, hne, hrest⟩ :=
      @exists_transaction start _ (fun e he => hword e (by simp [he])) hwalk
    rw [heq]
    have hlen := congrArg List.length heq
    have hpos := List.length_pos_iff.mpr hne
    simp only [List.length_append] at hlen
    refine .cons htx (ih rest.length (by omega) (fun e he => ?_) hrest rfl)
    exact hword e (by rw [heq]; simp [he])
  | transactionEnd ev => simp [EventData.goEvent, walkStep] at hstep
  | frameEnter ev => simp [EventData.goEvent, walkStep] at hstep
  | frameExit ev => simp [EventData.goEvent, walkStep] at hstep
  | blockStart ev => simp [EventData.goEvent, walkStep] at hstep
  | blockCommit ev => simp [EventData.goEvent, walkStep] at hstep
  | _ => simp [EventData.isMutation] at hm

/-! ## Gate 1 accepts its grammar -/

lemma interior_cons_concat (first last : Event) (events : List Event) :
    interior (first :: (events ++ [last])) = events := by
  rw [interior, List.tail_cons, List.dropLast_concat]

/-- A transaction has no block events in it. -/
lemma not_block_of_walk {p p' : Place} {e : EventData} {word : List EventData}
    (h : walk p (word.map EventData.goEvent) = some p') (he : e ∈ word) :
    (∀ ev, e ≠ .blockStart ev) ∧ ∀ ev, e ≠ .blockCommit ev := by
  induction word generalizing p with
  | nil => simp at he
  | cons d word ih =>
    rw [List.map_cons, walk_cons, Option.bind_eq_some_iff] at h
    obtain ⟨q, hstep, hwalk⟩ := h
    rcases List.mem_cons.mp he with rfl | he
    · constructor
      · rintro ev rfl
        rcases p with _ | ⟨_ | _, _, _⟩ <;> simp [EventData.goEvent, walkStep] at hstep
      · rintro ev rfl
        rcases p with _ | ⟨_ | _, _, _⟩ <;> simp [EventData.goEvent, walkStep] at hstep
    · exact ih hwalk he

lemma increasing_iff_pairwise {stream : List Event} :
    Increasing stream ↔ (stream.map (·.sequence)).Pairwise (· < ·) :=
  List.isChain_iff_pairwise

lemma mem_withoutMutations {e : EventData} {word : List EventData} :
    e ∈ withoutMutations word ↔ e ∈ word ∧ e.isMutation = false := by
  simp [withoutMutations]

/-- The walk of an interior is a sequence of transactions around its mutations. -/
lemma walk_interior_iff (events : List Event) :
    walk none (goEvents events) = some none ↔
      Transactions (withoutMutations (events.map (·.data))) := by
  have hgo : goEvents events = (events.map (·.data)).map EventData.goEvent := by
    rw [goEvents, List.map_map]
    rfl
  rw [hgo, ← walk_withoutMutations]
  constructor
  · exact transactions_of_walk fun e he => (mem_withoutMutations.mp he).2
  · exact walk_of_transactions

/-- **Gate 1 accepts exactly its grammar.** -/
theorem verifyGate1Invariants_iff_grammar (stream : List Event) :
    verifyGate1Invariants stream = .ok () ↔ Grammar stream := by
  rw [verifyGate1Invariants_iff_walks]
  constructor
  · rintro ⟨start, events, seq, commit, rfl, hinc, hwalk⟩
    have hgo : goEvents events = (events.map (·.data)).map EventData.goEvent := by
      rw [goEvents, List.map_map]
      rfl
    have hblock : ∀ e ∈ events,
        (∀ ev, e.data ≠ .blockStart ev) ∧ ∀ ev, e.data ≠ .blockCommit ev := by
      intro e he
      rw [hgo] at hwalk
      exact not_block_of_walk hwalk (List.mem_map_of_mem he)
    refine ⟨⟨start, _, rfl, ?_⟩, ⟨⟨0, .blockStart start⟩ :: events, seq, commit, rfl, ?_⟩,
      increasing_iff_pairwise.mp hinc, ?_⟩
    · intro e he ev
      rcases List.mem_append.mp he with he | he
      · exact (hblock e he).1 ev
      · rw [List.mem_singleton.mp he]
        simp
    · rintro e (_ | ⟨_, he⟩) ev
      · simp
      · exact (hblock e he).2 ev
    · rw [interior_cons_concat]
      exact (walk_interior_iff events).mp hwalk
  · rintro ⟨⟨start, rest, rfl, -⟩, ⟨front, seq, commit, heq, -⟩, hinc, htxs⟩
    rcases front with _ | ⟨first, events⟩
    · simp at heq
    · rw [List.cons_append] at heq
      obtain ⟨rfl, rfl⟩ := List.cons_eq_cons.mp heq
      rw [interior_cons_concat] at htxs
      exact ⟨start, events, seq, commit, rfl, increasing_iff_pairwise.mpr hinc,
        (walk_interior_iff events).mpr htxs⟩

end KaySentinel.Validation
