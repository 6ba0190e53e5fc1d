import KaySentinel.Cse.Event
import KaySentinel.Lib.OrdMap
import KaySentinel.Lib.Journal

/-!
# Timelines

The raw relational tables of a transaction: one timeline of observed transitions for
each canonical key, and the reduction of a timeline to a single transition.
-/

namespace KaySentinel.Builder

open Cse

structure EventId where
  val : UInt64
deriving DecidableEq

/-- The execution coordinate of a lifecycle event. -/
structure TraceProvenance where
  traceOrdinal : UInt64
  txIndex : UInt64
  frameId : ℕ
  callDepth : ℕ
  frameOrdinal : UInt32
deriving DecidableEq

/-- `TraceProvenance::default()`. -/
def TraceProvenance.default : TraceProvenance :=
  { traceOrdinal := 0, txIndex := 0, frameId := 0, callDepth := 0, frameOrdinal := 0 }

/-- The events a reduced transition comes from. -/
abbrev Provenance := Finset EventId

/-! ## Keys -/

inductive CanonicalKey where
  | balance (address : Address)
  | nonce (address : Address)
  | code (address : Address)
  | storage (address : Address) (slot : Word)
  | transient (address : Address) (slot : Word)
deriving DecidableEq

namespace CanonicalKey

/-- The account a key belongs to. -/
def address : CanonicalKey → Address
  | balance address => address
  | nonce address => address
  | code address => address
  | storage address _ => address
  | transient address _ => address

/-- The position of the variant in the declaration, by which the derived order compares
first. -/
def tag : CanonicalKey → ℕ
  | balance _ => 0
  | nonce _ => 1
  | code _ => 2
  | storage _ _ => 3
  | transient _ _ => 4

def slotBytes : CanonicalKey → List UInt8
  | storage _ slot => slot.toList
  | transient _ slot => slot.toList
  | _ => []

/-- The derived order: by variant, then address, then slot. -/
instance : Ord CanonicalKey :=
  ⟨compareLex (compareOn tag) (compareLex (compareOn address) (compareOn slotBytes))⟩

instance : Std.TransOrd CanonicalKey :=
  inferInstanceAs (Std.TransCmp
    (compareLex (compareOn tag) (compareLex (compareOn address) (compareOn slotBytes))))

instance : Std.LawfulEqOrd CanonicalKey where
  eq_of_compare {a b} h := by
    have hlex : compareLex (compareOn tag) (compareLex (compareOn address) (compareOn slotBytes))
        a b = .eq := h
    simp only [compareLex_eq_eq, compareOn, Std.LawfulEqCmp.compare_eq_iff_eq] at hlex
    obtain ⟨htag, haddress, hslot⟩ := hlex
    cases a <;> cases b <;> simp_all [tag, address, slotBytes, Bytes.toList_inj]

/-- The type of the values at a key. -/
@[reducible] def Value : CanonicalKey → Type
  | nonce _ => UInt64
  | _ => Word

instance : ∀ k : CanonicalKey, DecidableEq k.Value
  | balance _ => inferInstanceAs (DecidableEq Word)
  | nonce _ => inferInstanceAs (DecidableEq UInt64)
  | code _ => inferInstanceAs (DecidableEq Word)
  | storage _ _ => inferInstanceAs (DecidableEq Word)
  | transient _ _ => inferInstanceAs (DecidableEq Word)

end CanonicalKey

/-! ## Observed transitions -/

structure ObservedTransition (T : Type) where
  before : T
  after : T
  eventId : EventId
deriving DecidableEq

inductive CseLifecyclePayload where
  | created (p : ContractCreated)
  | destroyed (p : ContractDestroyed)
deriving DecidableEq

structure ObservedLifecycle where
  payload : CseLifecyclePayload
  eventId : EventId
  traceProvenance : TraceProvenance
deriving DecidableEq

structure ObservedLog where
  payload : LogEmitted
  eventId : EventId
deriving DecidableEq

structure Timeline (T : Type) where
  history : List (ObservedTransition T)
deriving DecidableEq

namespace Timeline

variable {T : Type}

def new : Timeline T := ⟨[]⟩

def push (tl : Timeline T) (before after : T) (eventId : EventId) : Timeline T :=
  ⟨tl.history ++ [{ before := before, after := after, eventId := eventId }]⟩

/-- The transitions without the events that made them. -/
def transitions (tl : Timeline T) : List (T × T) := tl.history.map fun o => (o.before, o.after)

end Timeline

/-! ## Reduction of a timeline -/

inductive TimelineError where
  | emptyTimeline
  | discontinuousLineage (previousEvent currentEvent : EventId)
deriving DecidableEq

structure ReducedTransition (T : Type) where
  initial : T
  terminal : T
  provenance : Provenance
deriving DecidableEq

namespace Timeline

variable {T : Type} [DecidableEq T]

/-- The loop of `reduce` over the observations after the first. -/
def reduceLoop (initial currentAfter : T) (lastEventId : EventId) (provenance : Provenance) :
    List (ObservedTransition T) → Except TimelineError (ReducedTransition T)
  | [] => .ok { initial := initial, terminal := currentAfter, provenance := provenance }
  | observation :: rest =>
      if observation.before ≠ currentAfter then
        .error (.discontinuousLineage lastEventId observation.eventId)
      else
        reduceLoop initial observation.after observation.eventId
          (insert observation.eventId provenance) rest

def reduce (tl : Timeline T) : Except TimelineError (ReducedTransition T) :=
  match tl.history with
  | [] => .error .emptyTimeline
  | first :: rest => reduceLoop first.before first.after first.eventId {first.eventId} rest

/-! ### The observations of a timeline -/

/-- Each observation starts from the value that the one before it left. -/
def Unbroken (l : List (ObservedTransition T)) : Prop :=
  l.IsChain fun o o' => o'.before = o.after

/-- The transition leads from the first value of the observations to the last one, and comes
from all of their events. -/
structure Collapses (l : List (ObservedTransition T)) (t : ReducedTransition T) : Prop where
  initial : l.head?.map (·.before) = some t.initial
  terminal : l.getLast?.map (·.after) = some t.terminal
  provenance : t.provenance = (l.map (·.eventId)).toFinset

/-- `previous` and `current` are the events of two consecutive observations whose values do
not chain. -/
def BreaksAt (l : List (ObservedTransition T)) (previous current : EventId) : Prop :=
  ∃ o o', [o, o'] <:+: l ∧ o'.before ≠ o.after ∧ o.eventId = previous ∧ o'.eventId = current

omit [DecidableEq T] in
lemma BreaksAt.not_unbroken {l : List (ObservedTransition T)} {previous current : EventId}
    (h : BreaksAt l previous current) : ¬ Unbroken l := by
  obtain ⟨o, o', hinfix, hne, -, -⟩ := h
  intro hl
  have hpair := hl.infix hinfix
  rw [List.isChain_pair] at hpair
  exact hne hpair

omit [DecidableEq T] in
lemma BreaksAt.cons {l : List (ObservedTransition T)} {previous current : EventId}
    (h : BreaksAt l previous current) (o : ObservedTransition T) :
    BreaksAt (o :: l) previous current := by
  obtain ⟨o₁, o₂, hinfix, hrest⟩ := h
  exact ⟨o₁, o₂, hinfix.trans (List.suffix_cons o l).isInfix, hrest⟩

/-- Observations are unbroken exactly if their transitions are linked. -/
lemma unbroken_iff_linked {l : List (ObservedTransition T)} :
    Unbroken l ↔ Journal.Linked (transitions ⟨l⟩) := by
  rw [Journal.linked_iff_isChain, transitions, List.isChain_map]
  rfl

/-- The transition that unbroken observations collapse to is where their chain leads. -/
lemma Collapses.chain {l : List (ObservedTransition T)} {t : ReducedTransition T}
    (h : Collapses l t) (hl : Unbroken l) :
    ∃ a rest, transitions ⟨l⟩ = (t.initial, a) :: rest ∧
      Journal.chain t.initial (transitions ⟨l⟩) = some t.terminal := by
  obtain ⟨hinitial, hterminal, -⟩ := h
  rcases l with _ | ⟨first, rest⟩
  · simp at hinitial
  have hfirst : first.before = t.initial := Option.some.inj hinitial
  have htransitions : transitions ⟨first :: rest⟩ =
      (first.before, first.after) :: transitions ⟨rest⟩ := rfl
  have hlast : Journal.terminal first.before (transitions ⟨first :: rest⟩) = t.terminal := by
    rw [Journal.terminal, transitions, List.getLast?_map, Option.map_map]
    exact congrArg (·.getD first.before) hterminal
  have hchain := Journal.linked_cons_iff.mp (htransitions ▸ unbroken_iff_linked.mp hl)
  rw [← htransitions, Journal.chain_isSome_iff, hlast] at hchain
  rw [← hfirst]
  exact ⟨first.after, _, htransitions, hchain⟩

/-- The loop collapses the observations from the last one on, or stops where they break. -/
lemma reduceLoop_spec (initial : T) (last : ObservedTransition T) (provenance : Provenance)
    (rest : List (ObservedTransition T)) :
    (Unbroken (last :: rest) ∧ ∃ t,
        reduceLoop initial last.after last.eventId provenance rest = .ok t ∧
        t.initial = initial ∧ (last :: rest).getLast?.map (·.after) = some t.terminal ∧
        t.provenance = provenance ∪ (rest.map (·.eventId)).toFinset) ∨
      ∃ previous current, reduceLoop initial last.after last.eventId provenance rest =
          .error (.discontinuousLineage previous current) ∧
        BreaksAt (last :: rest) previous current := by
  induction rest generalizing last provenance with
  | nil => exact .inl ⟨List.isChain_singleton last, _, rfl, rfl, rfl, by simp⟩
  | cons observation rest ih =>
    rw [reduceLoop]
    by_cases h : observation.before = last.after
    · rw [if_neg (not_not_intro h)]
      rcases ih observation (insert observation.eventId provenance) with
        ⟨hchain, t, ht, hinitial, hterminal, hprovenance⟩ | ⟨previous, current, he, hbreak⟩
      · refine .inl ⟨List.isChain_cons_cons.mpr ⟨h, hchain⟩, t, ht, hinitial, ?_, ?_⟩
        · rwa [List.getLast?_cons_cons]
        · rw [hprovenance, List.map_cons, List.toFinset_cons, Finset.insert_union,
            Finset.union_insert]
      · exact .inr ⟨previous, current, he, hbreak.cons last⟩
    · rw [if_pos h]
      exact .inr ⟨_, _, rfl, last, observation, ⟨[], rest, rfl⟩, h, rfl, rfl⟩

/-- **Reduction of a timeline.**  It collapses an unbroken timeline, and for any other names
two consecutive events whose values do not chain. -/
theorem reduce_spec {tl : Timeline T} (h : tl.history ≠ []) :
    (Unbroken tl.history ∧ ∃ t, tl.reduce = .ok t ∧ Collapses tl.history t) ∨
      ∃ previous current, tl.reduce = .error (.discontinuousLineage previous current) ∧
        BreaksAt tl.history previous current := by
  obtain ⟨first, rest, hhistory⟩ := List.exists_cons_of_ne_nil h
  have hreduce : tl.reduce =
      reduceLoop first.before first.after first.eventId {first.eventId} rest := by
    rw [reduce, hhistory]
  rw [hreduce, hhistory]
  rcases reduceLoop_spec first.before first {first.eventId} rest with
    ⟨hchain, t, ht, hinitial, hterminal, hprovenance⟩ | hbreak
  · refine .inl ⟨hchain, t, ht, ⟨?_, hterminal, ?_⟩⟩
    · rw [hinitial]
      rfl
    · rw [hprovenance, List.map_cons, List.toFinset_cons, Finset.singleton_union]
  · exact .inr hbreak

end Timeline

/-! ## Variants -/

inductive TimelineVariant where
  | balance (tl : Timeline Word)
  | nonce (tl : Timeline UInt64)
  | code (tl : Timeline Word)
  | storage (tl : Timeline Word)
  | transient (tl : Timeline Word)
deriving DecidableEq

inductive ReducedVariant where
  | balance (t : ReducedTransition Word)
  | nonce (t : ReducedTransition UInt64)
  | code (t : ReducedTransition Word)
  | storage (t : ReducedTransition Word)
  | transient (t : ReducedTransition Word)
deriving DecidableEq

/-- The variant of a timeline at a key. -/
def TimelineVariant.of : (key : CanonicalKey) → Timeline key.Value → TimelineVariant
  | .balance _, tl => .balance tl
  | .nonce _, tl => .nonce tl
  | .code _, tl => .code tl
  | .storage _ _, tl => .storage tl
  | .transient _ _, tl => .transient tl

/-- The variant of a reduced transition at a key. -/
def ReducedVariant.of : (key : CanonicalKey) → ReducedTransition key.Value → ReducedVariant
  | .balance _, t => .balance t
  | .nonce _, t => .nonce t
  | .code _, t => .code t
  | .storage _ _, t => .storage t
  | .transient _ _, t => .transient t

/-- `if let` the variant of the key `{ tl.push(before, after, event_id) }`. -/
def TimelineVariant.push :
    (key : CanonicalKey) → key.Value → key.Value → EventId → TimelineVariant → TimelineVariant
  | .balance _, before, after, eventId, .balance tl => .balance (tl.push before after eventId)
  | .nonce _, before, after, eventId, .nonce tl => .nonce (tl.push before after eventId)
  | .code _, before, after, eventId, .code tl => .code (tl.push before after eventId)
  | .storage _ _, before, after, eventId, .storage tl => .storage (tl.push before after eventId)
  | .transient _ _, before, after, eventId, .transient tl =>
      .transient (tl.push before after eventId)
  | _, _, _, _, entry => entry

@[simp] lemma TimelineVariant.push_of (key : CanonicalKey) (before after : key.Value)
    (eventId : EventId) (tl : Timeline key.Value) :
    TimelineVariant.push key before after eventId (.of key tl) =
      .of key (tl.push before after eventId) := by
  cases key <;> rfl

def TimelineVariant.reduce : TimelineVariant → Except TimelineError ReducedVariant
  | .balance tl => .balance <$> tl.reduce
  | .nonce tl => .nonce <$> tl.reduce
  | .code tl => .code <$> tl.reduce
  | .storage tl => .storage <$> tl.reduce
  | .transient tl => .transient <$> tl.reduce

lemma TimelineVariant.reduce_of (key : CanonicalKey) (tl : Timeline key.Value) :
    (TimelineVariant.of key tl).reduce = ReducedVariant.of key <$> tl.reduce := by
  cases key <;> rfl

end KaySentinel.Builder
