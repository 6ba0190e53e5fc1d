import KaySentinel.Bytes
import KaySentinel.Lib.Eviction

/-!
# The broadcast of hook calls

A `BroadcastSink` passes every hook call on to its active sinks.  A sink that panics is reported
and evicted, together with every other sink of its name: `isolated_iff`.
-/

namespace KaySentinel.Multiplexer

/-- The types of go-ethereum that a hook call carries and the broadcast does not look into. -/
structure HostTypes where
  VMContext : Type
  Transaction : Type
  Receipt : Type
  OpContext : Type
  BalanceChangeReason : Type

/-- A call of a method of a `HookSink`. -/
inductive HookCall (T : HostTypes) where
  | onTxStart (vm : T.VMContext) (tx : T.Transaction) (from_ : Address)
  | onTxEnd (receipt : Option T.Receipt) (err : Option String)
  | onEnter (depth : Int64) (typ : UInt8) (from_ to_ : Address) (input : List UInt8) (gas : UInt64)
      (value : Option ℤ)
  | onExit (depth : Int64) (output : List UInt8) (gasUsed : UInt64) (err : Option String)
      (reverted : Bool)
  | onFault (pc : UInt64) (op : UInt8) (gas cost : UInt64) (scope : T.OpContext) (depth : Int64)
      (err : Option String)
  | onBalanceChange (addr : Address) (prev new : Option ℤ) (reason : T.BalanceChangeReason)

/-- A sink: what its `Name` returns, and its place in the list given to `NewBroadcastSink`, which
tells sinks of one name apart. -/
structure HookSink where
  name : String
  slot : ℕ
deriving DecidableEq

/-- The time and the stack trace of a report are left out. -/
structure PanicReport where
  sinkName : String
  callback : String
deriving DecidableEq

structure BroadcastSink where
  active : List HookSink
  strictMode : Bool
  panicReports : List PanicReport

/-- The sinks with the given names. -/
def initialSinks (names : List String) : List HookSink :=
  names.zipIdx.map fun p => { name := p.1, slot := p.2 }

def newBroadcastSink (strictMode : Bool) (names : List String) : BroadcastSink where
  active := initialSinks names
  strictMode := strictMode
  panicReports := []

/-- What a sink was called with, in which hook call, and the value it panicked with. -/
structure Delivery (T : HostTypes) (P : Type) where
  index : ℕ
  sink : HookSink
  call : HookCall T
  panic : Option P

/-- After hook calls: the broadcast, what it delivered, and the panic that it threw again. -/
structure Outcome (T : HostTypes) (P : Type) where
  sink : BroadcastSink
  log : List (Delivery T P)
  rethrown : Option P

namespace BroadcastSink

def recordAndEvacuate (b : BroadcastSink) (sinkName callback : String) : BroadcastSink :=
  { b with
    panicReports := b.panicReports ++ [{ sinkName := sinkName, callback := callback }]
    active := b.active.filter fun s => s.name ≠ sinkName }

variable {T : HostTypes} {P : Type} (panics : ℕ → HookSink → Option P)

/-- The deferred function of `guard`, after the call of the sink returned or panicked. -/
def guard (b : BroadcastSink) (sink : HookSink) (callback : String) (fn : Option P) :
    BroadcastSink × Option P :=
  match fn with
  | none => (b, none)
  | some r => (b.recordAndEvacuate sink.name callback, if b.strictMode then some r else none)

/-- The loop over a snapshot of the active sinks. -/
def dispatch (index : ℕ) (callback : String) (call : HookCall T) :
    BroadcastSink → List HookSink → Outcome T P
  | b, [] => { sink := b, log := [], rethrown := none }
  | b, s :: rest =>
      let delivery : Delivery T P :=
        { index := index, sink := s, call := call, panic := panics index s }
      match b.guard s callback (panics index s) with
      | (b, some r) => { sink := b, log := [delivery], rethrown := some r }
      | (b, none) =>
          let outcome := dispatch index callback call b rest
          { outcome with log := delivery :: outcome.log }

/-- The `*tracing.Hooks`: every hook ranges over a snapshot of the active sinks. -/
def hooks (b : BroadcastSink) (index : ℕ) : HookCall T → Outcome T P
  | .onTxStart vm tx from_ =>
      dispatch panics index "OnTxStart" (.onTxStart vm tx from_) b b.active
  | .onTxEnd receipt err =>
      dispatch panics index "OnTxEnd" (.onTxEnd receipt err) b b.active
  | .onEnter depth typ from_ to_ input gas value =>
      dispatch panics index "OnEnter" (.onEnter depth typ from_ to_ input gas value) b b.active
  | .onExit depth output gasUsed err reverted =>
      dispatch panics index "OnExit" (.onExit depth output gasUsed err reverted) b b.active
  | .onFault pc op gas cost scope depth err =>
      dispatch panics index "OnFault" (.onFault pc op gas cost scope depth err) b b.active
  | .onBalanceChange addr prev new reason =>
      dispatch panics index "OnBalanceChange" (.onBalanceChange addr prev new reason) b b.active

/-- The hook calls one after the other, from the given index on.  A panic that is thrown again
ends them. -/
def run : ℕ → BroadcastSink → List (HookCall T) → Outcome T P
  | _, b, [] => { sink := b, log := [], rethrown := none }
  | index, b, call :: calls =>
      let first := b.hooks panics index call
      match first.rethrown with
      | some _ => first
      | none =>
          let rest := run (index + 1) first.sink calls
          { rest with log := first.log ++ rest.log }

end BroadcastSink

/-! ## Isolation -/

/-- The name under which a hook guards the calls of the sinks. -/
def HookCall.callback {T : HostTypes} : HookCall T → String
  | .onTxStart _ _ _ => "OnTxStart"
  | .onTxEnd _ _ => "OnTxEnd"
  | .onEnter _ _ _ _ _ _ _ => "OnEnter"
  | .onExit _ _ _ _ _ => "OnExit"
  | .onFault _ _ _ _ _ _ _ => "OnFault"
  | .onBalanceChange _ _ _ _ => "OnBalanceChange"

variable {T : HostTypes} {P : Type}

/-- The entry of `panicReports` for a delivery in which the sink panicked. -/
def Delivery.report (d : Delivery T P) : PanicReport :=
  { sinkName := d.sink.name, callback := d.call.callback }

/-- Panics are isolated: only a sink that has panicked misses hook calls. -/
structure Isolated (sinks : List HookSink) (calls : List (HookCall T)) (outcome : Outcome T P) :
    Prop where
  /-- What is delivered are the hook calls. -/
  faithful : ∀ d ∈ outcome.log, calls[d.index]? = some d.call
  /-- A sink that has not panicked so far receives every hook call exactly once. -/
  receives : ∀ s ∈ sinks, ∀ k < calls.length,
    (∀ d ∈ outcome.log, d.sink = s → d.index < k → d.panic = none) →
      (outcome.log.map fun d => (d.index, d.sink)).count (k, s) = 1
  /-- The hook calls are delivered in order. -/
  ordered : outcome.log.Pairwise fun d e => d.index ≤ e.index
  /-- A sink that panicked receives no call after that. -/
  stops : outcome.log.Pairwise fun d e => d.sink = e.sink → d.panic = none
  /-- There is one report for each panic. -/
  reports : outcome.sink.panicReports =
    (outcome.log.filter fun d => d.panic.isSome).map Delivery.report
  /-- The host sees no panic. -/
  contained : outcome.rethrown = none

variable (panics : ℕ → HookSink → Option P)

/-- The choice whether a sink panics in a hook call. -/
def panicsIn (k : ℕ) (s : HookSink) : Bool := (panics k s).isSome

/-- At any hook call but the last, of the sinks with one name either all panic by then or none. -/
def PanicTogether (sinks : List HookSink) (n : ℕ) : Prop :=
  ∀ k, k + 1 < n → ∀ s ∈ sinks, ∀ t ∈ sinks, s.name = t.name →
    (∃ j ≤ k, panicsIn panics j s = true) → ∃ j ≤ k, panicsIn panics j t = true

/-! ## What a hook call does -/

/-- What a sink gets of a hook call. -/
def delivery (index : ℕ) (call : HookCall T) (s : HookSink) : Delivery T P :=
  { index := index, sink := s, call := call, panic := panics index s }

/-- The reports that deliveries lead to. -/
def reportsOf (log : List (Delivery T P)) : List PanicReport :=
  (log.filter fun d => d.panic.isSome).map Delivery.report

@[simp] lemma reportsOf_append (log log' : List (Delivery T P)) :
    reportsOf (log ++ log') = reportsOf log ++ reportsOf log' := by
  rw [reportsOf, List.filter_append, List.map_append]
  rfl

variable {panics}

/-- The loop calls every sink of the snapshot, and evicts those that have the name of one that
panicked. -/
lemma dispatch_eq {b : BroadcastSink} (hstrict : b.strictMode = false) (index : ℕ)
    (call : HookCall T) (snapshot : List HookSink) :
    b.dispatch panics index call.callback call snapshot =
      { sink :=
          { active := b.active.filter fun t =>
              snapshot.all fun s => !panicsIn panics index s || s.name ≠ t.name
            strictMode := false
            panicReports :=
              b.panicReports ++ reportsOf (snapshot.map (delivery panics index call)) }
        log := snapshot.map (delivery panics index call)
        rethrown := none } := by
  induction snapshot generalizing b with
  | nil => simp [BroadcastSink.dispatch, reportsOf, ← hstrict]
  | cons s rest ih =>
    rw [BroadcastSink.dispatch]
    cases hpanic : panics index s with
    | none =>
      have hreports : reportsOf ((s :: rest).map (delivery panics index call)) =
          reportsOf (rest.map (delivery panics index call)) := by
        simp [reportsOf, delivery, hpanic]
      simp only [BroadcastSink.guard]
      rw [ih hstrict, hreports]
      simp [panicsIn, hpanic, delivery]
    | some r =>
      have hreports : reportsOf ((s :: rest).map (delivery panics index call)) =
          ⟨s.name, call.callback⟩ :: reportsOf (rest.map (delivery panics index call)) := by
        simp [reportsOf, delivery, hpanic, Delivery.report]
      have hcalm : (b.recordAndEvacuate s.name call.callback).strictMode = false := hstrict
      simp only [BroadcastSink.guard, hstrict]
      rw [if_neg Bool.false_ne_true, hreports]
      simp only [ih hcalm]
      simp [panicsIn, hpanic, delivery, BroadcastSink.recordAndEvacuate, List.filter_filter,
        eq_comm, Bool.and_comm]

/-- The sinks that are active in the `k`-th hook call. -/
def activeAt (panics : ℕ → HookSink → Option P) (sinks : List HookSink) (k : ℕ) : List HookSink :=
  Eviction.activeAt HookSink.name (panicsIn panics) sinks k

lemma hooks_eq {b : BroadcastSink} (hstrict : b.strictMode = false) (index : ℕ)
    (call : HookCall T) :
    b.hooks panics index call =
      { sink :=
          { active := Eviction.evict HookSink.name (panicsIn panics index) b.active
            strictMode := false
            panicReports :=
              b.panicReports ++ reportsOf (b.active.map (delivery panics index call)) }
        log := b.active.map (delivery panics index call)
        rethrown := none } := by
  rw [Eviction.evict, ← dispatch_eq hstrict]
  cases call <;> rfl

/-- What is delivered from the `k`-th hook call on. -/
def deliveries (panics : ℕ → HookSink → Option P) (sinks : List HookSink) (k : ℕ)
    (calls : List (HookCall T)) : List (Delivery T P) :=
  (calls.zipIdx k).flatMap fun p => (activeAt panics sinks p.2).map (delivery panics p.2 p.1)

/-- **The run.**  Every hook call is delivered to the sinks that are active in it. -/
lemma run_eq {sinks : List HookSink} {k : ℕ} {b : BroadcastSink} (hstrict : b.strictMode = false)
    (hactive : b.active = activeAt panics sinks k) (calls : List (HookCall T)) :
    b.run panics k calls =
      { sink :=
          { active := activeAt panics sinks (k + calls.length)
            strictMode := false
            panicReports := b.panicReports ++ reportsOf (deliveries panics sinks k calls) }
        log := deliveries panics sinks k calls
        rethrown := none } := by
  induction calls generalizing k b with
  | nil => simp [BroadcastSink.run, deliveries, reportsOf, ← hactive, ← hstrict]
  | cons call calls ih =>
    have hdeliveries : deliveries panics sinks k (call :: calls) =
        (activeAt panics sinks k).map (delivery panics k call) ++
          deliveries panics sinks (k + 1) calls := by
      rw [deliveries, List.zipIdx_cons, List.flatMap_cons]
      rfl
    have hnext : Eviction.evict HookSink.name (panicsIn panics k) b.active =
        activeAt panics sinks (k + 1) := by
      rw [hactive]
      rfl
    have hrest := ih (k := k + 1) (b :=
      { active := activeAt panics sinks (k + 1)
        strictMode := false
        panicReports :=
          b.panicReports ++ reportsOf ((activeAt panics sinks k).map (delivery panics k call)) })
      rfl rfl
    have hlast : k + (call :: calls).length = k + 1 + calls.length := by
      rw [List.length_cons]
      omega
    rw [BroadcastSink.run, hooks_eq hstrict, hnext, hactive, hdeliveries, reportsOf_append, hlast]
    simp only [hrest, List.append_assoc]

/-- What is delivered in a run of a new broadcast. -/
lemma run_new (names : List String) (calls : List (HookCall T)) :
    (newBroadcastSink false names).run panics 0 calls =
      { sink :=
          { active := activeAt panics (initialSinks names) calls.length
            strictMode := false
            panicReports := reportsOf (deliveries panics (initialSinks names) 0 calls) }
        log := deliveries panics (initialSinks names) 0 calls
        rethrown := none } := by
  have h := @run_eq T P panics (initialSinks names) 0 (newBroadcastSink false names) rfl rfl calls
  rwa [Nat.zero_add] at h

/-! ## What is delivered -/

variable {sinks : List HookSink} {calls : List (HookCall T)} {d : Delivery T P}

lemma mem_deliveries : d ∈ deliveries panics sinks 0 calls ↔
    calls[d.index]? = some d.call ∧ d.sink ∈ activeAt panics sinks d.index ∧
      d.panic = panics d.index d.sink := by
  simp only [deliveries, List.mem_flatMap, List.mem_map]
  constructor
  · rintro ⟨⟨call, k⟩, hcall, s, hs, rfl⟩
    exact ⟨List.mem_zipIdx_iff_getElem?.mp hcall, hs, rfl⟩
  · rintro ⟨hcall, hs, hpanic⟩
    refine ⟨(d.call, d.index), List.mem_zipIdx_iff_getElem?.mpr hcall, d.sink, hs, ?_⟩
    rw [delivery, ← hpanic]

lemma nodup_initialSinks (names : List String) : (initialSinks names).Nodup := by
  have hslots : ((initialSinks names).map HookSink.slot).Nodup := by
    rw [initialSinks, List.map_map]
    have : (HookSink.slot ∘ fun p : String × ℕ => { name := p.1, slot := p.2 }) = Prod.snd := rfl
    rw [this, List.zipIdx_map_snd]
    exact List.nodup_range'
  exact hslots.of_map _

lemma mem_initialSinks {names : List String} {s : HookSink} :
    s ∈ initialSinks names ↔ names[s.slot]? = some s.name := by
  simp only [initialSinks, List.mem_map]
  constructor
  · rintro ⟨p, hp, rfl⟩
    exact List.mem_zipIdx_iff_getElem?.mp hp
  · intro h
    exact ⟨(s.name, s.slot), List.mem_zipIdx_iff_getElem?.mpr h, rfl⟩

/-- Sinks with pairwise distinct names may panic in any pattern. -/
lemma panicTogether_of_nodup {names : List String} (h : names.Nodup) (n : ℕ) :
    PanicTogether panics (initialSinks names) n := by
  refine Eviction.together_of_injective fun s hs t ht heq => ?_
  have hs' := mem_initialSinks.mp hs
  have ht' := mem_initialSinks.mp ht
  have hslot : s.slot < names.length := (List.getElem?_eq_some_iff.mp hs').1
  have hsame : s.slot = t.slot := (List.getElem?_inj hslot h).mp (by rw [hs', ht', heq])
  obtain ⟨name, slot⟩ := s
  obtain ⟨name', slot'⟩ := t
  rw [HookSink.mk.injEq]
  exact ⟨heq, hsame⟩

/-- The hook call and the sink of a delivery. -/
def Delivery.place (d : Delivery T P) : ℕ × HookSink := (d.index, d.sink)

/-- No sink gets a hook call twice. -/
lemma nodup_places (hnodup : sinks.Nodup) :
    ((deliveries panics sinks 0 calls).map Delivery.place).Nodup := by
  have hplaces : (deliveries panics sinks 0 calls).map Delivery.place =
      (calls.zipIdx.map Prod.snd).flatMap fun k => (activeAt panics sinks k).map (Prod.mk k) := by
    rw [deliveries, List.map_flatMap, List.flatMap_map]
    simp only [List.map_map]
    rfl
  rw [hplaces, List.zipIdx_map_snd, List.nodup_flatMap]
  constructor
  · intro k _
    exact (Eviction.nodup_activeAt hnodup).map (Prod.mk_right_injective k)
  · refine List.Pairwise.imp ?_ List.nodup_range'
    intro k k' hne
    simp only [Function.onFun, List.disjoint_left, List.mem_map]
    rintro _ ⟨s, _, rfl⟩ ⟨t, _, heq⟩
    exact hne (congrArg Prod.fst heq).symm

/-- The deliveries come in the order of the hook calls. -/
lemma pairwise_deliveries : (deliveries panics sinks 0 calls).Pairwise fun d e =>
    d.index ≤ e.index := by
  rw [deliveries, List.pairwise_flatMap]
  constructor
  · rintro ⟨call, k⟩ _
    exact List.pairwise_map.mpr (List.pairwise_of_forall fun s t => le_rfl)
  · have hindices : (calls.zipIdx.map Prod.snd).Pairwise (· ≤ ·) := by
      rw [List.zipIdx_map_snd]
      exact List.pairwise_le_range'
    refine List.Pairwise.imp ?_ (List.pairwise_map.mp hindices)
    rintro p q hle d hd e he
    obtain ⟨s, _, rfl⟩ := List.mem_map.mp hd
    obtain ⟨t, _, rfl⟩ := List.mem_map.mp he
    exact hle

/-- A sink that has not panicked before a hook call was never to panic. -/
lemma innocent_of_no_panic {s : HookSink} {k : ℕ} (hk : k < calls.length)
    (hactive : ∀ i ≤ k, Eviction.Innocent (panicsIn panics) i s → s ∈ activeAt panics sinks i)
    (h : ∀ d ∈ deliveries panics sinks 0 calls, d.sink = s → d.index < k → d.panic = none) :
    Eviction.Innocent (panicsIn panics) k s := by
  have hupto : ∀ i ≤ k, Eviction.Innocent (panicsIn panics) i s := by
    intro i hi
    induction i with
    | zero => exact fun j hj => absurd hj (Nat.not_lt_zero j)
    | succ i ih =>
      have hinnocent := ih (Nat.le_of_succ_le hi)
      have hmem := hactive i (Nat.le_of_succ_le hi) hinnocent
      have hlt : i < calls.length := by omega
      have hpanic := h (delivery panics i calls[i] s)
        (mem_deliveries.mpr ⟨List.getElem?_eq_getElem hlt, hmem, rfl⟩) rfl hi
      refine Eviction.innocent_succ.mpr ⟨hinnocent, ?_⟩
      have hnone : panics i s = none := hpanic
      rw [panicsIn, hnone]
      rfl
  exact hupto k le_rfl

/-- Only a sink that has not panicked gets another hook call. -/
lemma stops_deliveries (hnodup : sinks.Nodup) :
    (deliveries panics sinks 0 calls).Pairwise fun d e => d.sink = e.sink → d.panic = none := by
  have hplaces := List.pairwise_map.mp (@nodup_places T P panics sinks calls hnodup)
  refine (hplaces.and pairwise_deliveries).imp_of_mem ?_
  intro d e hd he hde hsink
  obtain ⟨hne, hle⟩ := hde
  obtain ⟨-, -, hpanic⟩ := mem_deliveries.mp hd
  obtain ⟨-, hactive, -⟩ := mem_deliveries.mp he
  have hlt : d.index < e.index :=
    lt_of_le_of_ne hle fun heq => hne (Prod.ext heq hsink)
  have hinnocent := (Eviction.innocent_of_mem_activeAt hactive).2 d.index hlt
  rw [← hsink, panicsIn, Option.isSome_eq_false_iff, Option.isNone_iff_eq_none] at hinnocent
  rw [hpanic, hinnocent]

/-- **Panic isolation, exactly.**  In non-strict mode a panic is isolated, for any names, hook
calls and choice of panics, if and only if at any hook call but the last the sinks with one name
have either all panicked or none has. -/
theorem isolated_iff (names : List String) (calls : List (HookCall T))
    (panics : ℕ → HookSink → Option P) :
    Isolated (initialSinks names) calls ((newBroadcastSink false names).run panics 0 calls) ↔
      PanicTogether panics (initialSinks names) calls.length := by
  have htogether : PanicTogether panics (initialSinks names) calls.length ↔
      ∀ k < calls.length, ∀ s ∈ initialSinks names, Eviction.Innocent (panicsIn panics) k s →
        s ∈ activeAt panics (initialSinks names) k := Eviction.active_iff_innocent_iff.symm
  rw [run_new, htogether]
  constructor
  · intro h k hk s hs hinnocent
    have hcount := h.receives s hs k hk fun d hd hsink hlt => by
      have hd' := (mem_deliveries.mp hd).2.2
      have hpanic := hinnocent d.index hlt
      rw [panicsIn, Option.isSome_eq_false_iff, Option.isNone_iff_eq_none] at hpanic
      rw [hd', hsink, hpanic]
    have hmem : (k, s) ∈ (deliveries panics (initialSinks names) 0 calls).map Delivery.place := by
      refine List.count_pos_iff.mp ?_
      exact Nat.lt_of_lt_of_eq Nat.zero_lt_one hcount.symm
    obtain ⟨d, hd, hplace⟩ := List.mem_map.mp hmem
    obtain ⟨rfl, rfl⟩ := Prod.mk.inj hplace
    exact (mem_deliveries.mp hd).2.1
  · intro h
    have hnodup := nodup_initialSinks names
    refine
      { faithful := fun d hd => (mem_deliveries.mp hd).1
        receives := fun s hs k hk hpanic => ?_
        ordered := pairwise_deliveries
        stops := stops_deliveries hnodup
        reports := rfl
        contained := rfl }
    have hinnocent := innocent_of_no_panic hk (fun i hi => h i (by omega) s hs) hpanic
    refine List.count_eq_one_of_mem (nodup_places hnodup) (List.mem_map.mpr ?_)
    exact ⟨delivery panics k calls[k] s,
      mem_deliveries.mpr ⟨List.getElem?_eq_getElem hk, h k hk s hs hinnocent, rfl⟩, rfl⟩

/-- Two sinks of one name, of which the first panics in the first of two hook calls.  The second
sink never receives the second call. -/
theorem namesake_evicted :
    ¬ Isolated (T := ⟨Unit, Unit, Unit, Unit, Unit⟩) (P := String) (initialSinks ["sink", "sink"])
      [.onTxStart () () (Bytes.zero 20), .onTxEnd none none]
      ((newBroadcastSink false ["sink", "sink"]).run
        (fun k s => if k = 0 ∧ s.slot = 0 then some "panic" else none) 0
        [.onTxStart () () (Bytes.zero 20), .onTxEnd none none]) := by
  intro h
  have hcount := h.receives ⟨"sink", 1⟩ (by decide) 1 (by decide) (by decide)
  exact absurd hcount (by decide)

end KaySentinel.Multiplexer
