import KaySentinel.Lib.NestedLog

/-!
# Journals of keyed writes

A write names a key, the value it expects there and the value it leaves.  Replaying a
list of writes on a store checks every expectation.  `replay_eq_some_iff` says that this
is a property of each key alone: the store is rewritten correctly exactly if, for every
key, the writes to that key form a chain that starts at the stored value.

`Frames` is a store with nested snapshots; `sim_step` shows that the buffers of
`NestedLog` reconstruct it.
-/

namespace Journal

/-! ## Chains of transitions of one value -/

section Chain

variable {T : Type*} [DecidableEq T]

/-- Follow the transitions from a value; each must start where the last one ended. -/
def chain : T → List (T × T) → Option T
  | v, [] => some v
  | v, (before, after) :: rest => if v = before then chain after rest else none

@[simp] lemma chain_nil (v : T) : chain v [] = some v := rfl

lemma chain_cons_eq_some {v b a t : T} {rest : List (T × T)} :
    chain v ((b, a) :: rest) = some t ↔ v = b ∧ chain a rest = some t := by
  simp only [chain]
  split <;> simp_all

/-- The value that a list of transitions leaves, `v` if it is empty. -/
def terminal (v : T) (h : List (T × T)) : T := (h.getLast?.map Prod.snd).getD v

omit [DecidableEq T] in
lemma terminal_cons (v b a : T) (rest : List (T × T)) :
    terminal v ((b, a) :: rest) = terminal a rest := by
  cases rest with
  | nil => rfl
  | cons p rest =>
    simp only [terminal, List.getLast?_cons_cons]
    rw [List.getLast?_eq_getLast_of_ne_nil (by simp)]
    rfl

omit [DecidableEq T] in
/-- The value left does not depend on the start if there is a transition. -/
lemma terminal_congr {h : List (T × T)} (hne : h ≠ []) (v v' : T) :
    terminal v h = terminal v' h := by
  obtain ⟨⟨b, a⟩, rest, rfl⟩ := List.exists_cons_of_ne_nil hne
  rw [terminal_cons, terminal_cons]

omit [DecidableEq T] in
@[simp] lemma terminal_append_singleton (v b a : T) (h : List (T × T)) :
    terminal v (h ++ [(b, a)]) = a := by
  simp [terminal]

lemma chain_append (v : T) (h h' : List (T × T)) :
    chain v (h ++ h') = (chain v h).bind (chain · h') := by
  induction h generalizing v with
  | nil => rfl
  | cons p h ih =>
    obtain ⟨b, a⟩ := p
    simp only [List.cons_append, chain]
    split
    · exact ih a
    · rfl

lemma eq_terminal_of_chain {v t : T} {h : List (T × T)} (hc : chain v h = some t) :
    t = terminal v h := by
  induction h generalizing v with
  | nil => exact (Option.some.inj hc).symm
  | cons p h ih =>
    obtain ⟨b, a⟩ := p
    rw [terminal_cons]
    exact ih (chain_cons_eq_some.mp hc).2

lemma chain_isSome_iff {v : T} {h : List (T × T)} :
    (chain v h).isSome ↔ chain v h = some (terminal v h) := by
  rw [Option.isSome_iff_exists]
  constructor
  · rintro ⟨t, ht⟩
    rw [ht, ← eq_terminal_of_chain ht]
  · exact fun h => ⟨_, h⟩

/-- A list of transitions is linked if it is a chain from its own first value. -/
def Linked : List (T × T) → Prop
  | [] => True
  | (_, a) :: rest => (chain a rest).isSome

instance : ∀ h : List (T × T), Decidable (Linked h)
  | [] => .isTrue trivial
  | (_, a) :: rest => inferInstanceAs (Decidable ((chain a rest).isSome = true))

lemma linked_cons_iff {b a : T} {rest : List (T × T)} :
    Linked ((b, a) :: rest) ↔ (chain b ((b, a) :: rest)).isSome := by
  simp [Linked, chain]

/-- One more transition must start where the list ended, if it has begun. -/
lemma linked_append_singleton {b a : T} {h : List (T × T)} :
    Linked (h ++ [(b, a)]) ↔ Linked h ∧ ∀ x, h.getLast?.map Prod.snd = some x → x = b := by
  cases h with
  | nil => simp [Linked]
  | cons p rest =>
    obtain ⟨b', a'⟩ := p
    have hlast : ((b', a') :: rest).getLast?.map Prod.snd = some (terminal a' rest) := by
      rw [← terminal_cons a' b', terminal, List.getLast?_eq_getLast_of_ne_nil (by simp)]
      rfl
    simp only [List.cons_append, Linked, hlast, chain_append, Option.some.injEq, forall_eq']
    cases hc : chain a' rest with
    | none => simp
    | some t =>
      rw [← eq_terminal_of_chain hc]
      simp [chain]

/-- A list is linked if each transition starts where the one before it ended. -/
lemma linked_iff_isChain {h : List (T × T)} : Linked h ↔ h.IsChain fun p q => q.1 = p.2 := by
  rcases h with _ | ⟨⟨b, a⟩, rest⟩
  · exact iff_of_true trivial .nil
  induction rest generalizing b a with
  | nil => exact iff_of_true rfl (.singleton _)
  | cons q rest ih =>
    obtain ⟨b', a'⟩ := q
    rw [List.isChain_cons_cons, ← ih b' a']
    by_cases hb : a = b'
    · simp [Linked, chain, hb]
    · simp [Linked, chain, hb, Ne.symm hb]

lemma linked_of_chain {v t : T} {h : List (T × T)} (hc : chain v h = some t) : Linked h := by
  cases h with
  | nil => trivial
  | cons p rest =>
    obtain ⟨b, a⟩ := p
    obtain ⟨rfl, -⟩ := chain_cons_eq_some.mp hc
    rw [linked_cons_iff, hc]
    rfl

end Chain

/-! ## Writes and stores -/

variable {K : Type*} {V : K → Type*}

/-- A write to one key of a store. -/
structure Write (V : K → Type*) where
  key : K
  before : V key
  after : V key

/-- A value for every key. -/
abbrev Store (V : K → Type*) := ∀ k, V k

variable [DecidableEq K]

/-- The transition a write makes at `k`, if it is a write to `k`. -/
def Write.at? (w : Write V) (k : K) : Option (V k × V k) :=
  if h : w.key = k then some (h ▸ (w.before, w.after)) else none

@[simp] lemma Write.at?_self (w : Write V) : w.at? w.key = some (w.before, w.after) := by
  simp [Write.at?]

lemma Write.at?_of_ne {w : Write V} {k : K} (h : w.key ≠ k) : w.at? k = none := by
  simp [Write.at?, h]

/-- The transitions that a list of writes makes at `k`. -/
def history (k : K) (ws : List (Write V)) : List (V k × V k) := ws.filterMap (·.at? k)

@[simp] lemma history_nil (k : K) : history k ([] : List (Write V)) = [] := rfl

lemma history_append (k : K) (ws ws' : List (Write V)) :
    history k (ws ++ ws') = history k ws ++ history k ws' := List.filterMap_append

lemma history_cons_self (w : Write V) (ws : List (Write V)) :
    history w.key (w :: ws) = (w.before, w.after) :: history w.key ws := by
  simp [history]

lemma history_cons_of_ne {w : Write V} {k : K} (h : w.key ≠ k) (ws : List (Write V)) :
    history k (w :: ws) = history k ws := by
  simp [history, Write.at?_of_ne h]

lemma history_ne_nil_iff {k : K} {ws : List (Write V)} :
    history k ws ≠ [] ↔ ∃ w ∈ ws, w.key = k := by
  simp only [history, ne_eq, List.filterMap_eq_nil_iff, not_forall]
  constructor
  · rintro ⟨w, hw, hne⟩
    exact ⟨w, hw, by_contra fun h => hne (Write.at?_of_ne h)⟩
  · rintro ⟨w, hw, rfl⟩
    exact ⟨w, hw, by simp⟩

variable [∀ k, DecidableEq (V k)]

/-- Rewrite one key, if it holds the value the write expects. -/
def apply (s : Store V) (w : Write V) : Option (Store V) :=
  if s w.key = w.before then some (Function.update s w.key w.after) else none

/-- Apply the writes in order. -/
def replay (s : Store V) (ws : List (Write V)) : Option (Store V) := ws.foldlM apply s

@[simp] lemma replay_nil (s : Store V) : replay s [] = some s := rfl

lemma replay_cons (s : Store V) (w : Write V) (ws : List (Write V)) :
    replay s (w :: ws) = (apply s w).bind (replay · ws) := rfl

lemma replay_append (s : Store V) (ws ws' : List (Write V)) :
    replay s (ws ++ ws') = (replay s ws).bind (replay · ws') := by
  simp only [replay, List.foldlM_append]
  rfl

@[simp] lemma replay_singleton (s : Store V) (w : Write V) : replay s [w] = apply s w := by
  rw [replay_cons]
  cases apply s w <;> rfl

/-- Replaying a journal is following the chain of every key. -/
theorem replay_eq_some_iff {s t : Store V} {ws : List (Write V)} :
    replay s ws = some t ↔ ∀ k, chain (s k) (history k ws) = some (t k) := by
  induction ws generalizing s with
  | nil =>
    simp only [replay_nil, history_nil, chain_nil, Option.some.injEq]
    exact funext_iff
  | cons w ws ih =>
    rw [replay_cons]
    by_cases hw : s w.key = w.before
    · have hchain : ∀ k, chain (s k) (history k (w :: ws)) =
          chain (Function.update s w.key w.after k) (history k ws) := by
        intro k
        by_cases hk : w.key = k
        · subst hk
          simp [history_cons_self, chain, hw]
        · rw [history_cons_of_ne hk, Function.update_of_ne (Ne.symm hk)]
      simp only [apply, if_pos hw, Option.bind_some, ih, hchain]
    · simp only [apply, if_neg hw, Option.bind_none, reduceCtorEq, false_iff]
      intro h
      have := h w.key
      rw [history_cons_self, chain_cons_eq_some] at this
      exact hw this.1

/-! ## Stores with nested snapshots -/

open NestedLog

variable {α : Type*} (write? : α → Option (Write V))

/-- A store and the snapshots of the open frames, innermost first. -/
structure Frames (V : K → Type*) where
  current : Store V
  saved : List (Store V)

/-- One step: an item that is a write rewrites the store, entering a frame saves a
snapshot, leaving it drops the snapshot or, on a rollback, restores it. -/
def Frames.step (m : Frames V) : Op α → Option (Frames V)
  | .item a _ =>
      match write? a with
      | none => some m
      | some w => (apply m.current w).map fun s => ⟨s, m.saved⟩
  | .enter => some ⟨m.current, m.current :: m.saved⟩
  | .exit reverted =>
      match m.saved with
      | [] => none
      | snapshot :: saved => some ⟨if reverted then snapshot else m.current, saved⟩

/-- The writes among the logged items. -/
def writes (items : List α) : List (Write V) := items.filterMap write?

/-- The simulation invariant between the stack of snapshots and the stack of buffers:
from one snapshot to the next, the buffer in between is the journal. -/
def Sim (s₀ : Store V) : Store V → List (Store V) → List α → List (List α) → Prop
  | current, [], out, [] => replay s₀ (writes write? out) = some current
  | current, snapshot :: saved, out, buffer :: stack =>
      Sim s₀ snapshot saved out stack ∧
        replay snapshot (writes write? buffer) = some current
  | _, _, _, _ => False

variable {write?}

lemma Sim.length_eq {s₀ current : Store V} {saved : List (Store V)} {out : List α}
    {stack : List (List α)} (h : Sim write? s₀ current saved out stack) :
    saved.length = stack.length := by
  induction saved generalizing current stack with
  | nil => cases stack with
    | nil => rfl
    | cons _ _ => exact h.elim
  | cons snapshot saved ih => cases stack with
    | nil => exact h.elim
    | cons buffer stack => simpa using ih h.1

/-- Items appended at the innermost position are replayed on the current store. -/
lemma Sim.append {s₀ current t : Store V} {saved : List (Store V)} {b : Buffers α}
    {items : List α} (h : Sim write? s₀ current saved b.out b.stack)
    (ht : replay current (writes write? items) = some t) :
    Sim write? s₀ t saved (b.append items).out (b.append items).stack := by
  obtain ⟨out, stack⟩ := b
  cases saved with
  | nil => cases stack with
    | nil =>
      have h0 : replay s₀ (writes write? out) = some current := h
      simp only [Buffers.append, Sim, writes, List.filterMap_append] at *
      rw [replay_append, h0]
      exact ht
    | cons _ _ => exact h.elim
  | cons snapshot saved => cases stack with
    | nil => exact h.elim
    | cons buffer stack =>
      obtain ⟨houter, hinner⟩ := h
      refine ⟨houter, ?_⟩
      simp only [writes, List.filterMap_append] at *
      rw [replay_append, hinner]
      exact ht

/-- Every step of the store with snapshots is matched by the buffers, provided that an
item is logged directly exactly when no frame is open. -/
theorem sim_step {s₀ : Store V} {m m' : Frames V} {b : Buffers α} {op : Op α}
    (h : Sim write? s₀ m.current m.saved b.out b.stack) (hstep : m.step write? op = some m')
    (hop : ∀ a direct, op = .item a direct → (direct = true ↔ m.saved = [])) :
    ∃ b', b.step op = some b' ∧ Sim write? s₀ m'.current m'.saved b'.out b'.stack := by
  have hlen := h.length_eq
  cases op with
  | item a direct =>
    -- the item goes to the innermost position, whichever branch logs it
    have hlog : b.step (.item a direct) = some (b.append [a]) := by
      have hiff := hop a direct rfl
      cases direct with
      | true =>
        have hstack : b.stack = [] := by
          apply List.eq_nil_of_length_eq_zero
          rw [← hlen, hiff.mp rfl, List.length_nil]
        simp [Buffers.step, Buffers.append, hstack]
      | false =>
        have hstack : b.stack ≠ [] := by
          intro hnil
          have hsaved : m.saved = [] := by
            apply List.eq_nil_of_length_eq_zero
            rw [hlen, hnil, List.length_nil]
          simpa using hiff.mpr hsaved
        simp [Buffers.step, hstack]
    refine ⟨b.append [a], hlog, ?_⟩
    cases hw : write? a with
    | none =>
      simp only [Frames.step, hw, Option.some.injEq] at hstep
      subst hstep
      exact h.append (by simp [writes, hw])
    | some w =>
      simp only [Frames.step, hw, Option.map_eq_some_iff] at hstep
      obtain ⟨s, hs, rfl⟩ := hstep
      exact h.append (by simpa [writes, hw] using hs)
  | enter =>
    obtain rfl := Option.some.inj hstep
    exact ⟨_, rfl, h, rfl⟩
  | exit reverted =>
    obtain ⟨current, saved⟩ := m
    obtain ⟨out, stack⟩ := b
    cases saved with
    | nil => simp [Frames.step] at hstep
    | cons snapshot saved => cases stack with
      | nil => exact h.elim
      | cons buffer stack =>
        obtain rfl := Option.some.inj hstep
        obtain ⟨houter, hinner⟩ := h
        refine ⟨_, rfl, ?_⟩
        cases reverted with
        | true => exact houter
        | false => exact Sim.append (b := ⟨out, stack⟩) houter hinner

end Journal
