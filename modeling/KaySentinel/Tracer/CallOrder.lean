import KaySentinel.Lib.Balanced
import KaySentinel.Tracer.Trace

/-!
# The order of the calls

The tracer does not check the order of the calls that it receives.  An automaton reads any list
of them; it accepts exactly the lists that are the calls of one block once the `OnExit`s for
which no frame is open are left out.
-/

namespace KaySentinel

open NestedLog

/-! ## Whole blocks -/

/-- The calls of a block: mutation hooks outside of all transactions, and transactions. -/
structure HookBlock where
  header : BlockHeader
  parts : List (MutationHook ⊕ TxCalls)

def HookBlock.partCalls : MutationHook ⊕ TxCalls → List Hook
  | .inl hook => [.mutation hook]
  | .inr tx => tx.calls

def HookBlock.calls (b : HookBlock) : List Hook :=
  .onBlockStart b.header :: (b.parts.flatMap HookBlock.partCalls ++ [.onBlockEnd])

/-- At most one root frame, and `OnTxEnd` tells of it what its `OnExit` does. -/
def TxCalls.Agrees (tx : TxCalls) : Prop :=
  tx.body.roots.length ≤ 1 ∧ ∀ root ∈ tx.body.roots, tx.fin.reverted = root.reverted

def HookBlock.Agrees (b : HookBlock) : Prop :=
  ∀ part ∈ b.parts, ∀ tx, part = .inr tx → tx.Agrees

/-- The number of open frames after a call. -/
def Hook.depthAfter (depth : ℕ) : Hook → ℕ
  | .onEnter _ => depth + 1
  | .onExit _ => depth - 1
  | .onTxStart _ _ => 0
  | .onTxEnd _ => 0
  | _ => depth

/-- An `OnExit` for which no frame is open. -/
def Hook.unmatched (depth : ℕ) : Hook → Bool
  | .onExit _ => depth = 0
  | _ => false

/-- The calls without the `OnExit`s for which no frame is open, with `depth` open frames. -/
def matched : ℕ → List Hook → List Hook
  | _, [] => []
  | depth, call :: calls =>
      if call.unmatched depth then matched (call.depthAfter depth) calls
      else call :: matched (call.depthAfter depth) calls

/-! ## The automaton of the calls -/

/-- How far a block is, with what is open of a transaction. -/
inductive BlockPlace (τ : Type)
  | before
  | inside (tx : Option τ)
  | after

/-- What is open of a transaction: its open frames, its root frames so far, and the flag of the
last one that is closed. -/
structure OpenCalls where
  depth : ℕ
  rootFrames : ℕ
  rootReverted : Bool

/-- A transaction that has just started. -/
def OpenCalls.start : OpenCalls := ⟨0, 0, false⟩

def hookStep : BlockPlace OpenCalls → Hook → Option (BlockPlace OpenCalls)
  | .before, .onBlockStart _ => some (.inside none)
  | .inside none, .onBlockEnd => some .after
  | .inside none, .onTxStart _ _ => some (.inside (some .start))
  | .inside (some ⟨0, count, reverted⟩), .onTxEnd args =>
      if count ≤ 1 ∧ (count = 1 → args.reverted = reverted) then some (.inside none) else none
  | .inside (some ⟨depth, count, reverted⟩), .onEnter _ =>
      some (.inside (some ⟨depth + 1, if depth = 0 then count + 1 else count, reverted⟩))
  | .inside (some ⟨depth + 1, count, reverted⟩), .onExit flag =>
      some (.inside (some ⟨depth, count, if depth = 0 then flag else reverted⟩))
  | place, .onExit _ => some place
  | .inside tx, .mutation _ => some (.inside tx)
  | _, _ => none

/-- The calls of a list, one after the other. -/
def hookWalk (place : BlockPlace OpenCalls) (calls : List Hook) : Option (BlockPlace OpenCalls) :=
  calls.foldlM hookStep place

@[simp] lemma hookWalk_nil (place : BlockPlace OpenCalls) : hookWalk place [] = some place := rfl

lemma hookWalk_cons (place : BlockPlace OpenCalls) (call : Hook) (calls : List Hook) :
    hookWalk place (call :: calls) = (hookStep place call).bind (hookWalk · calls) := rfl

lemma hookWalk_append (place : BlockPlace OpenCalls) (calls calls' : List Hook) :
    hookWalk place (calls ++ calls') = (hookWalk place calls).bind (hookWalk · calls') := by
  simp only [hookWalk, List.foldlM_append]
  rfl

/-- The number of open frames. -/
def BlockPlace.depth : BlockPlace OpenCalls → ℕ
  | .inside (some tx) => tx.depth
  | _ => 0

section

variable {place place' : BlockPlace OpenCalls} {call : Hook} {calls : List Hook}

/-- An `OnExit` without a frame stays where it is. -/
lemma hookStep_of_unmatched (h : call.unmatched place.depth = true) :
    hookStep place call = some place := by
  cases call with
  | onExit flag =>
    rcases place with _ | (_ | ⟨_ | depth, count, reverted⟩) | _
    · rfl
    · rfl
    · rfl
    · simp [Hook.unmatched, BlockPlace.depth] at h
    · rfl
  | _ => exact absurd h (by simp [Hook.unmatched])

lemma depth_of_hookStep (h : hookStep place call = some place') :
    place'.depth = call.depthAfter place.depth := by
  cases call with
  | onTxEnd args =>
    rcases place with _ | (_ | ⟨_ | depth, count, reverted⟩) | _ <;> simp [hookStep] at h
    rw [← h.2]
    rfl
  | _ =>
    rcases place with _ | (_ | ⟨_ | depth, count, reverted⟩) | _ <;> simp [hookStep] at h <;>
      subst h <;> rfl

/-- Without the unmatched `OnExit`s the calls lead to the same place. -/
lemma hookWalk_matched (place : BlockPlace OpenCalls) (calls : List Hook) :
    hookWalk place (matched place.depth calls) = hookWalk place calls := by
  induction calls generalizing place with
  | nil => rfl
  | cons call calls ih =>
    rw [matched, hookWalk_cons]
    by_cases hun : call.unmatched place.depth = true
    · have hstep := hookStep_of_unmatched hun
      rw [if_pos hun, hstep, Option.bind_some, ← depth_of_hookStep hstep, ih]
    · rw [if_neg hun, hookWalk_cons]
      cases hstep : hookStep place call with
      | none => rfl
      | some place' => rw [Option.bind_some, Option.bind_some, ← depth_of_hookStep hstep, ih]

/-! ## Blocks from calls -/

/-- The call of a letter. -/
def Hook.ofLetter : Letter MutationHook EnterArgs Bool → Hook
  | .item hook => .mutation hook
  | .opening args => .onEnter args
  | .closing reverted => .onExit reverted

lemma HookForest.calls_eq_word (hooks : HookForest) :
    HookForest.calls hooks =
      (hooks.word FrameCalls.enter FrameCalls.reverted).map Hook.ofLetter := by
  induction hooks with
  | nil => rfl
  | leaf hook rest ih => exact congrArg (Hook.mutation hook :: ·) ih
  | node frame inner rest ihinner ihrest =>
    rw [HookForest.calls, ihinner, ihrest, Forest.word, List.map_cons, List.map_append,
      List.map_cons]
    rfl

/-- Inside a frame a forest comes back to that frame. -/
lemma hookWalk_inside (depth count : ℕ) (reverted : Bool) (hooks : HookForest) :
    hookWalk (.inside (some ⟨depth + 1, count, reverted⟩)) hooks.calls =
      some (.inside (some ⟨depth + 1, count, reverted⟩)) := by
  induction hooks generalizing depth with
  | nil => rfl
  | leaf hook rest ih => exact ih depth
  | node frame inner rest ihinner ihrest =>
    have henter : hookStep (.inside (some ⟨depth + 1, count, reverted⟩)) (.onEnter frame.enter) =
        some (.inside (some ⟨depth + 2, count, reverted⟩)) := rfl
    have hexit : hookStep (.inside (some ⟨depth + 2, count, reverted⟩))
        (.onExit frame.reverted) = some (.inside (some ⟨depth + 1, count, reverted⟩)) := rfl
    rw [HookForest.calls, hookWalk_cons, henter, Option.bind_some, hookWalk_append, ihinner,
      Option.bind_some, hookWalk_cons, hexit]
    exact ihrest depth

/-- Outside all frames a forest adds its root frames. -/
lemma hookWalk_outside (count : ℕ) (reverted : Bool) (hooks : HookForest) :
    hookWalk (.inside (some ⟨0, count, reverted⟩)) hooks.calls =
      some (.inside (some ⟨0, count + hooks.roots.length,
        (hooks.roots.map FrameCalls.reverted).getLastD reverted⟩)) := by
  induction hooks generalizing count reverted with
  | nil => rfl
  | leaf hook rest ih => exact ih count reverted
  | node frame inner rest _ ihrest =>
    have henter : hookStep (.inside (some ⟨0, count, reverted⟩)) (.onEnter frame.enter) =
        some (.inside (some ⟨1, count + 1, reverted⟩)) := rfl
    have hexit : hookStep (.inside (some ⟨1, count + 1, reverted⟩)) (.onExit frame.reverted) =
        some (.inside (some ⟨0, count + 1, frame.reverted⟩)) := rfl
    rw [HookForest.calls, hookWalk_cons, henter, Option.bind_some, hookWalk_append,
      hookWalk_inside, Option.bind_some, hookWalk_cons, hexit, Option.bind_some, ihrest,
      Forest.roots, List.map_cons, List.getLastD_cons, List.length_cons, add_assoc, add_comm 1]

/-- The condition of `OnTxEnd` after the body of the transaction. -/
lemma TxCalls.agrees_iff (tx : TxCalls) :
    tx.Agrees ↔ 0 + tx.body.roots.length ≤ 1 ∧ (0 + tx.body.roots.length = 1 →
      tx.fin.reverted = (tx.body.roots.map FrameCalls.reverted).getLastD false) := by
  rw [TxCalls.Agrees, zero_add]
  refine and_congr_right fun hle => ?_
  rcases hroots : tx.body.roots with _ | ⟨root, _ | ⟨root', roots⟩⟩
  · simp
  · simp
  · simp [hroots] at hle

lemma hookWalk_tx {tx : TxCalls} (h : tx.Agrees) :
    hookWalk (.inside none) tx.calls = some (.inside none) := by
  have hstart : hookStep (.inside none) (.onTxStart tx.tx tx.from_) =
      some (.inside (some ⟨0, 0, false⟩)) := rfl
  rw [TxCalls.calls, hookWalk_cons, hstart, Option.bind_some, hookWalk_append, hookWalk_outside,
    Option.bind_some, hookWalk_cons]
  exact congrArg (Option.bind · (hookWalk · [])) (if_pos (tx.agrees_iff.mp h))

lemma hookWalk_parts {parts : List (MutationHook ⊕ TxCalls)}
    (h : ∀ part ∈ parts, ∀ tx, part = .inr tx → tx.Agrees) :
    hookWalk (.inside none) (parts.flatMap HookBlock.partCalls) = some (.inside none) := by
  induction parts with
  | nil => rfl
  | cons part parts ih =>
    obtain ⟨hpart, hparts⟩ := List.forall_mem_cons.mp h
    rw [List.flatMap_cons, hookWalk_append]
    cases part with
    | inl hook => exact ih hparts
    | inr tx =>
      rw [HookBlock.partCalls, hookWalk_tx (hpart tx rfl)]
      exact ih hparts

/-- A block whose transactions agree is accepted. -/
lemma hookWalk_block {b : HookBlock} (h : b.Agrees) : hookWalk .before b.calls = some .after := by
  have hstart : hookStep .before (.onBlockStart b.header) = some (.inside none) := rfl
  rw [HookBlock.calls, hookWalk_cons, hstart, Option.bind_some, hookWalk_append,
    hookWalk_parts h]
  rfl

/-- In a transaction a call ends it with every frame closed, is unmatched, or is a letter. -/
lemma hookStep_inside_cases {depth count : ℕ} {reverted : Bool}
    (h : hookStep (.inside (some ⟨depth, count, reverted⟩)) call = some place) :
    (∃ args, call = .onTxEnd args ∧ depth = 0 ∧ count ≤ 1 ∧
        (count = 1 → args.reverted = reverted) ∧ place = .inside none) ∨
      (call.unmatched depth = true ∧ place = .inside (some ⟨depth, count, reverted⟩)) ∨
      ∃ letter, call = Hook.ofLetter letter ∧ call.unmatched depth = false ∧
        ∃ tx : OpenCalls, place = .inside (some tx) ∧
          ∀ w, Letter.depth depth (letter :: w) = Letter.depth tx.depth w := by
  cases call with
  | onTxEnd args =>
    rcases depth with _ | depth
    · obtain ⟨⟨hcount, hagree⟩, hplace⟩ := Option.ite_none_right_eq_some.mp h
      exact .inl ⟨args, rfl, rfl, hcount, hagree, (Option.some.inj hplace).symm⟩
    · cases h
  | onEnter args =>
    have hplace : place = .inside (some
        ⟨depth + 1, if depth = 0 then count + 1 else count, reverted⟩) := by
      rcases depth with _ | depth <;> exact (Option.some.inj h).symm
    exact .inr (.inr ⟨.opening args, rfl, rfl, _, hplace, fun w => rfl⟩)
  | onExit flag =>
    rcases depth with _ | depth
    · exact .inr (.inl ⟨rfl, (Option.some.inj h).symm⟩)
    · exact .inr (.inr ⟨.closing flag, rfl, rfl, _, (Option.some.inj h).symm, fun w => rfl⟩)
  | mutation hook =>
    have hplace : place = .inside (some ⟨depth, count, reverted⟩) := by
      rcases depth with _ | depth <;> exact (Option.some.inj h).symm
    exact .inr (.inr ⟨.item hook, rfl, rfl, _, hplace, fun w => rfl⟩)
  | _ => rcases depth with _ | depth <;> cases h

/-- Outside of transactions a call ends the block, starts a transaction, is unmatched or is a
mutation hook. -/
lemma hookStep_outside_cases (h : hookStep (.inside none) call = some place) :
    (call = .onBlockEnd ∧ place = .after) ∨
      (∃ tx from_, call = .onTxStart tx from_ ∧ place = .inside (some .start)) ∨
      (call.unmatched 0 = true ∧ place = .inside none) ∨
      ∃ hook, call = .mutation hook ∧ place = .inside none := by
  cases call with
  | onBlockEnd => exact .inl ⟨rfl, (Option.some.inj h).symm⟩
  | onTxStart tx from_ => exact .inr (.inl ⟨tx, from_, rfl, (Option.some.inj h).symm⟩)
  | onExit flag => exact .inr (.inr (.inl ⟨rfl, (Option.some.inj h).symm⟩))
  | mutation hook => exact .inr (.inr (.inr ⟨hook, rfl, (Option.some.inj h).symm⟩))
  | _ => cases h

/-- The calls up to the `OnTxEnd` of an open transaction. -/
lemma exists_letters {tx : OpenCalls} (h : hookWalk (.inside (some tx)) calls = some .after) :
    ∃ letters args rest, matched tx.depth calls =
        letters.map Hook.ofLetter ++ .onTxEnd args :: matched 0 rest ∧
      Letter.depth tx.depth letters = some 0 ∧ rest.length < calls.length ∧
      hookWalk (.inside none) rest = some .after ∧ ∃ count reverted,
        hookWalk (.inside (some tx)) (letters.map Hook.ofLetter) =
            some (.inside (some ⟨0, count, reverted⟩)) ∧
          count ≤ 1 ∧ (count = 1 → args.reverted = reverted) := by
  induction calls generalizing tx with
  | nil => cases h
  | cons call calls ih =>
    obtain ⟨depth, count, reverted⟩ := tx
    rw [hookWalk_cons, Option.bind_eq_some_iff] at h
    obtain ⟨place, hstep, hwalk⟩ := h
    rcases hookStep_inside_cases hstep with ⟨args, rfl, rfl, hcount, hagree, rfl⟩ |
      ⟨hun, rfl⟩ | ⟨letter, rfl, hun, tx, rfl, hdepth⟩
    · exact ⟨[], args, calls, rfl, rfl, Nat.lt_succ_self _, hwalk, count, reverted, rfl, hcount,
        hagree⟩
    · obtain ⟨letters, args, rest, hmatched, hletters, hlt, hrest⟩ := ih hwalk
      have hafter : call.depthAfter depth = depth := (depth_of_hookStep hstep).symm
      refine ⟨letters, args, rest, ?_, hletters, Nat.lt_succ_of_lt hlt, hrest⟩
      rw [matched, if_pos hun, hafter]
      exact hmatched
    · obtain ⟨letters, args, rest, hmatched, hletters, hlt, hrest, count', reverted', hwalk',
        hend⟩ := ih hwalk
      have hafter : (Hook.ofLetter letter).depthAfter depth = tx.depth :=
        (depth_of_hookStep hstep).symm
      refine ⟨letter :: letters, args, rest, ?_, ?_, Nat.lt_succ_of_lt hlt, hrest, count',
        reverted', ?_, hend⟩
      · rw [matched, if_neg (by rw [hun]; exact Bool.false_ne_true), hafter, hmatched]
        rfl
      · rw [hdepth, hletters]
      · rw [List.map_cons, hookWalk_cons, hstep]
        exact hwalk'

/-- After the block all `OnExit`s are unmatched. -/
lemma matched_of_after (h : hookWalk .after calls = some place) : matched 0 calls = [] := by
  induction calls with
  | nil => rfl
  | cons call calls ih =>
    rw [hookWalk_cons, Option.bind_eq_some_iff] at h
    obtain ⟨place', hstep, hwalk⟩ := h
    cases call with
    | onExit flag =>
      obtain rfl := Option.some.inj hstep
      exact ih hwalk
    | _ => cases hstep

/-- The transaction that a call of `OnTxStart` begins. -/
lemma exists_tx (tx : TracedTransaction) (from_ : Address)
    (h : hookWalk (.inside (some .start)) calls = some .after) :
    ∃ (tx' : TxCalls) (rest : List Hook), tx'.Agrees ∧
      .onTxStart tx from_ :: matched 0 calls = tx'.calls ++ matched 0 rest ∧
      rest.length < calls.length ∧ hookWalk (.inside none) rest = some .after := by
  obtain ⟨letters, args, rest, hmatched, hdepth, hlt, hrest, count, reverted, hwalk, hend⟩ :=
    exists_letters h
  obtain ⟨body, rfl⟩ : ∃ body : HookForest,
      letters = body.word FrameCalls.enter FrameCalls.reverted :=
    (Forest.depth_eq_zero_iff fun args flag => ⟨⟨args, flag⟩, rfl, rfl⟩).mp hdepth
  rw [← HookForest.calls_eq_word] at hmatched hwalk
  rw [OpenCalls.start, hookWalk_outside, Option.some.injEq] at hwalk
  obtain ⟨⟨-, rfl, rfl⟩⟩ := hwalk
  refine ⟨⟨tx, from_, body, args⟩, rest, (TxCalls.agrees_iff _).mpr hend, ?_, hlt, hrest⟩
  have hmatched' : matched 0 calls =
      HookForest.calls body ++ .onTxEnd args :: matched 0 rest := hmatched
  rw [hmatched', TxCalls.calls, List.cons_append, List.append_assoc]
  rfl

lemma exists_parts (h : hookWalk (.inside none) calls = some .after) :
    ∃ parts : List (MutationHook ⊕ TxCalls),
      (∀ part ∈ parts, ∀ tx, part = .inr tx → tx.Agrees) ∧
        matched 0 calls = parts.flatMap HookBlock.partCalls ++ [.onBlockEnd] := by
  induction hn : calls.length using Nat.strong_induction_on generalizing calls with
  | _ n ih =>
  subst hn
  rcases calls with _ | ⟨call, calls⟩
  · cases h
  rw [hookWalk_cons, Option.bind_eq_some_iff] at h
  obtain ⟨place, hstep, hwalk⟩ := h
  rcases hookStep_outside_cases hstep with ⟨rfl, rfl⟩ | ⟨tx, from_, rfl, rfl⟩ | ⟨hun, rfl⟩ |
    ⟨hook, rfl, rfl⟩
  · refine ⟨[], by simp, ?_⟩
    have hrest : matched 0 (.onBlockEnd :: calls) = .onBlockEnd :: matched 0 calls := rfl
    rw [hrest, matched_of_after hwalk]
    rfl
  · obtain ⟨tx', rest, hagrees, hcalls, hlt, hrest⟩ := exists_tx tx from_ hwalk
    obtain ⟨parts, hparts, hmatched⟩ := ih rest.length (Nat.lt_succ_of_lt hlt) hrest rfl
    refine ⟨.inr tx' :: parts, ?_, ?_⟩
    · rw [List.forall_mem_cons]
      exact ⟨fun tx heq => Sum.inr.inj heq ▸ hagrees, hparts⟩
    · rw [List.flatMap_cons, List.append_assoc, ← hmatched]
      exact hcalls
  · have hafter : call.depthAfter 0 = 0 := (depth_of_hookStep hstep).symm
    rw [matched, if_pos hun, hafter]
    exact ih calls.length (Nat.lt_succ_self _) hwalk rfl
  · obtain ⟨parts, hparts, hmatched⟩ := ih calls.length (Nat.lt_succ_self _) hwalk rfl
    refine ⟨.inl hook :: parts, ?_, ?_⟩
    · rw [List.forall_mem_cons]
      exact ⟨fun tx heq => (by cases heq), hparts⟩
    · exact congrArg (Hook.mutation hook :: ·) hmatched

/-- The automaton accepts exactly the calls that make up a block once the unmatched `OnExit`s
are left out. -/
lemma hookWalk_eq_after_iff :
    hookWalk .before calls = some .after ↔
      ∃ b : HookBlock, b.Agrees ∧ matched 0 calls = b.calls := by
  constructor
  · intro h
    induction calls with
    | nil => cases h
    | cons call calls ih =>
      rw [hookWalk_cons, Option.bind_eq_some_iff] at h
      obtain ⟨place, hstep, hwalk⟩ := h
      cases call with
      | onBlockStart header =>
        obtain rfl := Option.some.inj hstep
        obtain ⟨parts, hparts, hmatched⟩ := exists_parts hwalk
        exact ⟨⟨header, parts⟩, hparts, congrArg (Hook.onBlockStart header :: ·) hmatched⟩
      | onExit flag =>
        obtain rfl := Option.some.inj hstep
        exact ih hwalk
      | _ => cases hstep
  · rintro ⟨b, hagrees, hmatched⟩
    have hwalk := hookWalk_matched .before calls
    rw [← hwalk]
    exact hmatched ▸ hookWalk_block hagrees

end

end KaySentinel
