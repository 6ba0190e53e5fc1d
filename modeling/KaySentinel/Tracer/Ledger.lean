import KaySentinel.Bridge.Rollback
import KaySentinel.Tracer.Survival

/-!
# The ledger behind the hooks

A `Ledger` is the state of the client: it changes as its hooks say, and a reverted frame gives
back the ledger at which the frame was entered.  What the bridge keeps of the hooks leads from the
ledger before them to the ledger after them.
-/

namespace KaySentinel

open Bridge Builder Cse Emes Journal NestedLog

/-! ## Ledgers -/

/-- What the client holds. -/
structure Ledger where
  balance : Address → Fin (2 ^ 256)
  nonce : Address → UInt64
  codeHash : Address → Word
  storage : Address → Word → Word

namespace Ledger

def setBalance (l : Ledger) (addr : Address) (new : Fin (2 ^ 256)) : Ledger :=
  { l with balance := Function.update l.balance addr new }

def setNonce (l : Ledger) (addr : Address) (new : UInt64) : Ledger :=
  { l with nonce := Function.update l.nonce addr new }

def setCodeHash (l : Ledger) (addr : Address) (new : Word) : Ledger :=
  { l with codeHash := Function.update l.codeHash addr new }

def setStorage (l : Ledger) (addr : Address) (slot new : Word) : Ledger :=
  { l with storage :=
    Function.update l.storage addr (Function.update (l.storage addr) slot new) }

/-- The hook tells how the ledger changes. -/
inductive Changes : Ledger → MutationHook → Ledger → Prop
  | balance (l : Ledger) (addr : Address) (new : Fin (2 ^ 256)) (reason : BalanceChangeReason) :
      Changes l
        (.onBalanceChange addr (some ((l.balance addr).val : ℤ)) (some (new.val : ℤ)) reason)
        (l.setBalance addr new)
  | nonce (l : Ledger) (addr : Address) (new : UInt64) :
      Changes l (.onNonceChangeV2 addr (l.nonce addr) new) (l.setNonce addr new)
  | code (l : Ledger) (addr : Address) (new : Word) (reason : CodeChangeReason) :
      Changes l (.onCodeChangeV2 addr (l.codeHash addr) new reason) (l.setCodeHash addr new)
  | storage (l : Ledger) (addr : Address) (slot new : Word) :
      Changes l (.onStorageChange addr slot (l.storage addr slot) new)
        (l.setStorage addr slot new)

/-- The hooks tell how the ledger changes; what happens in a reverted frame is undone. -/
inductive Executes : Ledger → HookForest → Ledger → Prop
  | nil (l : Ledger) : Executes l .nil l
  | leaf {l mid l' : Ledger} {hook : MutationHook} {rest : HookForest}
      (hhook : Changes l hook mid) (hrest : Executes mid rest l') :
      Executes l (.leaf hook rest) l'
  | node {l mid l' : Ledger} {frame : FrameCalls} {inner rest : HookForest}
      (hinner : Executes l inner mid)
      (hrest : Executes (if frame.reverted then l else mid) rest l') :
      Executes l (.node frame inner rest) l'

/-- The ledger before and after each of the transactions. -/
inductive RunsTxs : Ledger → List TxCalls → List (Ledger × Ledger) → Ledger → Prop
  | nil (l : Ledger) : RunsTxs l [] [] l
  | cons {l mid l' : Ledger} {tx : TxCalls} {txs : List TxCalls} {spans : List (Ledger × Ledger)}
      (htx : Executes l tx.body mid) (htxs : RunsTxs mid txs spans l') :
      RunsTxs l (tx :: txs) ((l, mid) :: spans) l'

/-- The ledger before and after each transaction of the blocks. -/
inductive RunsBlocks :
    Ledger → List BlockCalls → List (List (Ledger × Ledger)) → Ledger → Prop
  | nil (l : Ledger) : RunsBlocks l [] [] l
  | cons {l mid l' : Ledger} {b : BlockCalls} {blocks : List BlockCalls}
      {spans : List (Ledger × Ledger)} {rest : List (List (Ledger × Ledger))}
      (hb : RunsTxs l b.txs spans mid) (hblocks : RunsBlocks mid blocks rest l') :
      RunsBlocks l (b :: blocks) (spans :: rest) l'

/-- The values at the canonical keys. -/
def store (l : Ledger) : KeyStore
  | .balance address => Bytes.bigEndian 32 (l.balance address).val
  | .nonce address => l.nonce address
  | .code address => l.codeHash address
  | .storage address slot => l.storage address slot
  | .transient _ _ => Bytes.zero 32

lemma store_setBalance (l : Ledger) (addr : Address) (new : Fin (2 ^ 256)) :
    (l.setBalance addr new).store =
      Function.update l.store (.balance addr) (Bytes.bigEndian 32 new.val) := by
  rw [Function.eq_update_iff]
  refine ⟨by simp [store, setBalance], fun k hk => ?_⟩
  cases k with
  | balance address =>
    have hne : address ≠ addr := fun heq => hk (heq ▸ rfl)
    simp [store, setBalance, Function.update_of_ne hne]
  | _ => rfl

lemma store_setNonce (l : Ledger) (addr : Address) (new : UInt64) :
    (l.setNonce addr new).store = Function.update l.store (.nonce addr) new := by
  rw [Function.eq_update_iff]
  refine ⟨by simp [store, setNonce], fun k hk => ?_⟩
  cases k with
  | nonce address =>
    have hne : address ≠ addr := fun heq => hk (heq ▸ rfl)
    simp [store, setNonce, Function.update_of_ne hne]
  | _ => rfl

lemma store_setCodeHash (l : Ledger) (addr : Address) (new : Word) :
    (l.setCodeHash addr new).store = Function.update l.store (.code addr) new := by
  rw [Function.eq_update_iff]
  refine ⟨by simp [store, setCodeHash], fun k hk => ?_⟩
  cases k with
  | code address =>
    have hne : address ≠ addr := fun heq => hk (heq ▸ rfl)
    simp [store, setCodeHash, Function.update_of_ne hne]
  | _ => rfl

lemma store_setStorage (l : Ledger) (addr : Address) (slot new : Word) :
    (l.setStorage addr slot new).store = Function.update l.store (.storage addr slot) new := by
  rw [Function.eq_update_iff]
  refine ⟨by simp [store, setStorage], fun k hk => ?_⟩
  cases k with
  | storage address slot' =>
    by_cases haddress : address = addr
    · subst haddress
      have hne : slot' ≠ slot := fun heq => hk (heq ▸ rfl)
      simp [store, setStorage, Function.update_of_ne hne]
    · simp [store, setStorage, Function.update_of_ne haddress]
  | _ => rfl

end Ledger

/-! ## What a hook writes -/

/-- The write that a hook announces. -/
def MutationHook.write : MutationHook → Write CanonicalKey.Value
  | .onBalanceChange addr prev new _ => ⟨.balance addr, hashOf prev, hashOf new⟩
  | .onNonceChangeV2 addr prev new => ⟨.nonce addr, prev, new⟩
  | .onCodeChangeV2 addr prevCodeHash codeHash _ => ⟨.code addr, prevCodeHash, codeHash⟩
  | .onStorageChange addr slot prev new => ⟨.storage addr slot, prev, new⟩

lemma writesOf_append (ps ps' : List CsePayload) :
    writesOf (ps ++ ps') = writesOf ps ++ writesOf ps' := List.filterMap_append

/-- The writes of the hooks around which no frame is reverted, in the order of the calls. -/
def HookForest.keptWrites : HookForest → List (Write CanonicalKey.Value)
  | .nil => []
  | .leaf hook rest => hook.write :: HookForest.keptWrites rest
  | .node frame inner rest =>
      (if frame.reverted then [] else HookForest.keptWrites inner) ++ HookForest.keptWrites rest

/-- A destruction writes nothing. -/
lemma writesOf_changes (pending : Option Address) (hook : MutationHook) :
    writesOf ((hook.changes pending).map Change.payload) = [hook.write] := by
  cases hook with
  | onBalanceChange addr prev new reason =>
    cases reason <;> cases pending <;> rfl
  | _ => rfl

/-- The payloads that are kept of the hooks are their kept writes. -/
lemma HookForest.writesOf_keptPayloads (hooks : HookForest) (pending : Option Address) :
    writesOf (hooks.keptPayloads pending) = hooks.keptWrites := by
  induction hooks generalizing pending with
  | nil => rfl
  | leaf hook rest ih =>
    rw [HookForest.keptPayloads, writesOf_append, writesOf_changes, ih]
    rfl
  | node frame inner rest ihinner ihrest =>
    rw [HookForest.keptPayloads, HookForest.keptWrites, writesOf_append, ihrest]
    split_ifs
    · rfl
    · rw [ihinner]

namespace Ledger

variable {l l' : Ledger}

lemma fitsWord_val (n : Fin (2 ^ 256)) : FitsWord (some (n.val : ℤ)) := by
  intro x hx
  obtain rfl := Option.some.inj hx
  simp

/-- The hook writes to the values of the ledger what it does to the ledger. -/
lemma Changes.apply_write {hook : MutationHook} (h : Changes l hook l') :
    apply l.store hook.write = some l'.store := by
  have hwrite : ∀ w : Write CanonicalKey.Value, l.store w.key = w.before →
      l'.store = Function.update l.store w.key w.after → apply l.store w = some l'.store := by
    intro w hbefore hafter
    rw [apply, if_pos hbefore, hafter]
  cases h with
  | balance addr new reason => exact hwrite _ rfl (l.store_setBalance addr new)
  | nonce addr new => exact hwrite _ rfl (l.store_setNonce addr new)
  | code addr new reason => exact hwrite _ rfl (l.store_setCodeHash addr new)
  | storage addr slot new => exact hwrite _ rfl (l.store_setStorage addr slot new)

lemma Changes.fits {hook : MutationHook} (h : Changes l hook l') : hook.Fits := by
  cases h with
  | balance addr new reason => exact ⟨fitsWord_val _, fitsWord_val _⟩
  | _ => trivial

lemma Executes.fits {hooks : HookForest} (h : Executes l hooks l') : hooks.Fits := by
  induction h with
  | nil l => simp [HookForest.Fits, Forest.leaves]
  | leaf hhook _ ih => exact Tracer.fits_leaf.mpr ⟨hhook.fits, ih⟩
  | node _ _ ihinner ihrest => exact Tracer.fits_node.mpr ⟨ihinner, ihrest⟩

/-- What is kept of the hooks leads from the ledger before them to the one after them. -/
lemma Executes.replay_keptPayloads {hooks : HookForest} (h : Executes l hooks l')
    (pending : Option Address) :
    replay l.store (writesOf (hooks.keptPayloads pending)) = some l'.store := by
  induction h generalizing pending with
  | nil l => rfl
  | @leaf l mid l' hook rest hhook _ ih =>
    rw [HookForest.keptPayloads, writesOf_append, writesOf_changes, replay_append,
      replay_singleton, hhook.apply_write, Option.bind_some]
    exact ih _
  | @node l mid l' frame inner rest _ _ ihinner ihrest =>
    rw [HookForest.keptPayloads, writesOf_append, replay_append]
    cases hrev : frame.reverted with
    | true =>
      rw [hrev] at ihrest
      exact ihrest pending
    | false =>
      rw [hrev] at ihrest
      simp only [Bool.false_eq_true, if_false] at ihrest ⊢
      rw [ihinner none, Option.bind_some]
      exact ihrest pending

end Ledger

/-! ## What is kept of the hooks -/

lemma HookForest.exists_change {hooks : HookForest} {pending : Option Address} {p : CsePayload}
    (hp : p ∈ hooks.keptPayloads pending) : ∃ change : Change, change.payload = p := by
  induction hooks generalizing pending with
  | nil => exact absurd hp (by simp [HookForest.keptPayloads])
  | leaf hook rest ih =>
    rcases List.mem_append.mp hp with hp | hp
    · obtain ⟨change, -, hchange⟩ := List.mem_map.mp hp
      exact ⟨change, hchange⟩
    · exact ih hp
  | node frame inner rest ihinner ihrest =>
    rcases List.mem_append.mp hp with hp | hp
    · split_ifs at hp
      · exact absurd hp (by simp)
      · exact ihinner hp
    · exact ihrest hp

lemma Change.isBoundary_payload (change : Change) : change.payload.isBoundary = false := by
  cases change <;> rfl

lemma HookForest.gasRefunds_keptPayloads (hooks : HookForest) (pending : Option Address) :
    gasRefunds (hooks.keptPayloads pending) = [] := by
  rw [gasRefunds, List.filterMap_eq_nil_iff]
  intro p hp
  obtain ⟨change, rfl⟩ := HookForest.exists_change hp
  cases change <;> rfl

lemma Ledger.RunsTxs.executes {l l' : Ledger} {txs : List TxCalls}
    {spans : List (Ledger × Ledger)} (h : Ledger.RunsTxs l txs spans l') :
    List.Forall₂ (fun tx span => Ledger.Executes span.1 tx.body span.2) txs spans := by
  induction h with
  | nil l => exact .nil
  | cons htx _ ih => exact .cons htx ih

/-- Each block of a run is one of the ledger. -/
lemma Ledger.RunsBlocks.each {l l' : Ledger} {blocks : List BlockCalls}
    {spans : List (List (Ledger × Ledger))} (h : Ledger.RunsBlocks l blocks spans l') :
    List.Forall₂ (fun b spans => ∃ l l', Ledger.RunsTxs l b.txs spans l') blocks spans := by
  induction h with
  | nil l => exact .nil
  | cons hb _ ih => exact .cons ⟨_, _, hb⟩ ih

/-- The hooks of a ledger have continuous timelines. -/
lemma Ledger.Executes.continuous {l l' : Ledger} {hooks : HookForest}
    (h : Ledger.Executes l hooks l') : Continuous (hooks.keptPayloads none) :=
  continuous_of_replay (h.replay_keptPayloads none) (HookForest.gasRefunds_keptPayloads hooks none)

/-! ## A run of a ledger -/

/-- The account `1` holds nine. -/
def smallLedger : Ledger where
  balance address := if address = Bytes.fill 20 1 then 9 else 0
  nonce _ := 0
  codeHash _ := Bytes.zero 32
  storage _ _ := Bytes.zero 32

/-- The account `1` calls the account `2`, which receives three and calls the account `3`; that
frame is reverted. -/
def callingTx : TxCalls where
  tx := { hash := Bytes.fill 32 7, to_ := some (Bytes.fill 20 2), value := some 3, gas := 21000,
          gasPrice := some 1, nonce := 0 }
  from_ := Bytes.fill 20 1
  body :=
    .leaf (.onNonceChangeV2 (Bytes.fill 20 1) 0 1)
      (.node { enter := { depth := 0, typ := 0xf1, from_ := Bytes.fill 20 1,
                          to_ := Bytes.fill 20 2 }, reverted := false }
        (.leaf (.onBalanceChange (Bytes.fill 20 1) (some 9) (some 6) .other)
          (.leaf (.onBalanceChange (Bytes.fill 20 2) (some 0) (some 3) .other)
            (.node { enter := { depth := 1, typ := 0xf1, from_ := Bytes.fill 20 2,
                                to_ := Bytes.fill 20 3 }, reverted := true }
              (.leaf (.onStorageChange (Bytes.fill 20 3) (Bytes.fill 32 1) (Bytes.zero 32)
                (Bytes.fill 32 2)) .nil)
              .nil)))
        .nil)
  fin := { receipt := some { status := 1 }, err := none }

/-- The account `2` pays one back, and the slot that was reverted is written. -/
def returningTx : TxCalls where
  tx := { hash := Bytes.fill 32 8, to_ := some (Bytes.fill 20 1), value := some 1, gas := 21000,
          gasPrice := some 1, nonce := 0 }
  from_ := Bytes.fill 20 2
  body :=
    .leaf (.onBalanceChange (Bytes.fill 20 2) (some 3) (some 2) .other)
      (.leaf (.onStorageChange (Bytes.fill 20 3) (Bytes.fill 32 1) (Bytes.zero 32)
        (Bytes.fill 32 5)) .nil)
  fin := { receipt := some { status := 1 }, err := none }

/-- One transaction in each of two blocks. -/
def ledgerBlocks : List BlockCalls :=
  [{ header := { root := Bytes.fill 32 1, number := 1, time := 10 }, txs := [callingTx] },
    { header := { root := Bytes.fill 32 2, number := 2, time := 20 }, txs := [returningTx] }]

lemma smallLedger_runs : ∃ spans l', smallLedger.RunsBlocks ledgerBlocks spans l' := by
  refine ⟨_, _, .cons (.cons (.leaf (.nonce _ _ _) (.node (.leaf (.balance _ _ 6 _)
    (.leaf (.balance _ _ 3 _) (.node (.leaf (.storage _ _ _ _) (.nil _)) (.nil _)))) (.nil _)))
      (.nil _)) (.cons (.cons (.leaf (.balance _ _ 2 _) (.leaf (.storage _ _ _ _) (.nil _)))
        (.nil _)) (.nil _))⟩

end KaySentinel
