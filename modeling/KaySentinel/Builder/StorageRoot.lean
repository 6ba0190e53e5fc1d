import KaySentinel.Builder.Certificate
import KaySentinel.Merkle

/-!
# Storage roots

`simpleStorageRootDeriver` folds the touched slots of an account into a root, and
`resolveStorageRoots` writes the roots into the certificates.  Without collisions the root
binds the slots (`eq_of_slotRoot_eq`, and `eq_of_derive_eq` for the deriver itself).
-/

namespace KaySentinel.Builder

open Cse

inductive StorageDerivationError where
  | missingBaseState
  | invalidMutation
  | corruptSnapshot
deriving DecidableEq

/-- An error of the domain, or one of the backend, whatever that is. -/
inductive DerivationError (BackendError : Type) where
  | domain (error : StorageDerivationError)
  | infrastructure (error : BackendError)
deriving DecidableEq

/-- The trait `StorageRootDeriver<BaseState = ()>`. -/
structure StorageRootDeriver (BackendError : Type) where
  derive : OrdMap.Map Word Word → Hashing (Except (DerivationError BackendError) Word)

variable {BackendError : Type} (blake3 : Blake3)

/-- The leaves of the slots, in key order. -/
def deriveLeaves : List (Word × Word) → Hashing (List Word)
  | [] => pure []
  | (slot, value) :: rest => do
      let leaf ← deriveCommitment blake3 .trieLeaf (slot.toList ++ value.toList)
      let leaves ← deriveLeaves rest
      pure (leaf :: leaves)

/-- The deriver of hashes alone, which has no backend. -/
def simpleStorageRootDeriver : StorageRootDeriver Empty where
  derive terminalSlots := do
    let leaves ← deriveLeaves blake3 terminalSlots.toList
    let root ← merkleFold blake3 .trieBranch leaves
    pure (.ok root)

/-- The terminal values of the storage slots, by address. -/
def slotsByAddress (stateTable : OrdMap.Map CanonicalKey ReducedVariant) :
    OrdMap.Map Address (OrdMap.Map Word Word) :=
  stateTable.toList.foldl (fun slots entry =>
    match entry with
    | (.storage address slot, .storage t) =>
        slots.alter address fun inner => some ((inner.getD ∅).insert slot t.terminal)
    | _ => slots) ∅

/-- The loop over the certificates; on an error the remaining ones are left as they are. -/
def resolveLoop (deriver : StorageRootDeriver BackendError)
    (slots : OrdMap.Map Address (OrdMap.Map Word Word))
    (certificates : OrdMap.Map Address CanonicalAccountCertificate) :
    List (Address × CanonicalAccountCertificate) →
      Hashing (OrdMap.Map Address CanonicalAccountCertificate ×
        Except (DerivationError BackendError) Unit)
  | [] => pure (certificates, .ok ())
  | (address, cert) :: rest => do
      match ← deriver.derive (slots[address]?.getD ∅) with
      | .error e => pure (certificates, .error e)
      | .ok root =>
          resolveLoop deriver slots
            (certificates.insert address { cert with storageRoot := .verified root }) rest

/-- The certificates after the pass, which mutates them in place, and its result. -/
def resolveStorageRoots (certificates : OrdMap.Map Address CanonicalAccountCertificate)
    (stateTable : OrdMap.Map CanonicalKey ReducedVariant)
    (deriver : StorageRootDeriver BackendError) :
    Hashing (OrdMap.Map Address CanonicalAccountCertificate ×
      Except (DerivationError BackendError) Unit) :=
  resolveLoop deriver (slotsByAddress stateTable) certificates certificates.toList

/-! ## The derivation in closed form -/

/-- The byte string hashed for a slot. -/
def leafInput (entry : Word × Word) : List UInt8 :=
  Domain.trieLeaf.asBytes ++ (entry.1.toList ++ entry.2.toList)

lemma leafInput_injective : Function.Injective leafInput := by
  intro p q h
  obtain ⟨hslot, hvalue⟩ := Bytes.append_inj (List.append_cancel_left h)
  exact Prod.ext hslot (Bytes.toList_inj.mp hvalue)

lemma deriveLeaves_eq (entries : List (Word × Word)) :
    deriveLeaves blake3 entries =
      ⟨some (entries.map fun e => blake3 (leafInput e)), entries.map leafInput⟩ := by
  induction entries with
  | nil => rfl
  | cons e entries ih =>
    obtain ⟨slot, value⟩ := e
    have hquery : deriveCommitment blake3 .trieLeaf (slot.toList ++ value.toList) =
        ⟨some (blake3 (leafInput (slot, value))), [leafInput (slot, value)]⟩ := rfl
    rw [deriveLeaves, Logged.bind_eq hquery, Logged.bind_eq ih]
    simp [Logged.pure_eq]

/-- The BLAKE3 digest of a storage leaf: slot 1 with the value 2. -/
def slotDigest : Word :=
  ⟨[210, 189, 199, 88, 229, 135, 177, 235, 22, 71, 56, 114, 153, 119, 146, 60,
    250, 177, 42, 98, 85, 161, 67, 45, 109, 28, 193, 60, 234, 138, 7, 215], rfl⟩

/-- The leaves of a slot map. -/
def slotLeaves (slots : OrdMap.Map Word Word) : List Word :=
  slots.toList.map fun e => blake3 (leafInput e)

/-- The root of a slot map. -/
def slotRoot (slots : OrdMap.Map Word Word) : Word :=
  foldRoot blake3 .trieBranch (slotLeaves blake3 slots)

/-- The inputs hashed for a slot map. -/
def slotInputs (slots : OrdMap.Map Word Word) : List (List UInt8) :=
  slots.toList.map leafInput ++
    (foldQueries blake3 .trieBranch (slotLeaves blake3 slots)).map (pairInput .trieBranch)

/-- The derivation always returns a root. -/
theorem derive_simpleStorageRootDeriver (slots : OrdMap.Map Word Word) :
    (simpleStorageRootDeriver blake3).derive slots =
      ⟨some (.ok (slotRoot blake3 slots)), slotInputs blake3 slots⟩ := by
  simp only [simpleStorageRootDeriver]
  rw [Logged.bind_eq (deriveLeaves_eq blake3 _), Logged.bind_eq (merkleFold_eq blake3 _ _)]
  simp [Logged.pure_eq, slotRoot, slotInputs, slotLeaves]

/-! ## The slots of an account -/

/-- The slots of an account and their terminal values. -/
def slotsOf (stateTable : OrdMap.Map CanonicalKey ReducedVariant) (address : Address) :
    OrdMap.Map Word Word :=
  (slotsByAddress stateTable)[address]?.getD ∅

/-- The step of the loop of `slotsByAddress`: the entry of a slot sets the slot. -/
lemma slotsByAddress_step (slots : OrdMap.Map Address (OrdMap.Map Word Word)) (k : CanonicalKey)
    (variant : ReducedVariant) (address : Address) (slot : Word) :
    ((match (k, variant) with
      | (.storage address slot, .storage t) =>
          slots.alter address fun inner => some ((inner.getD ∅).insert slot t.terminal)
      | _ => slots)[address]?.getD ∅)[slot]? =
      if k = .storage address slot then
        (variant.terminalAt? (.storage address slot)).or (slots[address]?.getD ∅)[slot]?
      else (slots[address]?.getD ∅)[slot]? := by
  cases k with
  | storage address' slot' =>
    cases variant with
    | storage t =>
      simp only [OrdMap.getElem?_alter, CanonicalKey.storage.injEq, ReducedVariant.terminalAt?,
        Option.some_or]
      by_cases haddress : address' = address
      · subst haddress
        simp only [if_true, Option.getD_some, OrdMap.getElem?_insert, true_and]
      · simp [haddress]
    | _ => exact (ite_self _).symm
  | _ => rfl

lemma getElem?_foldl_slots {l : List (CanonicalKey × ReducedVariant)}
    (hl : l.Pairwise fun a b => a.1 ≠ b.1) (address : Address) (slot x : Word) :
    ((l.foldl (fun (slots : OrdMap.Map Address (OrdMap.Map Word Word)) entry =>
      match entry with
      | (.storage address slot, .storage t) =>
          slots.alter address fun inner => some ((inner.getD ∅).insert slot t.terminal)
      | _ => slots) ∅)[address]?.getD ∅)[slot]? = some x ↔
      ∃ variant, (.storage address slot, variant) ∈ l ∧
        variant.terminalAt? (.storage address slot) = some x := by
  induction l using List.reverseRecOn with
  | nil => simp
  | append_singleton l e ih =>
    obtain ⟨k, variant⟩ := e
    obtain ⟨hpre, -, hdistinct⟩ := List.pairwise_append.mp hl
    rw [List.foldl_append, List.foldl_cons, List.foldl_nil, slotsByAddress_step]
    by_cases hk : k = .storage address slot
    · subst hk
      have hnot : ∀ variant, (CanonicalKey.storage address slot, variant) ∉ l :=
        fun variant hmem => hdistinct _ hmem _ (List.mem_singleton_self _) rfl
      -- the slot has no value yet
      rw [if_pos rfl, Option.or_eq_some_iff, ih hpre]
      simp [hnot]
    · rw [if_neg hk, ih hpre]
      simp [Ne.symm hk]

/-- A slot of an account has the terminal value of its key in the table. -/
theorem getElem?_slotsOf (table : OrdMap.Map CanonicalKey ReducedVariant) (address : Address)
    (slot : Word) : (slotsOf table address)[slot]? = terminal? table (.storage address slot) := by
  ext x
  rw [slotsOf, slotsByAddress, getElem?_foldl_slots (OrdMap.pairwise_toList table)]
  simp only [OrdMap.mem_toList_iff, terminal?, Option.bind_eq_some_iff]

/-! ## The pass over the certificates -/

/-- A certificate with its storage root. -/
def CanonicalAccountCertificate.withRoot (c : CanonicalAccountCertificate) (root : Word) :
    CanonicalAccountCertificate :=
  { c with storageRoot := .verified root }

lemma resolveLoop_eq (slots : OrdMap.Map Address (OrdMap.Map Word Word))
    (certificates : OrdMap.Map Address CanonicalAccountCertificate)
    (l : List (Address × CanonicalAccountCertificate)) :
    resolveLoop (simpleStorageRootDeriver blake3) slots certificates l =
      ⟨some (l.foldl (fun acc e => acc.insert e.1
          (e.2.withRoot (slotRoot blake3 (slots[e.1]?.getD ∅)))) certificates, .ok ()),
        l.flatMap fun e => slotInputs blake3 (slots[e.1]?.getD ∅)⟩ := by
  induction l generalizing certificates with
  | nil => rfl
  | cons e l ih =>
    obtain ⟨address, cert⟩ := e
    rw [resolveLoop, Logged.bind_eq (derive_simpleStorageRootDeriver blake3 _)]
    simp only [ih]
    rfl

/-- The pass gives every certificate the root of its account's slots, and hashes nothing
else. -/
theorem resolveStorageRoots_eq (certificates : OrdMap.Map Address CanonicalAccountCertificate)
    (table : OrdMap.Map CanonicalKey ReducedVariant) :
    resolveStorageRoots certificates table (simpleStorageRootDeriver blake3) =
      ⟨some (certificates.map fun address c => c.withRoot (slotRoot blake3 (slotsOf table address)),
          .ok ()),
        certificates.keys.flatMap fun address => slotInputs blake3 (slotsOf table address)⟩ := by
  rw [resolveStorageRoots, resolveLoop_eq]
  have hmap := OrdMap.foldl_insert_toList certificates
    fun address c => c.withRoot (slotRoot blake3 (slotsOf table address))
  simp only [slotsOf] at hmap ⊢
  rw [hmap, ← Std.ExtTreeMap.map_fst_toList_eq_keys, List.flatMap_map]

/-! ## What the root binds -/

variable {blake3} {inputs : List (List UInt8)} {s s' : OrdMap.Map Word Word}

lemma leafInput_mem (h : slotInputs blake3 s ⊆ inputs) {e : Word × Word} (he : e ∈ s.toList) :
    leafInput e ∈ inputs :=
  h (List.mem_append_left _ (List.mem_map_of_mem he))

lemma pairInput_mem (h : slotInputs blake3 s ⊆ inputs) {p : Word × Word}
    (hp : p ∈ foldQueries blake3 .trieBranch (slotLeaves blake3 s)) :
    pairInput .trieBranch p ∈ inputs :=
  h (List.mem_append_right _ (List.mem_map_of_mem hp))

/-- A leaf is no branch: their domains differ in length. -/
lemma leafInput_ne_pairInput (e p : Word × Word) : leafInput e ≠ pairInput .trieBranch p := by
  intro heq
  have hlen := congrArg List.length heq
  simp [leafInput, pairInput, Domain.asBytes] at hlen

lemma slotLeaves_ne_zero (hfree : CollisionFree blake3 inputs) (h : slotInputs blake3 s ⊆ inputs) :
    ∀ x ∈ slotLeaves blake3 s, x ≠ Bytes.zero 32 := by
  intro x hx
  obtain ⟨e, he, rfl⟩ := List.mem_map.mp hx
  exact hfree.nonzero _ (leafInput_mem h he)

lemma slotRoot_of_nil (h : slotLeaves blake3 s = []) : slotRoot blake3 s = Bytes.zero 32 := by
  rw [slotRoot, h]
  rfl

/-- The root of touched slots is a digest. -/
lemma slotRoot_ne_zero (hfree : CollisionFree blake3 inputs) (h : slotInputs blake3 s ⊆ inputs)
    (hne : slotLeaves blake3 s ≠ []) : slotRoot blake3 s ≠ Bytes.zero 32 := by
  rcases foldRoot_cases hne with hsingle | ⟨p, hp, hxp⟩
  · refine slotLeaves_ne_zero hfree h _ ?_
    rw [hsingle]
    exact List.mem_singleton_self _
  · rw [slotRoot, hxp]
    exact hfree.nonzero _ (pairInput_mem h hp)

/-- Trees of different heights with one root would make a leaf of the lower one a branch of
the higher one. -/
lemma not_height_lt_of_slotRoot_eq (hfree : CollisionFree blake3 inputs)
    (hs : slotInputs blake3 s ⊆ inputs) (hs' : slotInputs blake3 s' ⊆ inputs)
    (hne : slotLeaves blake3 s ≠ []) (hne' : slotLeaves blake3 s' ≠ [])
    (h : slotRoot blake3 s = slotRoot blake3 s') :
    ¬ height (slotLeaves blake3 s) < height (slotLeaves blake3 s') := by
  intro hlt
  have hfold := foldLeaves_of_ne_nil hne
  have hfold' := foldLeaves_of_ne_nil hne'
  have hlevel := exists_level_of_foldRoot_eq hfree (fun p hp => pairInput_mem hs hp)
    (fun p hp => pairInput_mem hs' hp) (by rw [hfold, hfold']; exact hlt.le) h
  rw [hfold, hfold'] at hlevel
  obtain ⟨leaf, rest, hcons⟩ := List.exists_cons_of_ne_nil hne
  have hmem : leaf ∈ slotLeaves blake3 s := by simp [hcons]
  have hpad : leaf ∈ padLayer (slotLeaves blake3 s) := by
    rw [padLayer]
    exact List.mem_append_left _ hmem
  obtain ⟨k, hk⟩ : ∃ k, height (slotLeaves blake3 s') - height (slotLeaves blake3 s) = k + 1 :=
    ⟨_, (Nat.succ_pred_eq_of_pos (by omega)).symm⟩
  rw [hlevel, hk] at hpad
  obtain ⟨p, hp, hxp⟩ := exists_of_mem_level_padLayer (by omega) hpad
  obtain ⟨e, he, rfl⟩ := List.mem_map.mp hmem
  have hquery : p ∈ foldQueries blake3 .trieBranch (slotLeaves blake3 s') := by
    rwa [foldQueries, hfold']
  exact leafInput_ne_pairInput e p
    (hfree.injective _ (leafInput_mem hs he) _ (pairInput_mem hs' hquery) hxp)

lemma slotLeaves_eq_of_slotRoot_eq (hfree : CollisionFree blake3 inputs)
    (hs : slotInputs blake3 s ⊆ inputs) (hs' : slotInputs blake3 s' ⊆ inputs)
    (h : slotRoot blake3 s = slotRoot blake3 s') : slotLeaves blake3 s = slotLeaves blake3 s' := by
  by_cases hne : slotLeaves blake3 s = []
  · by_cases hne' : slotLeaves blake3 s' = []
    · rw [hne, hne']
    · exact absurd (h.symm.trans (slotRoot_of_nil hne)) (slotRoot_ne_zero hfree hs' hne')
  · by_cases hne' : slotLeaves blake3 s' = []
    · exact absurd (h.trans (slotRoot_of_nil hne')) (slotRoot_ne_zero hfree hs hne)
    · have hlt := not_height_lt_of_slotRoot_eq hfree hs hs' hne hne' h
      have hgt := not_height_lt_of_slotRoot_eq hfree hs' hs hne' hne h.symm
      have hfold := foldLeaves_of_ne_nil hne
      have hfold' := foldLeaves_of_ne_nil hne'
      have hpad := padLayer_eq_of_foldRoot_eq hfree (fun p hp => pairInput_mem hs hp)
        (fun p hp => pairInput_mem hs' hp) (by rw [hfold, hfold']; omega) h
      rw [hfold, hfold'] at hpad
      exact eq_of_padLayer_eq (slotLeaves_ne_zero hfree hs) (slotLeaves_ne_zero hfree hs') hpad

/-- Without collisions and zero digests the root binds the slots and their values. -/
theorem eq_of_slotRoot_eq (hfree : CollisionFree blake3 inputs)
    (hs : slotInputs blake3 s ⊆ inputs) (hs' : slotInputs blake3 s' ⊆ inputs)
    (h : slotRoot blake3 s = slotRoot blake3 s') : s = s' := by
  have hinj : PairTree.InjectiveOn (fun slot value => blake3 (leafInput (slot, value)))
      {e | leafInput e ∈ inputs} := by
    intro e he e' he' heq
    exact leafInput_injective (hfree.injective _ he _ he' heq)
  have hlist : s.toList = s'.toList :=
    PairTree.eq_of_map_eq hinj (fun e he => leafInput_mem hs he)
      (fun e he => leafInput_mem hs' he) (slotLeaves_eq_of_slotRoot_eq hfree hs hs' h)
  exact Std.ExtTreeMap.toList_inj.mp hlist

/-- **Storage-root binding.**  Two slot maps with one derived root are the same map, if BLAKE3
has no collision and no zero digest among the inputs hashed in the two derivations. -/
theorem eq_of_derive_eq {root : Word}
    (hfree : CollisionFree blake3 (((simpleStorageRootDeriver blake3).derive s).log ++
      ((simpleStorageRootDeriver blake3).derive s').log))
    (h : ((simpleStorageRootDeriver blake3).derive s).result = some (.ok root))
    (h' : ((simpleStorageRootDeriver blake3).derive s').result = some (.ok root)) : s = s' := by
  rw [derive_simpleStorageRootDeriver] at h h'
  simp only [derive_simpleStorageRootDeriver] at hfree
  have hroot : slotRoot blake3 s = root := Except.ok.inj (Option.some.inj h)
  have hroot' : slotRoot blake3 s' = root := Except.ok.inj (Option.some.inj h')
  refine eq_of_slotRoot_eq hfree (List.subset_append_left _ _) (List.subset_append_right _ _) ?_
  rw [hroot, hroot']

/-- The BLAKE3 digests of the leaf of slot 3 with the value 4, and of the branch over that of
slot 1 with the value 2 and this one. -/
def leafPairDigests : Word × Word :=
  (⟨[6, 28, 130, 187, 126, 248, 72, 56, 164, 87, 150, 68, 118, 172, 74, 118,
      3, 195, 147, 4, 235, 182, 255, 247, 99, 160, 249, 34, 111, 184, 250, 7], rfl⟩,
    ⟨[157, 2, 47, 219, 177, 144, 168, 14, 230, 55, 89, 90, 91, 90, 146, 98,
      133, 173, 90, 78, 113, 200, 201, 103, 111, 92, 225, 216, 229, 88, 15, 217], rfl⟩)

/-- BLAKE3 on the two leaves and the branch. -/
def pairBlake3 : Blake3 :=
  .ofTable [(leafInput (Bytes.last 31 1, Bytes.last 31 2), slotDigest),
    (leafInput (Bytes.last 31 3, Bytes.last 31 4), leafPairDigests.1),
    (pairInput .trieBranch (slotDigest, leafPairDigests.1), leafPairDigests.2)]

/-- The two slots, written in either order. -/
theorem twoSlots_eq :
    ((∅ : OrdMap.Map Word Word).insert (Bytes.last 31 1) (Bytes.last 31 2)).insert
        (Bytes.last 31 3) (Bytes.last 31 4) =
      ((∅ : OrdMap.Map Word Word).insert (Bytes.last 31 3) (Bytes.last 31 4)).insert
        (Bytes.last 31 1) (Bytes.last 31 2) :=
  @eq_of_derive_eq pairBlake3 _ _ leafPairDigests.2
    (by decide +kernel) (by decide +kernel) (by decide +kernel)

end KaySentinel.Builder
