import KaySentinel.Builder.Issuance
import KaySentinel.Builder.StorageRoot

/-!
# Storage roots with a deriver that may fail

`resolveStorageRoots` writes the roots in place, account by account, and returns at the first
account at which the deriver fails; the accounts before that one keep their roots
(`resolveStorageRoots_spec`).
-/

namespace KaySentinel.Builder

open Cse

variable {BackendError : Type}

/-- The certificate has the root that `derive` finds for the slots. -/
def RootSet (derive : OrdMap.Map Word Word → Except (DerivationError BackendError) Word)
    (slots : OrdMap.Map Word Word) (c : CanonicalAccountCertificate)
    (after : Option CanonicalAccountCertificate) : Prop :=
  ∃ root, derive slots = .ok root ∧ after = some (c.withRoot root)

section Pass

variable {deriver : StorageRootDeriver BackendError}
  {derive : OrdMap.Map Word Word → Except (DerivationError BackendError) Word}

/-- The loop sets the roots of a prefix, all if it ends well, and else the one before the account
at which the deriver fails. -/
lemma resolveLoop_spec (hderive : ∀ slots, (deriver.derive slots).result = some (derive slots))
    (slots : OrdMap.Map Address (OrdMap.Map Word Word))
    (certificates : OrdMap.Map Address CanonicalAccountCertificate)
    {l : List (Address × CanonicalAccountCertificate)} (hl : l.Pairwise fun a b => a.1 ≠ b.1) :
    ∃ done rest after outcome, l = done ++ rest ∧
      (resolveLoop deriver slots certificates l).result = some (after, outcome) ∧
      (∀ e ∈ done, RootSet derive (slots[e.1]?.getD ∅) e.2 after[e.1]?) ∧
      (∀ address : Address, (∀ e ∈ done, e.1 ≠ address) →
        after[address]? = certificates[address]?) ∧
      (outcome = .ok () ∧ rest = [] ∨
        ∃ failing later e, rest = failing :: later ∧
          derive (slots[failing.1]?.getD ∅) = .error e ∧ outcome = .error e) := by
  induction l generalizing certificates with
  | nil =>
    exact ⟨[], [], certificates, .ok (), rfl, rfl, by simp, fun _ _ => rfl, .inl ⟨rfl, rfl⟩⟩
  | cons entry l ih =>
    obtain ⟨address, cert⟩ := entry
    obtain ⟨hhead, hl⟩ := List.pairwise_cons.mp hl
    have hresult := hderive (slots[address]?.getD ∅)
    cases hd : derive (slots[address]?.getD ∅) with
    | error e =>
      rw [hd] at hresult
      refine ⟨[], (address, cert) :: l, certificates, .error e, rfl, ?_, by simp, fun _ _ => rfl,
        .inr ⟨(address, cert), l, e, rfl, hd, rfl⟩⟩
      rw [resolveLoop, Logged.result_bind_of_result hresult]
      rfl
    | ok root =>
      rw [hd] at hresult
      obtain ⟨done, rest, after, outcome, rfl, hrun, hset, hkeep, hend⟩ :=
        ih (certificates.insert address (cert.withRoot root)) hl
      refine ⟨(address, cert) :: done, rest, after, outcome, rfl, ?_, ?_, ?_, hend⟩
      · rw [resolveLoop, Logged.result_bind_of_result hresult]
        exact hrun
      · -- the later steps leave the root just set
        refine List.forall_mem_cons.mpr ⟨⟨root, hd, ?_⟩, hset⟩
        rw [hkeep address fun e he => Ne.symm (hhead e (List.mem_append_left _ he)),
          OrdMap.getElem?_insert, if_pos rfl]
      · intro address' hne
        obtain ⟨hne, hrest⟩ := List.forall_mem_cons.mp hne
        rw [hkeep address' hrest, OrdMap.getElem?_insert, if_neg hne]

/-- **The pass over the certificates.**  The deriver sees the storage terminals of the account
alone.  All roots are set, or those of the accounts before the first one at which the deriver
fails; nothing else changes. -/
theorem resolveStorageRoots_spec
    (hderive : ∀ slots, (deriver.derive slots).result = some (derive slots))
    (certificates : OrdMap.Map Address CanonicalAccountCertificate)
    (table : OrdMap.Map CanonicalKey ReducedVariant) :
    (∀ (address : Address) (slot value : Word), (slotsOf table address)[slot]? = some value ↔
        ∃ t : ReducedTransition Word,
          table[CanonicalKey.storage address slot]? = some (.storage t) ∧ t.terminal = value) ∧
      ∃ after outcome,
        (resolveStorageRoots certificates table deriver).result = some (after, outcome) ∧
        (∀ address : Address, certificates[address]? = none → after[address]? = none) ∧
        (outcome = .ok () → ∀ (address : Address) (c : CanonicalAccountCertificate),
          certificates[address]? = some c →
            RootSet derive (slotsOf table address) c after[address]?) ∧
        ∀ e, outcome = .error e → ∃ failing : Address, certificates[failing]?.isSome ∧
          derive (slotsOf table failing) = .error e ∧
          ∀ (address : Address) (c : CanonicalAccountCertificate),
            certificates[address]? = some c →
              (compare address failing = .lt →
                RootSet derive (slotsOf table address) c after[address]?) ∧
              (¬compare address failing = .lt → after[address]? = some c) := by
  refine ⟨fun address slot value => ?_, ?_⟩
  · rw [getElem?_slotsOf, terminal?, Option.bind_eq_some_iff]
    constructor
    · rintro ⟨variant, hk, hterminal⟩
      cases variant with
      | storage t => exact ⟨t, hk, Option.some.inj hterminal⟩
      | _ => exact absurd hterminal (by simp [ReducedVariant.terminalAt?])
    · rintro ⟨t, hk, rfl⟩
      exact ⟨_, hk, rfl⟩
  · obtain ⟨done, rest, after, outcome, hlist, hrun, hset, hkeep, hend⟩ :=
      resolveLoop_spec hderive (slotsByAddress table) certificates
        (OrdMap.pairwise_toList certificates)
    have hmem : ∀ (address : Address) (c : CanonicalAccountCertificate),
        certificates[address]? = some c ↔ (address, c) ∈ done ++ rest := by
      intro address c
      rw [← hlist, OrdMap.mem_toList_iff]
    refine ⟨after, outcome, hrun, fun address hnone => ?_, fun hok address c hc => ?_, ?_⟩
    · rw [hkeep address, hnone]
      rintro ⟨a, c⟩ he rfl
      rw [(hmem a c).mpr (List.mem_append_left _ he)] at hnone
      exact absurd hnone (by simp)
    · rcases hend with ⟨-, rfl⟩ | ⟨-, -, e, -, -, herror⟩
      · rw [List.append_nil] at hmem
        exact hset (address, c) ((hmem address c).mp hc)
      · rw [hok] at herror
        exact absurd herror (by simp)
    · rintro e rfl
      rcases hend with ⟨herror, -⟩ | ⟨⟨failing, cfail⟩, later, e', rfl, hd, herror⟩
      · exact absurd herror (by simp)
      · obtain rfl := Except.error.inj herror
        have hsorted := certificates.ordered_keys_toList
        rw [hlist] at hsorted
        obtain ⟨-, hrest, hcross⟩ := List.pairwise_append.mp hsorted
        refine ⟨failing, ?_, hd, fun address c hc => ⟨fun hlt => ?_, fun hge => ?_⟩⟩
        · rw [(hmem failing cfail).mpr (by simp)]
          rfl
        · -- the accounts before the failing one are done
          rcases List.mem_append.mp ((hmem address c).mp hc) with hdone | hlater
          · exact hset (address, c) hdone
          · have hle : compare failing address ≠ .gt := by
              rcases List.mem_cons.mp hlater with heq | hlater
              · rw [(Prod.mk.inj heq).1]
                have hself : compare failing failing = .eq := Std.ReflCmp.compare_self
                rw [hself]
                decide
              · rw [(List.pairwise_cons.mp hrest).1 (address, c) hlater]
                decide
            exact absurd (Std.OrientedCmp.gt_of_lt hlt) hle
        · rw [hkeep address, hc]
          rintro ⟨a, c'⟩ hdone rfl
          exact hge (hcross (a, c') hdone (failing, cfail) (by simp))

end Pass

/-- Slots can be derived only where there are none. -/
def deriveSlotless (slots : OrdMap.Map Word Word) : Except (DerivationError Empty) Word :=
  if slots.isEmpty then .ok (Bytes.zero 32) else .error (.domain .missingBaseState)

def slotlessDeriver : StorageRootDeriver Empty where
  derive slots := pure (deriveSlotless slots)

/-- A certificate without a root. -/
def unrooted (address : Address) : CanonicalAccountCertificate where
  address := address
  generation :=
    { key := { address := address, generationId := 0 }, stateTableProofRoot := Bytes.zero 32 }
  nonce := 0
  balance := Bytes.zero 32
  codeHash := Bytes.zero 32
  storageRoot := .awaitingDerivation

def unrootedPair : OrdMap.Map Address CanonicalAccountCertificate :=
  ((∅ : OrdMap.Map Address CanonicalAccountCertificate).insert (Bytes.zero 20)
    (unrooted (Bytes.zero 20))).insert (Bytes.last 19 1) (unrooted (Bytes.last 19 1))

/-- The second account of the pair writes a slot. -/
def slotTable : OrdMap.Map CanonicalKey ReducedVariant :=
  (∅ : OrdMap.Map CanonicalKey ReducedVariant).insert (.storage (Bytes.last 19 1) (Bytes.zero 32))
    (.storage { initial := Bytes.zero 32, terminal := Bytes.last 31 1, provenance := ∅ })

/-- Without slots every root is set. -/
theorem unrootedPair_resolved :
    ∃ after, (resolveStorageRoots unrootedPair ∅ slotlessDeriver).result = some (after, .ok ()) ∧
      ∀ (address : Address) (c : CanonicalAccountCertificate), unrootedPair[address]? = some c →
        RootSet deriveSlotless (slotsOf ∅ address) c after[address]? := by
  have hderive : ∀ slots, (slotlessDeriver.derive slots).result = some (deriveSlotless slots) :=
    fun _ => rfl
  obtain ⟨after, hok⟩ : ∃ after,
      (resolveStorageRoots unrootedPair ∅ slotlessDeriver).result = some (after, .ok ()) :=
    ⟨_, rfl⟩
  obtain ⟨-, after', outcome, hrun, -, hset, -⟩ :=
    resolveStorageRoots_spec hderive unrootedPair ∅
  obtain ⟨rfl, rfl⟩ := Prod.mk.inj (Option.some.inj (hrun.symm.trans hok))
  exact ⟨after', hok, hset rfl⟩

/-- The root of the first account is set although the second one fails. -/
theorem unrootedPair_halfway :
    ∃ after e,
      (resolveStorageRoots unrootedPair slotTable slotlessDeriver).result =
          some (after, .error e) ∧
        after ≠ unrootedPair := by
  refine ⟨_, _, rfl, fun heq => ?_⟩
  have hroot := congrArg (fun certs : OrdMap.Map Address CanonicalAccountCertificate =>
    certs[(Bytes.zero 20 : Address)]?.map (·.storageRoot)) heq
  exact absurd hroot (by decide)

end KaySentinel.Builder
