import KaySentinel.Verify.Soundness

/-!
# Tampering with a certificate

Which changes of one certificate of an accepted batch Gate 2 notices.  It compares address,
nonce, balance, code hash and storage root, and of the generation nothing:
`tampering_rejected_iff`.
-/

namespace KaySentinel.Verify

open Cse Builder

variable {blake3 : Blake3} {traces : List CsePayload} {c c' d : CanonicalAccountCertificate}
  {l₁ l₂ : List CanonicalAccountCertificate}

/-- Two certificates say the same of the same account, perhaps of different generations. -/
structure SameAccount (c c' : CanonicalAccountCertificate) : Prop where
  address : c.address = c'.address
  nonce : c.nonce = c'.nonce
  balance : c.balance = c'.balance
  codeHash : c.codeHash = c'.codeHash
  storageRoot : c.storageRoot = c'.storageRoot

lemma SameAccount.at?_eq (h : SameAccount c c') (k : CanonicalKey) : c.at? k = c'.at? k := by
  cases k with
  | balance a => exact congrArg some h.balance
  | nonce a => exact congrArg some h.nonce
  | code a => exact congrArg some h.codeHash
  | storage a slot => rfl
  | transient a slot => rfl

lemma SameAccount.agrees (h : SameAccount c c') (hc : Agrees blake3 traces c) :
    Agrees blake3 traces c' := by
  obtain ⟨hfields, hroot⟩ := hc
  refine ⟨fun k hk haddress => ?_, ?_⟩
  · rw [← h.at?_eq]
    exact hfields k hk (haddress.trans h.address.symm)
  · rw [← h.storageRoot, ← h.address]
    exact hroot

/-- The model leaves a certificate of an account no choice but the generation. -/
lemma sameAccount_of_agrees (hc : Agrees blake3 traces c) (hc' : Agrees blake3 traces c')
    (haddress : c.address = c'.address) : SameAccount c c' := by
  obtain ⟨hfields, hroot⟩ := hc
  obtain ⟨hfields', hroot'⟩ := hc'
  rw [← haddress] at hfields' hroot'
  have heq : ∀ k : CanonicalKey, k.isField = true → k.address = c.address →
      c.at? k = c'.at? k := fun k hk ha => (hfields k hk ha).trans (hfields' k hk ha).symm
  exact ⟨haddress, Option.some.inj (heq (.nonce c.address) rfl rfl),
    Option.some.inj (heq (.balance c.address) rfl rfl),
    Option.some.inj (heq (.code c.address) rfl rfl), hroot.trans hroot'.symm⟩

/-- Replacing a certificate keeps the certified accounts if it keeps the address, or if both
addresses have other certificates. -/
lemma addresses_replace_iff :
    (∀ address, (∃ e ∈ l₁ ++ c :: l₂, e.address = address) ↔
        ∃ e ∈ l₁ ++ c' :: l₂, e.address = address) ↔
      c'.address ≠ c.address → (∃ e ∈ l₁ ++ l₂, e.address = c.address) ∧
        ∃ e ∈ l₁ ++ l₂, e.address = c'.address := by
  have hsplit : ∀ (x : CanonicalAccountCertificate) (address : Address),
      (∃ e ∈ l₁ ++ x :: l₂, e.address = address) ↔
        x.address = address ∨ ∃ e ∈ l₁ ++ l₂, e.address = address := by
    intro x address
    simp only [List.mem_append, List.mem_cons]
    grind
  simp only [hsplit]
  constructor
  · intro h hne
    exact ⟨((h c.address).mp (.inl rfl)).resolve_left hne,
      ((h c'.address).mpr (.inl rfl)).resolve_left (Ne.symm hne)⟩
  · intro h address
    by_cases hne : c'.address = c.address
    · rw [hne]
    · obtain ⟨hc, hc'⟩ := h hne
      constructor
      · rintro (rfl | hmem)
        · exact .inr hc
        · exact .inr hmem
      · rintro (rfl | hmem)
        · exact .inr hc'
        · exact .inr hmem

/-- **Tampering with one certificate.**  Of an accepted batch, with one certificate replaced by
another, Gate 2 rejects the changed batch exactly if the new certificate says of no certified
account what the accepted ones say, or if it leaves the old address without a certificate. -/
theorem tampering_rejected_iff
    (hok : (replayAndVerify blake3 ⟨l₁ ++ c :: l₂, traces⟩).result = some (.ok ())) :
    (∃ errors, (replayAndVerify blake3 ⟨l₁ ++ c' :: l₂, traces⟩).result = some (.error errors)) ↔
      (∀ d ∈ l₁ ++ c :: l₂, ¬ SameAccount d c') ∨
        c'.address ≠ c.address ∧ ∀ d ∈ l₁ ++ l₂, d.address ≠ c.address := by
  obtain ⟨hconsistent, htouched, hagrees⟩ := (replayAndVerify_eq_ok_iff blake3 _).mp hok
  have haccepted : (replayAndVerify blake3 ⟨l₁ ++ c' :: l₂, traces⟩).result = some (.ok ()) ↔
      (c'.address ≠ c.address → (∃ e ∈ l₁ ++ l₂, e.address = c.address) ∧
        ∃ e ∈ l₁ ++ l₂, e.address = c'.address) ∧ Agrees blake3 traces c' := by
    rw [replayAndVerify_eq_ok_iff, ← addresses_replace_iff]
    constructor
    · rintro ⟨-, htouched', hagree'⟩
      exact ⟨fun address => (htouched address).symm.trans (htouched' address),
        hagree' c' (by simp)⟩
    · rintro ⟨hsame, hc'⟩
      refine ⟨hconsistent, fun address => (htouched address).trans (hsame address), fun d hd => ?_⟩
      rcases List.mem_append.mp hd with hd | hd
      · exact hagrees d (by simp [hd])
      · rcases List.mem_cons.mp hd with rfl | hd
        · exact hc'
        · exact hagrees d (by simp [hd])
  have hrejected : (∃ errors, (replayAndVerify blake3 ⟨l₁ ++ c' :: l₂, traces⟩).result =
      some (.error errors)) ↔
        ¬ (replayAndVerify blake3 ⟨l₁ ++ c' :: l₂, traces⟩).result = some (.ok ()) := by
    rw [result_replayAndVerify]
    split_ifs <;> simp
  rw [hrejected, haccepted, not_iff_comm, not_or]
  simp only [not_forall, not_not, not_and, exists_prop, ne_eq]
  constructor
  · rintro ⟨⟨d, hd, hsame⟩, hother⟩
    refine ⟨fun hne => ⟨hother hne, d, ?_, hsame.address⟩, hsame.agrees (hagrees d hd)⟩
    -- the certificate of the new address is not the one replaced
    have hdc : d ≠ c := by
      rintro rfl
      exact hne hsame.address.symm
    simp only [List.mem_append, List.mem_cons] at hd ⊢
    tauto
  · rintro ⟨hother, hc'⟩
    refine ⟨?_, fun hne => (hother hne).1⟩
    by_cases hne : c'.address = c.address
    · exact ⟨c, by simp, sameAccount_of_agrees (hagrees c (by simp)) hc' hne.symm⟩
    · obtain ⟨-, e, he, heq⟩ := hother hne
      have hmem : e ∈ l₁ ++ c :: l₂ := by
        simp only [List.mem_append, List.mem_cons] at he ⊢
        tauto
      exact ⟨e, hmem, sameAccount_of_agrees (hagrees e hmem) hc' heq⟩

/-- The certificate of `slotBatch` with another generation, or another nonce. -/
def forgedCertificate (generationId : UInt32) (nonce : UInt64) : CanonicalAccountCertificate where
  address := Bytes.last 19 1
  generation := { key := ⟨Bytes.last 19 1, generationId⟩, stateTableProofRoot := Bytes.zero 32 }
  nonce := nonce
  balance := Bytes.zero 32
  codeHash := Bytes.zero 32
  storageRoot := .verified slotDigest

/-- A forged generation goes unnoticed. -/
theorem forged_generation_accepted :
    (replayAndVerify slotBlake3 ⟨[forgedCertificate 0 0], slotBatch.executionTraces⟩).result =
        some (.ok ()) ∧
      forgedCertificate 1 0 ≠ forgedCertificate 0 0 ∧
      (replayAndVerify slotBlake3 ⟨[forgedCertificate 1 0], slotBatch.executionTraces⟩).result =
        some (.ok ()) :=
  ⟨rfl, by decide, rfl⟩

/-- A forged nonce does not. -/
theorem forged_nonce_rejected :
    ∃ errors,
      (replayAndVerify slotBlake3 ⟨[forgedCertificate 0 7], slotBatch.executionTraces⟩).result =
        some (.error errors) := by
  have hok : (replayAndVerify slotBlake3 ⟨[] ++ forgedCertificate 0 0 :: [],
      slotBatch.executionTraces⟩).result = some (.ok ()) := rfl
  refine (tampering_rejected_iff hok).mpr (.inl fun d hd hsame => ?_)
  obtain rfl := List.mem_singleton.mp hd
  exact absurd hsame.nonce (by decide)

end KaySentinel.Verify
