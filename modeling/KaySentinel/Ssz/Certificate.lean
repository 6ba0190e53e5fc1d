import KaySentinel.Builder.StorageRoot
import KaySentinel.Ssz.Snapshot

/-!
# Certificate batches and their roots

The wire encoding of a resolved certificate and the Merkle root over a batch of them.
Without collisions the root binds the batch: `eq_of_batchRoot_eq`.
-/

namespace KaySentinel.Ssz

open Builder

def certificateEncodedLen : ℕ := 20 + 20 + 4 + 32 + 8 + 32 + 32 + 32

/-- The certificate's `ssz_encode`. -/
def encodeCertificate (c : CanonicalAccountCertificate) : Except SszError (List UInt8) :=
  match c.storageRoot with
  | .awaitingDerivation => .error .unresolvedStorageRoot
  | .verified storageRoot =>
      .ok (c.address.toList ++ (c.generation.key.address.toList ++
        (u32LeBytes c.generation.key.generationId ++ (c.generation.stateTableProofRoot.toList ++
          (u64LeBytes c.nonce ++ (c.balance.toList ++ (c.codeHash.toList ++
            storageRoot.toList)))))))

/-- The commitment over the encoding of one certificate. -/
def commitRoot (blake3 : Blake3) (c : CanonicalAccountCertificate) :
    Hashing (Except SszError Word) :=
  match encodeCertificate c with
  | .error e => pure (.error e)
  | .ok bytes => do
      let digest ← deriveCommitment blake3 .lifeCert bytes
      pure (.ok digest)

/-- `for cert in certificates.values()`: the chunks of all certificates. -/
def flatChunks : List CanonicalAccountCertificate → Except SszError (List Word)
  | [] => .ok []
  | cert :: rest => do
      let bytes ← encodeCertificate cert
      let chunks ← flatChunks rest
      return chunkify bytes ++ chunks

def commitCertificateBatch (blake3 : Blake3)
    (certificates : OrdMap.Map Address CanonicalAccountCertificate) :
    Hashing (Except SszError Word) :=
  match flatChunks (OrdMap.values certificates) with
  | .error e => pure (.error e)
  | .ok chunks => do
      let root ← merkleize blake3 chunks
      pure (.ok root)

/-- The root over a batch whose certificates can all be encoded. -/
lemma commitCertificateBatch_eq (blake3 : Blake3)
    {certificates : OrdMap.Map Address CanonicalAccountCertificate} {chunks : List Word}
    (h : flatChunks (OrdMap.values certificates) = .ok chunks) :
    commitCertificateBatch blake3 certificates =
      ⟨some (.ok (foldRoot blake3 .ssrRoot chunks)),
        (foldQueries blake3 .ssrRoot chunks).map (pairInput .ssrRoot)⟩ := by
  rw [commitCertificateBatch, h]
  simp only [merkleize]
  rw [Logged.bind_eq (merkleFold_eq blake3 _ _)]
  simp [Logged.pure_eq]

/-! ## The encoding of one certificate -/

variable {c c' : CanonicalAccountCertificate} {bytes : List UInt8}

lemma length_encodeCertificate (h : encodeCertificate c = .ok bytes) :
    bytes.length = certificateEncodedLen := by
  rw [encodeCertificate] at h
  cases hroot : c.storageRoot with
  | awaitingDerivation => simp [hroot] at h
  | verified storageRoot =>
    simp only [hroot, Except.ok.injEq] at h
    simp [← h, certificateEncodedLen]

lemma encodeCertificate_inj (h : encodeCertificate c = .ok bytes)
    (h' : encodeCertificate c' = .ok bytes) : c = c' := by
  obtain ⟨address, ⟨⟨keyAddress, generationId⟩, proofRoot⟩, nonce, balance, codeHash, root⟩ := c
  obtain ⟨address', ⟨⟨keyAddress', generationId'⟩, proofRoot'⟩, nonce', balance', codeHash',
    root'⟩ := c'
  cases root with
  | awaitingDerivation => simp [encodeCertificate] at h
  | verified storageRoot => cases root' with
    | awaitingDerivation => simp [encodeCertificate] at h'
    | verified storageRoot' =>
      simp only [encodeCertificate, Except.ok.injEq] at h h'
      obtain ⟨rfl, hkey⟩ := Bytes.append_inj (h.trans h'.symm)
      obtain ⟨rfl, htail⟩ := Bytes.append_inj hkey
      obtain ⟨hid, hproof⟩ := List.append_inj htail (by simp)
      obtain ⟨rfl, hfields⟩ := Bytes.append_inj hproof
      obtain ⟨hnonce, hbalance⟩ := List.append_inj hfields (by simp)
      obtain ⟨rfl, hcode⟩ := Bytes.append_inj hbalance
      obtain ⟨rfl, hroot⟩ := Bytes.append_inj hcode
      rw [u32LeBytes_injective hid, u64LeBytes_injective hnonce, Bytes.toList_inj.mp hroot]

/-- The encoding starts with the address. -/
lemma exists_append_encodeCertificate (h : encodeCertificate c = .ok bytes) :
    ∃ rest, bytes = c.address.toList ++ rest := by
  rw [encodeCertificate] at h
  cases hroot : c.storageRoot with
  | awaitingDerivation => simp [hroot] at h
  | verified storageRoot =>
    simp only [hroot, Except.ok.injEq] at h
    exact ⟨_, h.symm⟩

lemma ne_nil_of_encodeCertificate (h : encodeCertificate c = .ok bytes) : bytes ≠ [] := by
  intro hnil
  have hlen := length_encodeCertificate h
  rw [hnil] at hlen
  exact absurd hlen (by decide)

/-- A certificate takes six chunks. -/
lemma length_chunkify_encodeCertificate (h : encodeCertificate c = .ok bytes) :
    (chunkify bytes).length = 6 := by
  rw [length_chunkify (ne_nil_of_encodeCertificate h), length_encodeCertificate h]
  rfl

lemma eq_of_chunkify_eq {bytes' : List UInt8} (h : encodeCertificate c = .ok bytes)
    (h' : encodeCertificate c' = .ok bytes') (heq : chunkify bytes = chunkify bytes') :
    c = c' := by
  obtain ⟨n, hn, -⟩ := rowBytes_chunkify (ne_nil_of_encodeCertificate h)
  obtain ⟨n', hn', -⟩ := rowBytes_chunkify (ne_nil_of_encodeCertificate h')
  rw [heq, hn'] at hn
  have hlen : bytes'.length = bytes.length :=
    (length_encodeCertificate h').trans (length_encodeCertificate h).symm
  obtain ⟨rfl, -⟩ := List.append_inj hn hlen
  exact encodeCertificate_inj h h'

/-- Only a certificate of the zero address can have zero chunks. -/
lemma address_eq_zero_of_chunks (h : encodeCertificate c = .ok bytes)
    (hzero : ∀ x ∈ chunkify bytes, x = Bytes.zero 32) : c.address = Bytes.zero 20 := by
  obtain ⟨n, hn, -⟩ := rowBytes_chunkify (ne_nil_of_encodeCertificate h)
  rw [List.eq_replicate_of_mem hzero, rowBytes_replicate_zero] at hn
  obtain ⟨rest, rfl⟩ := exists_append_encodeCertificate h
  rw [← Bytes.toList_inj, Bytes.toList_zero]
  refine List.eq_replicate_iff.mpr ⟨by simp, fun b hb => ?_⟩
  refine List.eq_of_mem_replicate (n := 32 * (chunkify (c.address.toList ++ rest)).length) ?_
  rw [hn]
  simp [hb]

/-! ## The chunks of a batch -/

variable {l l' : List CanonicalAccountCertificate} {xs ys : List Word}

lemma flatChunks_cons_eq_ok :
    flatChunks (c :: l) = .ok xs ↔ ∃ bytes chunks, encodeCertificate c = .ok bytes ∧
      flatChunks l = .ok chunks ∧ chunkify bytes ++ chunks = xs := by
  rw [flatChunks, Fallible.bind_eq_ok_iff]
  refine exists_congr fun bytes => ?_
  rw [Fallible.bind_eq_ok_iff, ← exists_and_left]
  refine exists_congr fun chunks => and_congr_right fun _ => and_congr_right fun _ => ?_
  exact ⟨Except.ok.inj, fun h => h ▸ rfl⟩

lemma length_flatChunks (h : flatChunks l = .ok xs) : xs.length = 6 * l.length := by
  induction l generalizing xs with
  | nil =>
    obtain rfl := Except.ok.inj h
    rfl
  | cons c l ih =>
    obtain ⟨bytes, chunks, hbytes, hchunks, rfl⟩ := flatChunks_cons_eq_ok.mp h
    rw [List.length_append, length_chunkify_encodeCertificate hbytes, ih hchunks,
      List.length_cons]
    omega

/-- Equal chunks of two batches peel off a certificate on each side. -/
lemma flatChunks_cons_cons (h : flatChunks (c :: l) = .ok xs)
    (h' : flatChunks (c' :: l') = .ok ys) {m n : ℕ}
    (heq : xs ++ List.replicate m (Bytes.zero 32) = ys ++ List.replicate n (Bytes.zero 32)) :
    c = c' ∧ ∃ xs' ys', flatChunks l = .ok xs' ∧ flatChunks l' = .ok ys' ∧
      xs' ++ List.replicate m (Bytes.zero 32) = ys' ++ List.replicate n (Bytes.zero 32) := by
  obtain ⟨bytes, chunks, hbytes, hchunks, rfl⟩ := flatChunks_cons_eq_ok.mp h
  obtain ⟨bytes', chunks', hbytes', hchunks', rfl⟩ := flatChunks_cons_eq_ok.mp h'
  rw [List.append_assoc, List.append_assoc] at heq
  have hlen : (chunkify bytes).length = (chunkify bytes').length := by
    rw [length_chunkify_encodeCertificate hbytes, length_chunkify_encodeCertificate hbytes']
  obtain ⟨hfirst, hrest⟩ := List.append_inj heq hlen
  exact ⟨eq_of_chunkify_eq hbytes hbytes' hfirst, chunks, chunks', hchunks, hchunks', hrest⟩

/-- Zeros are no chunks of a certificate with a nonzero address. -/
lemma eq_nil_of_zero_chunks (hl : ∀ c ∈ l, c.address ≠ Bytes.zero 20)
    (h : flatChunks l = .ok xs) (hzero : ∀ x ∈ xs, x = Bytes.zero 32) : l = [] := by
  cases l with
  | nil => rfl
  | cons c l =>
    obtain ⟨bytes, chunks, hbytes, -, rfl⟩ := flatChunks_cons_eq_ok.mp h
    have hfirst : ∀ x ∈ chunkify bytes, x = Bytes.zero 32 := fun x hx =>
      hzero x (List.mem_append_left _ hx)
    exact absurd (address_eq_zero_of_chunks hbytes hfirst) (hl c (by simp))

/-- Padded chunks determine the certificates if no address is zero. -/
lemma eq_of_flatChunks_append_eq (hl : ∀ c ∈ l, c.address ≠ Bytes.zero 20)
    (hl' : ∀ c ∈ l', c.address ≠ Bytes.zero 20) (h : flatChunks l = .ok xs)
    (h' : flatChunks l' = .ok ys) {m n : ℕ}
    (heq : xs ++ List.replicate m (Bytes.zero 32) = ys ++ List.replicate n (Bytes.zero 32)) :
    l = l' := by
  induction l generalizing l' xs ys with
  | nil =>
    obtain rfl := Except.ok.inj h
    refine (eq_nil_of_zero_chunks hl' h' fun y hy => ?_).symm
    refine List.eq_of_mem_replicate (n := m) ?_
    rw [List.nil_append] at heq
    rw [heq]
    exact List.mem_append_left _ hy
  | cons c l ih =>
    cases l' with
    | nil =>
      obtain rfl := Except.ok.inj h'
      refine eq_nil_of_zero_chunks hl h fun x hx => ?_
      refine List.eq_of_mem_replicate (n := n) ?_
      rw [List.nil_append] at heq
      rw [← heq]
      exact List.mem_append_left _ hx
    | cons c' l' =>
      obtain ⟨rfl, xs', ys', hxs, hys, hrest⟩ := flatChunks_cons_cons h h' heq
      rw [ih (fun c hc => hl c (by simp [hc])) (fun c hc => hl' c (by simp [hc])) hxs hys hrest]

/-! ## What the root binds -/

/-- The addresses ascend, as they do in the values of a map. -/
def Ascending (l : List CanonicalAccountCertificate) : Prop :=
  l.Pairwise fun c c' => compare c.address c'.address = .lt

/-- Nothing comes before the zeros. -/
lemma compare_zero_ne_lt {bs : List UInt8} {n : ℕ} (h : bs.length = n) :
    compare bs (List.replicate n 0) ≠ .lt := by
  induction bs generalizing n with
  | nil =>
    subst h
    decide
  | cons b bs ih =>
    subst h
    rw [List.length_cons, List.replicate_succ]
    have hcons : compare (b :: bs) (0 :: List.replicate bs.length 0) =
        (compare b 0).then (compare bs (List.replicate bs.length 0)) :=
      List.compareLex_cons_cons
    rw [hcons]
    rcases eq_or_ne b 0 with rfl | hb
    · have heq : compare (0 : UInt8) 0 = .eq := by decide
      rw [heq]
      exact ih rfl
    · have hgt : compare b 0 = .gt := Std.compare_eq_gt.mpr (UInt8.pos_iff_ne_zero.mpr hb)
      simp [hgt]

lemma Ascending.tail_ne_zero (h : Ascending (c :: l)) : ∀ c' ∈ l, c'.address ≠ Bytes.zero 20 := by
  intro c' hc' hzero
  have hlt := (List.pairwise_cons.mp h).1 c' hc'
  have hcmp : compare c.address c'.address =
      compare c.address.toList c'.address.toList := rfl
  rw [hcmp, hzero, Bytes.toList_zero] at hlt
  exact compare_zero_ne_lt (by simp) hlt

variable {blake3 : Blake3} {inputs : List (List UInt8)}

lemma flatChunks_cons_ne_nil (h : flatChunks (c :: l) = .ok xs) : xs ≠ [] := by
  rintro rfl
  have hlen := length_flatChunks h
  simp at hlen

/-- Only the empty batch has a tree of a single leaf. -/
lemma eq_nil_of_height_eq_zero (h : flatChunks l = .ok xs)
    (hheight : height (foldLeaves xs) = 0) : l = [] := by
  cases l with
  | nil => rfl
  | cons c l =>
    have hlen := length_flatChunks h
    have hle : xs.length ≤ 2 ^ height xs := Nat.le_pow_clog (by norm_num) _
    rw [foldLeaves_of_ne_nil (flatChunks_cons_ne_nil h)] at hheight
    rw [hheight, hlen, List.length_cons] at hle
    omega

/-- The padded row of a batch ends with a zero word: no multiple of six is a power of two. -/
lemma zero_mem_padLayer (h : flatChunks l = .ok xs) :
    Bytes.zero 32 ∈ padLayer (foldLeaves xs) := by
  have hlen := length_flatChunks h
  cases l with
  | nil =>
    obtain rfl := Except.ok.inj h
    decide
  | cons c l =>
    rw [foldLeaves_of_ne_nil (flatChunks_cons_ne_nil h), padLayer_eq]
    refine List.mem_append_right _ (List.mem_replicate.mpr ⟨?_, rfl⟩)
    have hle : xs.length ≤ 2 ^ height xs := Nat.le_pow_clog (by norm_num) _
    have hdiv : ¬ 3 ∣ 2 ^ height xs := by
      intro hdvd
      have := Nat.prime_three.dvd_of_dvd_pow hdvd
      omega
    rw [List.length_cons] at hlen
    omega

/-- Batches with one root have trees of one height. -/
lemma not_height_lt_of_batchRoot_eq (hfree : CollisionFree blake3 inputs)
    (hx : ∀ p ∈ foldQueries blake3 .ssrRoot xs, pairInput .ssrRoot p ∈ inputs)
    (hy : ∀ p ∈ foldQueries blake3 .ssrRoot ys, pairInput .ssrRoot p ∈ inputs)
    (h : flatChunks l = .ok xs)
    (hroot : foldRoot blake3 .ssrRoot xs = foldRoot blake3 .ssrRoot ys) :
    ¬ height (foldLeaves xs) < height (foldLeaves ys) := by
  intro hlt
  have hlevel := exists_level_of_foldRoot_eq hfree hx hy hlt.le hroot
  obtain ⟨k, hk⟩ : ∃ k, height (foldLeaves ys) - height (foldLeaves xs) = k + 1 :=
    ⟨_, (Nat.succ_pred_eq_of_pos (by omega)).symm⟩
  have hzero := zero_mem_padLayer h
  rw [hlevel, hk] at hzero
  obtain ⟨p, hp, hxp⟩ := exists_of_mem_level_padLayer (by omega) hzero
  exact hfree.nonzero _ (hy p hp) hxp.symm

/-- **The root of a batch binds it.**  Two ascending batches with one root, free of collisions
and zero digests, are the same batch. -/
theorem eq_of_batchRoot_eq (hfree : CollisionFree blake3 inputs)
    (hx : ∀ p ∈ foldQueries blake3 .ssrRoot xs, pairInput .ssrRoot p ∈ inputs)
    (hy : ∀ p ∈ foldQueries blake3 .ssrRoot ys, pairInput .ssrRoot p ∈ inputs)
    (hl : Ascending l) (hl' : Ascending l') (h : flatChunks l = .ok xs)
    (h' : flatChunks l' = .ok ys)
    (hroot : foldRoot blake3 .ssrRoot xs = foldRoot blake3 .ssrRoot ys) : l = l' := by
  have hlt := not_height_lt_of_batchRoot_eq hfree hx hy h hroot
  have hgt := not_height_lt_of_batchRoot_eq hfree hy hx h' hroot.symm
  have hheight : height (foldLeaves xs) = height (foldLeaves ys) := by omega
  have hpad := padLayer_eq_of_foldRoot_eq hfree hx hy hheight hroot
  cases l with
  | nil =>
    obtain rfl := Except.ok.inj h
    exact (eq_nil_of_height_eq_zero h' hheight.symm).symm
  | cons c l => cases l' with
    | nil =>
      obtain rfl := Except.ok.inj h'
      exact eq_nil_of_height_eq_zero h hheight
    | cons c' l' =>
      rw [foldLeaves_of_ne_nil (flatChunks_cons_ne_nil h),
        foldLeaves_of_ne_nil (flatChunks_cons_ne_nil h'), padLayer_eq, padLayer_eq] at hpad
      obtain ⟨rfl, xs', ys', hxs, hys, hrest⟩ := flatChunks_cons_cons h h' hpad
      rw [eq_of_flatChunks_append_eq hl.tail_ne_zero hl'.tail_ne_zero hxs hys hrest]

/-! ## Batches by address -/

/-- Every certificate is filed under its own address. -/
def Keyed (certificates : OrdMap.Map Address CanonicalAccountCertificate) : Prop :=
  ∀ (address : Address) (c : CanonicalAccountCertificate),
    certificates[address]? = some c → c.address = address

variable {certificates certificates' : OrdMap.Map Address CanonicalAccountCertificate}

lemma Keyed.ascending_values (h : Keyed certificates) :
    Ascending (OrdMap.values certificates) := by
  rw [Ascending, OrdMap.values, List.pairwise_map]
  refine Std.ExtTreeMap.ordered_keys_toList.imp_of_mem ?_
  rintro ⟨a, c⟩ ⟨a', c'⟩ hc hc' hlt
  rw [h a c (OrdMap.mem_toList_iff.mp hc), h a' c' (OrdMap.mem_toList_iff.mp hc')]
  exact hlt

lemma Keyed.getElem?_eq_some_iff (h : Keyed certificates) {address : Address}
    {c : CanonicalAccountCertificate} :
    certificates[address]? = some c ↔ c ∈ OrdMap.values certificates ∧ c.address = address := by
  rw [OrdMap.mem_values_iff]
  constructor
  · intro hget
    exact ⟨⟨address, hget⟩, h address c hget⟩
  · rintro ⟨⟨address', hget⟩, rfl⟩
    rwa [h address' c hget]

lemma Keyed.eq_of_values_eq (h : Keyed certificates) (h' : Keyed certificates')
    (heq : OrdMap.values certificates = OrdMap.values certificates') :
    certificates = certificates' := by
  refine Std.ExtTreeMap.ext_getElem? fun address => Option.ext fun c => ?_
  rw [h.getElem?_eq_some_iff, h'.getElem?_eq_some_iff, heq]

/-- Every storage root of the batch has been derived. -/
def Resolved (certificates : OrdMap.Map Address CanonicalAccountCertificate) : Prop :=
  ∀ (address : Address) (c : CanonicalAccountCertificate),
    certificates[address]? = some c → ∃ storageRoot, c.storageRoot = .verified storageRoot

/-- Resolved certificates can be encoded. -/
lemma flatChunks_of_resolved {l : List CanonicalAccountCertificate}
    (h : ∀ c ∈ l, ∃ storageRoot, c.storageRoot = .verified storageRoot) :
    ∃ chunks, flatChunks l = .ok chunks := by
  induction l with
  | nil => exact ⟨[], rfl⟩
  | cons c l ih =>
    obtain ⟨storageRoot, hroot⟩ := h c (by simp)
    obtain ⟨chunks, hchunks⟩ := ih fun c' hc' => h c' (by simp [hc'])
    have hencode : ∃ bytes, encodeCertificate c = .ok bytes := by
      rw [encodeCertificate, hroot]
      exact ⟨_, rfl⟩
    obtain ⟨bytes, hbytes⟩ := hencode
    exact ⟨_, flatChunks_cons_eq_ok.mpr ⟨bytes, chunks, hbytes, hchunks, rfl⟩⟩

lemma Resolved.flatChunks_values (h : Resolved certificates) :
    ∃ chunks, flatChunks (OrdMap.values certificates) = .ok chunks := by
  refine flatChunks_of_resolved fun c hc => ?_
  obtain ⟨address, hget⟩ := OrdMap.mem_values_iff.mp hc
  exact h address c hget

/-- **A batch commitment binds the batch.**  If no two inputs hashed for two batches collide
and no digest is zero, then resolved batches with one root are equal. -/
theorem eq_of_commitCertificateBatch_eq (blake3 : Blake3)
    (hkeyed : Keyed certificates) (hkeyed' : Keyed certificates')
    (hresolved : Resolved certificates) (hresolved' : Resolved certificates')
    (hfree : CollisionFree blake3 ((commitCertificateBatch blake3 certificates).log ++
      (commitCertificateBatch blake3 certificates').log))
    (hroot : (commitCertificateBatch blake3 certificates).result =
      (commitCertificateBatch blake3 certificates').result) :
    certificates = certificates' := by
  obtain ⟨chunks, hchunks⟩ := hresolved.flatChunks_values
  obtain ⟨chunks', hchunks'⟩ := hresolved'.flatChunks_values
  rw [commitCertificateBatch_eq blake3 hchunks, commitCertificateBatch_eq blake3 hchunks'] at hfree
  rw [commitCertificateBatch_eq blake3 hchunks, commitCertificateBatch_eq blake3 hchunks'] at hroot
  refine hkeyed.eq_of_values_eq hkeyed' ?_
  exact eq_of_batchRoot_eq hfree
    (fun p hp => List.mem_append_left _ (List.mem_map_of_mem hp))
    (fun p hp => List.mem_append_right _ (List.mem_map_of_mem hp))
    hkeyed.ascending_values hkeyed'.ascending_values hchunks hchunks'
    (Except.ok.inj (Option.some.inj hroot))

/-- The certificate of the golden vector. -/
def goldenCertificate : CanonicalAccountCertificate where
  address := Bytes.fill 20 0x42
  generation := { key := ⟨Bytes.fill 20 0x42, 0⟩, stateTableProofRoot := Bytes.zero 32 }
  nonce := 7
  balance := Bytes.last 31 100
  codeHash := Bytes.fill 32 0xcc
  storageRoot := .verified (Bytes.fill 32 0x77)

/-- The batch of that certificate, and the same batch after the certificate was overwritten. -/
def goldenBatch : OrdMap.Map Address CanonicalAccountCertificate :=
  Std.ExtTreeMap.ofList [(goldenCertificate.address, goldenCertificate)]

def overwrittenBatch : OrdMap.Map Address CanonicalAccountCertificate :=
  Std.ExtTreeMap.ofList [
    (goldenCertificate.address, { goldenCertificate with storageRoot := .awaitingDerivation }),
    (goldenCertificate.address, goldenCertificate)]

/-- The BLAKE3 digests of the pairs above the chunks of the batch. -/
def goldenDigests : List Word := [
    ⟨[180, 169, 75, 137, 240, 36, 245, 51, 100, 19, 96, 248, 143, 157, 180, 8,
      53, 94, 115, 17, 140, 34, 51, 125, 142, 161, 76, 97, 178, 181, 150, 86], rfl⟩,
    ⟨[74, 192, 20, 237, 205, 213, 182, 11, 82, 221, 23, 111, 58, 116, 111, 48,
      155, 181, 139, 189, 198, 70, 28, 225, 3, 10, 34, 198, 146, 197, 136, 92], rfl⟩,
    ⟨[78, 47, 115, 30, 54, 225, 116, 84, 103, 90, 108, 144, 49, 219, 5, 197,
      30, 156, 144, 189, 116, 71, 185, 179, 162, 75, 110, 138, 189, 55, 252, 255], rfl⟩,
    zeroPairDigest,
    ⟨[52, 163, 97, 199, 93, 208, 232, 106, 182, 120, 35, 197, 152, 61, 168, 246,
      21, 112, 208, 5, 248, 58, 188, 199, 157, 70, 28, 103, 186, 178, 206, 1], rfl⟩,
    ⟨[2, 4, 211, 14, 87, 153, 218, 176, 73, 46, 42, 75, 82, 188, 160, 12,
      96, 64, 220, 50, 23, 148, 98, 25, 120, 235, 92, 177, 179, 176, 7, 105], rfl⟩,
    ⟨[218, 189, 236, 170, 238, 15, 240, 18, 31, 72, 39, 227, 50, 124, 59, 184,
      5, 127, 251, 65, 189, 18, 166, 134, 190, 60, 3, 34, 39, 87, 147, 150], rfl⟩]

/-- BLAKE3 on these pairs. -/
def goldenBlake3 : Blake3 :=
  let chunks := (flatChunks [goldenCertificate]).toOption.getD []
  let chunk (i : ℕ) : Word := chunks.getD i (Bytes.zero 32)
  let digest (i : ℕ) : Word := goldenDigests.getD i (Bytes.zero 32)
  let pairs : List (Word × Word) :=
    [(chunk 0, chunk 1), (chunk 2, chunk 3), (chunk 4, chunk 5), (chunk 6, chunk 7),
      (digest 0, digest 1), (digest 2, digest 3), (digest 4, digest 5)]
  .ofTable ((pairs.map (pairInput .ssrRoot)).zip goldenDigests)

theorem overwrittenBatch_eq : goldenBatch = overwrittenBatch := by
  have hentries : goldenBatch.toList = [(goldenCertificate.address, goldenCertificate)] ∧
      overwrittenBatch.toList = [(goldenCertificate.address, goldenCertificate)] := by
    decide +kernel
  have honly : ∀ batch : OrdMap.Map Address CanonicalAccountCertificate,
      batch.toList = [(goldenCertificate.address, goldenCertificate)] →
        Keyed batch ∧ Resolved batch := by
    intro batch hbatch
    refine ⟨fun address c hget => ?_, fun address c hget => ?_⟩ <;>
      (rw [← OrdMap.mem_toList_iff, hbatch, List.mem_singleton] at hget
       obtain ⟨rfl, rfl⟩ := Prod.mk.inj hget)
    · rfl
    · exact ⟨_, rfl⟩
  exact eq_of_commitCertificateBatch_eq goldenBlake3 (honly _ hentries.1).1 (honly _ hentries.2).1
    (honly _ hentries.1).2 (honly _ hentries.2).2 (by decide +kernel) (by decide +kernel)

end KaySentinel.Ssz
