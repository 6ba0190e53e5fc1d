import KaySentinel.Lib.FirstDiff
import KaySentinel.Lib.Hex
import KaySentinel.Ssz.Binding

/-!
# The differential check

`verify_differential_ssr` compares what two clients have serialized: the lengths, then the SHA-256
digests, and where the bytes first differ.  SHA-256 is a parameter of the model.

Two encoded snapshots pass exactly if they are the same, collisions aside, and otherwise the offset
in the report lies in the first field that differs: `differential_snapshots`.  Snapshots of which
one extends the other by zero summaries may share their root, but not their length.
-/

namespace KaySentinel.Ssz

open FirstDiff

/-! ## The check -/

def maxSsrBytes : ℕ := 16 * 1024 * 1024

/-- What the check raises, with its text. -/
inductive SsrFailure where
  | valueError (text : String)
  | ssrLengthMismatch (text : String)
  | ssrDivergenceError (text : String)
deriving DecidableEq

def validateInput (name : String) (data : List UInt8) : Except SsrFailure Unit :=
  if data.length = 0 then
    .error (.valueError (name ++ " must not be empty"))
  else if data.length > maxSsrBytes then
    .error (.valueError (name ++ " exceeds MAX_SSR_BYTES (" ++ toString data.length ++ " > " ++
      toString maxSsrBytes ++ ")"))
  else
    .ok ()

/-- `bytes.hex()` -/
def hexDigits (bytes : List UInt8) : String := String.ofList (Hex.ascii (Hex.encode bytes))

/-- `hex(n)` -/
def hexNumber (n : ℕ) : String := String.ofList ('0' :: 'x' :: Nat.toDigits 16 n)

def lengthText (geth reth : ℕ) : String :=
  "Consensus Divergence Detected: Byte length mismatch. Geth: " ++ toString geth ++
    " bytes, Reth: " ++ toString reth ++ " bytes."

/-- The `detail` of a divergence. -/
def detail : Option ℕ → String
  | some offset => "first differing byte at offset " ++ hexNumber offset
  | none => "hash mismatch with no byte-level difference found " ++
      "(unexpected; investigate encoding/comparison logic)"

def divergenceText (gethRoot rethRoot : Word) (offset : Option ℕ) : String :=
  "Structural divergence detected. Geth root: 0x" ++ hexDigits gethRoot.toList ++
    ", Reth root: 0x" ++ hexDigits rethRoot.toList ++ ". " ++ detail offset ++ "."

def verifyDifferentialSsr (sha256 : List UInt8 → Word) (gethSszBytes rethSszBytes : List UInt8) :
    Except SsrFailure Bool := do
  validateInput "geth_ssz_bytes" gethSszBytes
  validateInput "reth_ssz_bytes" rethSszBytes
  if gethSszBytes.length ≠ rethSszBytes.length then
    throw (.ssrLengthMismatch (lengthText gethSszBytes.length rethSszBytes.length))
  let gethRoot := sha256 gethSszBytes
  let rethRoot := sha256 rethSszBytes
  if gethRoot ≠ rethRoot then
    throw (.ssrDivergenceError
      (divergenceText gethRoot rethRoot (firstDiff 0 gethSszBytes rethSszBytes)))
  return true

/-! ## Where two snapshots differ -/

/-- The place `j` lies in the first field of the encoded summaries that differs. -/
inductive CanonicalEventSummary.Locates (s s' : CanonicalEventSummary) (j : ℕ) : Prop
  | blockTimestamp (hne : s.blockTimestamp ≠ s'.blockTimestamp) (hj : j < 8)
  | sequenceNonce (htimestamp : s.blockTimestamp = s'.blockTimestamp)
      (hne : s.sequenceNonce ≠ s'.sequenceNonce) (hj : 8 ≤ j ∧ j < 16)
  | actorAddress (htimestamp : s.blockTimestamp = s'.blockTimestamp)
      (hnonce : s.sequenceNonce = s'.sequenceNonce)
      (hne : s.actorAddress ≠ s'.actorAddress) (hj : 16 ≤ j ∧ j < 36)
  | payloadDigest (htimestamp : s.blockTimestamp = s'.blockTimestamp)
      (hnonce : s.sequenceNonce = s'.sequenceNonce) (haddress : s.actorAddress = s'.actorAddress)
      (hne : s.payloadDigest ≠ s'.payloadDigest) (hj : 36 ≤ j ∧ j < 68)

/-- The offset `i` lies in the first field of the encoded snapshots that differs. -/
inductive EpochStateSnapshot.Locates (a b : EpochStateSnapshot) (i : ℕ) : Prop
  | epochIndex (hne : a.epochIndex ≠ b.epochIndex) (hi : i < 8)
  | eventSummary (hepoch : a.epochIndex = b.epochIndex) (pre : List CanonicalEventSummary)
      (s s' : CanonicalEventSummary) (post post' : List CanonicalEventSummary) (j : ℕ)
      (ha : a.eventSummaries = pre ++ s :: post) (hb : b.eventSummaries = pre ++ s' :: post')
      (hj : s.Locates s' j) (hi : i = 12 + 68 * pre.length + j)

namespace CanonicalEventSummary

variable {s s' : CanonicalEventSummary} {j : ℕ}

/-- The first byte at which two encoded summaries differ tells the first field that does. -/
lemma locates_of_firstDiff (hne : s ≠ s')
    (hdiff : firstDiff 0 s.sszEncode s'.sszEncode = some j) : s.Locates s' j := by
  obtain ⟨timestamp, nonce, address, digest⟩ := s
  obtain ⟨timestamp', nonce', address', digest'⟩ := s'
  rw [sszEncode, sszEncode] at hdiff
  by_cases htimestamp : timestamp = timestamp'
  · subst htimestamp
    by_cases hnonce : nonce = nonce'
    · subst hnonce
      by_cases haddress : address = address'
      · subst haddress
        have hdigest : digest ≠ digest' := fun h => hne (by rw [h])
        have hbytes : digest.toList ≠ digest'.toList := fun h => hdigest (Bytes.toList_inj.mp h)
        have hj := @bounds_of_firstDiff_append _ _ j [] [] _ _ (by simp) hbytes
          (u64LeBytes timestamp ++ (u64LeBytes nonce ++ address.toList))
          (by simpa only [List.append_assoc, List.append_nil] using hdiff)
        exact .payloadDigest rfl rfl rfl hdigest (by simpa using hj)
      · have hbytes : address.toList ≠ address'.toList := fun h => haddress (Bytes.toList_inj.mp h)
        have hj := @bounds_of_firstDiff_append _ _ j digest.toList digest'.toList _ _ (by simp)
          hbytes (u64LeBytes timestamp ++ u64LeBytes nonce)
          (by simpa only [List.append_assoc] using hdiff)
        exact .actorAddress rfl rfl haddress (by simpa using hj)
    · have hj := bounds_of_firstDiff_append (by simp) (u64LeBytes_injective.ne hnonce) hdiff
      exact .sequenceNonce rfl hnonce (by simpa using hj)
  · have hj := @bounds_of_firstDiff_append _ _ j _ _ _ _ (by simp)
      (u64LeBytes_injective.ne htimestamp) [] hdiff
    exact .blockTimestamp htimestamp (by simpa using hj)

end CanonicalEventSummary

namespace EpochStateSnapshot

variable {a b : EpochStateSnapshot}

/-- Different snapshots with equally many summaries have a first byte that differs, in the first
field that does. -/
lemma exists_locates (hlen : a.eventSummaries.length = b.eventSummaries.length) (hne : a ≠ b) :
    ∃ i, a.Locates b i ∧ firstDiff 0 a.bytes b.bytes = some i := by
  by_cases hepoch : a.epochIndex = b.epochIndex
  · have hsummaries : a.eventSummaries ≠ b.eventSummaries := by
      intro h
      obtain ⟨epochIndex, eventSummaries⟩ := a
      obtain ⟨epochIndex', eventSummaries'⟩ := b
      exact hne (congrArg₂ EpochStateSnapshot.mk hepoch h)
    obtain ⟨pre, s, s', post, post', j, ha, hb, hss, hj, hdiff⟩ := firstDiff_flatMap
      CanonicalEventSummary.length_sszEncode CanonicalEventSummary.sszEncode_injective hlen
      hsummaries (u64LeBytes a.epochIndex ++ u32LeBytes fixedHeaderLen)
    refine ⟨12 + 68 * pre.length + j, .eventSummary hepoch pre s s' post post' j ha hb
      (CanonicalEventSummary.locates_of_firstDiff hss hj) rfl, ?_⟩
    have hheader : (u64LeBytes a.epochIndex ++ u32LeBytes fixedHeaderLen).length = 12 := by simp
    rw [bytes, bytes, ← hepoch, ← List.append_assoc, ← List.append_assoc, hdiff, hheader,
      CanonicalEventSummary.encodedLen]
  · obtain ⟨i, hi, -, hdiff⟩ := exists_firstDiff_append (by simp)
      (u64LeBytes_injective.ne hepoch) []
      (u32LeBytes fixedHeaderLen ++ a.eventSummaries.flatMap CanonicalEventSummary.sszEncode)
      (u32LeBytes fixedHeaderLen ++ b.eventSummaries.flatMap CanonicalEventSummary.sszEncode)
    refine ⟨i, .epochIndex hepoch (by simpa using hi), ?_⟩
    simpa [bytes] using hdiff

lemma bytes_injective : Function.Injective bytes := by
  intro a b h
  have hlen : a.eventSummaries.length = b.eventSummaries.length := by
    have hlength := congrArg List.length h
    rw [length_bytes, length_bytes] at hlength
    omega
  by_contra hne
  obtain ⟨i, -, hdiff⟩ := exists_locates hlen hne
  have hnone : firstDiff 0 b.bytes b.bytes = none := (firstDiff_eq_none_iff rfl).mpr rfl
  rw [h, hnone] at hdiff
  cases hdiff

/-- What is encoded is not too long, and the encoding is the bytes. -/
lemma bytes_of_sszEncode {s : EpochStateSnapshot} {data : List UInt8}
    (h : s.sszEncode = .ok data) :
    s.eventSummaries.length ≤ maxEventSummaries ∧ data = s.bytes := by
  by_cases hlen : s.eventSummaries.length ≤ maxEventSummaries
  · rw [sszEncode_eq hlen] at h
    exact ⟨hlen, (Except.ok.inj h).symm⟩
  · rw [sszEncode, if_pos (not_le.mp hlen)] at h
    cases h

/-- Every snapshot that can be encoded is within the bound of the check. -/
lemma validateInput_bytes {s : EpochStateSnapshot}
    (h : s.eventSummaries.length ≤ maxEventSummaries) (name : String) :
    validateInput name s.bytes = .ok () := by
  have hmax : s.bytes.length ≤ maxSsrBytes := by
    rw [length_bytes, maxSsrBytes]
    rw [maxEventSummaries] at h
    omega
  have hpos : s.bytes.length ≠ 0 := by
    rw [length_bytes]
    omega
  rw [validateInput, if_neg hpos, if_neg (not_lt.mpr hmax)]

end EpochStateSnapshot

/-! ## The verdict -/

/-- Two inputs of one length that SHA-256 does not tell apart. -/
structure Collide (sha256 : List UInt8 → Word) (x y : List UInt8) : Prop where
  ne : x ≠ y
  length : x.length = y.length
  digest : sha256 x = sha256 y

/-- Inputs within the bounds are compared by their lengths and then by their digests. -/
lemma verifyDifferentialSsr_eq (sha256 : List UInt8 → Word) {x y : List UInt8}
    (hx : validateInput "geth_ssz_bytes" x = .ok ())
    (hy : validateInput "reth_ssz_bytes" y = .ok ()) :
    verifyDifferentialSsr sha256 x y =
      if x.length ≠ y.length then .error (.ssrLengthMismatch (lengthText x.length y.length))
      else if sha256 x ≠ sha256 y then
        .error (.ssrDivergenceError (divergenceText (sha256 x) (sha256 y) (firstDiff 0 x y)))
      else .ok true := by
  simp only [verifyDifferentialSsr, hx, hy]
  split_ifs <;> rfl

variable {a b : EpochStateSnapshot} {x y : List UInt8}

/-- **The differential check of snapshots.**  It accepts two encoded snapshots exactly if they are
the same or collide.  Otherwise it reports their lengths if the numbers of summaries differ, and
else the digests with an offset in the first field that differs. -/
theorem differential_snapshots (sha256 : List UInt8 → Word) (ha : a.sszEncode = .ok x)
    (hb : b.sszEncode = .ok y) :
    (verifyDifferentialSsr sha256 x y = .ok true ↔ a = b ∨ Collide sha256 x y) ∧
      (a.eventSummaries.length ≠ b.eventSummaries.length →
        verifyDifferentialSsr sha256 x y = .error (.ssrLengthMismatch
          (lengthText (12 + 68 * a.eventSummaries.length) (12 + 68 * b.eventSummaries.length)))) ∧
      (a.eventSummaries.length = b.eventSummaries.length → sha256 x ≠ sha256 y →
        ∃ i, a.Locates b i ∧ verifyDifferentialSsr sha256 x y = .error (.ssrDivergenceError
          (divergenceText (sha256 x) (sha256 y) (some i)))) := by
  obtain ⟨hamax, rfl⟩ := EpochStateSnapshot.bytes_of_sszEncode ha
  obtain ⟨hbmax, rfl⟩ := EpochStateSnapshot.bytes_of_sszEncode hb
  have hverify := verifyDifferentialSsr_eq sha256
    (EpochStateSnapshot.validateInput_bytes hamax _)
    (EpochStateSnapshot.validateInput_bytes hbmax _)
  have hlength : a.bytes.length = b.bytes.length ↔
      a.eventSummaries.length = b.eventSummaries.length := by
    rw [a.length_bytes, b.length_bytes]
    omega
  refine ⟨⟨fun haccepted => ?_, ?_⟩, fun hne => ?_, fun hlen hdigest => ?_⟩
  · rw [hverify] at haccepted
    split_ifs at haccepted with hlen hdigest
    by_cases heq : a = b
    · exact .inl heq
    · exact .inr ⟨EpochStateSnapshot.bytes_injective.ne heq, not_not.mp hlen, not_not.mp hdigest⟩
  · rintro (rfl | ⟨-, hlen, hdigest⟩)
    · rw [hverify, if_neg (by simp), if_neg (by simp)]
    · rw [hverify, if_neg (not_not.mpr hlen), if_neg (not_not.mpr hdigest)]
  · rw [hverify, if_pos (fun h => hne (hlength.mp h)), a.length_bytes, b.length_bytes]
  · -- the digests differ, so the bytes do, and the loop over both finds the place
    have hsnapshots : a ≠ b := fun h => hdigest (by rw [h])
    obtain ⟨i, hi, hdiff⟩ := EpochStateSnapshot.exists_locates hlen hsnapshots
    refine ⟨i, hi, ?_⟩
    rw [hverify, if_neg (not_not.mpr (hlength.mpr hlen)), if_pos hdigest, hdiff]

/-- Two summaries, of which the second has another nonce. -/
def laterNonce : EpochStateSnapshot where
  epochIndex := 5
  eventSummaries := [sampleSummary, { sampleSummary with sequenceNonce := 2 }]

/-- SHA-256 on the two encodings. -/
def sampleSha256 (input : List UInt8) : Word :=
  if input = twoSummaries.bytes then
    ⟨[176, 214, 53, 47, 30, 37, 200, 81, 39, 193, 117, 188, 118, 162, 247, 179,
      144, 191, 99, 246, 236, 221, 74, 52, 200, 119, 55, 244, 56, 169, 56, 230], rfl⟩
  else
    ⟨[54, 101, 44, 54, 254, 177, 147, 193, 201, 11, 184, 38, 253, 43, 19, 101,
      215, 134, 149, 47, 49, 188, 126, 121, 26, 0, 189, 84, 208, 205, 52, 90], rfl⟩

/-- The report names a place in the nonce. -/
theorem laterNonce_located :
    ∃ i, twoSummaries.Locates laterNonce i ∧
      verifyDifferentialSsr sampleSha256 twoSummaries.bytes laterNonce.bytes =
        .error (.ssrDivergenceError (divergenceText (sampleSha256 twoSummaries.bytes)
          (sampleSha256 laterNonce.bytes) (some i))) :=
  (differential_snapshots sampleSha256 (EpochStateSnapshot.sszEncode_eq (by decide))
    (EpochStateSnapshot.sszEncode_eq (by decide))).2.2 rfl (by decide +kernel)

end KaySentinel.Ssz
