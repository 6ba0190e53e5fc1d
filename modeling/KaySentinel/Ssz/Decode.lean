import KaySentinel.Lib.Codec
import KaySentinel.Ssz.Certificate

/-!
# Decoding

The decoders of the three wire formats.  Reading a slice of the input is fallible, so that a
decoder which returns neither a value nor an error has read out of bounds; none ever does.
Each decoder is the exact inverse of its encoder: `ssz_formats_bijective`.
-/

namespace KaySentinel.Ssz

open Builder Codec

inductive SszDecodeError where
  | truncated (expectedAtLeast actual : ℕ)
  | trailingBytes (consumed actual : ℕ)
  | invalidOffset (expected found : UInt32)
  | misalignedList (bodyLen elementLen : ℕ)
  | listTooLong (max actual : ℕ)
deriving DecidableEq

/-! ## Reading fields -/

/-- `copy_from_slice` into an array of `n` bytes, which takes a slice of that length only. -/
def copyFromSlice (n : ℕ) (src : List UInt8) : Option (Bytes n) :=
  if h : src.length = n then some ⟨src, h⟩ else none

def readU64Le (bytes : List UInt8) : Option UInt64 := do
  let head ← slice bytes 0 8
  -- `try_into().unwrap()`
  let array ← copyFromSlice 8 head
  return u64FromLeBytes array

def readU32Le (bytes : List UInt8) : Option UInt32 := do
  let head ← slice bytes 0 4
  let array ← copyFromSlice 4 head
  return u32FromLeBytes array

lemma copyFromSlice_of_length {n : ℕ} {src : List UInt8} (h : src.length = n) :
    copyFromSlice n src = some ⟨src, h⟩ := dif_pos h

lemma readU64Le_u64LeBytes (x : UInt64) : readU64Le (u64LeBytes x) = some x := by
  have hhead : slice (u64LeBytes x) 0 8 = some (u64LeBytes x) :=
    slice_eq_some (u := []) (w := []) (by simp) rfl (by simp)
  have harray := copyFromSlice_of_length (length_u64LeBytes x)
  simp only [readU64Le, hhead, harray, Option.bind_eq_bind, Option.bind_some]
  exact congrArg some (u64FromLeBytes_u64LeBytes rfl)

lemma readU32Le_u32LeBytes (x : UInt32) : readU32Le (u32LeBytes x) = some x := by
  have hhead : slice (u32LeBytes x) 0 4 = some (u32LeBytes x) :=
    slice_eq_some (u := []) (w := []) (by simp) rfl (by simp)
  have harray := copyFromSlice_of_length (length_u32LeBytes x)
  simp only [readU32Le, hhead, harray, Option.bind_eq_bind, Option.bind_some]
  exact congrArg some (u32FromLeBytes_u32LeBytes rfl)

/-! Reading field number `k` of several that follow each other. -/

variable {bytes : List UInt8} {fields : List (List UInt8)} {k i j n : ℕ}

lemma copyFromSlice_field {v : Bytes n} (hk : fields[k]? = some v.toList)
    (hi : (fields.take k).flatten.length = i) (hj : i + n = j) :
    (slice fields.flatten i j).bind (copyFromSlice n) = some v := by
  rw [slice_flatten hk hi (by simpa using hj), Option.bind_some,
    copyFromSlice_of_length v.toList_length]
  rfl

lemma readU64Le_field {x : UInt64} (hk : fields[k]? = some (u64LeBytes x))
    (hi : (fields.take k).flatten.length = i) (hj : i + 8 = j) :
    (slice fields.flatten i j).bind readU64Le = some x := by
  rw [slice_flatten hk hi (by simpa using hj), Option.bind_some, readU64Le_u64LeBytes]

lemma readU32Le_field {x : UInt32} (hk : fields[k]? = some (u32LeBytes x))
    (hi : (fields.take k).flatten.length = i) (hj : i + 4 = j) :
    (slice fields.flatten i j).bind readU32Le = some x := by
  rw [slice_flatten hk hi (by simpa using hj), Option.bind_some, readU32Le_u32LeBytes]

/-! ## Event summaries -/

namespace CanonicalEventSummary

def sszDecode (bytes : List UInt8) : Option (Except SszDecodeError CanonicalEventSummary) :=
  if bytes.length < encodedLen then
    some (.error (.truncated encodedLen bytes.length))
  else if bytes.length > encodedLen then
    some (.error (.trailingBytes encodedLen bytes.length))
  else do
    let actorAddress ← (slice bytes 16 36).bind (copyFromSlice 20)
    let payloadDigest ← (slice bytes 36 68).bind (copyFromSlice 32)
    let blockTimestamp ← (slice bytes 0 8).bind readU64Le
    let sequenceNonce ← (slice bytes 8 16).bind readU64Le
    return .ok {
      blockTimestamp := blockTimestamp
      sequenceNonce := sequenceNonce
      actorAddress := actorAddress
      payloadDigest := payloadDigest }

lemma sszDecode_sszEncode (s : CanonicalEventSummary) :
    sszDecode s.sszEncode = some (.ok s) := by
  have hfields : s.sszEncode = [u64LeBytes s.blockTimestamp, u64LeBytes s.sequenceNonce,
      s.actorAddress.toList, s.payloadDigest.toList].flatten := by simp [sszEncode]
  rw [sszDecode, if_neg (by simp), if_neg (by simp), hfields,
    copyFromSlice_field (k := 2) (by rfl) (by simp) (by rfl),
    copyFromSlice_field (k := 3) (by rfl) (by simp) (by rfl),
    readU64Le_field (k := 0) (by rfl) (by simp) (by rfl),
    readU64Le_field (k := 1) (by rfl) (by simp) (by rfl)]
  rfl

/-- Every list of the right length is an encoding. -/
lemma exists_sszEncode_eq (h : bytes.length = encodedLen) :
    ∃ s : CanonicalEventSummary, s.sszEncode = bytes := by
  obtain ⟨b₁, r₁, rfl, h₁, hr₁⟩ := exists_append_of_length 8 60 h
  obtain ⟨b₂, r₂, rfl, h₂, hr₂⟩ := exists_append_of_length 8 52 hr₁
  obtain ⟨b₃, b₄, rfl, h₃, h₄⟩ := exists_append_of_length 20 32 hr₂
  obtain ⟨blockTimestamp, rfl⟩ := exists_u64LeBytes_eq h₁
  obtain ⟨sequenceNonce, rfl⟩ := exists_u64LeBytes_eq h₂
  exact ⟨{ blockTimestamp := blockTimestamp, sequenceNonce := sequenceNonce
           actorAddress := ⟨b₃, h₃⟩, payloadDigest := ⟨b₄, h₄⟩ }, rfl⟩

/-- The decoder of summaries is the exact inverse of the encoder, which accepts all of them. -/
lemma inverts : Inverts (ε := SszError) (fun s => .ok s.sszEncode) sszDecode := by
  refine Inverts.of_cases (fun s l h => ?_) fun l => ?_
  · obtain rfl := Except.ok.inj h
    exact sszDecode_sszEncode s
  · rcases Nat.lt_trichotomy l.length encodedLen with hlt | heq | hgt
    · exact .inr ⟨_, by rw [sszDecode, if_pos hlt]⟩
    · obtain ⟨s, rfl⟩ := exists_sszEncode_eq heq
      exact .inl ⟨s, rfl⟩
    · exact .inr ⟨_, by rw [sszDecode, if_neg (by omega), if_pos hgt]⟩

end CanonicalEventSummary

/-! ## Snapshots -/

namespace EpochStateSnapshot

def fixedHeader : ℕ := 8 + 4

/-- `for chunk in body.chunks_exact(elem)`. -/
def decodeChunks : ℕ → List UInt8 →
    Option (Except SszDecodeError (List CanonicalEventSummary))
  | 0, _ => some (.ok [])
  | count + 1, body => do
      match ← CanonicalEventSummary.sszDecode (body.take CanonicalEventSummary.encodedLen) with
      | .error e => return .error e
      | .ok summary =>
          match ← decodeChunks count (body.drop CanonicalEventSummary.encodedLen) with
          | .error e => return .error e
          | .ok rest => return .ok (summary :: rest)

def sszDecode (bytes : List UInt8) : Option (Except SszDecodeError EpochStateSnapshot) :=
  if bytes.length < fixedHeader then
    some (.error (.truncated fixedHeader bytes.length))
  else do
    let epochIndex ← (slice bytes 0 8).bind readU64Le
    let offset ← (slice bytes 8 12).bind readU32Le
    if offset ≠ UInt32.ofNat fixedHeader then
      return .error (.invalidOffset (UInt32.ofNat fixedHeader) offset)
    else do
      let body ← sliceFrom bytes fixedHeader
      let elem := CanonicalEventSummary.encodedLen
      if body.length % elem ≠ 0 then
        return .error (.misalignedList body.length elem)
      else
        let count := body.length / elem
        if count > maxEventSummaries then
          return .error (.listTooLong maxEventSummaries count)
        else do
          match ← decodeChunks count body with
          | .error e => return .error e
          | .ok eventSummaries =>
              return .ok { epochIndex := epochIndex, eventSummaries := eventSummaries }

lemma decodeChunks_flatMap (summaries : List CanonicalEventSummary) :
    decodeChunks summaries.length (summaries.flatMap CanonicalEventSummary.sszEncode) =
      some (.ok summaries) := by
  induction summaries with
  | nil => rfl
  | cons s summaries ih =>
    rw [List.flatMap_cons, List.length_cons, decodeChunks,
      List.take_left' s.length_sszEncode, List.drop_left' s.length_sszEncode,
      CanonicalEventSummary.sszDecode_sszEncode, ih]
    rfl

/-- Every list of whole elements is the body of some summaries. -/
lemma exists_flatMap_eq {count : ℕ} {body : List UInt8}
    (h : body.length = CanonicalEventSummary.encodedLen * count) :
    ∃ summaries : List CanonicalEventSummary, summaries.length = count ∧
      summaries.flatMap CanonicalEventSummary.sszEncode = body := by
  induction count generalizing body with
  | zero => exact ⟨[], rfl, (List.eq_nil_of_length_eq_zero (by simpa using h)).symm⟩
  | succ count ih =>
    rw [Nat.mul_succ, Nat.add_comm] at h
    obtain ⟨first, rest, rfl, hfirst, hrest⟩ := exists_append_of_length _ _ h
    obtain ⟨s, rfl⟩ := CanonicalEventSummary.exists_sszEncode_eq hfirst
    obtain ⟨summaries, hlen, rfl⟩ := ih hrest
    exact ⟨s :: summaries, by rw [List.length_cons, hlen], rfl⟩

/-- The decoder on a header and a body. -/
lemma sszDecode_append (epochIndex : UInt64) (offset : UInt32) (body : List UInt8) :
    sszDecode (u64LeBytes epochIndex ++ (u32LeBytes offset ++ body)) =
      if offset ≠ fixedHeaderLen then
        some (.error (.invalidOffset fixedHeaderLen offset))
      else if body.length % CanonicalEventSummary.encodedLen ≠ 0 then
        some (.error (.misalignedList body.length CanonicalEventSummary.encodedLen))
      else if body.length / CanonicalEventSummary.encodedLen > maxEventSummaries then
        some (.error (.listTooLong maxEventSummaries
          (body.length / CanonicalEventSummary.encodedLen)))
      else
        (decodeChunks (body.length / CanonicalEventSummary.encodedLen) body).map fun r =>
          r.map fun eventSummaries => { epochIndex, eventSummaries } := by
  have hfields : u64LeBytes epochIndex ++ (u32LeBytes offset ++ body) =
      [u64LeBytes epochIndex, u32LeBytes offset, body].flatten := by simp
  have hbody : sliceFrom [u64LeBytes epochIndex, u32LeBytes offset, body].flatten fixedHeader =
      some body :=
    sliceFrom_eq_some (u := u64LeBytes epochIndex ++ u32LeBytes offset) (by simp)
      (by simp [fixedHeader])
  have hlong : ¬ (u64LeBytes epochIndex ++ (u32LeBytes offset ++ body)).length < fixedHeader := by
    simp only [fixedHeader, List.length_append, length_u64LeBytes, length_u32LeBytes]
    omega
  rw [sszDecode, if_neg hlong, hfields, readU64Le_field (k := 0) (by rfl) (by simp) (by rfl),
    readU32Le_field (k := 1) (by rfl) (by simp) (by rfl)]
  simp only [Option.bind_eq_bind, Option.bind_some, hbody]
  have hheader : UInt32.ofNat fixedHeader = fixedHeaderLen := rfl
  rw [hheader]
  split_ifs
  · rfl
  · rfl
  · rfl
  · cases decodeChunks (body.length / CanonicalEventSummary.encodedLen) body with
    | none => rfl
    | some r => cases r <;> rfl

lemma sszDecode_sszEncode {s : EpochStateSnapshot} (h : s.sszEncode = .ok bytes) :
    sszDecode bytes = some (.ok s) := by
  rw [sszEncode] at h
  split at h
  · exact absurd h (by simp)
  · rename_i hshort
    obtain rfl := Except.ok.inj h
    have hcount : (s.eventSummaries.flatMap CanonicalEventSummary.sszEncode).length /
        CanonicalEventSummary.encodedLen = s.eventSummaries.length := by
      rw [length_flatMap_sszEncode, Nat.mul_div_cancel_left _ (by decide)]
    rw [sszDecode_append, if_neg (by simp), if_neg (by simp), hcount,
      if_neg hshort, decodeChunks_flatMap]
    rfl

/-- The decoder of snapshots is the exact inverse of the encoder. -/
lemma inverts : Inverts sszEncode sszDecode := by
  refine Inverts.of_cases (fun s l h => sszDecode_sszEncode h) fun l => ?_
  rcases Nat.lt_or_ge l.length fixedHeader with hlt | hge
  · exact .inr ⟨_, by rw [sszDecode, if_pos hlt]⟩
  have hlen : l.length = 8 + (4 + (l.length - 12)) := by
    rw [fixedHeader] at hge
    omega
  obtain ⟨b₁, r₁, rfl, h₁, hr₁⟩ := exists_append_of_length _ _ hlen
  obtain ⟨b₂, body, rfl, h₂, -⟩ := exists_append_of_length _ _ hr₁
  obtain ⟨epochIndex, rfl⟩ := exists_u64LeBytes_eq h₁
  obtain ⟨offset, rfl⟩ := exists_u32LeBytes_eq h₂
  have hdecode := sszDecode_append epochIndex offset body
  split_ifs at hdecode with hoffset haligned hlong
  · exact .inr ⟨_, hdecode⟩
  · exact .inr ⟨_, hdecode⟩
  · exact .inr ⟨_, hdecode⟩
  · obtain ⟨summaries, hcount, rfl⟩ := exists_flatMap_eq
      (Nat.mul_div_cancel' (Nat.dvd_of_mod_eq_zero (not_not.mp haligned))).symm
    obtain rfl : offset = fixedHeaderLen := not_not.mp hoffset
    rw [← hcount] at hlong
    exact .inl ⟨{ epochIndex := epochIndex, eventSummaries := summaries }, if_neg hlong⟩

end EpochStateSnapshot

/-! ## Certificates -/

def sszDecodeCertificate (bytes : List UInt8) :
    Option (Except SszDecodeError CanonicalAccountCertificate) :=
  if bytes.length < certificateEncodedLen then
    some (.error (.truncated certificateEncodedLen bytes.length))
  else if bytes.length > certificateEncodedLen then
    some (.error (.trailingBytes certificateEncodedLen bytes.length))
  else do
    let address ← (slice bytes 0 20).bind (copyFromSlice 20)
    let genAddress ← (slice bytes 20 40).bind (copyFromSlice 20)
    let generationId ← (slice bytes 40 44).bind readU32Le
    let stateTableProofRoot ← (slice bytes 44 76).bind (copyFromSlice 32)
    let nonce ← (slice bytes 76 84).bind readU64Le
    let balance ← (slice bytes 84 116).bind (copyFromSlice 32)
    let codeHash ← (slice bytes 116 148).bind (copyFromSlice 32)
    let storageRoot ← (slice bytes 148 180).bind (copyFromSlice 32)
    return .ok {
      address := address
      generation :=
        { key := { address := genAddress, generationId := generationId }
          stateTableProofRoot := stateTableProofRoot }
      nonce := nonce
      balance := balance
      codeHash := codeHash
      storageRoot := .verified storageRoot }

/-- The encoding of a certificate, field by field. -/
lemma encodeCertificate_eq_flatten {c : CanonicalAccountCertificate} {storageRoot : Word}
    (h : c.storageRoot = .verified storageRoot) :
    encodeCertificate c =
      .ok [c.address.toList, c.generation.key.address.toList,
        u32LeBytes c.generation.key.generationId, c.generation.stateTableProofRoot.toList,
        u64LeBytes c.nonce, c.balance.toList, c.codeHash.toList, storageRoot.toList].flatten := by
  rw [encodeCertificate, h]
  simp

lemma encodeCertificate_isOk_iff (c : CanonicalAccountCertificate) :
    (∃ bytes, encodeCertificate c = .ok bytes) ↔
      ∃ storageRoot, c.storageRoot = .verified storageRoot := by
  constructor
  · rintro ⟨bytes, h⟩
    cases hroot : c.storageRoot with
    | awaitingDerivation => simp [encodeCertificate, hroot] at h
    | verified storageRoot => exact ⟨storageRoot, rfl⟩
  · rintro ⟨storageRoot, h⟩
    exact ⟨_, encodeCertificate_eq_flatten h⟩

lemma sszDecodeCertificate_encodeCertificate {c : CanonicalAccountCertificate}
    (h : encodeCertificate c = .ok bytes) : sszDecodeCertificate bytes = some (.ok c) := by
  have hlen := length_encodeCertificate h
  obtain ⟨storageRoot, hroot⟩ := (encodeCertificate_isOk_iff c).mp ⟨bytes, h⟩
  rw [encodeCertificate_eq_flatten hroot] at h
  obtain rfl := Except.ok.inj h
  rw [sszDecodeCertificate, if_neg (by omega), if_neg (by omega),
    copyFromSlice_field (k := 0) (by rfl) (by simp) (by rfl),
    copyFromSlice_field (k := 1) (by rfl) (by simp) (by rfl),
    readU32Le_field (k := 2) (by rfl) (by simp) (by rfl),
    copyFromSlice_field (k := 3) (by rfl) (by simp) (by rfl),
    readU64Le_field (k := 4) (by rfl) (by simp) (by rfl),
    copyFromSlice_field (k := 5) (by rfl) (by simp) (by rfl),
    copyFromSlice_field (k := 6) (by rfl) (by simp) (by rfl),
    copyFromSlice_field (k := 7) (by rfl) (by simp) (by rfl)]
  simp only [Option.bind_eq_bind, Option.bind_some]
  rw [← hroot]
  rfl

/-- Every list of the right length is the encoding of a certificate. -/
lemma exists_encodeCertificate_eq (h : bytes.length = certificateEncodedLen) :
    ∃ c, encodeCertificate c = .ok bytes := by
  obtain ⟨address, r₁, rfl, h₁, hr₁⟩ := exists_append_of_length 20 160 h
  obtain ⟨genAddress, r₂, rfl, h₂, hr₂⟩ := exists_append_of_length 20 140 hr₁
  obtain ⟨b₃, r₃, rfl, h₃, hr₃⟩ := exists_append_of_length 4 136 hr₂
  obtain ⟨proofRoot, r₄, rfl, h₄, hr₄⟩ := exists_append_of_length 32 104 hr₃
  obtain ⟨b₅, r₅, rfl, h₅, hr₅⟩ := exists_append_of_length 8 96 hr₄
  obtain ⟨balance, r₆, rfl, h₆, hr₆⟩ := exists_append_of_length 32 64 hr₅
  obtain ⟨codeHash, storageRoot, rfl, h₇, h₈⟩ := exists_append_of_length 32 32 hr₆
  obtain ⟨generationId, rfl⟩ := exists_u32LeBytes_eq h₃
  obtain ⟨nonce, rfl⟩ := exists_u64LeBytes_eq h₅
  exact ⟨{ address := ⟨address, h₁⟩
           generation :=
             { key := { address := ⟨genAddress, h₂⟩, generationId := generationId }
               stateTableProofRoot := ⟨proofRoot, h₄⟩ }
           nonce := nonce, balance := ⟨balance, h₆⟩, codeHash := ⟨codeHash, h₇⟩
           storageRoot := .verified ⟨storageRoot, h₈⟩ }, rfl⟩

/-- The decoder of certificates is the exact inverse of the encoder. -/
lemma inverts_certificate : Inverts encodeCertificate sszDecodeCertificate := by
  refine Inverts.of_cases (fun c l h => sszDecodeCertificate_encodeCertificate h) fun l => ?_
  rcases Nat.lt_trichotomy l.length certificateEncodedLen with hlt | heq | hgt
  · exact .inr ⟨_, by rw [sszDecodeCertificate, if_pos hlt]⟩
  · exact .inl (exists_encodeCertificate_eq heq)
  · exact .inr ⟨_, by rw [sszDecodeCertificate, if_neg (by omega), if_pos hgt]⟩

/-- **The wire formats are bijective.**  Each decoder is the exact inverse of its encoder, on
every summary, every snapshot within the bound and every certificate with a verified root. -/
theorem ssz_formats_bijective :
    Inverts (ε := SszError) (fun s : CanonicalEventSummary => .ok s.sszEncode)
        CanonicalEventSummary.sszDecode ∧
      Inverts EpochStateSnapshot.sszEncode EpochStateSnapshot.sszDecode ∧
      Inverts encodeCertificate sszDecodeCertificate ∧
      (∀ s : EpochStateSnapshot, (∃ bytes, s.sszEncode = .ok bytes) ↔
        s.eventSummaries.length ≤ maxEventSummaries) ∧
      ∀ c : CanonicalAccountCertificate, (∃ bytes, encodeCertificate c = .ok bytes) ↔
        ∃ storageRoot, c.storageRoot = .verified storageRoot := by
  refine ⟨CanonicalEventSummary.inverts, EpochStateSnapshot.inverts, inverts_certificate,
    fun s => ?_, encodeCertificate_isOk_iff⟩
  rw [EpochStateSnapshot.sszEncode]
  split
  · rename_i hlong
    exact ⟨fun ⟨_, h⟩ => absurd h (by simp), fun hle => absurd hle (by omega)⟩
  · rename_i hshort
    exact ⟨fun _ => by omega, fun _ => ⟨_, rfl⟩⟩

end KaySentinel.Ssz
