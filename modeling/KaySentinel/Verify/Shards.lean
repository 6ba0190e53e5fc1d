import KaySentinel.Verify.Accounts

/-!
# Gate 2 in parts

Gate 2 looks at one account at a time.  However the accounts are divided, it accepts a batch
exactly if it accepts each part of it: `accepted_iff_shards`.
-/

namespace KaySentinel.Verify

open Cse Builder

variable {ι : Type*} [DecidableEq ι] (part : Address → ι) (i : ι)

/-- The part that a payload belongs to, if it touches an account. -/
def partOf? (p : CsePayload) : Option ι := (touchedAddress? p).map part

/-- The payloads and certificates of a part of the accounts. -/
def ExecutionBatchReplay.shard (batch : ExecutionBatchReplay) : ExecutionBatchReplay where
  accountCertificates := batch.accountCertificates.filter fun c => part c.address = i
  executionTraces := batch.executionTraces.filter fun p => partOf? part p = some i

variable {part i} {ps : List CsePayload}

/-! ## The payloads of a part -/

/-- Dropping payloads that write to other keys keeps the transitions of a key. -/
lemma historyAt_filter {keep : CsePayload → Bool} {k : CanonicalKey}
    (h : ∀ p, keep p = false → ∀ w, transition? p = some w → w.key ≠ k) (ps : List CsePayload) :
    historyAt k (ps.filter keep) = historyAt k ps := by
  induction ps using List.reverseRecOn with
  | nil => rfl
  | append_singleton ps p ih =>
    rw [List.filter_append, historyAt_append, ih, historyAt_append]
    congr 1
    cases hp : keep p with
    | true => rw [List.filter_cons_of_pos hp, List.filter_nil]
    | false =>
      have hlast := historyAt_append_of_none (h p hp) []
      rw [List.nil_append] at hlast
      rw [hlast, List.filter_cons_of_neg (by simp [hp])]
      rfl

/-- A part has all transitions of its accounts. -/
lemma historyAt_part {k : CanonicalKey} (hk : k.isPersistent = true) (hpart : part k.address = i) :
    historyAt k (ps.filter fun p => partOf? part p = some i) = historyAt k ps := by
  refine historyAt_filter (fun p hp w hw hkey => ?_) ps
  subst hkey
  rw [decide_eq_false_iff_not] at hp
  refine hp ?_
  rw [partOf?, touchedAddress?_of_write hw hk, ← hpart]
  rfl

lemma touched_part_iff {address : Address} :
    Touched address (ps.filter fun p => partOf? part p = some i) ↔
      Touched address ps ∧ part address = i := by
  simp only [Touched, List.mem_filter, decide_eq_true_eq]
  constructor
  · rintro ⟨p, ⟨hp, hpart⟩, haddress⟩
    rw [partOf?, haddress] at hpart
    exact ⟨⟨p, hp, haddress⟩, Option.some.inj hpart⟩
  · rintro ⟨⟨p, hp, haddress⟩, rfl⟩
    exact ⟨p, ⟨hp, by rw [partOf?, haddress]; rfl⟩, haddress⟩

/-- Whether a payload fits is a matter of its part. -/
lemma fits_part_iff {p : CsePayload} (hp : partOf? part p = some i) :
    Fits (ps.filter fun p => partOf? part p = some i) p ↔ Fits ps p := by
  have hkey : ∀ w, transition? p = some w → w.key.isPersistent = true →
      part w.key.address = i := by
    intro w hw hk
    rw [partOf?, touchedAddress?_of_write hw hk] at hp
    exact Option.some.inj hp
  refine forall_congr' fun w => forall_congr' fun hw => forall_congr' fun hk => ?_
  rw [touched_part_iff, historyAt_part hk (hkey w hw hk), and_iff_left (hkey w hw hk)]

omit [DecidableEq ι] in
lemma fits_of_no_part {p : CsePayload} (hp : partOf? part p = none) : Fits ps p := by
  intro w hw hk
  rw [partOf?, touchedAddress?_of_write hw hk] at hp
  cases hp

/-- The payloads fit exactly if those of each part do. -/
lemma onlineConsistent_iff_parts (part : Address → ι) :
    OnlineConsistent ps ↔ ∀ i, OnlineConsistent (ps.filter fun p => partOf? part p = some i) :=
  Pointwise.eachStep_iff_filter (partOf? part) (fun _ _ hp => fits_of_no_part hp)
    fun _ _ _ hp => fits_part_iff hp

/-! ## The certificates of a part -/

variable (blake3 : Blake3)

lemma agrees_part_iff {c : CanonicalAccountCertificate} (hc : part c.address = i) :
    Agrees blake3 (ps.filter fun p => partOf? part p = some i) c ↔ Agrees blake3 ps c := by
  have hstorage : ((replayTraces (ps.filter fun p => partOf? part p = some i)).account
      c.address).storage = ((replayTraces ps).account c.address).storage := by
    refine Std.ExtTreeMap.ext_getElem? fun slot => ?_
    rw [((replayed _).holds c.address).slot, ((replayed _).holds c.address).slot]
    rw [historyAt_part rfl hc]
  refine and_congr ?_ (by rw [hstorage])
  refine forall_congr' fun k => forall_congr' fun hk => forall_congr' fun hka => ?_
  rw [historyAt_part (CanonicalKey.isPersistent_of_isField hk) (by rw [hka, hc])]

/-- Gate 2 accepts the batch. -/
def Accepted (batch : ExecutionBatchReplay) : Prop :=
  (replayAndVerify blake3 batch).result = some (.ok ())

/-- **Gate 2 in parts.**  However the accounts are divided into parts, Gate 2 accepts a batch
exactly if it accepts the payloads and certificates of every part by themselves; how the payloads
of different parts are interleaved does not matter. -/
theorem accepted_iff_shards (part : Address → ι) (batch : ExecutionBatchReplay) :
    Accepted blake3 batch ↔ ∀ i, Accepted blake3 (batch.shard part i) := by
  have haccepted : ∀ batch : ExecutionBatchReplay, Accepted blake3 batch ↔
      OnlineConsistent batch.executionTraces ∧
        (∀ address, Touched address batch.executionTraces ↔
          ∃ c ∈ batch.accountCertificates, c.address = address) ∧
        ∀ c ∈ batch.accountCertificates, Agrees blake3 batch.executionTraces c :=
    replayAndVerify_eq_ok_iff blake3
  simp only [haccepted, ExecutionBatchReplay.shard, touched_part_iff, List.mem_filter,
    decide_eq_true_eq]
  rw [forall_and, forall_and, ← onlineConsistent_iff_parts]
  refine and_congr_right fun _ => and_congr ?_ ?_
  · constructor
    · intro h i address
      rw [h address]
      constructor
      · rintro ⟨⟨c, hc, rfl⟩, hpart⟩
        exact ⟨c, ⟨hc, hpart⟩, rfl⟩
      · rintro ⟨c, ⟨hc, hpart⟩, rfl⟩
        exact ⟨⟨c, hc, rfl⟩, hpart⟩
    · intro h address
      have haddress := h (part address) address
      rw [and_iff_left rfl] at haddress
      rw [haddress]
      constructor
      · rintro ⟨c, ⟨hc, -⟩, rfl⟩
        exact ⟨c, hc, rfl⟩
      · rintro ⟨c, hc, rfl⟩
        exact ⟨c, ⟨hc, rfl⟩, rfl⟩
  · constructor
    · rintro h i c ⟨hc, hpart⟩
      exact (agrees_part_iff blake3 hpart).mpr (h c hc)
    · intro h c hc
      exact (agrees_part_iff blake3 rfl).mp (h (part c.address) c ⟨hc, rfl⟩)

end KaySentinel.Verify
