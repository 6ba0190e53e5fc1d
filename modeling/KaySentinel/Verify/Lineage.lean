import KaySentinel.Verify.Accounts

/-!
# Two checks of the lineage

Gate 2 checks every previous value as it meets the payload, against the account of the
model; the builder checks the timeline of every key.  `onlineConsistent_iff` says by how much
the first check is stricter, and `lineageChecks_agree_iff` on which payloads it matters.
-/

namespace KaySentinel.Verify

open Cse Builder

/-- The payload updates the balance, the nonce, the code or a storage slot of an account. -/
def isStateUpdate : CsePayload → Bool
  | .balanceChanged _ => true
  | .nonceUpdated _ => true
  | .codeUpdated _ => true
  | .storageSlotUpdated _ => true
  | _ => false

lemma isPersistent_of_isStateUpdate {p : CsePayload} (hp : isStateUpdate p = true)
    {w : Journal.Write CanonicalKey.Value} (hw : transition? p = some w) :
    w.key.isPersistent = true := by
  cases p with
  | balanceChanged p | nonceUpdated p | codeUpdated p | storageSlotUpdated p =>
    obtain rfl := Option.some.inj hw
    rfl
  | _ => simp [isStateUpdate] at hp

lemma isBoundary_of_isStateUpdate {p : CsePayload} (hp : isStateUpdate p = true) :
    p.isBoundary = false := by
  cases p with
  | beginTransaction | endTransaction => simp [isStateUpdate] at hp
  | _ => rfl

lemma gasRefunds_eq_nil {ps : List CsePayload} (hps : ∀ p ∈ ps, isStateUpdate p = true) :
    gasRefunds ps = [] := by
  rw [gasRefunds, List.filterMap_eq_nil_iff]
  intro p hp
  have hupdate := hps p hp
  cases p with
  | gasRefundChanged p => simp [isStateUpdate] at hupdate
  | _ => rfl

/-! ## The online check and the check of the timelines -/

/-- A write expects the value established at its key. -/
def Continues (k : CanonicalKey) (pre : List CsePayload) (p : CsePayload) : Prop :=
  ∀ w x, transition? p = some w → w.key = k → established? pre w.key = some x → x = w.before

/-- A write that is the first to its key expects zero, if its account is touched already. -/
def StartsAtZero (pre : List CsePayload) (p : CsePayload) : Prop :=
  ∀ w, transition? p = some w → w.key.isPersistent = true → established? pre w.key = none →
    Touched w.key.address pre → w.before = w.key.zeroValue

/-- The first write to every key expects zero, unless it is the first touch of the account. -/
def FirstsExpectZero (ps : List CsePayload) : Prop := Pointwise.EachStep StartsAtZero ps

/-- The timeline of a key is continuous exactly if every write to it continues it. -/
lemma linked_historyAt_iff (k : CanonicalKey) (ps : List CsePayload) :
    Journal.Linked (historyAt k ps) ↔ Pointwise.EachStep (Continues k) ps := by
  induction ps using List.reverseRecOn with
  | nil => exact iff_of_true trivial Pointwise.eachStep_nil
  | append_singleton ps p ih =>
    rw [Pointwise.eachStep_append_singleton, ← ih]
    by_cases hp : ∃ w, transition? p = some w ∧ w.key = k
    · obtain ⟨w, hw, rfl⟩ := hp
      rw [historyAt_append_write hw, Journal.Write.at?_self]
      change Journal.Linked (_ ++ [(w.before, w.after)]) ↔ _
      rw [Journal.linked_append_singleton]
      refine and_congr_right fun _ => ⟨fun h w' x hw' _ hx => ?_, fun h x hx => ?_⟩
      · obtain rfl := Option.some.inj (hw.symm.trans hw')
        exact h x hx
      · exact h w x hw rfl hx
    · have hnone : ∀ w, transition? p = some w → w.key ≠ k := fun w hw hk => hp ⟨w, hw, hk⟩
      rw [historyAt_append_of_none hnone]
      refine (and_iff_left ?_).symm
      exact fun w x hw hk _ => absurd hk (hnone w hw)

lemma touched_of_established? {pre : List CsePayload} {k : CanonicalKey} {x : k.Value}
    (hk : k.isPersistent = true) (h : established? pre k = some x) : Touched k.address pre := by
  have hne : historyAt k pre ≠ [] := by
    intro hnil
    rw [established?_eq_none_iff.mpr hnil] at h
    exact absurd h (by simp)
  obtain ⟨w, hw, rfl⟩ := Journal.history_ne_nil_iff.mp hne
  obtain ⟨p, hp, hpw⟩ := List.mem_filterMap.mp hw
  exact ⟨p, hp, touchedAddress?_of_write hpw hk⟩

lemma terminal_of_established? {pre : List CsePayload} {k : CanonicalKey} {x : k.Value}
    (h : established? pre k = some x) (v : k.Value) :
    Journal.terminal v (historyAt k pre) = x := by
  rw [Journal.terminal, ← established?, h]
  rfl

/-- A payload fits exactly if it continues the timeline of its key or, as the first write to
it on a touched account, expects zero. -/
lemma fits_iff {pre : List CsePayload} {p : CsePayload} :
    Fits pre p ↔ (∀ k : CanonicalKey, k.isPersistent = true → Continues k pre p) ∧
      StartsAtZero pre p := by
  constructor
  · intro h
    refine ⟨fun k hk w x hw hkey hx => ?_, fun w hw hpersistent hnone htouched => ?_⟩
    · subst hkey
      have hfits := h w hw hk (touched_of_established? hk hx)
      rwa [terminal_of_established? hx] at hfits
    · have hfits := h w hw hpersistent htouched
      rw [established?_eq_none_iff.mp hnone] at hfits
      exact hfits.symm
  · rintro ⟨hcontinues, hzero⟩ w hw hpersistent htouched
    cases hx : established? pre w.key with
    | none =>
      rw [established?_eq_none_iff.mp hx]
      exact (hzero w hw hpersistent hx htouched).symm
    | some x =>
      rw [terminal_of_established? hx]
      exact hcontinues w.key hpersistent w x hw rfl hx

/-- **The two checks compared.**  Gate 2 checks the timelines and, beyond that, that the first
write to a key of a touched account expects zero. -/
theorem onlineConsistent_iff {ps : List CsePayload} :
    OnlineConsistent ps ↔
      (∀ k : CanonicalKey, k.isPersistent = true → Journal.Linked (historyAt k ps)) ∧
        FirstsExpectZero ps := by
  simp only [linked_historyAt_iff]
  constructor
  · intro h
    exact ⟨fun k hk pre p hpre => (fits_iff.mp (h pre p hpre)).1 k hk,
      fun pre p hpre => (fits_iff.mp (h pre p hpre)).2⟩
  · rintro ⟨hlinked, hzero⟩ pre p hpre
    exact fits_iff.mpr ⟨fun k hk => hlinked k hk pre p hpre, hzero pre p hpre⟩

/-! ## When they agree -/

/-- Some previous value differs from the one that an earlier payload of its key
established. -/
def BreaksLineage (ps : List CsePayload) : Prop :=
  ∃ pre p post w x, ps = pre ++ p :: post ∧ transition? p = some w ∧
    established? pre w.key = some x ∧ x ≠ w.before

/-- Partition and reduction fail with a discontinuous lineage. -/
def FailsReduction (events : List CanonicalSemanticEvent) : Prop :=
  ∃ rawIr previous current, Partition.process events = .ok rawIr ∧
    Reduce.process rawIr = .error (.timelineFailure (.discontinuousLineage previous current))

lemma breaksLineage_iff {ps : List CsePayload} :
    BreaksLineage ps ↔ ∃ k, ¬ Journal.Linked (historyAt k ps) := by
  simp only [linked_historyAt_iff, Pointwise.not_eachStep_iff, Continues]
  constructor
  · rintro ⟨pre, p, post, w, x, hps, hw, hx, hne⟩
    exact ⟨w.key, pre, p, post, hps, fun h => hne (h w x hw rfl hx)⟩
  · rintro ⟨k, pre, p, post, hps, h⟩
    push Not at h
    obtain ⟨w, x, hw, -, hx, hne⟩ := h
    exact ⟨pre, p, post, w, x, hps, hw, hx, hne⟩

section

variable {events : List CanonicalSemanticEvent} {ps : List CsePayload}

lemma failsReduction_iff (hbracket : payloads events = bracketed ps)
    (hps : ∀ p ∈ ps, isStateUpdate p = true) : FailsReduction events ↔ BreaksLineage ps := by
  have hcont : Continuous ps ↔ ¬ BreaksLineage ps := by
    rw [breaksLineage_iff, not_exists_not]
    refine ⟨fun h => h.states, fun h => ⟨h, ?_⟩⟩
    rw [gasRefunds_eq_nil hps]
    trivial
  rcases Reduce.process_bracketed_cases hbracket
      (fun p hp => isBoundary_of_isStateUpdate (hps p hp)) with
    ⟨ctx, body, bucket, -, hraw, hok, hc, -, -⟩ | ⟨rawIr, previous, current, hraw, he, hc⟩
  · refine iff_of_false ?_ (hcont.mp hc)
    rintro ⟨rawIr, previous, current, hraw', he⟩
    obtain rfl := Except.ok.inj (hraw.symm.trans hraw')
    rw [hok] at he
    exact absurd he (by simp)
  · refine iff_of_true ⟨rawIr, previous, current, hraw, he⟩ ?_
    rw [hcont, not_not] at hc
    exact hc

lemma reportsInconsistency_iff_of_stateUpdates (blake3 : Blake3)
    (hps : ∀ p ∈ ps, isStateUpdate p = true) (certs : List CanonicalAccountCertificate) :
    ReportsInconsistency blake3 { accountCertificates := certs, executionTraces := ps } ↔
      BreaksLineage ps ∨ ¬ FirstsExpectZero ps := by
  -- a key that is not persistent has no transitions
  have hpersistent : (∀ k : CanonicalKey, k.isPersistent = true →
      Journal.Linked (historyAt k ps)) ↔ ¬ BreaksLineage ps := by
    rw [breaksLineage_iff, not_exists_not]
    refine ⟨fun h k => ?_, fun h k _ => h k⟩
    by_cases hnil : historyAt k ps = []
    · rw [hnil]
      trivial
    · obtain ⟨w, hw, rfl⟩ := Journal.history_ne_nil_iff.mp hnil
      obtain ⟨p, hp, hpw⟩ := List.mem_filterMap.mp hw
      exact h _ (isPersistent_of_isStateUpdate (hps p hp) hpw)
  rw [reportsInconsistency_iff, onlineConsistent_iff, hpersistent, not_and_or, not_not]

/-- **Agreement of the two lineage checks.**  On updates of account fields and slots, Gate 2's
report, the failure of the reduction and a previous value that contradicts an earlier payload
of its key coincide, unless the lineage is unbroken and the first write to some key of an
already touched account expects a value other than zero. -/
theorem lineageChecks_agree_iff (blake3 : Blake3) (certs : List CanonicalAccountCertificate)
    (hbracket : payloads events = bracketed ps) (hps : ∀ p ∈ ps, isStateUpdate p = true) :
    ((ReportsInconsistency blake3 { accountCertificates := certs, executionTraces := ps } ↔
        FailsReduction events) ∧
      (FailsReduction events ↔ BreaksLineage ps)) ↔
        BreaksLineage ps ∨ FirstsExpectZero ps := by
  rw [failsReduction_iff hbracket hps, reportsInconsistency_iff_of_stateUpdates blake3 hps]
  by_cases hzero : FirstsExpectZero ps
  · simp [hzero]
  · simp [hzero]

end

/-- A balance goes from 0 to 1 and on to 2. -/
def twoTransfers : List CsePayload :=
  [.balanceChanged ⟨Bytes.last 19 1, Bytes.zero 32, Bytes.last 31 1⟩,
    .balanceChanged ⟨Bytes.last 19 1, Bytes.last 31 1, Bytes.last 31 2⟩]

theorem twoTransfers_agree :
    ((ReportsInconsistency (fun _ => Bytes.zero 32)
          { accountCertificates := [], executionTraces := twoTransfers } ↔
        FailsReduction (plainEvents (bracketed twoTransfers))) ∧
      (FailsReduction (plainEvents (bracketed twoTransfers)) ↔ BreaksLineage twoTransfers)) ↔
        BreaksLineage twoTransfers ∨ FirstsExpectZero twoTransfers :=
  lineageChecks_agree_iff _ [] (payloads_plainEvents _) (by decide)

/-- The balance of an account goes from 0 to 1. -/
def firstTransfer : CsePayload :=
  .balanceChanged ⟨Bytes.last 19 1, Bytes.zero 32, Bytes.last 31 1⟩

/-- The nonce of that account goes from 5 to 6. -/
def nonceBump : CsePayload := .nonceUpdated ⟨Bytes.last 19 1, 5, 6⟩

/-- Gate 2 takes the nonce to be zero because the account was touched through its balance. -/
theorem nonceBump_disagrees :
    ReportsInconsistency (fun _ => Bytes.zero 32)
        { accountCertificates := [], executionTraces := [firstTransfer, nonceBump] } ∧
      ¬ FailsReduction (plainEvents (bracketed [firstTransfer, nonceBump])) ∧
      ¬ BreaksLineage [firstTransfer, nonceBump] := by
  have hupdates : ∀ p ∈ [firstTransfer, nonceBump], isStateUpdate p = true := by decide
  have hnone : established? [firstTransfer] (.nonce (Bytes.last 19 1)) = none := by decide
  have hunbroken : ¬ BreaksLineage [firstTransfer, nonceBump] := by
    rintro ⟨pre, p, post, w, x, hps, hw, hx, -⟩
    rcases pre with _ | ⟨first, _ | ⟨second, pre⟩⟩
    · exact absurd hx (by simp [established?, historyAt, writesOf, Journal.writes])
    · obtain ⟨rfl, hrest⟩ := List.cons.inj hps
      obtain ⟨rfl, -⟩ := List.cons.inj hrest
      obtain rfl := Option.some.inj hw
      exact Option.some_ne_none x (hx.symm.trans hnone)
    · simp at hps
  refine ⟨?_, (failsReduction_iff (payloads_plainEvents _) hupdates).not.mpr hunbroken, hunbroken⟩
  rw [reportsInconsistency_iff_of_stateUpdates _ hupdates]
  refine .inr fun hzero => ?_
  have hnonce := hzero [firstTransfer] nonceBump (List.prefix_refl _) _ rfl rfl hnone
    ⟨_, List.mem_singleton_self _, rfl⟩
  exact absurd hnonce (by decide)

end KaySentinel.Verify
