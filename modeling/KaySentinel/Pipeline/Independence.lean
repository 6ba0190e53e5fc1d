import KaySentinel.Builder.Lifecycle.Resolution
import KaySentinel.Pipeline.Run

/-!
# What a commitment does not depend on

The certificates and their root are a function of the transitions at each key, the kinds of
lifecycle events at each address and the snapshots: `commit_congr`.  Sequence numbers and
trace metadata reach the provenance of a transition and the spans of a generation, neither of
which a certificate reads.
-/

namespace KaySentinel.Builder

open Cse

/-! ## Certificates without provenance -/

/-- A transition without the events it came from. -/
def ReducedTransition.strip {T : Type} (t : ReducedTransition T) : ReducedTransition T :=
  { t with provenance := ∅ }

def ReducedVariant.strip : ReducedVariant → ReducedVariant
  | .balance t => .balance t.strip
  | .nonce t => .nonce t.strip
  | .code t => .code t.strip
  | .storage t => .storage t.strip
  | .transient t => .transient t.strip

lemma ReducedVariant.strip_of (k : CanonicalKey) (t : ReducedTransition k.Value) :
    (ReducedVariant.of k t).strip = .of k t.strip := by
  cases k <;> rfl

lemma CertificateFields.fill_strip (fields : CertificateFields) (variant : ReducedVariant) :
    fields.fill variant.strip = fields.fill variant := by
  cases variant <;> rfl

variable {generations generations' : List CanonicalGeneration}
  {snapshotSource : AccountSnapshotSource}

lemma collectBuilders_strip (builders : OrdMap.Map Address CertificateBuilder)
    (l : List (CanonicalKey × ReducedVariant)) :
    collectBuilders generations snapshotSource builders
        (l.map fun entry => (entry.1, entry.2.strip)) =
      collectBuilders generations snapshotSource builders l := by
  induction l generalizing builders with
  | nil => rfl
  | cons entry l ih =>
    obtain ⟨key, variant⟩ := entry
    simp only [List.map_cons, collectBuilders, CertificateFields.fill_strip, ih]

/-- The certificates, or the error, depend on the reduced values and on the terminal
generations alone. -/
theorem buildCanonicalCertificates_congr {table table' : OrdMap.Map CanonicalKey ReducedVariant}
    (htables : ∀ k : CanonicalKey, table[k]?.map ReducedVariant.strip =
      table'[k]?.map ReducedVariant.strip)
    (hgenerations : ∀ address, resolveGenerationForAddress generations address =
      resolveGenerationForAddress generations' address) :
    buildCanonicalCertificates table generations snapshotSource =
      buildCanonicalCertificates table' generations' snapshotSource := by
  have hmap : (table.map fun _ variant => variant.strip) =
      table'.map fun _ variant => variant.strip := by
    refine Std.ExtTreeMap.ext_getElem? fun k => ?_
    rw [Std.ExtTreeMap.getElem?_map, Std.ExtTreeMap.getElem?_map]
    exact htables k
  have hlists := congrArg Std.ExtTreeMap.toList hmap
  rw [Std.ExtTreeMap.toList_map, Std.ExtTreeMap.toList_map] at hlists
  have hresolve : ∀ address, resolveOrElse generations snapshotSource address =
      resolveOrElse generations' snapshotSource address := by
    intro address
    rw [resolveOrElse, resolveOrElse, hgenerations]
  rw [buildCanonicalCertificates, buildCanonicalCertificates, ← collectBuilders_strip, hlists,
    collectBuilders_strip, collectBuilders_congr hresolve]

/-- Tables of the same transitions differ in provenance alone. -/
lemma Tabulates.strip_eq {ps ps' : List CsePayload}
    {table table' : OrdMap.Map CanonicalKey ReducedVariant} (h : Tabulates ps table)
    (h' : Tabulates ps' table') (hhist : ∀ k, historyAt k ps = historyAt k ps')
    (k : CanonicalKey) :
    table[k]?.map ReducedVariant.strip = table'[k]?.map ReducedVariant.strip := by
  rcases h k with ⟨hnil, hnone⟩ | ⟨v, a, rest, t, hcons, hsome, hinitial, hchain⟩
  · rcases h' k with ⟨-, hnone'⟩ | ⟨v', a', rest', t', hcons', -, -, -⟩
    · rw [hnone, hnone']
    · rw [← hhist, hnil] at hcons'
      exact absurd hcons' (by simp)
  · rcases h' k with ⟨hnil', -⟩ | ⟨v', a', rest', t', hcons', hsome', hinitial', hchain'⟩
    · rw [hhist, hnil'] at hcons
      exact absurd hcons (by simp)
    · rw [← hhist, hcons] at hcons'
      simp only [List.cons.injEq, Prod.mk.injEq] at hcons'
      obtain ⟨⟨rfl, -⟩, -⟩ := hcons'
      rw [← hhist, hchain] at hchain'
      have hstrip : t.strip = t'.strip := by
        obtain ⟨initial, terminal, provenance⟩ := t
        obtain ⟨initial', terminal', provenance'⟩ := t'
        obtain rfl : initial = v := hinitial
        obtain rfl : initial' = initial := hinitial'
        obtain rfl : terminal = terminal' := Option.some.inj hchain'
        rfl
      rw [hsome, hsome', Option.map_some, Option.map_some, ReducedVariant.strip_of,
        ReducedVariant.strip_of, hstrip]

/-! ## The keys of the generations -/

namespace Lifecycle

/-- How many generations there are depends on the kinds of the events. -/
lemma generationCount_congr {isOpen : Bool} {kinds kinds' : List CseLifecyclePayload}
    (h : kinds.map CseLifecyclePayload.isDestroyed =
      kinds'.map CseLifecyclePayload.isDestroyed) :
    generationCount isOpen kinds = generationCount isOpen kinds' := by
  induction kinds generalizing isOpen kinds' with
  | nil =>
    obtain rfl : kinds' = [] := by simpa using h.symm
    rfl
  | cons kind kinds ih =>
    cases kinds' with
    | nil => simp at h
    | cons kind' kinds' =>
      simp only [List.map_cons, List.cons.injEq] at h
      obtain ⟨hkind, hrest⟩ := h
      cases kind with
      | created p => cases kind' with
        | created p' => rw [generationCount, generationCount, ih hrest]
        | destroyed p' => simp [CseLifecyclePayload.isDestroyed] at hkind
      | destroyed p => cases kind' with
        | created p' => simp [CseLifecyclePayload.isDestroyed] at hkind
        | destroyed p' => rw [generationCount, generationCount, ih hrest]

lemma tableKeys_congr {table table' : OrdMap.Map Address (List ObservedLifecycle)}
    (h : ∀ address : Address,
      table[address]?.map (fun l => (l.map (·.payload)).map CseLifecyclePayload.isDestroyed) =
        table'[address]?.map fun l => (l.map (·.payload)).map CseLifecyclePayload.isDestroyed) :
    tableKeys table = tableKeys table' := by
  have hmap : (table.map fun _ l => generationCount true (l.map (·.payload))) =
      table'.map fun _ l => generationCount true (l.map (·.payload)) := by
    refine Std.ExtTreeMap.ext_getElem? fun address => ?_
    rw [Std.ExtTreeMap.getElem?_map, Std.ExtTreeMap.getElem?_map]
    have haddress := h address
    cases hl : table[address]? with
    | none =>
      rw [hl] at haddress
      cases hl' : table'[address]? with
      | none => rfl
      | some l' => simp [hl'] at haddress
    | some l =>
      rw [hl] at haddress
      cases hl' : table'[address]? with
      | none => simp [hl'] at haddress
      | some l' =>
        rw [hl', Option.map_some, Option.map_some, Option.some.injEq] at haddress
        rw [Option.map_some, Option.map_some, generationCount_congr haddress]
  have hlists := congrArg Std.ExtTreeMap.toList hmap
  rw [Std.ExtTreeMap.toList_map, Std.ExtTreeMap.toList_map] at hlists
  have hkeys : ∀ t : OrdMap.Map Address (List ObservedLifecycle), tableKeys t =
      (t.toList.map fun e => (e.1, generationCount true (e.2.map (·.payload)))).flatMap
        fun e => generationKeys e.1 0 e.2 := by
    intro t
    rw [tableKeys, List.flatMap_map]
  rw [hkeys, hkeys, hlists]

end Lifecycle

end KaySentinel.Builder

namespace KaySentinel.Pipeline

open Cse Builder Ssz

/-! ## Two streams with the same transitions -/

/-- The payloads agree at every key, in the kinds of the lifecycle events of every address
and in the gas refunds; how they interleave, and all logs and access lists, are left open. -/
structure SameTransitions (ps ps' : List CsePayload) : Prop where
  states : ∀ k, historyAt k ps = historyAt k ps'
  lifecycles : ∀ address, (lifecyclesAt address ps).map CseLifecyclePayload.isDestroyed =
    (lifecyclesAt address ps').map CseLifecyclePayload.isDestroyed
  gasRefunds : gasRefunds ps = gasRefunds ps'

variable {ps ps' : List CsePayload}

lemma SameTransitions.continuous_iff (h : SameTransitions ps ps') :
    Continuous ps ↔ Continuous ps' := by
  constructor
  · intro hc
    exact ⟨fun k => h.states k ▸ hc.states k, h.gasRefunds ▸ hc.gasRefunds⟩
  · intro hc
    exact ⟨fun k => (h.states k).symm ▸ hc.states k, h.gasRefunds.symm ▸ hc.gasRefunds⟩

lemma fewDestroyed_of_length {bucket : ReducedTransactionBucket} (h : Reduced ps bucket)
    (hfew : ∀ address, (lifecyclesAt address ps).length < 2 ^ 32) :
    Lifecycle.FewDestroyed bucket.lifecycleTable := by
  intro address observations hget
  obtain ⟨observations', hlist, hentry⟩ := h.lifecycles address
  rw [hget] at hentry
  split_ifs at hentry
  obtain rfl := Option.some.inj hentry
  rw [hlist]
  exact lt_of_le_of_lt List.countP_le_length (hfew address)

section

variable {bucket bucket' : ReducedTransactionBucket}

lemma tableKeys_eq (h : Reduced ps bucket) (h' : Reduced ps' bucket')
    (hkinds : ∀ address, (lifecyclesAt address ps).map CseLifecyclePayload.isDestroyed =
      (lifecyclesAt address ps').map CseLifecyclePayload.isDestroyed) :
    Lifecycle.tableKeys bucket.lifecycleTable = Lifecycle.tableKeys bucket'.lifecycleTable := by
  refine Lifecycle.tableKeys_congr fun address => ?_
  obtain ⟨l, hl, hentry⟩ := h.lifecycles address
  obtain ⟨l', hl', hentry'⟩ := h'.lifecycles address
  have haddress := hkinds address
  rw [← hl, ← hl'] at haddress
  have hnil : l = [] ↔ l' = [] := by
    have hlen := congrArg List.length haddress
    simp only [List.length_map] at hlen
    rw [← List.length_eq_zero_iff, hlen, List.length_eq_zero_iff]
  rw [hentry, hentry']
  by_cases hempty : l = []
  · rw [if_pos hempty, if_pos (hnil.mp hempty)]
  · rw [if_neg hempty, if_neg (fun h => hempty (hnil.mpr h)), Option.map_some, Option.map_some,
      haddress]

/-- The terminal generation depends on the kinds of the lifecycle events. -/
lemma resolveGenerationForAddress_processBucket (h : Reduced ps bucket) (h' : Reduced ps' bucket')
    (hkinds : ∀ address, (lifecyclesAt address ps).map CseLifecyclePayload.isDestroyed =
      (lifecyclesAt address ps').map CseLifecyclePayload.isDestroyed)
    (hfew : ∀ address, (lifecyclesAt address ps).length < 2 ^ 32)
    (preStates preStates' : OrdMap.Map Address Bool) (address : Address) :
    resolveGenerationForAddress (Lifecycle.processBucket preStates bucket).value.generations
        address =
      resolveGenerationForAddress (Lifecycle.processBucket preStates' bucket').value.generations
        address := by
  have hfew' : ∀ address, (lifecyclesAt address ps').length < 2 ^ 32 := by
    intro address
    have hlen := congrArg List.length (hkinds address)
    simp only [List.length_map] at hlen
    rw [← hlen]
    exact hfew address
  have hkeys := Lifecycle.perm_canonicalKeys (fewDestroyed_of_length h hfew) preStates
  have hkeys' := Lifecycle.perm_canonicalKeys (fewDestroyed_of_length h' hfew') preStates'
  have hnodup := hkeys.nodup_iff.mpr (Lifecycle.nodup_tableKeys (fewDestroyed_of_length h hfew))
  refine resolveGenerationForAddress_congr hnodup (hkeys.trans ?_) address
  rw [tableKeys_eq h h' hkinds]
  exact hkeys'.symm

end

/-- **Independence.**  Of two streams with the same transitions, fewer than `2 ^ 32` lifecycle
events to an address, reduction fails on both or on neither; in the second case the
certificates, their root and the inputs hashed on the way, or the error, are the same. -/
theorem commit_congr (blake3 : Blake3) (preStates preStates' : OrdMap.Map Address Bool)
    (snapshotSource : AccountSnapshotSource) {events events' : List CanonicalSemanticEvent}
    (hsingle : SingleTransaction events) (hsingle' : SingleTransaction events')
    (hsame : SameTransitions (payloads events) (payloads events'))
    (hfew : ∀ address, (lifecyclesAt address (payloads events)).length < 2 ^ 32) :
    ((∃ e, reduceStream events = .error e) ↔ ∃ e, reduceStream events' = .error e) ∧
      ((∃ reduced, reduceStream events = .ok reduced) →
        certify blake3 preStates snapshotSource events =
            certify blake3 preStates' snapshotSource events' ∧
          commit blake3 preStates snapshotSource events =
            commit blake3 preStates' snapshotSource events') := by
  rcases reduceStream_cases hsingle with ⟨bucket, hok, hreduced⟩ | ⟨e, he, hcont⟩
  · rcases reduceStream_cases hsingle' with ⟨bucket', hok', hreduced'⟩ | ⟨e, -, hcont'⟩
    · have hcertify : certify blake3 preStates snapshotSource events =
          certify blake3 preStates' snapshotSource events' := by
        have hbuild : buildCanonicalCertificates bucket.stateTable _ snapshotSource =
            buildCanonicalCertificates bucket'.stateTable _ snapshotSource :=
          buildCanonicalCertificates_congr
            (hreduced.states.strip_eq hreduced'.states hsame.states)
            (resolveGenerationForAddress_processBucket hreduced hreduced' hsame.lifecycles hfew
              preStates preStates')
        have hslots : ∀ address,
            slotsOf bucket.stateTable address = slotsOf bucket'.stateTable address := by
          refine fun address => Std.ExtTreeMap.ext_getElem? fun slot => ?_
          rw [getElem?_slotsOf, getElem?_slotsOf,
            hreduced.states.terminal?_eq, hreduced'.states.terminal?_eq, established?,
            established?, hsame.states]
        rw [certify_of_reduceStream blake3 preStates snapshotSource hok,
          certify_of_reduceStream blake3 preStates' snapshotSource hok', certifyBucket_eq,
          certifyBucket_eq, hbuild]
        simp only [hslots]
      refine ⟨by simp [hok, hok'], fun _ => ⟨hcertify, ?_⟩⟩
      rw [commit, commit, hcertify]
    · exact absurd (hsame.continuous_iff.mp hreduced.continuous) hcont'
  · rcases reduceStream_cases hsingle' with ⟨bucket', -, hreduced'⟩ | ⟨e', he', -⟩
    · exact absurd (hsame.continuous_iff.mpr hreduced'.continuous) hcont
    · exact ⟨iff_of_true ⟨e, he⟩ ⟨e', he'⟩, by simp [he]⟩

/-- A payment, a nonce update and a creation. -/
def straight : List CanonicalSemanticEvent :=
  plainEvents (bracketed [
    .balanceChanged ⟨Bytes.last 19 1, Bytes.last 31 9, Bytes.last 31 4⟩,
    .contractCreated ⟨Bytes.last 19 2, Bytes.last 19 1⟩,
    .nonceUpdated ⟨Bytes.last 19 2, 0, 1⟩])

/-- An event of another tracer. -/
def otherTracer (p : CsePayload) : CanonicalSemanticEvent :=
  let e := plainEvent p
  { e with context := { e.context with normative := ⟨7⟩, trace := ⟨3, 1⟩ } }

/-- The same transitions in another order, with a log. -/
def shuffled : List CanonicalSemanticEvent :=
  otherTracer .beginTransaction :: ([
    .nonceUpdated ⟨Bytes.last 19 2, 0, 1⟩,
    .logEmitted ⟨Bytes.last 19 2, [], [1, 2, 3]⟩,
    .balanceChanged ⟨Bytes.last 19 1, Bytes.last 31 9, Bytes.last 31 4⟩,
    .contractCreated ⟨Bytes.last 19 2, Bytes.last 19 3⟩].map otherTracer ++
      [otherTracer .endTransaction])

theorem shuffled_commit :
    ((∃ e, reduceStream straight = .error e) ↔ ∃ e, reduceStream shuffled = .error e) ∧
      ((∃ reduced, reduceStream straight = .ok reduced) →
        certify (fun _ => Bytes.zero 32) ∅ (snapshotsOf emptyAccounts) straight =
            certify (fun _ => Bytes.zero 32) ∅ (snapshotsOf emptyAccounts) shuffled ∧
          commit (fun _ => Bytes.zero 32) ∅ (snapshotsOf emptyAccounts) straight =
            commit (fun _ => Bytes.zero 32) ∅ (snapshotsOf emptyAccounts) shuffled) := by
  have hsingle : SingleTransaction shuffled := by
    refine ⟨_, _, _, rfl, rfl, rfl, ?_⟩
    decide
  have hsame : SameTransitions (payloads straight) (payloads shuffled) := by
    refine ⟨fun k => by cases k <;> rfl, fun address => ?_, rfl⟩
    by_cases haddress : Bytes.last 19 2 = address
    · subst haddress
      decide
    · simp [straight, shuffled, payloads, plainEvents, plainEvent, otherTracer, bracketed,
        lifecyclesAt, lifecycle?, haddress]
  refine commit_congr _ ∅ ∅ _ (singleTransaction_plainEvents (by decide)) hsingle hsame
    fun address => ?_
  have hle : (lifecyclesAt address (payloads straight)).length ≤ (payloads straight).length :=
    List.length_filterMap_le _ _
  exact lt_of_le_of_lt hle (by decide)

end KaySentinel.Pipeline
