import KaySentinel.Pipeline.Faithfulness
import KaySentinel.Pipeline.Independence

/-!
# Streams with one post-state

Nothing in the pipeline drops a write that restores the value it found: an account that was
touched has a certificate, and a slot that was written is a leaf.
`certs_eq_of_touchesSame` says that, beyond the post-state, this is all that the certificates
show.
-/

namespace KaySentinel.Pipeline

open Cse Builder

/-- The payloads touch the same accounts through state keys and write the same slots. -/
structure TouchesSame (ps ps' : List CsePayload) : Prop where
  accounts : ∀ address, Written address ps ↔ Written address ps'
  slots : ∀ address slot,
    historyAt (.storage address slot) ps = [] ↔ historyAt (.storage address slot) ps' = []

/-- A key that is written holds what the payloads leave there. -/
lemma LeadsTo.established?_eq {pre post : Journal.Store CanonicalKey.Value}
    {ps : List CsePayload} (h : LeadsTo pre ps post) {k : CanonicalKey}
    (hk : k.isPersistent = true) :
    established? ps k = if historyAt k ps = [] then none else some (post k) := by
  have hpost := Journal.eq_terminal_of_chain (h.chain hk)
  split_ifs with hnil
  · exact established?_eq_none_iff.mpr hnil
  · cases hx : established? ps k with
    | none => exact absurd (established?_eq_none_iff.mp hx) hnil
    | some x =>
      rw [Journal.terminal, ← established?, hx] at hpost
      rw [hpost]
      rfl

section

variable {blake3 : Blake3} {preStates preStates' : OrdMap.Map Address Bool}
  {snapshotSource : AccountSnapshotSource} {events events' : List CanonicalSemanticEvent}
  {pre post : Journal.Store CanonicalKey.Value}
  {certs certs' : OrdMap.Map Address CanonicalAccountCertificate}

/-- Streams that leave the same values, touch the same accounts and write the same slots have
the same certificates. -/
theorem certs_eq_of_touchesSame (hsingle : SingleTransaction events)
    (hsingle' : SingleTransaction events') (hleads : LeadsTo pre (payloads events) post)
    (hleads' : LeadsTo pre (payloads events') post)
    (hlife : ∀ address, lifecyclesAt address (payloads events) = [])
    (hlife' : ∀ address, lifecyclesAt address (payloads events') = [])
    (hsource : Recovers snapshotSource pre)
    (hok : (certify blake3 preStates snapshotSource events).result = some (.ok certs))
    (hok' : (certify blake3 preStates' snapshotSource events').result = some (.ok certs'))
    (hsame : TouchesSame (payloads events) (payloads events')) : certs = certs' := by
  obtain ⟨bucket, hreduced, hspec, -⟩ := certify_spec blake3 preStates snapshotSource hsingle hok
  obtain ⟨bucket', hreduced', hspec', -⟩ :=
    certify_spec blake3 preStates' snapshotSource hsingle' hok'
  have hgeneration := resolveGenerationForAddress_processBucket hreduced hreduced'
    (fun address => by rw [hlife, hlife']) (fun address => by rw [hlife]; decide)
    preStates preStates'
  have hslots : ∀ address,
      slotsOf bucket.stateTable address = slotsOf bucket'.stateTable address := by
    refine fun address => Std.ExtTreeMap.ext_getElem? fun slot => ?_
    rw [getElem?_slotsOf, getElem?_slotsOf,
      hreduced.states.terminal?_eq, hreduced'.states.terminal?_eq, hleads.established?_eq rfl,
      hleads'.established?_eq rfl]
    simp only [hsame.slots]
  refine Std.ExtTreeMap.ext_getElem? fun address => ?_
  rcases hspec address with ⟨hnone, hnot⟩ | ⟨c, hsome, hwritten, hcert⟩
  · rcases hspec' address with ⟨hnone', -⟩ | ⟨c', -, hwritten', -⟩
    · rw [hnone, hnone']
    · exact absurd ((hsame.accounts address).mpr hwritten') hnot
  · rcases hspec' address with ⟨-, hnot'⟩ | ⟨c', hsome', -, hcert'⟩
    · exact absurd ((hsame.accounts address).mp hwritten) hnot'
    · have hc : c = c' := by
        refine certificate_ext (hcert.address_eq.trans hcert'.address_eq.symm) ?_
          (fun k hk hka => ?_) ?_
        · have hresolve := hcert.generation
          rw [resolveOrElse, hgeneration address, ← resolveOrElse] at hresolve
          exact Except.ok.inj (hresolve.symm.trans hcert'.generation)
        · have haddress := hka.trans hcert.address_eq
          rw [hcert.field k hk haddress, hcert'.field k hk haddress,
            hleads.effectiveAfter? hsource hk, hleads'.effectiveAfter? hsource hk]
        · rw [hcert.storageRoot, hcert'.storageRoot, hslots]
      rw [hsome, hsome', hc]

/-- **Abstraction.**  Take two streams that start from one pre-state, that of the snapshot
source, and leave one post-state, without lifecycle events.  Their certificates are equal if
they touch the same accounts and write the same slots; without collisions, only then. -/
theorem certs_eq_iff (blake3 : Blake3) (preStates preStates' : OrdMap.Map Address Bool)
    (hsingle : SingleTransaction events) (hsingle' : SingleTransaction events')
    (hleads : LeadsTo pre (payloads events) post) (hleads' : LeadsTo pre (payloads events') post)
    (hlife : ∀ address, lifecyclesAt address (payloads events) = [])
    (hlife' : ∀ address, lifecyclesAt address (payloads events') = [])
    (hsource : Recovers snapshotSource pre)
    (hok : (certify blake3 preStates snapshotSource events).result = some (.ok certs))
    (hok' : (certify blake3 preStates' snapshotSource events').result = some (.ok certs')) :
    (TouchesSame (payloads events) (payloads events') → certs = certs') ∧
      (CollisionFree blake3 ((certify blake3 preStates snapshotSource events).log ++
          (certify blake3 preStates' snapshotSource events').log) →
        certs = certs' → TouchesSame (payloads events) (payloads events')) := by
  refine ⟨certs_eq_of_touchesSame hsingle hsingle' hleads hleads' hlife hlife' hsource hok hok',
    ?_⟩
  rintro hfree rfl
  have heffect := sameEffect_of_certify_eq hsingle hsingle' hok hok' hfree
    (fun x hx => List.mem_append_left _ hx) (fun x hx => List.mem_append_right _ hx)
  refine ⟨heffect.written, fun address slot => ?_⟩
  rw [← established?_eq_none_iff, ← established?_eq_none_iff, heffect.slot]

end

lemma touchesSame_detour : TouchesSame (payloads directWrite) (payloads detour) where
  accounts address := by
    simp [Written, writesOf, Journal.writes, directWrite, detour, payloads_plainEvents, bracketed,
      transition?]
  slots address slot := by
    simp only [historyAt, ← not_iff_not (a := _ = []), Journal.history_ne_nil_iff]
    simp [writesOf, Journal.writes, directWrite, detour, payloads_plainEvents, bracketed,
      transition?]

/-- The slot goes from 0 to 2 in one step or in two. -/
theorem detour_certs_eq :
    ∃ certs certs',
      (certify certificateBlake3 ∅ (snapshotsOf emptyAccounts) directWrite).result =
          some (.ok certs) ∧
        (certify certificateBlake3 ∅ (snapshotsOf emptyAccounts) detour).result =
          some (.ok certs') ∧
        certs = certs' ∧ TouchesSame (payloads directWrite) (payloads detour) := by
  let key : CanonicalKey := .storage (Bytes.last 19 1) (Bytes.last 31 1)
  obtain ⟨certs, hok⟩ : ∃ certs, (certify certificateBlake3 ∅ (snapshotsOf emptyAccounts)
      directWrite).result = some (.ok certs) := ⟨_, rfl⟩
  obtain ⟨certs', hok'⟩ : ∃ certs, (certify certificateBlake3 ∅ (snapshotsOf emptyAccounts)
      detour).result = some (.ok certs) := ⟨_, rfl⟩
  have hleads : LeadsTo emptyAccounts (payloads directWrite)
      (Function.update emptyAccounts key (Bytes.last 31 2)) := rfl
  have hleads' : LeadsTo emptyAccounts (payloads detour) (Function.update
      (Function.update emptyAccounts key (Bytes.last 31 1)) key (Bytes.last 31 2)) := rfl
  rw [Function.update_idem] at hleads'
  obtain ⟨heq, hsame⟩ := certs_eq_iff certificateBlake3 ∅ ∅
    (singleTransaction_plainEvents (by decide)) (singleTransaction_plainEvents (by decide))
    hleads hleads' (fun _ => rfl) (fun _ => rfl) (recovers_snapshotsOf emptyAccounts) hok hok'
  have hcerts := heq touchesSame_detour
  exact ⟨certs, certs', hok, hok', hcerts, hsame (by decide +kernel) hcerts⟩

/-- A stream without events. -/
def idle : List CanonicalSemanticEvent := plainEvents (bracketed [])

/-- A balance goes from 0 to 1 and back. -/
def roundTrip : List CanonicalSemanticEvent :=
  plainEvents (bracketed [
    .balanceChanged ⟨Bytes.last 19 1, Bytes.zero 32, Bytes.last 31 1⟩,
    .balanceChanged ⟨Bytes.last 19 1, Bytes.last 31 1, Bytes.zero 32⟩])

/-- The account of the round trip has a certificate. -/
theorem roundTrip_certified :
    SingleTransaction idle ∧ SingleTransaction roundTrip ∧
      LeadsTo emptyAccounts (payloads idle) emptyAccounts ∧
      LeadsTo emptyAccounts (payloads roundTrip) emptyAccounts ∧
      (∀ address, lifecyclesAt address (payloads idle) = []) ∧
      (∀ address, lifecyclesAt address (payloads roundTrip) = []) ∧
      Recovers (snapshotsOf emptyAccounts) emptyAccounts ∧
      ∃ certs certs',
        (certify (fun _ => Bytes.zero 32) ∅ (snapshotsOf emptyAccounts) idle).result =
            some (.ok certs) ∧
          (certify (fun _ => Bytes.zero 32) ∅ (snapshotsOf emptyAccounts) roundTrip).result =
            some (.ok certs') ∧
          certs ≠ certs' := by
  let key : CanonicalKey := .balance (Bytes.last 19 1)
  have hleads : LeadsTo emptyAccounts (payloads roundTrip) (Function.update
      (Function.update emptyAccounts key (Bytes.last 31 1)) key (emptyAccounts key)) := rfl
  rw [Function.update_idem, Function.update_eq_self] at hleads
  refine ⟨singleTransaction_plainEvents (by decide), singleTransaction_plainEvents (by decide),
    rfl, hleads, fun _ => rfl, fun _ => rfl, recovers_snapshotsOf emptyAccounts,
    _, _, rfl, rfl, fun heq => ?_⟩
  have hlookup := congrArg (fun certs : OrdMap.Map Address CanonicalAccountCertificate =>
    certs[(Bytes.last 19 1 : Address)]?.isSome) heq
  exact absurd hlookup (by decide)

end KaySentinel.Pipeline
