import KaySentinel.Harness.Session
import KaySentinel.Pipeline.Certification

/-!
# The archive of a ledger

The blocks of a ledger are traced, each by a tracer of its own, and their fixtures stored.  What the
store holds is enough to get every ledger of the run back, and to certify every transaction, however
many other calls and failed attempts there were (`archive_reconstructed`).
-/

namespace KaySentinel.Harness

open Emes Validation Bridge Pipeline NestedLog ConformanceHarness

/-- The block is traced for the scenario by a tracer of its own, and a call stores the scenario:
it succeeds, and later calls for its names do not get as far as writing. -/
structure Archives (h : ConformanceHarness) (calls : List Call) (b : BlockCalls) (s : Scenario) :
    Prop where
  small : ∀ tx ∈ b.txs, tx.Small
  traced : ∃ env : Option KaySentinel.EnvironmentDescriptor,
    (Tracer.new env).streams [b] = .ok [s.producer.events]
  stored : ∃ pre answer post, calls = pre ++ (s, answer) :: post ∧ h.result (s, answer) = .ok () ∧
    ∀ c ∈ post, c.1.names = s.names → ¬ Touches c

variable {h : ConformanceHarness} (config : BridgeConfig) {calls : List Call} {b : BlockCalls}
  {s : Scenario} {l l' : Ledger}

lemma Archives.exists_stream (harchives : Archives h calls b s) :
    ∃ env, s.producer.events = stamp 0 (b.events env) := by
  obtain ⟨env, hstreams⟩ := harchives.traced
  obtain ⟨-, -, heq⟩ := (Tracer.new_streams_eq_ok_iff env).mp hstreams
  exact ⟨env, List.singleton_inj.mp heq⟩

/-- The fixture of an archived scenario is in the store. -/
lemma Archives.exists_document (harchives : Archives h calls b s)
    (hplain : ∀ c ∈ calls, c.1.Plain) (files : Files) :
    ∃ document, (h.run calls files).2 (h.fullPath s) = some (.document document) ∧
      IsFixtureOf document s.producer.events := by
  obtain ⟨pre, answer, post, heq, hok, hlater⟩ := harchives.stored
  exact ⟨_, h.stored_of_last hplain heq hok hlater files, h.isFixtureOf_envelope s⟩

/-- A record of each transaction of the block can be restored from the store. -/
lemma Archives.exists_records (harchives : Archives h calls b s)
    (hplain : ∀ c ∈ calls, c.1.Plain) {spans : List (Ledger × Ledger)}
    (hruns : l.RunsTxs b.txs spans l') (files : Files) :
    ∃ document, (h.run calls files).2 (h.fullPath s) = some (.document document) ∧
      ∃ records : List TxRecord, YieldsRecords config document records ∧
        RecordsOf b spans records := by
  obtain ⟨document, hstored, hfixture⟩ := harchives.exists_document hplain files
  obtain ⟨env, hstream⟩ := harchives.exists_stream
  rw [hstream] at hfixture
  obtain ⟨records, hrecords, hyields⟩ :=
    yieldsRecords_block config hruns harchives.small 0 hfixture
  exact ⟨document, hstored, records, hyields, hrecords⟩

variable {blocks : List BlockCalls} {scenarios : List Scenario}
  {spans : List (List (Ledger × Ledger))}

/-- **From the store back to the ledger.**  The blocks of a run of a ledger are archived among some
calls.  Then all fixtures are in the store, the bridge and the builder make of them a record of
every transaction, its certificates say how it left the ledger, and the tables of all transactions
lead from the first ledger through every later one, and back. -/
theorem archive_reconstructed (h : ConformanceHarness) (blake3 : Blake3)
    (preStates : OrdMap.Map Address Bool) (hplain : ∀ c ∈ calls, c.1.Plain)
    (harchives : List.Forall₂ (Archives h calls) blocks scenarios)
    (hruns : l.RunsBlocks blocks spans l') (files : Files) :
    ∃ documents recordss,
      List.Forall₂ (fun s document =>
        (h.run calls files).2 (h.fullPath s) = some (.document document)) scenarios documents ∧
      List.Forall₂ (YieldsRecords config) documents recordss ∧
      List.Forall₂ (fun block records => RecordsOf block.1 block.2 records) (blocks.zip spans)
        recordss ∧
      (∀ r ∈ recordss.flatten, ∃ certs, r.Certified blake3 preStates certs) ∧
      (recordss.flatten.map fun r => patchOf r.bucket).scanl (fun s p => p.forward s) l.store =
        l.store :: spans.flatten.map (·.2.store) ∧
      (recordss.flatten.map fun r => patchOf r.bucket).scanr (fun p s => p.backward s) l'.store =
        l.store :: spans.flatten.map (·.2.store) := by
  have hrestored : List.Forall₂ (fun s block => ∃ document,
      (h.run calls files).2 (h.fullPath s) = some (.document document) ∧
        ∃ records : List TxRecord, YieldsRecords config document records ∧
          RecordsOf block.1 block.2 records) scenarios (blocks.zip spans) := by
    refine Pointwise.symm ((Pointwise.zip hruns.each harchives).imp ?_)
    rintro ⟨b, spans⟩ s ⟨⟨l, l', hblock⟩, harchive⟩
    exact harchive.exists_records config hplain hblock files
  obtain ⟨documents, hstored, hyields⟩ := Pointwise.choose hrestored
  obtain ⟨recordss, hyields, hrecords⟩ := Pointwise.choose hyields
  have hspans : List.Forall₂ (fun spans (records : List TxRecord) =>
      records.map (·.span) = spans ∧ ∀ r ∈ records, r.Faithful) spans recordss := by
    rw [← List.map_snd_zip hruns.each.length_eq.ge, List.forall₂_map_left_iff]
    refine (Pointwise.forall_right (Pointwise.symm hrecords) fun records hmem r hr => ?_).imp
      fun block records h => ⟨h.1.spans, h.2⟩
    obtain ⟨document, -, hdocument⟩ := Pointwise.exists_left hyields hmem
    exact hdocument.2 r hr
  have hleads := leads_blocks hruns hspans
  refine ⟨documents, recordss, hstored, hyields, Pointwise.symm hrecords, ?_, ?_, ?_⟩
  · intro r hr
    obtain ⟨records, hrecords, hr⟩ := List.mem_flatten.mp hr
    obtain ⟨document, -, hdocument⟩ := Pointwise.exists_left hyields hrecords
    obtain ⟨certs, hholds⟩ := (hdocument.2 r hr).holds blake3 preStates
    exact ⟨certs, (hdocument.2 r hr).certified hholds⟩
  · rw [hleads.scanl_forward]
  · rw [hleads.scanr_backward]

/-- The block, traced by a tracer of its own. -/
def blockScenario (scenarioId : String) (b : BlockCalls) : Scenario :=
  { emptyScenario scenarioId with
    producer := { events := stamp 0 (b.events none), errorLog := [] } }

def ledgerScenarios : List Scenario := List.zipWith blockScenario ["first", "second"] ledgerBlocks

/-- Writing the first block fails once. -/
def ledgerCalls : List Call :=
  ledgerScenarios.map (·, .writeFileFails "disk full" true) ++ ledgerScenarios.map (·, .succeeds)

lemma plain_blockScenario {scenarioId : String} (hslash : '/' ∉ scenarioId.toList)
    (b : BlockCalls) : (blockScenario scenarioId b).Plain := by
  obtain ⟨hfork, hclient, hscenario⟩ := plain_emptyScenario hslash
  exact ⟨hfork, hclient, hscenario⟩

lemma ledgerBlocks_archived :
    List.Forall₂ (Archives sepolia ledgerCalls) ledgerBlocks ledgerScenarios := by
  have hconforms : ∀ b ∈ ledgerBlocks, b.Conforms := by
    simp [ledgerBlocks, callingTx, returningTx, BlockCalls.Conforms, TxCalls.Conforms, Forest.roots,
      receiptStatusFailed]
  have hsmall : ∀ b ∈ ledgerBlocks, ∀ tx ∈ b.txs, tx.Small := by
    have hdepths : (0 : Int64).toUInt64.toNat < 2 ^ 32 ∧ (1 : Int64).toUInt64.toNat < 2 ^ 32 := by
      decide
    simpa [ledgerBlocks, callingTx, returningTx, TxCalls.Small, Forest.frames] using hdepths
  have haccepted : ∀ (scenarioId : String), ∀ b ∈ ledgerBlocks, (b.events none).length < 2 ^ 64 →
      sepolia.result (blockScenario scenarioId b, .succeeds) = .ok () := by
    intro scenarioId b hb hroom
    have hverify := @verify_block_iff none b 0 (hconforms b hb)
      (by rwa [UInt64.toNat_zero, zero_add])
    exact sepolia.result_eq_ok_iff.mpr ⟨hverify.mpr rfl, rfl⟩
  have hfirst := List.mem_cons_self (l := ledgerBlocks.tail) (a := ledgerBlocks.head (by decide))
  have hsecond := List.mem_cons_of_mem (ledgerBlocks.head (by decide))
    (List.mem_cons_self (l := []) (a := ledgerBlocks.tail.head (by decide)))
  refine .cons ⟨hsmall _ hfirst, ⟨none, rfl⟩, ?_⟩ (.cons ⟨hsmall _ hsecond, ⟨none, rfl⟩, ?_⟩ .nil)
  · refine ⟨ledgerCalls.take 2, .succeeds, ledgerCalls.drop 3, rfl,
      haccepted "first" _ hfirst (by decide), ?_⟩
    intro c hc hnames
    obtain rfl := List.mem_singleton.mp hc
    have hscenario : "second".toList = "first".toList := congrArg Names.scenario hnames
    exact absurd hscenario (by decide)
  · exact ⟨ledgerCalls.take 3, .succeeds, [], rfl, haccepted "second" _ hsecond (by decide),
      by simp⟩

/-- The ledgers of `ledgerBlocks` can be read back from the store. -/
theorem ledgerCalls_reconstructed :
    ∃ spans l', smallLedger.RunsBlocks ledgerBlocks spans l' ∧ ∃ documents recordss,
      List.Forall₂ (fun s document =>
        (sepolia.run ledgerCalls fun _ => none).2 (sepolia.fullPath s) = some (.document document))
        ledgerScenarios documents ∧
      List.Forall₂ (YieldsRecords ⟨1⟩) documents recordss ∧
      (∀ r ∈ recordss.flatten, ∃ certs, r.Certified (fun _ => Bytes.zero 32) ∅ certs) ∧
      (recordss.flatten.map fun r => patchOf r.bucket).scanl (fun s p => p.forward s)
        smallLedger.store = smallLedger.store :: spans.flatten.map (·.2.store) := by
  obtain ⟨spans, l', hruns⟩ := smallLedger_runs
  have hfirst : '/' ∉ "first".toList := by decide
  have hsecond : '/' ∉ "second".toList := by decide
  have hplain : ∀ c ∈ ledgerCalls, c.1.Plain := by
    simp [ledgerCalls, ledgerScenarios, ledgerBlocks, plain_blockScenario hfirst,
      plain_blockScenario hsecond]
  obtain ⟨documents, recordss, hstored, hyields, -, hcertified, hforward, -⟩ :=
    archive_reconstructed ⟨1⟩ sepolia (fun _ => Bytes.zero 32) ∅ hplain ledgerBlocks_archived hruns
      fun _ => none
  exact ⟨spans, l', hruns, documents, recordss, hstored, hyields, hcertified, hforward⟩

end KaySentinel.Harness
