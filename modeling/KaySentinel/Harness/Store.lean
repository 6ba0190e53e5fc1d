import KaySentinel.Lib.CleanPath
import KaySentinel.Lib.LastWrite
import KaySentinel.Pipeline.Recording
import KaySentinel.Validation.Gate1

/-!
# The fixture store

`ProcessAndSerialize` lets a stream through Gate 1 and writes a fixture of it below the directory of
its network, fork and client.  Creating the directory and writing the file may fail, and a write
that fails may leave something behind.

The files are told apart by their clean paths, so links between directories are left out.  As long
as names are plain, two calls meet in one file only if fork, client with its version and scenario
agree: `fullPath_inj`.  What the store holds after any calls: `store_run`.
-/

namespace KaySentinel.Harness

open Emes Validation Bridge

/-! ## What the harness is given -/

structure ConformanceHarness where
  baseFixtureDir : String
  networkName : String

structure EventsProducer where
  events : List Event
  errorLog : List InternalTracerError

/-- The whole interface of which the tracer uses one method. -/
structure EnvironmentDescriptor extends KaySentinel.EnvironmentDescriptor where
  chainId : ℤ
  forkName : String
  clientName : String
  clientVersion : String

/-- The arguments of `ProcessAndSerialize`. -/
structure Scenario where
  scenarioId : String
  blockNum : UInt64
  txHash : Word
  producer : EventsProducer
  env : EnvironmentDescriptor

/-- How the file system answers.  A failed write may have touched the file. -/
inductive Answer where
  | mkdirAllFails (err : String)
  | writeFileFails (err : String) (touched : Bool)
  | succeeds

/-- What is at a path: a document, or what a failed write has left. -/
inductive File where
  | document (document : Json)
  | torn

abbrev Files := List Char → Option File

/-! ## `ProcessAndSerialize` -/

/-- `Gate1Error.Error` -/
def gate1ErrorText (e : Gate1Error) : String :=
  "gate1: event[" ++ toString e.index ++ "]: " ++ e.rule ++ ": " ++ e.msg

namespace ConformanceHarness

variable (h : ConformanceHarness)

def envelope (s : Scenario) : FixtureEnvelope where
  metadata :=
    { profile := "EMES-V1"
      chainId := Int64.ofInt s.env.chainId
      network := h.networkName
      fork := s.env.forkName
      client := s.env.clientName
      clientVersion := s.env.clientVersion
      blockNumber := s.blockNum
      transactionHash := s.txHash
      generatorVersion := "0.1.0" }
  events := s.producer.events
  errors := s.producer.errorLog

/-- `fmt.Sprintf("%s-%s", env.ClientName(), env.ClientVersion())` -/
def clientDir (env : EnvironmentDescriptor) : List Char :=
  env.clientName.toList ++ '-' :: env.clientVersion.toList

def targetDir (env : EnvironmentDescriptor) : List Char :=
  CleanPath.join [h.baseFixtureDir.toList, h.networkName.toList, env.forkName.toList,
    clientDir env]

/-- `scenarioID+".json"` -/
def fileName (s : Scenario) : List Char := s.scenarioId.toList ++ ".json".toList

def fullPath (s : Scenario) : List Char := CleanPath.join [h.targetDir s.env, fileName s]

/-- The result, and the files after the call. -/
def processAndSerialize (files : Files) (s : Scenario) (answer : Answer) :
    Except String Unit × Files :=
  match verifyGate1Invariants s.producer.events with
  | .error err =>
      (.error ("gate 1 structural verification failed for " ++ s.scenarioId ++ ": " ++
        gate1ErrorText err), files)
  | .ok _ =>
      match answer with
      | .mkdirAllFails err => (.error ("failed to create fixture directory: " ++ err), files)
      | .writeFileFails err touched =>
          (.error ("failed to write fixture: " ++ err),
            if touched then Function.update files (h.fullPath s) (some .torn) else files)
      | .succeeds =>
          (.ok (), Function.update files (h.fullPath s)
            (some (.document (h.envelope s).marshalJson)))

/-- A call, with the answers of the file system. -/
abbrev Call := Scenario × Answer

/-- The results of some calls one after another, and the files after them. -/
def run : List Call → Files → List (Except String Unit) × Files
  | [], files => ([], files)
  | c :: calls, files =>
      let once := h.processAndSerialize files c.1 c.2
      let rest := run calls once.2
      (once.1 :: rest.1, rest.2)

/-! ## One call -/

/-- What a call writes, and where. -/
def writes (c : Call) : Option (List Char × File) :=
  match verifyGate1Invariants c.1.producer.events, c.2 with
  | .ok _, .succeeds => some (h.fullPath c.1, .document (h.envelope c.1).marshalJson)
  | .ok _, .writeFileFails _ true => some (h.fullPath c.1, .torn)
  | _, _ => none

/-- The files after a call. -/
lemma files_processAndSerialize (files : Files) (c : Call) :
    (h.processAndSerialize files c.1 c.2).2 = LastWrite.step h.writes files c := by
  obtain ⟨s, answer⟩ := c
  rw [processAndSerialize.eq_def, LastWrite.step, writes]
  cases verifyGate1Invariants s.producer.events with
  | error err => rfl
  | ok _ =>
    cases answer with
    | mkdirAllFails err => rfl
    | writeFileFails err touched => cases touched <;> rfl
    | succeeds => rfl

/-- A call succeeds if Gate 1 accepts the stream and both answers of the file system are good. -/
lemma processAndSerialize_eq_ok_iff {files : Files} {c : Call} :
    (h.processAndSerialize files c.1 c.2).1 = .ok () ↔
      verifyGate1Invariants c.1.producer.events = .ok () ∧ c.2 = .succeeds := by
  obtain ⟨s, answer⟩ := c
  rw [processAndSerialize.eq_def]
  cases hgate : verifyGate1Invariants s.producer.events with
  | error err => simp
  | ok _ => cases answer <;> simp

/-- The call opens its file for writing. -/
def Touches (c : Call) : Prop :=
  verifyGate1Invariants c.1.producer.events = .ok () ∧
    (c.2 = .succeeds ∨ ∃ err, c.2 = .writeFileFails err true)

lemma writes_eq_none_iff {c : Call} : h.writes c = none ↔ ¬ Touches c := by
  obtain ⟨s, answer⟩ := c
  rw [writes, Touches]
  cases hgate : verifyGate1Invariants s.producer.events with
  | error err => simp
  | ok _ =>
    cases answer with
    | mkdirAllFails err => simp
    | writeFileFails err touched => cases touched <;> simp
    | succeeds => simp

/-- A document is written by a successful call. -/
lemma writes_eq_document_iff {c : Call} {path : List Char} {document : Json} :
    h.writes c = some (path, .document document) ↔
      (verifyGate1Invariants c.1.producer.events = .ok () ∧ c.2 = .succeeds) ∧
        h.fullPath c.1 = path ∧ (h.envelope c.1).marshalJson = document := by
  obtain ⟨s, answer⟩ := c
  rw [writes]
  cases hgate : verifyGate1Invariants s.producer.events with
  | error err => simp
  | ok _ =>
    cases answer with
    | mkdirAllFails err => simp
    | writeFileFails err touched => cases touched <;> simp
    | succeeds => simp

/-- A call writes nowhere but at its path. -/
lemma fullPath_of_writes {c : Call} {path : List Char} {file : File}
    (hw : h.writes c = some (path, file)) : h.fullPath c.1 = path := by
  cases file with
  | document document => exact (h.writes_eq_document_iff.mp hw).2.1
  | torn =>
    obtain ⟨s, answer⟩ := c
    rw [writes] at hw
    split at hw
    · simp at hw
    · simpa using hw
    · simp at hw

/-! ## Names and paths -/

/-- What tells the files of a harness apart. -/
structure Names where
  fork : List Char
  client : List Char
  scenario : List Char
deriving DecidableEq

end ConformanceHarness

open ConformanceHarness

def Scenario.names (s : Scenario) : Names where
  fork := s.env.forkName.toList
  client := clientDir s.env
  scenario := s.scenarioId.toList

/-- The names stay inside the directory of the network. -/
structure Scenario.Plain (s : Scenario) : Prop where
  fork : CleanPath.Plain s.names.fork
  client : '/' ∉ s.names.client
  scenario : '/' ∉ s.names.scenario

lemma plain_clientDir {env : EnvironmentDescriptor} (hslash : '/' ∉ clientDir env) :
    CleanPath.Plain (clientDir env) := by
  have hdash : '-' ∈ clientDir env := List.mem_append_right _ List.mem_cons_self
  refine ⟨?_, ?_, ?_, hslash⟩
  · intro heq
    simp [heq] at hdash
  · intro heq
    simp [heq] at hdash
  · intro heq
    simp [heq, CleanPath.dotDot] at hdash

lemma plain_fileName {s : Scenario} (hslash : '/' ∉ s.scenarioId.toList) :
    CleanPath.Plain (fileName s) := by
  have hlast : 'n' ∈ fileName s := List.mem_append_right _ (by decide)
  refine ⟨?_, ?_, ?_, ?_⟩
  · intro heq
    simp [heq] at hlast
  · intro heq
    simp [heq] at hlast
  · intro heq
    simp [heq, CleanPath.dotDot] at hlast
  · intro hmem
    rcases List.mem_append.mp hmem with hmem | hmem
    · exact hslash hmem
    · exact absurd hmem (by decide)

namespace ConformanceHarness

variable (h : ConformanceHarness)

/-- Two calls meet in one file exactly if the names agree. -/
lemma fullPath_inj {s s' : Scenario} (hs : s.Plain) (hs' : s'.Plain) :
    h.fullPath s = h.fullPath s' ↔ s.names = s'.names := by
  have hnames : ∀ {s : Scenario}, s.Plain →
      ∀ name ∈ [s.env.forkName.toList, clientDir s.env], CleanPath.Plain name := by
    intro s hs
    simpa using ⟨hs.fork, plain_clientDir hs.client⟩
  have hpath := CleanPath.join_plain_inj [h.baseFixtureDir.toList, h.networkName.toList]
    (hnames hs) (List.cons_ne_nil _ _) (hnames hs') (List.cons_ne_nil _ _)
    (plain_fileName hs.scenario) (plain_fileName hs'.scenario)
  refine hpath.trans ?_
  rw [fileName, fileName, List.append_left_inj, Scenario.names, Scenario.names, Names.mk.injEq,
    List.cons.injEq, List.cons.injEq, and_iff_left rfl, and_assoc]

/-! ## Runs -/

/-- What a call returns does not depend on the files. -/
def result (c : Call) : Except String Unit := (h.processAndSerialize (fun _ => none) c.1 c.2).1

lemma processAndSerialize_fst (files : Files) (c : Call) :
    (h.processAndSerialize files c.1 c.2).1 = h.result c := by
  obtain ⟨s, answer⟩ := c
  rw [result, processAndSerialize.eq_def, processAndSerialize.eq_def]
  cases verifyGate1Invariants s.producer.events with
  | error err => rfl
  | ok _ => cases answer <;> rfl

lemma run_eq (calls : List Call) (files : Files) :
    h.run calls files = (calls.map h.result, calls.foldl (LastWrite.step h.writes) files) := by
  induction calls generalizing files with
  | nil => rfl
  | cons c calls ih =>
    rw [run, ih, processAndSerialize_fst, files_processAndSerialize]
    rfl

/-- A run leaves a file as the last call left it that touched it, or as it was. -/
lemma run_apply (calls : List Call) (files : Files) (path : List Char) :
    (h.run calls files).2 path = (LastWrite.last h.writes path calls).or (files path) := by
  rw [run_eq]
  exact LastWrite.foldl_step calls files path

lemma result_eq_ok_iff {c : Call} : h.result c = .ok () ↔
    verifyGate1Invariants c.1.producer.events = .ok () ∧ c.2 = .succeeds :=
  h.processAndSerialize_eq_ok_iff

/-- No call of the list touches the file. -/
lemma last_eq_none {calls : List Call} {path : List Char}
    (hcalls : ∀ c ∈ calls, h.fullPath c.1 = path → ¬ Touches c) :
    LastWrite.last h.writes path calls = none := by
  refine LastWrite.last_eq_none_iff.mpr fun c hc file hw => ?_
  rw [h.writes_eq_none_iff.mpr (hcalls c hc (h.fullPath_of_writes hw))] at hw
  exact absurd hw (Option.some_ne_none _).symm

/-- A successful call is still to be found if no later call for the same names touches a file. -/
lemma stored_of_last {calls pre post : List Call} {c : Call} (hplain : ∀ c ∈ calls, c.1.Plain)
    (heq : calls = pre ++ c :: post) (hok : h.result c = .ok ())
    (hlater : ∀ c' ∈ post, c'.1.names = c.1.names → ¬ Touches c') (files : Files) :
    (h.run calls files).2 (h.fullPath c.1) = some (.document (h.envelope c.1).marshalJson) := by
  have hpost : LastWrite.last h.writes (h.fullPath c.1) post = none := by
    refine h.last_eq_none fun c' hc' hpath => hlater c' hc' ?_
    have hc : c ∈ calls := by rw [heq]; simp
    have hc'calls : c' ∈ calls := by rw [heq]; simp [hc']
    exact (h.fullPath_inj (hplain c' hc'calls) (hplain c hc)).mp hpath
  have hwrites := h.writes_eq_document_iff.mpr ⟨h.result_eq_ok_iff.mp hok, rfl, rfl⟩
  rw [run_apply, LastWrite.last_eq_some_iff.mpr ⟨pre, c, post, heq, hwrites, hpost⟩,
    Option.some_or]

lemma isFixtureOf_envelope (s : Scenario) :
    Pipeline.IsFixtureOf (h.envelope s).marshalJson s.producer.events := ⟨h.envelope s, rfl, rfl⟩

/-- **What the store holds** after any calls.  The stream of a call that succeeded passes Gate 1,
and is read back from its file unless a later call for the same fork, client and scenario got as far
as writing.  A document is in the store only if it was there before or is the fixture of the last
call that touched its file.  Nothing else has changed, and two calls meet in one file exactly if
their names agree. -/
theorem store_run {calls : List Call} (hplain : ∀ c ∈ calls, c.1.Plain) (files : Files) :
    (∀ pre c post, calls = pre ++ c :: post → (h.run calls files).1[pre.length]? = some (.ok ()) →
      verifyGate1Invariants c.1.producer.events = .ok () ∧
        ((∀ c' ∈ post, c'.1.names = c.1.names → ¬ Touches c') →
          ∃ document, (h.run calls files).2 (h.fullPath c.1) = some (.document document) ∧
            Pipeline.IsFixtureOf document c.1.producer.events ∧
            parseEventStream document = some (.ok (goEvents c.1.producer.events)))) ∧
      (∀ path document, (h.run calls files).2 path = some (.document document) →
        files path = some (.document document) ∨
          ∃ pre c post, calls = pre ++ c :: post ∧
            (h.run calls files).1[pre.length]? = some (.ok ()) ∧ h.fullPath c.1 = path ∧
            (h.envelope c.1).marshalJson = document ∧
            ∀ c' ∈ post, c'.1.names = c.1.names → ¬ Touches c') ∧
      (∀ path, (∀ c ∈ calls, h.fullPath c.1 = path → ¬ Touches c) →
        (h.run calls files).2 path = files path) ∧
      ∀ c ∈ calls, ∀ c' ∈ calls, h.fullPath c.1 = h.fullPath c'.1 ↔ c.1.names = c'.1.names := by
  have hresult : ∀ {pre : List Call} {c : Call} {post : List Call}, calls = pre ++ c :: post →
      ((h.run calls files).1[pre.length]? = some (.ok ()) ↔ h.result c = .ok ()) := by
    rintro pre c post rfl
    rw [run_eq, List.map_append, List.map_cons, ← List.length_map h.result,
      List.getElem?_append_right le_rfl, Nat.sub_self, List.getElem?_cons_zero, Option.some_inj]
  refine ⟨?_, ?_, ?_, fun c hc c' hc' => h.fullPath_inj (hplain c hc) (hplain c' hc')⟩
  · intro pre c post heq hok
    have hok' := (hresult heq).mp hok
    refine ⟨(h.result_eq_ok_iff.mp hok').1, fun hlater => ⟨_, h.stored_of_last hplain heq hok'
      hlater files, h.isFixtureOf_envelope c.1, ?_⟩⟩
    exact Pipeline.parseEventStream_fixture (h.isFixtureOf_envelope c.1)
  · intro path document hstored
    rw [run_apply] at hstored
    rcases Option.or_eq_some_iff.mp hstored with hlast | ⟨-, hbefore⟩
    · obtain ⟨pre, c, post, heq, hwrites, hpost⟩ := LastWrite.last_eq_some_iff.mp hlast
      obtain ⟨hc, hpath, hdocument⟩ := h.writes_eq_document_iff.mp hwrites
      refine .inr ⟨pre, c, post, heq, (hresult heq).mpr (h.result_eq_ok_iff.mpr hc), hpath,
        hdocument, ?_⟩
      intro c' hc' hnames htouches
      have hcmem : c ∈ calls := by rw [heq]; simp
      have hc'mem : c' ∈ calls := by rw [heq]; simp [hc']
      have hpath' := (h.fullPath_inj (hplain c' hc'mem) (hplain c hcmem)).mpr hnames
      obtain ⟨⟨path', file⟩, hwrites'⟩ := Option.ne_none_iff_exists'.mp
        (mt h.writes_eq_none_iff.mp (not_not.mpr htouches))
      obtain rfl : path' = path := by
        rw [← h.fullPath_of_writes hwrites', hpath', hpath]
      exact LastWrite.last_eq_none_iff.mp hpost c' hc' file hwrites'
    · exact .inl hbefore
  · intro path hcalls
    rw [run_apply, h.last_eq_none hcalls, Option.none_or]

/-- A block without transactions, for a scenario of this name. -/
def emptyScenario (scenarioId : String) : Scenario where
  scenarioId := scenarioId
  blockNum := 1
  txHash := Bytes.zero 32
  producer :=
    { events :=
        [⟨0, .blockStart { emesVersion := "EMES-V1", number := 1, timestamp := 10 }⟩,
          ⟨1, .blockCommit { stateRoot := Bytes.zero 32 }⟩]
      errorLog := [] }
  env :=
    { isPrecompile := fun _ => false, chainId := 1, forkName := "cancun", clientName := "geth",
      clientVersion := "1.14" }

/-- Of three calls the second spoils the file of the first. -/
def emptyCalls : List Call :=
  [(emptyScenario "a", .succeeds), (emptyScenario "a", .writeFileFails "disk full" true),
    (emptyScenario "b", .succeeds)]

lemma emptyScenario_names (scenarioId : String) : (emptyScenario scenarioId).names =
    ⟨"cancun".toList, "geth".toList ++ '-' :: "1.14".toList, scenarioId.toList⟩ := by
  simp only [Scenario.names, emptyScenario, clientDir]

lemma plain_emptyScenario {scenarioId : String} (hslash : '/' ∉ scenarioId.toList) :
    (emptyScenario scenarioId).Plain := by
  constructor
  · rw [emptyScenario_names]
    show CleanPath.Plain "cancun".toList
    exact ⟨by decide, by decide, by decide, by decide⟩
  · rw [emptyScenario_names]
    show '/' ∉ "geth".toList ++ '-' :: "1.14".toList
    decide
  · rw [emptyScenario_names]
    exact hslash

def sepolia : ConformanceHarness := ⟨"fixtures", "sepolia"⟩

/-- The store after `emptyCalls`. -/
def emptyStore : Files := (sepolia.run emptyCalls fun _ => none).2

/-- The fixture of the third call is in the store, the one of the first is not. -/
theorem emptyCalls_stored :
    emptyStore (sepolia.fullPath (emptyScenario "a")) = some .torn ∧
      ∃ document, emptyStore (sepolia.fullPath (emptyScenario "b")) = some (.document document) ∧
        parseEventStream document =
          some (.ok (goEvents (emptyScenario "b").producer.events)) := by
  have hplain : ∀ c ∈ emptyCalls, c.1.Plain := by
    simp only [emptyCalls, List.forall_mem_cons]
    exact ⟨plain_emptyScenario (by decide), plain_emptyScenario (by decide),
      plain_emptyScenario (by decide), by simp⟩
  refine ⟨?_, ?_⟩
  · have hwrites : sepolia.writes (emptyScenario "a", .writeFileFails "disk full" true) =
        some (sepolia.fullPath (emptyScenario "a"), .torn) := rfl
    have hpost : LastWrite.last sepolia.writes (sepolia.fullPath (emptyScenario "a"))
        [(emptyScenario "b", .succeeds)] = none := by
      refine sepolia.last_eq_none fun c hc hpath => ?_
      rw [List.mem_singleton.mp hc, sepolia.fullPath_inj (plain_emptyScenario (by decide))
        (plain_emptyScenario (by decide)), emptyScenario_names, emptyScenario_names] at hpath
      exact absurd hpath (by decide)
    have hlast : LastWrite.last sepolia.writes (sepolia.fullPath (emptyScenario "a")) emptyCalls =
        some .torn :=
      LastWrite.last_eq_some_iff.mpr ⟨emptyCalls.take 1, _, _, rfl, hwrites, hpost⟩
    rw [emptyStore, run_apply, hlast, Option.some_or]
  · obtain ⟨-, hstored⟩ :=
      (sepolia.store_run hplain fun _ => none).1 (emptyCalls.take 2) _ [] rfl rfl
    obtain ⟨document, hdocument, -, hread⟩ := hstored (by simp)
    exact ⟨document, hdocument, hread⟩

end ConformanceHarness

end KaySentinel.Harness
