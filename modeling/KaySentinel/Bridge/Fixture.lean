import KaySentinel.Bridge.Hex
import KaySentinel.Emes.Fixture

/-!
# Reading fixtures

`parseEventStream` reads the events of a fixture.  Its structures know the fields of the Go side by
their names; `parseEventStream_marshalJson` says that both sides mean the same by them.  That the
text of a document stands for the same document on both sides is left to the libraries.
-/

namespace KaySentinel.Bridge

open Json

/-! ## Values -/

/-- `HexHash::deserialize` and `HexAddress::deserialize` -/
def deserializeHex (N : ℕ) (v : Json) : De HexError (Bytes N) := do
  let s ← deserializeString v
  match ← decodeFixedHex N s with
  | .error e => throw (.custom e)
  | .ok b => return b

@[simp] def u64 (name : String) : StructField HexError := ⟨name, UInt64, deserializeU64⟩

@[simp] def bool (name : String) : StructField HexError := ⟨name, Bool, deserializeBool⟩

@[simp] def hexHash (name : String) : StructField HexError := ⟨name, Word, deserializeHex 32⟩

@[simp] def hexAddress (name : String) : StructField HexError := ⟨name, Address, deserializeHex 20⟩

/-! ## The data of events -/

def BlockStartData.schema : Schema HexError := ⟨[u64 "Number"], by decide⟩

def BlockStartData.deserialize (v : Json) : De HexError BlockStartData :=
  (fun (number, ()) => { number }) <$> schema.deserialize v

def TransactionStartData.schema : Schema HexError :=
  ⟨[u64 "TxIndex", hexHash "Hash"], by decide⟩

def TransactionStartData.deserialize (v : Json) : De HexError TransactionStartData :=
  (fun (txIndex, hash, ()) => { txIndex, hash }) <$> schema.deserialize v

def TransactionEndData.schema : Schema HexError :=
  ⟨[u64 "TxIndex", bool "Reverted"], by decide⟩

def TransactionEndData.deserialize (v : Json) : De HexError TransactionEndData :=
  (fun (txIndex, reverted, ()) => { txIndex, reverted }) <$> schema.deserialize v

def FrameEnterData.schema : Schema HexError :=
  ⟨[u64 "FrameID", u64 "ParentFrameID", u64 "Depth"], by decide⟩

def FrameEnterData.deserialize (v : Json) : De HexError FrameEnterData :=
  (fun (frameId, parentFrameId, depth, ()) => { frameId, parentFrameId, depth }) <$>
    schema.deserialize v

def FrameExitData.schema : Schema HexError := ⟨[u64 "FrameID", bool "Reverted"], by decide⟩

def FrameExitData.deserialize (v : Json) : De HexError FrameExitData :=
  (fun (frameId, reverted, ()) => { frameId, reverted }) <$> schema.deserialize v

def BalanceMutationData.schema : Schema HexError :=
  ⟨[u64 "FrameID", hexAddress "Address", hexHash "Before", hexHash "After"], by decide⟩

def BalanceMutationData.deserialize (v : Json) : De HexError BalanceMutationData :=
  (fun (frameId, address, before, after, ()) => { frameId, address, before, after }) <$>
    schema.deserialize v

def NonceMutationData.schema : Schema HexError :=
  ⟨[u64 "FrameID", hexAddress "Address", u64 "Before", u64 "After"], by decide⟩

def NonceMutationData.deserialize (v : Json) : De HexError NonceMutationData :=
  (fun (frameId, address, before, after, ()) => { frameId, address, before, after }) <$>
    schema.deserialize v

def CodeMutationData.schema : Schema HexError :=
  ⟨[u64 "FrameID", hexAddress "Address", hexHash "Before", hexHash "After"], by decide⟩

def CodeMutationData.deserialize (v : Json) : De HexError CodeMutationData :=
  (fun (frameId, address, before, after, ()) => { frameId, address, before, after }) <$>
    schema.deserialize v

def StorageMutationData.schema : Schema HexError :=
  ⟨[u64 "FrameID", hexAddress "Address", hexHash "Slot", hexHash "Before", hexHash "After"],
    by decide⟩

def StorageMutationData.deserialize (v : Json) : De HexError StorageMutationData :=
  (fun (frameId, address, slot, before, after, ()) => { frameId, address, slot, before, after }) <$>
    schema.deserialize v

def AccountCreatedData.schema : Schema HexError :=
  ⟨[u64 "FrameID", hexAddress "Address", hexAddress "Creator"], by decide⟩

def AccountCreatedData.deserialize (v : Json) : De HexError AccountCreatedData :=
  (fun (frameId, address, creator, ()) => { frameId, address, creator }) <$> schema.deserialize v

def SelfDestructData.schema : Schema HexError :=
  ⟨[u64 "FrameID", hexAddress "Address", hexAddress "Beneficiary"], by decide⟩

def SelfDestructData.deserialize (v : Json) : De HexError SelfDestructData :=
  (fun (frameId, address, beneficiary, ()) => { frameId, address, beneficiary }) <$>
    schema.deserialize v

/-! ## The envelope -/

structure TaggedEvent where
  kind : String
  data : Json

def TaggedEvent.schema : Schema HexError :=
  ⟨[⟨"type", String, deserializeString⟩, ⟨"data", Json, deserializeValue⟩], by decide⟩

def TaggedEvent.deserialize (v : Json) : De HexError TaggedEvent :=
  (fun (kind, data, ()) => { kind, data }) <$> schema.deserialize v

/-- What `parse_event_stream` reads of an envelope. -/
structure Envelope where
  events : List TaggedEvent

def Envelope.schema : Schema HexError :=
  ⟨[⟨"events", List TaggedEvent, deserializeVec TaggedEvent.deserialize⟩], by decide⟩

def Envelope.deserialize (v : Json) : De HexError Envelope :=
  (fun (events, ()) => { events }) <$> schema.deserialize v

/-- What the error texts of the parser are made of. -/
inductive ParseError where
  | json (e : DeError HexError)
  | unknownEventKind (kind : String)
deriving DecidableEq

/-- The local function `parse`. -/
def parse {α : Type} (deserialize : Json → De HexError α) (v : Json) :
    ExceptT ParseError Option α :=
  ExceptT.adapt ParseError.json (deserialize v)

/-- The closure of `parse_event_stream`. -/
def TaggedEvent.goEvent (tagged : TaggedEvent) : ExceptT ParseError Option GoEvent :=
  match tagged.kind with
  | "BlockStart" => GoEvent.blockStart <$> parse BlockStartData.deserialize tagged.data
  | "TransactionStart" =>
      GoEvent.transactionStart <$> parse TransactionStartData.deserialize tagged.data
  | "FrameEnter" => GoEvent.frameEnter <$> parse FrameEnterData.deserialize tagged.data
  | "FrameExit" => GoEvent.frameExit <$> parse FrameExitData.deserialize tagged.data
  | "TransactionEnd" => GoEvent.transactionEnd <$> parse TransactionEndData.deserialize tagged.data
  | "BlockCommit" => return .blockCommit
  | "BalanceMutation" =>
      GoEvent.balanceMutation <$> parse BalanceMutationData.deserialize tagged.data
  | "NonceMutation" => GoEvent.nonceMutation <$> parse NonceMutationData.deserialize tagged.data
  | "CodeMutation" => GoEvent.codeMutation <$> parse CodeMutationData.deserialize tagged.data
  | "StorageMutation" =>
      GoEvent.storageMutation <$> parse StorageMutationData.deserialize tagged.data
  | "AccountCreated" => GoEvent.accountCreated <$> parse AccountCreatedData.deserialize tagged.data
  | "SelfDestruct" => GoEvent.selfDestruct <$> parse SelfDestructData.deserialize tagged.data
  | other => throw (.unknownEventKind other)

/-- `parse_event_stream` on the document that the text stands for; no result is a panic. -/
def parseEventStream (json : Json) : Option (Except ParseError (List GoEvent)) := ExceptT.run do
  let envelope ← ExceptT.adapt ParseError.json (Envelope.deserialize json)
  envelope.events.mapM TaggedEvent.goEvent

/-! ## Round trip -/

lemma denotes_hexString {n : ℕ} (b : Bytes n) :
    Denotes (String.ofList ('0' :: 'x' :: Hex.ascii (Hex.encode b.toList))) b := by
  refine ⟨_, String.toList_ofList, ?_⟩
  rw [← Hex.decode_utf8_iff, Hex.utf8_ascii Hex.lt_of_mem_encode, Hex.decode_encode]

@[simp] lemma deserializeHex_marshalHex {n : ℕ} (b : Bytes n) :
    deserializeHex n (Emes.marshalHex b) = pure b := by
  have hok := decodeFixedHex_of_denotes (denotes_hexString b)
  simp only [deserializeHex, Emes.marshalHex, deserializeString_str, pure_bind]
  rw [hok]
  rfl

@[simp] lemma deserializeU64_marshalUint64 {ε : Type} (n : UInt64) :
    @deserializeU64 ε (Emes.marshalUint64 n) = pure n :=
  deserializeU64_num n

/-- A structure of the bridge is read from an event whose fields hold its record. -/
lemma parse_toValue {α : Type} (e : Emes.Event) (schema : Schema HexError)
    {build : Record schema.fields → α} (record : Record schema.fields)
    (h : Reads e.entries schema.fields record) :
    parse (fun v => build <$> schema.deserialize v) (toValue (.obj e.entries)) =
      pure (build record) := by
  rw [parse, e.deserialize_toValue schema record h]
  rfl

/-- The names of the fields are the same on both sides. -/
lemma goEvent_taggedEvent (e : Emes.Event) :
    TaggedEvent.goEvent ⟨e.data.kind, toValue (.obj e.entries)⟩ = pure e.data.goEvent := by
  obtain ⟨sequence, data⟩ := e
  cases data with
  | blockStart ev =>
    refine congrArg (GoEvent.blockStart <$> ·)
      (parse_toValue _ BlockStartData.schema (ev.number, ()) ?_)
    simp [BlockStartData.schema]
  | transactionStart ev =>
    refine congrArg (GoEvent.transactionStart <$> ·)
      (parse_toValue _ TransactionStartData.schema (ev.txIndex, ev.hash, ()) ?_)
    simp [TransactionStartData.schema]
  | frameEnter ev =>
    refine congrArg (GoEvent.frameEnter <$> ·)
      (parse_toValue _ FrameEnterData.schema (ev.frameId, ev.parentFrameId, ev.depth, ()) ?_)
    simp [FrameEnterData.schema]
  | frameExit ev =>
    refine congrArg (GoEvent.frameExit <$> ·)
      (parse_toValue _ FrameExitData.schema (ev.frameId, ev.reverted, ()) ?_)
    simp [FrameExitData.schema]
  | transactionEnd ev =>
    refine congrArg (GoEvent.transactionEnd <$> ·)
      (parse_toValue _ TransactionEndData.schema (ev.txIndex, ev.reverted, ()) ?_)
    simp [TransactionEndData.schema]
  | blockCommit ev => rfl
  | balanceMutation ev =>
    refine congrArg (GoEvent.balanceMutation <$> ·)
      (parse_toValue _ BalanceMutationData.schema
        (ev.frameId, ev.address, ev.before, ev.after, ()) ?_)
    simp [BalanceMutationData.schema]
  | nonceMutation ev =>
    refine congrArg (GoEvent.nonceMutation <$> ·)
      (parse_toValue _ NonceMutationData.schema
        (ev.frameId, ev.address, ev.before, ev.after, ()) ?_)
    simp [NonceMutationData.schema]
  | codeMutation ev =>
    refine congrArg (GoEvent.codeMutation <$> ·)
      (parse_toValue _ CodeMutationData.schema (ev.frameId, ev.address, ev.before, ev.after, ()) ?_)
    simp [CodeMutationData.schema]
  | storageMutation ev =>
    refine congrArg (GoEvent.storageMutation <$> ·)
      (parse_toValue _ StorageMutationData.schema
        (ev.frameId, ev.address, ev.slot, ev.before, ev.after, ()) ?_)
    simp [StorageMutationData.schema]
  | accountCreated ev =>
    refine congrArg (GoEvent.accountCreated <$> ·)
      (parse_toValue _ AccountCreatedData.schema (ev.frameId, ev.address, ev.creator, ()) ?_)
    simp [AccountCreatedData.schema]
  | selfDestruct ev =>
    refine congrArg (GoEvent.selfDestruct <$> ·)
      (parse_toValue _ SelfDestructData.schema (ev.frameId, ev.address, ev.beneficiary, ()) ?_)
    simp [SelfDestructData.schema]

lemma deserialize_taggedEvent (e : Emes.Event) :
    TaggedEvent.deserialize (Emes.taggedEvent e) =
      pure ⟨e.data.kind, toValue (.obj e.entries)⟩ := by
  have h : Reads [("type", .str e.data.kind), ("data", .obj e.entries)] TaggedEvent.schema.fields
      (e.data.kind, toValue (.obj e.entries), ()) := by
    simp [TaggedEvent.schema, deserializeValue]
  rw [Emes.taggedEvent, TaggedEvent.deserialize, Schema.deserialize_obj _ (by simp) _ h]
  rfl

/-- The entry of the events is found whether or not there is one for errors. -/
lemma deserialize_marshalJson (f : Emes.FixtureEnvelope) :
    Envelope.deserialize f.marshalJson =
      pure ⟨f.events.map fun e => ⟨e.data.kind, toValue (.obj e.entries)⟩⟩ := by
  have hkeys : (f.entries.map Prod.fst).Nodup := by
    cases hnil : f.errors.isEmpty <;> simp [Emes.FixtureEnvelope.entries, hnil]
  have hmem : ("events", .arr (f.events.map Emes.taggedEvent)) ∈ f.entries := by
    simp [Emes.FixtureEnvelope.entries]
  have hevents : deserializeVec TaggedEvent.deserialize (.arr (f.events.map Emes.taggedEvent)) =
      pure (f.events.map fun e => ⟨e.data.kind, toValue (.obj e.entries)⟩) :=
    mapM_map_eq_pure fun e _ => deserialize_taggedEvent e
  have h : Reads f.entries Envelope.schema.fields (_, ()) := ⟨⟨_, hmem, hevents⟩, trivial⟩
  rw [Emes.FixtureEnvelope.marshalJson, Envelope.deserialize, Schema.deserialize_obj _ hkeys _ h]
  rfl

/-- Whatever document has the tagged events of a stream, the bridge reads the stream from it. -/
lemma parseEventStream_of_deserialize {document : Json} {events : List Emes.Event}
    (h : Envelope.deserialize document =
      pure ⟨events.map fun e => ⟨e.data.kind, toValue (.obj e.entries)⟩⟩) :
    parseEventStream document = some (.ok (Emes.goEvents events)) := by
  have hevents : (events.map fun e => TaggedEvent.mk e.data.kind (toValue (.obj e.entries))).mapM
      TaggedEvent.goEvent = pure (Emes.goEvents events) :=
    mapM_map_eq_pure fun e _ => goEvent_taggedEvent e
  rw [parseEventStream, h]
  exact congrArg ExceptT.run hevents

/-- The two sides agree on the format of fixtures: the bridge reads the events of an envelope back,
one by one and in order. -/
theorem parseEventStream_marshalJson (f : Emes.FixtureEnvelope) :
    parseEventStream f.marshalJson = some (.ok (Emes.goEvents f.events)) :=
  parseEventStream_of_deserialize (deserialize_marshalJson f)

end KaySentinel.Bridge
