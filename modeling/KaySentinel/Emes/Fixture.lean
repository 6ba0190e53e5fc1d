import KaySentinel.Lib.Hex
import KaySentinel.Lib.Json
import KaySentinel.Tracer.Hooks

/-!
# Fixtures

The document that the Go side writes for a stream of events.  Structures become objects with one
entry for each field, under the name of the field unless a tag gives another one.
-/

namespace KaySentinel

/-- The integer behind the constant. -/
def InternalErrorCode.toNat : InternalErrorCode → ℕ
  | errEmptyFrameStack => 0
  | errDuplicateExit => 1
  | errUnexpectedExit => 2
  | errSequenceOverflow => 3

namespace Emes

/-- The integer behind the constant. -/
def FrameType.toNat : FrameType → ℕ
  | frameCall => 0
  | frameCallCode => 1
  | frameDelegateCall => 2
  | frameStaticCall => 3
  | frameCreate => 4
  | frameCreate2 => 5
  | framePrecompile => 6

/-! ## Values -/

/-- `Address.MarshalJSON` and `Hash.MarshalJSON` -/
def marshalHex {n : ℕ} (b : Bytes n) : Json :=
  .str (String.ofList ('0' :: 'x' :: Hex.ascii (Hex.encode b.toList)))

def marshalUint64 (n : UInt64) : Json := .num n.toNat

/-- A pointer. -/
def marshalAddress? : Option Address → Json
  | none => .null
  | some address => marshalHex address

/-! ## Events -/

def EventData.kind : EventData → String
  | .blockStart _ => "BlockStart"
  | .transactionStart _ => "TransactionStart"
  | .frameEnter _ => "FrameEnter"
  | .frameExit _ => "FrameExit"
  | .transactionEnd _ => "TransactionEnd"
  | .blockCommit _ => "BlockCommit"
  | .balanceMutation _ => "BalanceMutation"
  | .nonceMutation _ => "NonceMutation"
  | .codeMutation _ => "CodeMutation"
  | .storageMutation _ => "StorageMutation"
  | .accountCreated _ => "AccountCreated"
  | .selfDestruct _ => "SelfDestruct"

/-- The entries of an event after those of its `base`. -/
@[simp] def EventData.entries : EventData → List (String × Json)
  | .blockStart ev =>
      [("EMESVersion", .str ev.emesVersion), ("Number", marshalUint64 ev.number),
        ("Timestamp", marshalUint64 ev.timestamp)]
  | .transactionStart ev =>
      [("TxIndex", marshalUint64 ev.txIndex), ("Hash", marshalHex ev.hash),
        ("From", marshalHex ev.from_), ("To", marshalAddress? ev.to_),
        ("Value", marshalHex ev.value), ("GasLimit", marshalUint64 ev.gasLimit),
        ("GasPrice", marshalHex ev.gasPrice), ("Nonce", marshalUint64 ev.nonce)]
  | .frameEnter ev =>
      [("FrameID", marshalUint64 ev.frameId), ("ParentFrameID", marshalUint64 ev.parentFrameId),
        ("Depth", marshalUint64 ev.depth), ("Type", .num ev.type.toNat),
        ("From", marshalHex ev.from_), ("To", marshalHex ev.to_)]
  | .frameExit ev => [("FrameID", marshalUint64 ev.frameId), ("Reverted", .bool ev.reverted)]
  | .transactionEnd ev =>
      [("TxIndex", marshalUint64 ev.txIndex), ("Reverted", .bool ev.reverted)]
  | .blockCommit ev => [("StateRoot", marshalHex ev.stateRoot)]
  | .balanceMutation ev =>
      [("FrameID", marshalUint64 ev.frameId), ("Address", marshalHex ev.address),
        ("Before", marshalHex ev.before), ("After", marshalHex ev.after)]
  | .nonceMutation ev =>
      [("FrameID", marshalUint64 ev.frameId), ("Address", marshalHex ev.address),
        ("Before", marshalUint64 ev.before), ("After", marshalUint64 ev.after)]
  | .codeMutation ev =>
      [("FrameID", marshalUint64 ev.frameId), ("Address", marshalHex ev.address),
        ("Before", marshalHex ev.before), ("After", marshalHex ev.after)]
  | .storageMutation ev =>
      [("FrameID", marshalUint64 ev.frameId), ("Address", marshalHex ev.address),
        ("Slot", marshalHex ev.slot), ("Before", marshalHex ev.before),
        ("After", marshalHex ev.after)]
  | .accountCreated ev =>
      [("FrameID", marshalUint64 ev.frameId), ("Address", marshalHex ev.address),
        ("Creator", marshalHex ev.creator)]
  | .selfDestruct ev =>
      [("FrameID", marshalUint64 ev.frameId), ("Address", marshalHex ev.address),
        ("Beneficiary", marshalHex ev.beneficiary)]

/-- `base` is embedded, so its field is one of the event. -/
@[simp] def Event.entries (e : Event) : List (String × Json) :=
  ("sequence", marshalUint64 e.sequence) :: e.data.entries

/-- No two fields of an event have the same name. -/
lemma Event.nodup_keys (e : Event) : (e.entries.map Prod.fst).Nodup := by
  obtain ⟨sequence, data⟩ := e
  cases data <;> simp

/-- The fields of an event are no objects. -/
lemma Event.toValue_entry (e : Event) : ∀ entry ∈ e.entries, Json.toValue entry.2 = entry.2 := by
  obtain ⟨sequence, data⟩ := e
  cases data with
  | transactionStart ev =>
    cases hto : ev.to_ <;>
      simp [marshalUint64, marshalHex, marshalAddress?, Json.toValue, hto]
  | _ => simp [marshalUint64, marshalHex, Json.toValue]

/-- What a reader of structures makes of the tree of an event. -/
lemma Event.deserialize_toValue {ε : Type} (e : Event) (schema : Json.Schema ε)
    (record : Json.Record schema.fields) (h : Json.Reads e.entries schema.fields record) :
    schema.deserialize (Json.toValue (.obj e.entries)) = pure record :=
  schema.deserialize_toValue e.nodup_keys e.toValue_entry record h

/-! ## The envelope -/

structure FixtureMetadata where
  profile : String
  chainId : Int64
  network : String
  fork : String
  client : String
  clientVersion : String
  blockNumber : UInt64
  transactionHash : Word
  generatorVersion : String

structure FixtureEnvelope where
  metadata : FixtureMetadata
  events : List Event
  errors : List InternalTracerError

def FixtureMetadata.marshal (m : FixtureMetadata) : Json :=
  .obj [("profile", .str m.profile), ("chain_id", .num m.chainId.toInt),
    ("network", .str m.network), ("fork", .str m.fork), ("client", .str m.client),
    ("client_version", .str m.clientVersion), ("block_number", marshalUint64 m.blockNumber),
    ("transaction_hash", marshalHex m.transactionHash),
    ("generator_version", .str m.generatorVersion)]

def marshalError (e : InternalTracerError) : Json :=
  .obj [("code", .num e.code.toNat), ("frame_id", marshalUint64 e.frameId),
    ("sequence", marshalUint64 e.sequence), ("message", .str e.message)]

/-- The local type `taggedEvent`. -/
def taggedEvent (e : Event) : Json := .obj [("type", .str e.data.kind), ("data", .obj e.entries)]

/-- An empty list of errors is omitted. -/
def FixtureEnvelope.entries (f : FixtureEnvelope) : List (String × Json) :=
  [("metadata", f.metadata.marshal), ("events", .arr (f.events.map taggedEvent))] ++
    if f.errors.isEmpty then [] else [("errors", .arr (f.errors.map marshalError))]

/-- `FixtureEnvelope.MarshalJSON` -/
def FixtureEnvelope.marshalJson (f : FixtureEnvelope) : Json := .obj f.entries

end Emes

end KaySentinel
