import KaySentinel.Lib.OrdMap

/-!
# Records in JSON documents

A reader of a structure walks over the entries of an object and fills one slot for each field it
knows; other entries are skipped.  What it makes of the entries does not depend on their order:
`Reads` states the record that they hold field by field, and `Schema.deserialize_obj` says that
the reader finds it.
-/

/-- A document, after its text has been parsed.  `num` is an integer literal and `float` any other
number. -/
inductive Json where
  | null
  | bool (b : Bool)
  | num (n : ℤ)
  | float (literal : String)
  | str (s : String)
  | arr (items : List Json)
  | obj (entries : List (String × Json))

namespace Json

variable {ε α : Type}

/-- Why a document is not a value of the type that is asked for. -/
inductive DeError (ε : Type) where
  | invalidType
  | invalidValue
  | invalidLength
  | missingField (name : String)
  | duplicateField (name : String)
  | custom (e : ε)
deriving DecidableEq

/-- The results of a reader, `ε` being the errors of its own; no result is a panic. -/
abbrev De (ε : Type) := ExceptT (DeError ε) Option

/-! ## Values -/

/-- Integers that fit neither 64-bit type are taken for floating-point numbers. -/
def deserializeU64 : Json → De ε UInt64
  | .num n =>
      if 0 ≤ n ∧ n < 2 ^ 64 then return UInt64.ofNat n.toNat
      else if -2 ^ 63 ≤ n ∧ n < 0 then throw .invalidValue
      else throw .invalidType
  | _ => throw .invalidType

def deserializeBool : Json → De ε Bool
  | .bool b => return b
  | _ => throw .invalidType

def deserializeString : Json → De ε String
  | .str s => return s
  | _ => throw .invalidType

def deserializeVec (deserialize : Json → De ε α) : Json → De ε (List α)
  | .arr items => items.mapM deserialize
  | _ => throw .invalidType

@[simp] lemma deserializeU64_num (n : UInt64) :
    @deserializeU64 ε (.num n.toNat) = pure n := by
  have hlt : (n.toNat : ℤ) < 2 ^ 64 := mod_cast n.toNat_lt
  rw [deserializeU64, if_pos ⟨Int.natCast_nonneg _, hlt⟩, Int.toNat_natCast, UInt64.ofNat_toNat]

@[simp] lemma deserializeBool_bool (b : Bool) : @deserializeBool ε (.bool b) = pure b := rfl

@[simp] lemma deserializeString_str (s : String) :
    @deserializeString ε (.str s) = pure s := rfl

lemma mapM_map_eq_pure {β γ : Type} {m : Type → Type} [Monad m] [LawfulMonad m] {f : β → m γ}
    {g : α → β} {h : α → γ} {l : List α} (hall : ∀ a ∈ l, f (g a) = pure (h a)) :
    (l.map g).mapM f = pure (l.map h) := by
  induction l with
  | nil => rfl
  | cons a l ih =>
    have htail := ih fun b hb => hall b (List.mem_cons_of_mem a hb)
    rw [List.map_cons, List.mapM_cons, hall a List.mem_cons_self, pure_bind, htail, pure_bind,
      List.map_cons]

/-! ## Trees -/

mutual

/-- The document as a tree, whose objects hold one entry for each key, the last one, in the order
of the keys. -/
def toValue : Json → Json
  | .arr items => .arr (toValues items)
  | .obj entries => .obj (Std.ExtTreeMap.ofList (entryValues entries) compare).toList
  | v => v

def toValues : List Json → List Json
  | [] => []
  | v :: items => toValue v :: toValues items

def entryValues : List (String × Json) → List (String × Json)
  | [] => []
  | (key, v) :: entries => (key, toValue v) :: entryValues entries

end

def deserializeValue (v : Json) : De ε Json := return toValue v

lemma entryValues_eq_self {entries : List (String × Json)}
    (h : ∀ entry ∈ entries, toValue entry.2 = entry.2) : entryValues entries = entries := by
  induction entries with
  | nil => rfl
  | cons entry entries ih =>
    obtain ⟨key, v⟩ := entry
    have hv : toValue v = v := h (key, v) List.mem_cons_self
    rw [entryValues, hv, ih fun entry hentry => h entry (List.mem_cons_of_mem _ hentry)]

/-! ## Structures -/

/-- A field of a structure: the key of its entry and the reader of its values. -/
structure StructField (ε : Type) where
  name : String
  Val : Type
  deserialize : Json → De ε Val

/-- The values of all fields. -/
abbrev Record : List (StructField ε) → Type
  | [] => Unit
  | f :: fields => f.Val × Record fields

/-- The values of the fields that have been read so far. -/
abbrev Slots : List (StructField ε) → Type
  | [] => Unit
  | f :: fields => Option f.Val × Slots fields

namespace Slots

def empty : (fields : List (StructField ε)) → Slots fields
  | [] => ()
  | _ :: fields => (none, empty fields)

/-- One round of the loop over the entries.  The entry of no field is skipped. -/
def visit (key : String) (v : Json) :
    (fields : List (StructField ε)) → Slots fields → De ε (Slots fields)
  | [], slots => return slots
  | f :: fields, (slot, slots) =>
      if key = f.name then
        match slot with
        | some _ => throw (.duplicateField f.name)
        | none => do
            let x ← f.deserialize v
            return (some x, slots)
      else do
        let slots ← visit key v fields slots
        return (slot, slots)

def finish : (fields : List (StructField ε)) → Slots fields → De ε (Record fields)
  | [], _ => return ()
  | f :: _, (none, _) => throw (.missingField f.name)
  | _ :: fields, (some x, slots) => do
      let record ← finish fields slots
      return (x, record)

end Slots

def visitMap (fields : List (StructField ε)) (entries : List (String × Json)) :
    De ε (Record fields) := do
  let slots ← entries.foldlM (fun slots entry => Slots.visit entry.1 entry.2 fields slots)
    (Slots.empty fields)
  Slots.finish fields slots

/-- The fields of a structure may also come as an array. -/
def visitSeq : (fields : List (StructField ε)) → List Json → De ε (Record fields)
  | [], [] => return ()
  | [], _ :: _ => throw .invalidLength
  | _ :: _, [] => throw .invalidLength
  | f :: fields, v :: items => do
      let x ← f.deserialize v
      let record ← visitSeq fields items
      return (x, record)

/-- The fields of a structure, whose names differ. -/
structure Schema (ε : Type) where
  fields : List (StructField ε)
  nodup : (fields.map StructField.name).Nodup

/-- The reader of a structure. -/
def Schema.deserialize (schema : Schema ε) : Json → De ε (Record schema.fields)
  | .obj entries => visitMap schema.fields entries
  | .arr items => visitSeq schema.fields items
  | _ => throw .invalidType

/-! ## The record of an object -/

/-- The entries hold the values of the record. -/
@[simp] def Reads (entries : List (String × Json)) :
    (fields : List (StructField ε)) → Record fields → Prop
  | [], _ => True
  | f :: fields, (x, record) =>
      (∃ v, (f.name, v) ∈ entries ∧ f.deserialize v = pure x) ∧ Reads entries fields record

/-- An entry is skipped, or holds the value of its field. -/
def Agrees (key : String) (v : Json) : (fields : List (StructField ε)) → Record fields → Prop
  | [], _ => True
  | f :: fields, (x, record) =>
      (key = f.name → f.deserialize v = pure x) ∧ Agrees key v fields record

/-- The slots after the entries of some keys. -/
def Slots.ofRecord (keys : List String) :
    (fields : List (StructField ε)) → Record fields → Slots fields
  | [], _ => ()
  | f :: fields, (x, record) =>
      (if f.name ∈ keys then some x else none, ofRecord keys fields record)

lemma Slots.ofRecord_nil : ∀ (fields : List (StructField ε)) (record : Record fields),
    Slots.ofRecord [] fields record = Slots.empty fields
  | [], _ => rfl
  | _ :: fields, (_, record) => by
    rw [ofRecord, if_neg List.not_mem_nil, ofRecord_nil fields record, empty]

/-- Keys of no field do not show. -/
lemma Slots.ofRecord_append_of_not_mem {key : String} (keys : List String) :
    ∀ (fields : List (StructField ε)) (record : Record fields), key ∉ fields.map StructField.name →
      Slots.ofRecord (keys ++ [key]) fields record = Slots.ofRecord keys fields record
  | [], _, _ => rfl
  | f :: fields, (x, record), hkey => by
    obtain ⟨hne, hrest⟩ : key ≠ f.name ∧ key ∉ fields.map StructField.name := by simpa using hkey
    have hmem : f.name ∈ keys ++ [key] ↔ f.name ∈ keys := by simp [hne.symm]
    rw [ofRecord, ofRecord, ofRecord_append_of_not_mem keys fields record hrest]
    simp only [hmem]

/-- One round fills the slot of the key. -/
lemma Slots.visit_ofRecord {key : String} {v : Json} {keys : List String} (hkey : key ∉ keys) :
    ∀ (fields : List (StructField ε)) (record : Record fields),
      (fields.map StructField.name).Nodup → Agrees key v fields record →
      Slots.visit key v fields (Slots.ofRecord keys fields record) =
        pure (Slots.ofRecord (keys ++ [key]) fields record)
  | [], _, _, _ => rfl
  | f :: fields, (x, record), hnames, hagrees => by
    obtain ⟨hfresh, hnames⟩ := List.nodup_cons.mp hnames
    obtain ⟨hread, hagrees⟩ := hagrees
    by_cases heq : key = f.name
    · subst heq
      have hrest := ofRecord_append_of_not_mem keys fields record hfresh
      simp [ofRecord, visit, hkey, hread, hrest]
    · have hmem : f.name ∈ keys ++ [key] ↔ f.name ∈ keys := by simp [Ne.symm heq]
      have ih := visit_ofRecord hkey fields record hnames hagrees
      simp only [ofRecord, visit, if_neg heq, ih, pure_bind, hmem]

lemma Slots.finish_ofRecord {keys : List String} :
    ∀ (fields : List (StructField ε)) (record : Record fields), (∀ f ∈ fields, f.name ∈ keys) →
      Slots.finish fields (Slots.ofRecord keys fields record) = pure record
  | [], _, _ => rfl
  | f :: fields, (x, record), hall => by
    have hf : f.name ∈ keys := hall f List.mem_cons_self
    have ih := finish_ofRecord fields record fun g hg => hall g (List.mem_cons_of_mem f hg)
    simp only [ofRecord, if_pos hf, finish, ih, pure_bind]

lemma Reads.mem_keys {entries : List (String × Json)} :
    ∀ {fields : List (StructField ε)} {record : Record fields}, Reads entries fields record →
      ∀ f ∈ fields, f.name ∈ entries.map Prod.fst
  | [], _, _ => nofun
  | _ :: fields, (_, _), ⟨⟨v, hv, _⟩, h⟩ => by
    intro g hg
    rcases List.mem_cons.mp hg with rfl | hg
    · exact List.mem_map_of_mem hv
    · exact h.mem_keys g hg

/-- Each entry agrees with what all of them hold, as no key is there twice. -/
lemma Reads.agrees {entries : List (String × Json)} (hkeys : (entries.map Prod.fst).Nodup)
    {key : String} {v : Json} (hmem : (key, v) ∈ entries) :
    ∀ {fields : List (StructField ε)} {record : Record fields}, Reads entries fields record →
      Agrees key v fields record
  | [], _, _ => trivial
  | f :: fields, (_, _), ⟨⟨w, hw, hread⟩, h⟩ => by
    refine ⟨?_, h.agrees hkeys hmem⟩
    rintro rfl
    obtain rfl : v = w := congrArg Prod.snd (List.inj_on_of_nodup_map hkeys hmem hw rfl)
    exact hread

/-- What the entries hold does not depend on their order. -/
lemma Reads.mono {entries entries' : List (String × Json)}
    (hsub : ∀ entry ∈ entries, entry ∈ entries') :
    ∀ {fields : List (StructField ε)} {record : Record fields}, Reads entries fields record →
      Reads entries' fields record
  | [], _, _ => trivial
  | _ :: _, (_, _), ⟨⟨v, hv, hread⟩, h⟩ => ⟨⟨v, hsub _ hv, hread⟩, h.mono hsub⟩

/-- The loop over the entries finds the record that they hold. -/
lemma visitMap_eq {fields : List (StructField ε)} (hnames : (fields.map StructField.name).Nodup)
    {entries : List (String × Json)} (hkeys : (entries.map Prod.fst).Nodup)
    {record : Record fields} (h : Reads entries fields record) :
    visitMap fields entries = pure record := by
  have hloop : ∀ pre suf, entries = pre ++ suf →
      suf.foldlM (fun slots entry => Slots.visit entry.1 entry.2 fields slots)
          (Slots.ofRecord (pre.map Prod.fst) fields record) =
        pure (Slots.ofRecord (entries.map Prod.fst) fields record) := by
    intro pre suf hsplit
    induction suf generalizing pre with
    | nil =>
      rw [hsplit, List.append_nil]
      rfl
    | cons entry suf ih =>
      have hfresh : entry.1 ∉ pre.map Prod.fst := by
        rw [hsplit, List.map_append, List.map_cons] at hkeys
        have hdisjoint := (List.nodup_append.mp hkeys).2.2
        exact fun hmem => hdisjoint _ hmem _ List.mem_cons_self rfl
      have hmem : entry ∈ entries := by simp [hsplit]
      have hvisit := Slots.visit_ofRecord hfresh fields record hnames (h.agrees hkeys hmem)
      have hnext : pre.map Prod.fst ++ [entry.1] = (pre ++ [entry]).map Prod.fst := by simp
      rw [List.foldlM_cons, hvisit, pure_bind, hnext]
      exact ih (pre ++ [entry]) (by simp [hsplit])
  rw [visitMap, ← Slots.ofRecord_nil fields record]
  have hall := hloop [] entries rfl
  rw [List.map_nil] at hall
  rw [hall, pure_bind]
  exact Slots.finish_ofRecord fields record h.mem_keys

/-- A structure is read from an object whose entries hold its record. -/
theorem Schema.deserialize_obj (schema : Schema ε) {entries : List (String × Json)}
    (hkeys : (entries.map Prod.fst).Nodup) (record : Record schema.fields)
    (h : Reads entries schema.fields record) : schema.deserialize (.obj entries) = pure record :=
  visitMap_eq schema.nodup hkeys h

/-- The tree of such an object serves as well. -/
theorem Schema.deserialize_toValue (schema : Schema ε) {entries : List (String × Json)}
    (hkeys : (entries.map Prod.fst).Nodup)
    (hflat : ∀ entry ∈ entries, toValue entry.2 = entry.2) (record : Record schema.fields)
    (h : Reads entries schema.fields record) :
    schema.deserialize (toValue (.obj entries)) = pure record := by
  have hdistinct : entries.Pairwise fun a b => ¬ compare a.1 b.1 = .eq := by
    refine (List.pairwise_map.mp hkeys).imp ?_
    intro a b hne hcmp
    exact hne (Std.LawfulEqOrd.compare_eq_iff_eq.mp hcmp)
  rw [toValue, entryValues_eq_self hflat]
  refine schema.deserialize_obj ?_ record (h.mono fun entry hentry => ?_)
  · refine List.pairwise_map.mpr (Std.ExtTreeMap.distinct_keys_toList.imp ?_)
    rintro a b hne heq
    exact hne (Std.LawfulEqOrd.compare_eq_iff_eq.mpr heq)
  · exact Std.ExtTreeMap.mem_toList_iff_getElem?_eq_some.mpr
      (Std.ExtTreeMap.getElem?_ofList_of_mem Std.ReflCmp.compare_self hdistinct hentry)

end Json
