import Mathlib

/-!
# Fixed-width byte arrays

The Rust crates pass addresses as `[u8; 20]` and every 256-bit quantity as
`[u8; 32]`.  Arrays compare lexicographically, byte by byte, which is the order in
which a `BTreeMap` iterates over them.
-/

namespace KaySentinel

/-- A byte array `[u8; n]`. -/
abbrev Bytes (n : ℕ) := List.Vector UInt8 n

/-- An account address, `[u8; 20]`. -/
abbrev Address := Bytes 20

/-- A 256-bit value, hash or slot, `[u8; 32]`. -/
abbrev Word := Bytes 32

namespace Bytes

variable {n : ℕ}

/-- The array `[0u8; n]`. -/
def zero (n : ℕ) : Bytes n := List.Vector.replicate n 0

/-- The array whose bytes are all `b`. -/
def fill (n : ℕ) (b : UInt8) : Bytes n := List.Vector.replicate n b

/-- The array `[0, …, 0, b]`: the big-endian encoding of a small number. -/
def last (n : ℕ) (b : UInt8) : Bytes (n + 1) :=
  ⟨List.replicate n 0 ++ [b], by simp⟩

instance : Ord (Bytes n) := ⟨compareOn List.Vector.toList⟩

instance : Std.TransOrd (Bytes n) :=
  inferInstanceAs (Std.TransCmp (compareOn (List.Vector.toList (n := n))))

instance : Std.LawfulEqOrd (Bytes n) where
  eq_of_compare {a b} h := by
    have hlist : a.toList = b.toList := Std.LawfulEqOrd.eq_of_compare h
    exact List.Vector.toList_injective hlist

instance : Std.TransOrd Address := inferInstanceAs (Std.TransOrd (Bytes 20))

instance : Std.TransOrd Word := inferInstanceAs (Std.TransOrd (Bytes 32))

instance : LawfulBEq Address := inferInstance

@[simp] lemma toList_zero : (zero n).toList = List.replicate n 0 := rfl

lemma toList_inj {a b : Bytes n} : a.toList = b.toList ↔ a = b :=
  List.Vector.toList_injective.eq_iff

/-- Two arrays of one width concatenated with anything split uniquely. -/
lemma append_inj {a b : Bytes n} {u v : List UInt8} (h : a.toList ++ u = b.toList ++ v) :
    a = b ∧ u = v := by
  obtain ⟨hab, huv⟩ := List.append_inj h (by simp)
  exact ⟨toList_inj.mp hab, huv⟩

/-- What `{:?}` prints for a byte array. -/
def debug (b : Bytes n) : String :=
  "[" ++ ", ".intercalate (b.toList.map fun x => toString x.toNat) ++ "]"

end Bytes

/-! ## Little-endian integers -/

/-- The `k` lowest bytes of a number, lowest first. -/
def leBytes : ℕ → ℕ → List UInt8
  | 0, _ => []
  | k + 1, x => UInt8.ofNat (x % 256) :: leBytes k (x / 256)

@[simp] lemma length_leBytes (k x : ℕ) : (leBytes k x).length = k := by
  induction k generalizing x with
  | zero => rfl
  | succ k ih => simp [leBytes, ih]

lemma leBytes_inj {k x y : ℕ} (hx : x < 256 ^ k) (hy : y < 256 ^ k)
    (h : leBytes k x = leBytes k y) : x = y := by
  induction k generalizing x y with
  | zero => simp at hx hy; omega
  | succ k ih =>
    simp only [leBytes, List.cons.injEq] at h
    obtain ⟨hlow, hhigh⟩ := h
    have hmod : x % 256 = y % 256 := by
      have := congrArg UInt8.toNat hlow
      simpa using this
    have hdiv : x / 256 = y / 256 := by
      refine ih ?_ ?_ hhigh
      · rw [Nat.div_lt_iff_lt_mul (by norm_num)]
        rwa [pow_succ] at hx
      · rw [Nat.div_lt_iff_lt_mul (by norm_num)]
        rwa [pow_succ] at hy
    omega

/-- The number that some bytes encode, lowest first. -/
def ofLeBytes : List UInt8 → ℕ
  | [] => 0
  | b :: rest => b.toNat + 256 * ofLeBytes rest

lemma ofLeBytes_lt (bytes : List UInt8) : ofLeBytes bytes < 256 ^ bytes.length := by
  induction bytes with
  | nil => simp [ofLeBytes]
  | cons b rest ih =>
    have hb := b.toNat_lt
    rw [ofLeBytes, List.length_cons, pow_succ]
    omega

lemma ofLeBytes_leBytes {k x : ℕ} (h : x < 256 ^ k) : ofLeBytes (leBytes k x) = x := by
  induction k generalizing x with
  | zero => simp at h; simp [leBytes, ofLeBytes, h]
  | succ k ih =>
    have hhigh : x / 256 < 256 ^ k := by
      rw [Nat.div_lt_iff_lt_mul (by norm_num)]
      rwa [pow_succ] at h
    have hlow : (UInt8.ofNat (x % 256)).toNat = x % 256 := by simp
    rw [leBytes, ofLeBytes, ih hhigh, hlow]
    omega

lemma leBytes_ofLeBytes (bytes : List UInt8) :
    leBytes bytes.length (ofLeBytes bytes) = bytes := by
  induction bytes with
  | nil => rfl
  | cons b rest ih =>
    have hb : b.toNat < 256 := b.toNat_lt
    have hlow : (b.toNat + 256 * ofLeBytes rest) % 256 = b.toNat := by omega
    have hhigh : (b.toNat + 256 * ofLeBytes rest) / 256 = ofLeBytes rest := by omega
    rw [ofLeBytes, List.length_cons, leBytes, hlow, hhigh, ih, UInt8.ofNat_toNat]

/-- The big-endian encoding of a number in `n` bytes. -/
def Bytes.bigEndian (n x : ℕ) : Bytes n := ⟨(leBytes n x).reverse, by simp⟩

/-- `u64::to_le_bytes`. -/
def u64LeBytes (x : UInt64) : List UInt8 := leBytes 8 x.toNat

/-- `u32::to_le_bytes`. -/
def u32LeBytes (x : UInt32) : List UInt8 := leBytes 4 x.toNat

@[simp] lemma length_u64LeBytes (x : UInt64) : (u64LeBytes x).length = 8 := length_leBytes _ _

@[simp] lemma length_u32LeBytes (x : UInt32) : (u32LeBytes x).length = 4 := length_leBytes _ _

lemma u64LeBytes_injective : Function.Injective u64LeBytes := by
  intro x y h
  exact UInt64.toNat_inj.mp (leBytes_inj (by simpa using x.toNat_lt) (by simpa using y.toNat_lt) h)

lemma u32LeBytes_injective : Function.Injective u32LeBytes := by
  intro x y h
  exact UInt32.toNat_inj.mp (leBytes_inj (by simpa using x.toNat_lt) (by simpa using y.toNat_lt) h)

/-- `u64::from_le_bytes`. -/
def u64FromLeBytes (bytes : Bytes 8) : UInt64 := UInt64.ofNat (ofLeBytes bytes.toList)

/-- `u32::from_le_bytes`. -/
def u32FromLeBytes (bytes : Bytes 4) : UInt32 := UInt32.ofNat (ofLeBytes bytes.toList)

lemma u64FromLeBytes_u64LeBytes {bytes : Bytes 8} {x : UInt64} (h : bytes.toList = u64LeBytes x) :
    u64FromLeBytes bytes = x := by
  rw [u64FromLeBytes, h, u64LeBytes, ofLeBytes_leBytes (by simpa using x.toNat_lt),
    UInt64.ofNat_toNat]

lemma u32FromLeBytes_u32LeBytes {bytes : Bytes 4} {x : UInt32} (h : bytes.toList = u32LeBytes x) :
    u32FromLeBytes bytes = x := by
  rw [u32FromLeBytes, h, u32LeBytes, ofLeBytes_leBytes (by simpa using x.toNat_lt),
    UInt32.ofNat_toNat]

/-- Eight bytes are those of a number. -/
lemma exists_u64LeBytes_eq {bytes : List UInt8} (h : bytes.length = 8) :
    ∃ x, u64LeBytes x = bytes := by
  have hlt := ofLeBytes_lt bytes
  rw [h] at hlt
  refine ⟨UInt64.ofNat (ofLeBytes bytes), ?_⟩
  rw [u64LeBytes, UInt64.toNat_ofNat_of_lt' (by simpa using hlt), ← h, leBytes_ofLeBytes]

/-- Four bytes are those of a number. -/
lemma exists_u32LeBytes_eq {bytes : List UInt8} (h : bytes.length = 4) :
    ∃ x, u32LeBytes x = bytes := by
  have hlt := ofLeBytes_lt bytes
  rw [h] at hlt
  refine ⟨UInt32.ofNat (ofLeBytes bytes), ?_⟩
  rw [u32LeBytes, UInt32.toNat_ofNat_of_lt' (by simpa using hlt), ← h, leBytes_ofLeBytes]

end KaySentinel
