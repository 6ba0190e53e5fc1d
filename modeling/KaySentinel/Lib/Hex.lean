import Mathlib

/-!
# Hexadecimal text

`encode` writes bytes as pairs of hexadecimal digits and `decode` reads such pairs, both as bytes
of a UTF-8 text.  `Spells` is the grammar in characters; `decode_utf8_iff` says that reading the
bytes of a text decides it.
-/

namespace Hex

/-- The value of an ASCII hexadecimal digit, in either case. -/
def digit? (b : UInt8) : Option UInt8 :=
  if 48 ≤ b ∧ b ≤ 57 then some (b - 48)
  else if 97 ≤ b ∧ b ≤ 102 then some (b - 87)
  else if 65 ≤ b ∧ b ≤ 70 then some (b - 55)
  else none

/-- The lower-case digit of a value below 16. -/
def digit (n : UInt8) : UInt8 := if n < 10 then 48 + n else 87 + n

/-- The bytes of the text that writes each byte as two digits. -/
def encode (bytes : List UInt8) : List UInt8 :=
  bytes.flatMap fun b => [digit (b / 16), digit (b % 16)]

/-- Read pairs of digits. -/
def decode : List UInt8 → Option (List UInt8)
  | [] => some []
  | [_] => none
  | a :: b :: rest =>
      match digit? a, digit? b, decode rest with
      | some high, some low, some bytes => some ((high * 16 + low) :: bytes)
      | _, _, _ => none

lemma decode_cons_cons_eq_some {a b : UInt8} {rest bytes : List UInt8} :
    decode (a :: b :: rest) = some bytes ↔ ∃ high low tail, digit? a = some high ∧
      digit? b = some low ∧ decode rest = some tail ∧ bytes = (high * 16 + low) :: tail := by
  rw [decode]
  cases digit? a <;> cases digit? b <;> cases decode rest <;> simp [eq_comm]

/-- Digits are ASCII and no sign, and their values are below 16. -/
lemma digit?_eq_some {b x : UInt8} (h : digit? b = some x) : b < 128 ∧ b ≠ 43 ∧ x < 16 := by
  have hall : ∀ k : Fin 256, (digit? (UInt8.ofNat k)).all fun x =>
      UInt8.ofNat k < 128 ∧ UInt8.ofNat k ≠ 43 ∧ x < 16 := by decide +kernel
  have hb := hall ⟨b.toNat, b.toNat_lt⟩
  rw [UInt8.ofNat_toNat, h] at hb
  simpa using hb

/-- The digit of each value below 16 is ASCII and reads back as the value. -/
lemma digit_spec {n : UInt8} (h : n < 16) : digit n < 128 ∧ digit? (digit n) = some n := by
  have hall : ∀ k : Fin 16, digit (UInt8.ofNat k) < 128 ∧
      digit? (digit (UInt8.ofNat k)) = some (UInt8.ofNat k) := by decide
  have hn := hall ⟨n.toNat, h⟩
  rwa [UInt8.ofNat_toNat] at hn

lemma high_lt (b : UInt8) : b / 16 < 16 := by
  rw [UInt8.lt_iff_toNat_lt, UInt8.toNat_div]
  have := b.toNat_lt
  show b.toNat / 16 < 16
  omega

lemma low_lt (b : UInt8) : b % 16 < 16 := by
  rw [UInt8.lt_iff_toNat_lt, UInt8.toNat_mod]
  show b.toNat % 16 < 16
  omega

lemma encode_cons (b : UInt8) (bytes : List UInt8) :
    encode (b :: bytes) = digit (b / 16) :: digit (b % 16) :: encode bytes := rfl

lemma lt_of_mem_encode {bytes : List UInt8} : ∀ x ∈ encode bytes, x < 128 := by
  induction bytes with
  | nil => simp [encode]
  | cons b bytes ih =>
    rw [encode_cons]
    intro x hx
    rcases List.mem_cons.mp hx with rfl | hx
    · exact (digit_spec (high_lt b)).1
    · rcases List.mem_cons.mp hx with rfl | hx
      · exact (digit_spec (low_lt b)).1
      · exact ih x hx

/-- What is written reads back. -/
theorem decode_encode (bytes : List UInt8) : decode (encode bytes) = some bytes := by
  induction bytes with
  | nil => rfl
  | cons b bytes ih =>
    have hbyte : b / 16 * 16 + b % 16 = b := by
      rw [← UInt8.toNat_inj]
      have := b.toNat_lt
      simp
      omega
    rw [encode_cons]
    exact decode_cons_cons_eq_some.mpr
      ⟨_, _, bytes, (digit_spec (high_lt b)).2, (digit_spec (low_lt b)).2, ih, by rw [hbyte]⟩

/-! ## Text in UTF-8 -/

/-- The UTF-8 encoding of a text. -/
def utf8 (cs : List Char) : List UInt8 := cs.flatMap String.utf8EncodeChar

/-- The byte continues the encoding of a character. -/
def isContinuation (b : UInt8) : Bool := 128 ≤ b && b < 192

/-- The value of a hexadecimal digit, in either case. -/
def valueOf? (c : Char) : Option UInt8 :=
  if '0' ≤ c ∧ c ≤ '9' then some (UInt8.ofNat (c.toNat - '0'.toNat))
  else if 'a' ≤ c ∧ c ≤ 'f' then some (UInt8.ofNat (c.toNat - 'a'.toNat + 10))
  else if 'A' ≤ c ∧ c ≤ 'F' then some (UInt8.ofNat (c.toNat - 'A'.toNat + 10))
  else none

/-- The text writes each byte as two digits. -/
inductive Spells : List Char → List UInt8 → Prop
  | nil : Spells [] []
  | cons {c d : Char} {cs : List Char} {high low : UInt8} {bytes : List UInt8}
      (hc : valueOf? c = some high) (hd : valueOf? d = some low) (h : Spells cs bytes) :
      Spells (c :: d :: cs) ((high * 16 + low) :: bytes)

lemma isContinuation_ofNat (v : ℕ) : isContinuation (UInt8.ofNat (v % 0x40 + 0x80)) = true := by
  simp only [isContinuation, Bool.and_eq_true, decide_eq_true_eq, UInt8.le_iff_toNat_le,
    UInt8.lt_iff_toNat_lt, UInt8.toNat_ofNat', UInt8.reduceToNat]
  omega

lemma not_isContinuation_of_lt {b : UInt8} (h : b < 128) : isContinuation b = false := by
  rw [isContinuation, decide_eq_false (UInt8.not_le.mpr h), Bool.false_and]

/-- A character is encoded as one ASCII byte, or as a first byte above those and at least one
continuation byte. -/
lemma utf8EncodeChar_cases (c : Char) :
    (c.toNat < 128 ∧ String.utf8EncodeChar c = [UInt8.ofNat c.toNat]) ∨
      (128 ≤ c.toNat ∧ ∃ b rest, String.utf8EncodeChar c = b :: rest ∧ 192 ≤ b ∧
        rest ≠ [] ∧ ∀ x ∈ rest, isContinuation x = true) := by
  have hfirst : ∀ n : ℕ, 192 ≤ n → n < 256 → 192 ≤ UInt8.ofNat n := by
    intro n h h'
    simp only [UInt8.le_iff_toNat_le, UInt8.toNat_ofNat', UInt8.reduceToNat]
    omega
  fun_cases String.utf8EncodeChar c with
  | case1 v h => exact .inl ⟨Nat.lt_succ_of_le h, rfl⟩
  | case2 v h | case3 v h | case4 v h =>
    refine .inr ⟨by show 128 ≤ v; omega, _, _, rfl, hfirst _ (by omega) (by omega), by simp, ?_⟩
    simp only [List.forall_mem_cons, isContinuation_ofNat, List.not_mem_nil, false_imp_iff,
      implies_true, and_self]

lemma char_le_iff {c d : Char} : c ≤ d ↔ c.toNat ≤ d.toNat := by
  rw [Char.le_def, UInt32.le_iff_toNat_le]
  rfl

/-- The value of an ASCII character is that of its byte. -/
lemma digit?_ofNat {c : Char} (hc : c.toNat < 128) :
    digit? (UInt8.ofNat c.toNat) = valueOf? c := by
  have hbyte : (UInt8.ofNat c.toNat).toNat = c.toNat := by
    rw [UInt8.toNat_ofNat']
    omega
  simp only [digit?, valueOf?, char_le_iff, UInt8.le_iff_toNat_le, hbyte, UInt8.reduceToNat,
    Char.reduceToNat]
  split_ifs with h09 haf hAF
  · rw [UInt8.ofNat_sub h09.1]
    rfl
  · rw [show c.toNat - 97 + 10 = c.toNat - 87 by omega, UInt8.ofNat_sub (by omega)]
    rfl
  · rw [show c.toNat - 65 + 10 = c.toNat - 55 by omega, UInt8.ofNat_sub (by omega)]
    rfl
  · rfl

lemma lt_of_valueOf?_eq_some {c : Char} {x : UInt8} (h : valueOf? c = some x) : c.toNat < 128 := by
  simp only [valueOf?, char_le_iff, Char.reduceToNat] at h
  split_ifs at h
  all_goals omega

lemma utf8_cons_of_lt {c : Char} (hc : c.toNat < 128) (cs : List Char) :
    utf8 (c :: cs) = UInt8.ofNat c.toNat :: utf8 cs := by
  rcases utf8EncodeChar_cases c with ⟨-, hencode⟩ | ⟨hlt, -⟩
  · rw [utf8, List.flatMap_cons, hencode, ← utf8, List.singleton_append]
  · omega

/-- A text whose encoding starts with an ASCII byte starts with that character. -/
lemma utf8_eq_cons {cs : List Char} {b : UInt8} {rest : List UInt8} (h : utf8 cs = b :: rest)
    (hb : b < 128) :
    ∃ c cs', cs = c :: cs' ∧ c.toNat < 128 ∧ UInt8.ofNat c.toNat = b ∧ utf8 cs' = rest := by
  cases cs with
  | nil => cases h
  | cons c cs =>
    rcases utf8EncodeChar_cases c with ⟨hc, -⟩ | ⟨-, first, more, hencode, hfirst, -⟩
    · rw [utf8_cons_of_lt hc] at h
      obtain ⟨hhead, htail⟩ := List.cons.inj h
      exact ⟨c, cs, rfl, hc, hhead, htail⟩
    · rw [utf8, List.flatMap_cons, hencode, List.cons_append] at h
      obtain ⟨rfl, -⟩ := List.cons.inj h
      exact absurd hb (UInt8.not_lt.mpr (UInt8.le_trans (by decide) hfirst))

lemma utf8_eq_nil {cs : List Char} (h : utf8 cs = []) : cs = [] := by
  cases cs with
  | nil => rfl
  | cons c cs => simp [utf8, String.utf8EncodeChar_ne_nil] at h

/-- No text begins with a continuation byte. -/
lemma not_isContinuation_of_utf8 {cs : List Char} {b : UInt8} {rest : List UInt8}
    (h : utf8 cs = b :: rest) : isContinuation b = false := by
  cases cs with
  | nil => cases h
  | cons c cs =>
    rcases utf8EncodeChar_cases c with ⟨hc, -⟩ | ⟨-, first, more, hencode, hfirst, -⟩
    · rw [utf8_cons_of_lt hc] at h
      obtain ⟨rfl, -⟩ := List.cons.inj h
      refine not_isContinuation_of_lt (UInt8.lt_iff_toNat_lt.mpr ?_)
      show (UInt8.ofNat c.toNat).toNat < 128
      rw [UInt8.toNat_ofNat']
      omega
    · rw [utf8, List.flatMap_cons, hencode, List.cons_append] at h
      obtain ⟨rfl, -⟩ := List.cons.inj h
      rw [isContinuation, decide_eq_false (UInt8.not_lt.mpr hfirst), Bool.and_false]

lemma spells_of_decode : ∀ {l : List UInt8} {cs : List Char} {bytes : List UInt8},
    utf8 cs = l → decode l = some bytes → Spells cs bytes
  | [], cs, bytes, hl, h => by
    obtain rfl := Option.some.inj h
    obtain rfl := utf8_eq_nil hl
    exact .nil
  | [_], cs, bytes, hl, h => by cases h
  | a :: b :: rest, cs, bytes, hl, h => by
    obtain ⟨high, low, tail, ha, hb, htail, rfl⟩ := decode_cons_cons_eq_some.mp h
    obtain ⟨c, cs', rfl, hc, rfl, hcs'⟩ := utf8_eq_cons hl (digit?_eq_some ha).1
    obtain ⟨d, cs'', rfl, hd, rfl, hcs''⟩ := utf8_eq_cons hcs' (digit?_eq_some hb).1
    exact .cons ((digit?_ofNat hc).symm.trans ha) ((digit?_ofNat hd).symm.trans hb)
      (spells_of_decode hcs'' htail)

/-- Reading the bytes of a text decides the grammar. -/
theorem decode_utf8_iff {cs : List Char} {bytes : List UInt8} :
    decode (utf8 cs) = some bytes ↔ Spells cs bytes := by
  refine ⟨spells_of_decode rfl, fun h => ?_⟩
  induction h with
  | nil => rfl
  | @cons c d cs high low bytes hc hd _ ih =>
    have hc' := lt_of_valueOf?_eq_some hc
    have hd' := lt_of_valueOf?_eq_some hd
    rw [utf8_cons_of_lt hc', utf8_cons_of_lt hd']
    exact decode_cons_cons_eq_some.mpr ⟨high, low, bytes, (digit?_ofNat hc').trans hc,
      (digit?_ofNat hd').trans hd, ih, rfl⟩

/-- The text of ASCII bytes. -/
def ascii (l : List UInt8) : List Char := l.map Char.ofUInt8

lemma utf8_ascii {l : List UInt8} (h : ∀ b ∈ l, b < 128) : utf8 (ascii l) = l := by
  induction l with
  | nil => rfl
  | cons b l ih =>
    have hb : (Char.ofUInt8 b).toNat = b.toNat := rfl
    have hlt : (Char.ofUInt8 b).toNat < 128 := UInt8.lt_iff_toNat_lt.mp (h b (by simp))
    rw [ascii, List.map_cons, utf8_cons_of_lt hlt, ← ascii, ih fun b' hb' => h b' (by simp [hb']),
      hb, UInt8.ofNat_toNat]

end Hex
