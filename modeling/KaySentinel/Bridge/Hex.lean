import KaySentinel.Bytes
import KaySentinel.Lib.Codec
import KaySentinel.Lib.Hex

/-!
# Hexadecimal values on the wire

`decodeFixedHex` reads what the tracer writes for an address or a hash, and so does its
counterpart `Emes.decodeFixedHex` on the other side.  The first takes two bytes of the text at a
time and hands them to an integer parser.  That parser takes a plus sign, and two bytes of a text
need not be a slice of it: `decodeFixedHex_meetsGrammar_iff`.
-/

namespace KaySentinel

namespace Bridge

/-! ## Strings and integers of the standard library -/

/-- `str::is_char_boundary`, on the bytes of a string. -/
def isCharBoundary (s : List UInt8) (i : ℕ) : Bool :=
  match s[i]? with
  | none => i == s.length
  | some b => !Hex.isContinuation b

/-- `&s[i..j]`, which panics off the boundaries of characters. -/
def strSlice (s : List UInt8) (i j : ℕ) : Option (List UInt8) :=
  if isCharBoundary s i ∧ isCharBoundary s j then Codec.slice s i j else none

/-- `std::num::IntErrorKind`, of unsigned integers. -/
inductive ParseIntError where
  | empty
  | invalidDigit
  | posOverflow
deriving DecidableEq

/-- The loop of `u8::from_str_radix` over the digits. -/
def parseDigits (result : UInt8) : List UInt8 → Except ParseIntError UInt8
  | [] => .ok result
  | c :: rest =>
      match Hex.digit? c with
      | none => .error .invalidDigit
      | some x =>
          if result.toNat * 16 + x.toNat < 256 then parseDigits (result * 16 + x) rest
          else .error .posOverflow

/-- `u8::from_str_radix(src, 16)`.  A plus sign may precede the digits; a minus sign is no digit
of an unsigned integer. -/
def u8FromStrRadix16 : List UInt8 → Except ParseIntError UInt8
  | [] => .error .empty
  | [c] => if c = 43 ∨ c = 45 then .error .invalidDigit else parseDigits 0 [c]
  | c :: rest => if c = 43 then parseDigits 0 rest else parseDigits 0 (c :: rest)

/-! ## Decoding -/

/-- What the error texts of the decoder are made of. -/
inductive HexError where
  | notPrefixed (s : String)
  | oddLength (s : List UInt8)
  | parseInt (e : ParseIntError)
  | wrongLength (actual expected : ℕ)
deriving DecidableEq

/-- The closure of `hex_decode`: the byte at an offset. -/
def decodePair (s : List UInt8) (i : ℕ) : ExceptT HexError Option UInt8 := do
  let digits ← strSlice s i (i + 2)
  match u8FromStrRadix16 digits with
  | .error e => throw (.parseInt e)
  | .ok b => return b

def hexDecode (s : List UInt8) : ExceptT HexError Option (List UInt8) := do
  if s.length % 2 ≠ 0 then
    throw (.oddLength s)
  (List.range' 0 (s.length / 2) 2).mapM (decodePair s)

/-- `strip_prefix("0x")` -/
def stripPrefix0x : List UInt8 → Option (List UInt8)
  | 48 :: 120 :: rest => some rest
  | _ => none

/-- `decode_fixed_hex::<N>`; no result is a panic. -/
def decodeFixedHex (N : ℕ) (s : String) : Option (Except HexError (Bytes N)) := ExceptT.run do
  match stripPrefix0x (Hex.utf8 s.toList) with
  | none => throw (.notPrefixed s)
  | some rest => do
      let bytes ← hexDecode rest
      if h : bytes.length = N then return ⟨bytes, h⟩
      else throw (.wrongLength bytes.length N)

/-! ## The loop over the pairs -/

/-- Two digits do not overflow a byte. -/
lemma parseDigits_pair {a b x : UInt8} :
    parseDigits 0 [a, b] = .ok x ↔
      ∃ high low, Hex.digit? a = some high ∧ Hex.digit? b = some low ∧ x = high * 16 + low := by
  cases ha : Hex.digit? a with
  | none => simp [parseDigits, ha]
  | some high =>
    have hhigh : high.toNat < 16 := UInt8.lt_iff_toNat_lt.mp (Hex.digit?_eq_some ha).2.2
    have hsmall : high.toNat < 256 := by omega
    cases hb : Hex.digit? b with
    | none => simp [parseDigits, ha, hb, hsmall]
    | some low =>
      have hlow : low.toNat < 16 := UInt8.lt_iff_toNat_lt.mp (Hex.digit?_eq_some hb).2.2
      have hfit : high.toNat * 16 + low.toNat < 256 := by omega
      simp [parseDigits, ha, hb, hsmall, hfit, eq_comm]

/-- What the integer parser takes for two digits. -/
lemma u8FromStrRadix16_pair {a b x : UInt8} :
    u8FromStrRadix16 [a, b] = .ok x ↔
      (∃ high low, Hex.digit? a = some high ∧ Hex.digit? b = some low ∧ x = high * 16 + low) ∨
        (a = 43 ∧ Hex.digit? b = some x) := by
  by_cases ha : a = 43
  · subst ha
    have hsign : Hex.digit? 43 = none := by decide
    cases hb : Hex.digit? b with
    | none => simp [u8FromStrRadix16, parseDigits, hsign, hb]
    | some low =>
      have hlow := low.toNat_lt
      simp [u8FromStrRadix16, parseDigits, hsign, hb, hlow]
  · have hpair : u8FromStrRadix16 [a, b] = parseDigits 0 [a, b] := by
      simp only [u8FromStrRadix16, if_neg ha]
    rw [hpair, parseDigits_pair]
    simp [ha]

/-- The pairs that are taken for bytes: two digits, or a plus sign and a digit. -/
inductive Pairs : List UInt8 → List UInt8 → Prop
  | nil : Pairs [] []
  | digits {a b high low : UInt8} {l bytes : List UInt8} (ha : Hex.digit? a = some high)
      (hb : Hex.digit? b = some low) (h : Pairs l bytes) :
      Pairs (a :: b :: l) ((high * 16 + low) :: bytes)
  | sign {b low : UInt8} {l bytes : List UInt8} (hb : Hex.digit? b = some low)
      (h : Pairs l bytes) : Pairs (43 :: b :: l) (low :: bytes)

lemma pairs_cons_cons {a b : UInt8} {l bytes : List UInt8} :
    Pairs (a :: b :: l) bytes ↔
      ∃ x tail, u8FromStrRadix16 [a, b] = .ok x ∧ Pairs l tail ∧ bytes = x :: tail := by
  simp only [u8FromStrRadix16_pair]
  constructor
  · intro h
    cases h with
    | digits ha hb h => exact ⟨_, _, .inl ⟨_, _, ha, hb, rfl⟩, h, rfl⟩
    | sign hb h => exact ⟨_, _, .inr ⟨rfl, hb⟩, h, rfl⟩
  · rintro ⟨x, tail, ⟨high, low, ha, hb, rfl⟩ | ⟨rfl, hb⟩, h, rfl⟩
    · exact .digits ha hb h
    · exact .sign hb h

/-- The bytes begin inside a character. -/
def startsInside (l : List UInt8) : Bool := l.head?.any Hex.isContinuation

lemma Pairs.startsInside {l bytes : List UInt8} (h : Pairs l bytes) : startsInside l = false := by
  cases h with
  | nil => rfl
  | digits ha hb h => exact Hex.not_isContinuation_of_lt (Hex.digit?_eq_some ha).1
  | sign hb h => rfl

/-- After some pairs that are taken for bytes, the next two bytes are no slice of the text. -/
def OffBoundary (l : List UInt8) : Prop :=
  ∃ pairs bytes a b rest, l = pairs ++ a :: b :: rest ∧ Pairs pairs bytes ∧
    startsInside rest = true

lemma isCharBoundary_append (pre l : List UInt8) :
    isCharBoundary (pre ++ l) pre.length = !startsInside l := by
  cases l with
  | nil => simp [isCharBoundary, startsInside]
  | cons b l => simp [isCharBoundary, startsInside]

/-- Two bytes on a boundary. -/
lemma strSlice_pair {pre rest : List UInt8} {a b : UInt8}
    (hpre : startsInside (a :: b :: rest) = false) :
    strSlice (pre ++ a :: b :: rest) pre.length (pre.length + 2) =
      if startsInside rest then none else some [a, b] := by
  have hnext : isCharBoundary (pre ++ a :: b :: rest) (pre.length + 2) = !startsInside rest := by
    have h := isCharBoundary_append (pre ++ [a, b]) rest
    rwa [List.append_assoc, List.length_append] at h
  have hslice : Codec.slice (pre ++ a :: b :: rest) pre.length (pre.length + 2) = some [a, b] :=
    Codec.slice_eq_some (v := [a, b]) rfl rfl rfl
  rw [strSlice, isCharBoundary_append, hpre, hnext, hslice]
  cases startsInside rest <;> rfl

/-- What is off a boundary is not all pairs. -/
lemma OffBoundary.not_pairs {l bytes : List UInt8} (h : OffBoundary l) : ¬ Pairs l bytes := by
  obtain ⟨pairs, read, a, b, rest, rfl, hpairs, hinside⟩ := h
  intro hall
  induction hpairs generalizing bytes with
  | nil =>
    obtain ⟨x, tail, -, hrest, -⟩ := pairs_cons_cons.mp hall
    rw [hrest.startsInside] at hinside
    cases hinside
  | digits ha hb h ih | sign hb h ih =>
    obtain ⟨x, tail, -, hrest, -⟩ := pairs_cons_cons.mp hall
    exact ih hrest

lemma offBoundary_cons_cons {a b : UInt8} {l : List UInt8} :
    OffBoundary (a :: b :: l) ↔ startsInside l = true ∨
      ((∃ x, u8FromStrRadix16 [a, b] = .ok x) ∧ OffBoundary l) := by
  constructor
  · rintro ⟨pairs, bytes, c, d, rest, heq, hpairs, hinside⟩
    cases hpairs with
    | nil =>
      obtain ⟨rfl, rfl, rfl⟩ : a = c ∧ b = d ∧ l = rest := by simpa using heq
      exact .inl hinside
    | digits ha hb h =>
      obtain ⟨rfl, rfl, rfl⟩ : a = _ ∧ b = _ ∧ l = _ := by simpa using heq
      exact .inr ⟨⟨_, u8FromStrRadix16_pair.mpr (.inl ⟨_, _, ha, hb, rfl⟩)⟩,
        _, _, c, d, rest, rfl, h, hinside⟩
    | sign hb h =>
      obtain ⟨rfl, rfl, rfl⟩ : a = _ ∧ b = _ ∧ l = _ := by simpa using heq
      exact .inr ⟨⟨_, u8FromStrRadix16_pair.mpr (.inr ⟨rfl, hb⟩)⟩,
        _, _, c, d, rest, rfl, h, hinside⟩
  · rintro (hinside | ⟨⟨x, hx⟩, pairs, bytes, c, d, rest, rfl, hpairs, hinside⟩)
    · exact ⟨[], [], a, b, l, rfl, .nil, hinside⟩
    · exact ⟨a :: b :: pairs, x :: bytes, c, d, rest, rfl,
        pairs_cons_cons.mpr ⟨x, bytes, hx, hpairs, rfl⟩, hinside⟩

/-- The loop over the pairs reads them all, fails at the first one that is no pair, or panics at
the first one that is no slice. -/
lemma mapM_decodePair (pre l : List UInt8) (n : ℕ) (hlen : l.length = 2 * n)
    (hpre : startsInside l = false) :
    (∃ bytes, ((List.range' pre.length n 2).mapM (decodePair (pre ++ l))).run = some (.ok bytes) ∧
        Pairs l bytes) ∨
      (∃ e, ((List.range' pre.length n 2).mapM (decodePair (pre ++ l))).run = some (.error e) ∧
        (∀ bytes, ¬ Pairs l bytes) ∧ ¬ OffBoundary l) ∨
      (((List.range' pre.length n 2).mapM (decodePair (pre ++ l))).run = none ∧
        OffBoundary l) := by
  induction n generalizing pre l with
  | zero =>
    obtain rfl := List.length_eq_zero_iff.mp hlen
    exact .inl ⟨[], rfl, .nil⟩
  | succ n ih =>
    obtain ⟨a, b, rest, rfl⟩ : ∃ a b rest, l = a :: b :: rest := by
      match l, hlen with
      | a :: b :: rest, _ => exact ⟨a, b, rest, rfl⟩
    have hslice := @strSlice_pair pre _ _ _ hpre
    rw [List.range'_succ, List.mapM_cons]
    cases hinside : startsInside rest with
    | true =>
      refine .inr (.inr ⟨?_, offBoundary_cons_cons.mpr (.inl hinside)⟩)
      rw [hinside] at hslice
      simp [decodePair, hslice]
    | false =>
      rw [hinside] at hslice
      cases hpair : u8FromStrRadix16 [a, b] with
      | error e =>
        refine .inr (.inl ⟨.parseInt e, ?_, fun bytes hall => ?_, fun hoff => ?_⟩)
        · simp [decodePair, hslice, hpair]
        · obtain ⟨x, tail, hx, -, -⟩ := pairs_cons_cons.mp hall
          rw [hpair] at hx
          cases hx
        · rcases offBoundary_cons_cons.mp hoff with h | ⟨⟨x, hx⟩, -⟩
          · rw [hinside] at h
            cases h
          · rw [hpair] at hx
            cases hx
      | ok x =>
        have hrest : rest.length = 2 * n := by
          simp only [List.length_cons] at hlen
          omega
        have hhead : (decodePair (pre ++ a :: b :: rest) pre.length).run = some (.ok x) := by
          simp [decodePair, hslice, hpair]
        have hnext : pre ++ [a, b] ++ rest = pre ++ a :: b :: rest := by simp
        have hlength : (pre ++ [a, b]).length = pre.length + 2 := by simp
        have hih := ih (pre ++ [a, b]) rest hrest hinside
        rw [hnext, hlength] at hih
        rcases hih with ⟨bytes, hloop, hpairs⟩ | ⟨e, hloop, hnot, hon⟩ | ⟨hloop, hoff⟩
        · refine .inl ⟨x :: bytes, ?_, pairs_cons_cons.mpr ⟨x, bytes, hpair, hpairs, rfl⟩⟩
          simp [hhead, hloop, Except.map]
        · refine .inr (.inl ⟨e, ?_, fun bytes hall => ?_, fun hoff => ?_⟩)
          · simp [hhead, hloop, Except.map]
          · obtain ⟨-, tail, -, htail, -⟩ := pairs_cons_cons.mp hall
            exact hnot tail htail
          · rcases offBoundary_cons_cons.mp hoff with h | ⟨-, h⟩
            · rw [hinside] at h
              cases h
            · exact hon h
        · refine .inr (.inr ⟨?_, offBoundary_cons_cons.mpr (.inr ⟨⟨x, hpair⟩, hoff⟩)⟩)
          simp [hhead, hloop]

end Bridge

/-! ## The decoder of the tracer -/

namespace Emes

inductive HexError where
  | notPrefixed
  | invalidByte (b : UInt8)
  | oddLength
  | wrongLength
deriving DecidableEq

/-- `hex.DecodeString` -/
def hexDecodeString : List UInt8 → Except HexError (List UInt8)
  | [] => .ok []
  | [p] =>
      match Hex.digit? p with
      | none => .error (.invalidByte p)
      | some _ => .error .oddLength
  | p :: q :: rest =>
      match Hex.digit? p with
      | none => .error (.invalidByte p)
      | some a =>
          match Hex.digit? q with
          | none => .error (.invalidByte q)
          | some b => (hexDecodeString rest).map fun decoded => (a * 16 + b) :: decoded

/-- `decodeFixedHex` into an array of `n` bytes. -/
def decodeFixedHex (n : ℕ) (s : List UInt8) : Except HexError (Bytes n) :=
  if s.length < 2 ∨ s.take 2 ≠ [48, 120] then .error .notPrefixed
  else
    match hexDecodeString (s.drop 2) with
    | .error e => .error e
    | .ok decoded => if h : decoded.length = n then .ok ⟨decoded, h⟩ else .error .wrongLength

lemma hexDecodeString_eq_ok_iff : ∀ {l bytes : List UInt8},
    hexDecodeString l = .ok bytes ↔ Hex.decode l = some bytes
  | [], bytes => by simp [hexDecodeString, Hex.decode]
  | [p], bytes => by cases hp : Hex.digit? p <;> simp [hexDecodeString, Hex.decode, hp]
  | p :: q :: rest, bytes => by
    have ih := @hexDecodeString_eq_ok_iff rest
    rw [Hex.decode_cons_cons_eq_some, hexDecodeString]
    cases hp : Hex.digit? p with
    | none => simp
    | some a =>
      cases hq : Hex.digit? q with
      | none => simp
      | some b =>
        cases hrest : hexDecodeString rest with
        | error e =>
          have hnone : Hex.decode rest = none := by
            cases hdecode : Hex.decode rest with
            | none => rfl
            | some tail =>
              rw [ih.mpr hdecode] at hrest
              cases hrest
          simp [Except.map, hnone]
        | ok tail => simp [Except.map, ih.mp hrest, eq_comm]

/-- The decoder takes "0x" and the digits of `n` bytes. -/
lemma decodeFixedHex_eq_ok_iff {n : ℕ} {s : List UInt8} {b : Bytes n} :
    decodeFixedHex n s = .ok b ↔
      ∃ rest, s = 48 :: 120 :: rest ∧ Hex.decode rest = some b.toList := by
  by_cases hprefix : s.length < 2 ∨ s.take 2 ≠ [48, 120]
  · rw [decodeFixedHex, if_pos hprefix]
    refine ⟨nofun, ?_⟩
    rintro ⟨rest, rfl, -⟩
    simp at hprefix
  · obtain ⟨rest, rfl⟩ : ∃ rest, s = 48 :: 120 :: rest := by
      refine ⟨s.drop 2, ?_⟩
      conv_lhs => rw [← List.take_append_drop 2 s, not_not.mp (not_or.mp hprefix).2]
      rfl
    rw [decodeFixedHex, if_neg hprefix]
    simp only [List.drop_succ_cons, List.drop_zero, List.cons.injEq, true_and, exists_eq_left',
      ← hexDecodeString_eq_ok_iff]
    cases hexDecodeString rest with
    | error e => simp
    | ok decoded =>
      by_cases hn : decoded.length = n
      · simp only [dif_pos hn]
        constructor
        · intro h
          rw [← Except.ok.inj h]
          rfl
        · intro h
          have hvector : (⟨decoded, hn⟩ : Bytes n) = b := Bytes.toList_inj.mp (Except.ok.inj h)
          rw [hvector]
      · simp only [dif_neg hn, reduceCtorEq, Except.ok.injEq, false_iff]
        rintro rfl
        exact hn b.toList_length

end Emes

namespace Bridge

/-! ## What the decoders accept -/

/-- The string is "0x" and two hexadecimal digits for each of the `N` bytes. -/
def Denotes {N : ℕ} (s : String) (b : Bytes N) : Prop :=
  ∃ cs, s.toList = '0' :: 'x' :: cs ∧ Hex.Spells cs b.toList

/-- The decoder agrees with the grammar and with the tracer's decoder, and fails with an error on
every other string. -/
structure MeetsGrammar (N : ℕ) (s : String) : Prop where
  accepts : ∀ b : Bytes N, decodeFixedHex N s = some (.ok b) ↔ Denotes s b
  agrees : ∀ b : Bytes N, decodeFixedHex N s = some (.ok b) ↔
    Emes.decodeFixedHex N (Hex.utf8 s.toList) = .ok b
  rejects : (∀ b : Bytes N, ¬ Denotes s b) → ∃ e, decodeFixedHex N s = some (.error e)

/-- The string is "0x" and `N` pairs, and there is a plus sign in one. -/
def Signed (N : ℕ) (s : String) : Prop :=
  ∃ cs bytes, s.toList = '0' :: 'x' :: cs ∧ Pairs (Hex.utf8 cs) bytes ∧ bytes.length = N ∧
    43 ∈ Hex.utf8 cs

/-- The string is "0x" and an even number of bytes, which after some pairs do not continue with
two bytes that are a slice of it. -/
def Misaligned (s : String) : Prop :=
  ∃ cs, s.toList = '0' :: 'x' :: cs ∧ (Hex.utf8 cs).length % 2 = 0 ∧ OffBoundary (Hex.utf8 cs)

lemma stripPrefix0x_eq_some {l rest : List UInt8} :
    stripPrefix0x l = some rest ↔ l = 48 :: 120 :: rest := by
  constructor
  · intro h
    rw [stripPrefix0x.eq_def] at h
    split at h
    · rw [Option.some.inj h]
    · cases h
  · rintro rfl
    rfl

/-- The prefix of the bytes is that of the characters. -/
lemma stripPrefix0x_utf8 {cs : List Char} {rest : List UInt8} :
    stripPrefix0x (Hex.utf8 cs) = some rest ↔
      ∃ cs', cs = '0' :: 'x' :: cs' ∧ Hex.utf8 cs' = rest := by
  rw [stripPrefix0x_eq_some]
  constructor
  · intro h
    obtain ⟨c, cs', rfl, hc, hc48, hcs'⟩ := Hex.utf8_eq_cons h (by decide)
    obtain ⟨d, cs'', rfl, hd, hd120, hcs''⟩ := Hex.utf8_eq_cons hcs' (by decide)
    have hchar : ∀ {e : Char} {n : ℕ}, e.toNat < 128 → n < 128 →
        UInt8.ofNat e.toNat = UInt8.ofNat n → e.toNat = n := by
      intro e n he hn heq
      have hnat := congrArg UInt8.toNat heq
      rw [UInt8.toNat_ofNat', UInt8.toNat_ofNat'] at hnat
      omega
    obtain rfl : c = '0' := Char.toNat_inj.mp (hchar hc (by decide) hc48)
    obtain rfl : d = 'x' := Char.toNat_inj.mp (hchar hd (by decide) hd120)
    exact ⟨cs'', rfl, hcs''⟩
  · rintro ⟨cs', rfl, rfl⟩
    rfl

lemma startsInside_utf8 (cs : List Char) : startsInside (Hex.utf8 cs) = false := by
  cases h : Hex.utf8 cs with
  | nil => rfl
  | cons b rest => exact Hex.not_isContinuation_of_utf8 h

lemma Pairs.length_eq {l bytes : List UInt8} (h : Pairs l bytes) : l.length = 2 * bytes.length := by
  induction h with
  | nil => rfl
  | digits ha hb h ih | sign hb h ih =>
    simp only [List.length_cons]
    omega

lemma pairs_of_decode : ∀ {l bytes : List UInt8}, Hex.decode l = some bytes →
    Pairs l bytes ∧ 43 ∉ l
  | [], bytes, h => by
    obtain rfl := Option.some.inj h
    exact ⟨.nil, by simp⟩
  | [_], bytes, h => by cases h
  | a :: b :: rest, bytes, h => by
    obtain ⟨high, low, tail, ha, hb, htail, rfl⟩ := Hex.decode_cons_cons_eq_some.mp h
    obtain ⟨hpairs, hsign⟩ := pairs_of_decode htail
    refine ⟨.digits ha hb hpairs, ?_⟩
    simp [(Hex.digit?_eq_some ha).2.1.symm, (Hex.digit?_eq_some hb).2.1.symm, hsign]

/-- Pairs without a sign are pairs of digits. -/
lemma decode_eq_some_iff {l bytes : List UInt8} :
    Hex.decode l = some bytes ↔ Pairs l bytes ∧ 43 ∉ l := by
  refine ⟨pairs_of_decode, ?_⟩
  rintro ⟨h, hsign⟩
  induction h with
  | nil => rfl
  | digits ha hb h ih =>
    exact Hex.decode_cons_cons_eq_some.mpr
      ⟨_, _, _, ha, hb, ih fun hmem => hsign (by simp [hmem]), rfl⟩
  | sign hb h ih => exact absurd (by simp) hsign

lemma Denotes.pairs {N : ℕ} {s : String} {b : Bytes N} (h : Denotes s b) {cs : List Char}
    (hs : s.toList = '0' :: 'x' :: cs) : Pairs (Hex.utf8 cs) b.toList ∧ 43 ∉ Hex.utf8 cs := by
  obtain ⟨cs', hs', hspells⟩ := h
  obtain rfl : cs' = cs := by simpa using hs'.symm.trans hs
  exact pairs_of_decode (Hex.decode_utf8_iff.mpr hspells)

/-- The decoder of a text of any length. -/
lemma hexDecode_cases {l : List UInt8} (hstart : startsInside l = false) :
    (∃ bytes, (hexDecode l).run = some (.ok bytes) ∧ Pairs l bytes) ∨
      (∃ e, (hexDecode l).run = some (.error e) ∧ (∀ bytes, ¬ Pairs l bytes) ∧
        ¬ (l.length % 2 = 0 ∧ OffBoundary l)) ∨
      ((hexDecode l).run = none ∧ l.length % 2 = 0 ∧ OffBoundary l) := by
  by_cases heven : l.length % 2 = 0
  · have hrun : (hexDecode l).run = ((List.range' 0 (l.length / 2) 2).mapM (decodePair l)).run := by
      simp [hexDecode, heven]
    rw [hrun]
    have hlen : l.length = 2 * (l.length / 2) := by omega
    rcases mapM_decodePair [] l _ hlen hstart with
      ⟨bytes, hloop, hpairs⟩ | ⟨e, hloop, hnot, hon⟩ | ⟨hloop, hoff⟩
    · exact .inl ⟨bytes, hloop, hpairs⟩
    · exact .inr (.inl ⟨e, hloop, hnot, fun h => hon h.2⟩)
    · exact .inr (.inr ⟨hloop, heven, hoff⟩)
  · refine .inr (.inl ⟨.oddLength l, by simp [hexDecode, heven], fun bytes hpairs => ?_,
      fun h => heven h.1⟩)
    have hlen := hpairs.length_eq
    omega

/-- What the decoder does with the text after the prefix. -/
lemma decodeFixedHex_cases (N : ℕ) {s : String} {cs : List Char}
    (hs : s.toList = '0' :: 'x' :: cs) :
    (∃ b : Bytes N, decodeFixedHex N s = some (.ok b) ∧ Pairs (Hex.utf8 cs) b.toList) ∨
      (∃ e, decodeFixedHex N s = some (.error e) ∧
        (∀ b : Bytes N, ¬ Pairs (Hex.utf8 cs) b.toList) ∧ ¬ Misaligned s) ∨
      (decodeFixedHex N s = none ∧ Misaligned s) := by
  have hstrip : stripPrefix0x (Hex.utf8 s.toList) = some (Hex.utf8 cs) :=
    stripPrefix0x_utf8.mpr ⟨cs, hs, rfl⟩
  have hmisaligned : Misaligned s ↔
      (Hex.utf8 cs).length % 2 = 0 ∧ OffBoundary (Hex.utf8 cs) := by
    simp [Misaligned, hs]
  rw [hmisaligned]
  rcases hexDecode_cases (startsInside_utf8 cs) with
    ⟨bytes, hrun, hpairs⟩ | ⟨e, hrun, hnot, hon⟩ | ⟨hrun, hoff⟩
  · by_cases hN : bytes.length = N
    · refine .inl ⟨⟨bytes, hN⟩, ?_, hpairs⟩
      simp [decodeFixedHex, hstrip, hrun, hN]
      rfl
    · refine .inr (.inl ⟨.wrongLength bytes.length N, by simp [decodeFixedHex, hstrip, hrun, hN],
        fun b hb => ?_, fun h => h.2.not_pairs hpairs⟩)
      have hlen := hpairs.length_eq
      have hlen' := hb.length_eq
      rw [List.Vector.toList_length] at hlen'
      omega
  · exact .inr (.inl ⟨e, by simp [decodeFixedHex, hstrip, hrun], fun b => hnot b.toList, hon⟩)
  · exact .inr (.inr ⟨by simp [decodeFixedHex, hstrip, hrun], hoff⟩)

/-- Without the prefix there is an error. -/
lemma decodeFixedHex_of_not_prefixed (N : ℕ) {s : String}
    (hs : ∀ cs, s.toList ≠ '0' :: 'x' :: cs) :
    decodeFixedHex N s = some (.error (.notPrefixed s)) := by
  cases hstrip : stripPrefix0x (Hex.utf8 s.toList) with
  | none => simp [decodeFixedHex, hstrip]
  | some rest =>
    obtain ⟨cs, hcs, -⟩ := stripPrefix0x_utf8.mp hstrip
    exact absurd hcs (hs cs)

/-- The decoder reads everything that denotes bytes. -/
lemma decodeFixedHex_of_denotes {N : ℕ} {s : String} {b : Bytes N} (h : Denotes s b) :
    decodeFixedHex N s = some (.ok b) := by
  obtain ⟨cs, hs, -⟩ := id h
  obtain ⟨hpairs, hsign⟩ := h.pairs hs
  rcases decodeFixedHex_cases N hs with ⟨b', hok, hpairs'⟩ | ⟨e, -, hnot, -⟩ | ⟨-, hoff⟩
  · have hread := decode_eq_some_iff.mpr ⟨hpairs, hsign⟩
    rw [decode_eq_some_iff.mpr ⟨hpairs', hsign⟩] at hread
    rw [hok, Bytes.toList_inj.mp (Option.some.inj hread)]
  · exact absurd hpairs (hnot b)
  · obtain ⟨cs', hs', -, hoff⟩ := hoff
    obtain rfl : cs' = cs := by simpa using hs'.symm.trans hs
    exact absurd hpairs hoff.not_pairs

/-- The decoder of the tracer accepts exactly what denotes bytes. -/
lemma emes_decodeFixedHex_eq_ok_iff {N : ℕ} {s : String} {b : Bytes N} :
    Emes.decodeFixedHex N (Hex.utf8 s.toList) = .ok b ↔ Denotes s b := by
  rw [Emes.decodeFixedHex_eq_ok_iff]
  simp only [← stripPrefix0x_eq_some, stripPrefix0x_utf8]
  constructor
  · rintro ⟨rest, ⟨cs, hs, rfl⟩, hdecode⟩
    exact ⟨cs, hs, Hex.decode_utf8_iff.mp hdecode⟩
  · rintro ⟨cs, hs, hspells⟩
    exact ⟨_, ⟨cs, hs, rfl⟩, Hex.decode_utf8_iff.mpr hspells⟩

lemma denotes_of_pairs {N : ℕ} {s : String} {b : Bytes N} {cs : List Char}
    (hs : s.toList = '0' :: 'x' :: cs) (hpairs : Pairs (Hex.utf8 cs) b.toList)
    (hunsigned : ¬ Signed N s) : Denotes s b := by
  refine ⟨cs, hs, Hex.decode_utf8_iff.mp (decode_eq_some_iff.mpr ⟨hpairs, fun hsign => ?_⟩)⟩
  exact hunsigned ⟨cs, b.toList, hs, hpairs, b.toList_length, hsign⟩

/-- **Hexadecimal values.**  The decoder agrees with the grammar, and with the tracer's decoder,
on all strings but two kinds: `N` pairs with a plus sign in one, which it accepts, and texts that
it would cut inside a character, on which it panics. -/
theorem decodeFixedHex_meetsGrammar_iff (N : ℕ) (s : String) :
    MeetsGrammar N s ↔ ¬ Signed N s ∧ ¬ Misaligned s := by
  constructor
  · intro h
    constructor
    · rintro ⟨cs, bytes, hs, hpairs, rfl, hsign⟩
      rcases decodeFixedHex_cases bytes.length hs with ⟨b, hok, -⟩ | ⟨e, -, hnot, -⟩ | ⟨-, hoff⟩
      · exact ((h.accepts b).mp hok).pairs hs |>.2 hsign
      · exact hnot ⟨bytes, rfl⟩ hpairs
      · obtain ⟨cs', hs', -, hoff⟩ := hoff
        obtain rfl : cs' = cs := by simpa using hs'.symm.trans hs
        exact hoff.not_pairs hpairs
    · rintro hoff
      obtain ⟨cs, hs, -, hcut⟩ := id hoff
      have hnone : decodeFixedHex N s = none := by
        rcases decodeFixedHex_cases N hs with ⟨b, -, hpairs⟩ | ⟨e, -, -, hnot⟩ | ⟨hnone, -⟩
        · exact absurd hpairs hcut.not_pairs
        · exact absurd hoff hnot
        · exact hnone
      obtain ⟨e, he⟩ := h.rejects fun b hb => hcut.not_pairs (hb.pairs hs).1
      rw [hnone] at he
      cases he
  · rintro ⟨hunsigned, hon⟩
    have haccepts : ∀ b : Bytes N, decodeFixedHex N s = some (.ok b) ↔ Denotes s b := by
      refine fun b => ⟨fun hok => ?_, decodeFixedHex_of_denotes⟩
      by_cases hprefix : ∃ cs, s.toList = '0' :: 'x' :: cs
      · obtain ⟨cs, hs⟩ := hprefix
        rcases decodeFixedHex_cases N hs with ⟨b', hok', hpairs⟩ | ⟨e, he, -⟩ | ⟨hnone, -⟩
        · obtain rfl : b' = b := by simpa [hok'] using hok
          exact denotes_of_pairs hs hpairs hunsigned
        · simp [he] at hok
        · simp [hnone] at hok
      · rw [decodeFixedHex_of_not_prefixed N (not_exists.mp hprefix)] at hok
        cases hok
    refine ⟨haccepts, fun b => (haccepts b).trans emes_decodeFixedHex_eq_ok_iff.symm,
      fun hnot => ?_⟩
    by_cases hprefix : ∃ cs, s.toList = '0' :: 'x' :: cs
    · obtain ⟨cs, hs⟩ := hprefix
      rcases decodeFixedHex_cases N hs with ⟨b, -, hpairs⟩ | ⟨e, he, -⟩ | ⟨-, hoff⟩
      · exact absurd (denotes_of_pairs hs hpairs hunsigned) (hnot b)
      · exact ⟨e, he⟩
      · exact absurd hoff hon
    · exact ⟨_, decodeFixedHex_of_not_prefixed N (not_exists.mp hprefix)⟩

/-- Twenty pairs of a plus sign and a digit. -/
def signedText : String := "0x+a+a+a+a+a+a+a+a+a+a+a+a+a+a+a+a+a+a+a+a"

/-- The first pair ends inside a character. -/
def cutText : String := "0xaéb"

/-- The decoder accepts the first text and panics on the second one; the tracer's rejects both. -/
theorem not_meetsGrammar :
    (decodeFixedHex 20 signedText = some (.ok (Bytes.fill 20 10)) ∧
      Emes.decodeFixedHex 20 (Hex.utf8 signedText.toList) = .error (.invalidByte 43) ∧
      ¬ MeetsGrammar 20 signedText) ∧
    (decodeFixedHex 20 cutText = none ∧
      Emes.decodeFixedHex 20 (Hex.utf8 cutText.toList) = .error (.invalidByte 195) ∧
      ¬ MeetsGrammar 20 cutText) := by
  have hsigned : decodeFixedHex 20 signedText = some (.ok (Bytes.fill 20 10)) := by decide +kernel
  have hsigned' : Emes.decodeFixedHex 20 (Hex.utf8 signedText.toList) =
      .error (.invalidByte 43) := by decide +kernel
  have hcut : decodeFixedHex 20 cutText = none := by decide +kernel
  have hcut' : Emes.decodeFixedHex 20 (Hex.utf8 cutText.toList) = .error (.invalidByte 195) := by
    decide +kernel
  refine ⟨⟨hsigned, hsigned', fun h => ?_⟩, hcut, hcut', fun h => ?_⟩
  · have hok := (h.agrees _).mp hsigned
    rw [hsigned'] at hok
    cases hok
  · obtain ⟨e, he⟩ := h.rejects fun b hb => by
      have hok := emes_decodeFixedHex_eq_ok_iff.mpr hb
      rw [hcut'] at hok
      cases hok
    rw [hcut] at he
    cases he

end Bridge

end KaySentinel
