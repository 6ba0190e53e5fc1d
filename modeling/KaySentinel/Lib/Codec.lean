import Mathlib

/-!
# Codecs

Slices of a list by position, which fail out of bounds, and decoders that are the exact
inverse of a partial encoder: `Inverts`.  A decoder is one as soon as it reads back what was
encoded and rejects what is no encoding (`Inverts.of_cases`).
-/

namespace Codec

variable {α T ε ε' : Type}

/-! ## Slices -/

/-- `l[i..j]`, if these are bounds of the list. -/
def slice (l : List α) (i j : ℕ) : Option (List α) :=
  if i ≤ j ∧ j ≤ l.length then some ((l.drop i).take (j - i)) else none

/-- `l[i..]`, if this is a bound of the list. -/
def sliceFrom (l : List α) (i : ℕ) : Option (List α) :=
  if i ≤ l.length then some (l.drop i) else none

/-- A slice is the part of the list between two other parts. -/
lemma slice_eq_some {l u v w : List α} {i j : ℕ} (hl : l = u ++ (v ++ w)) (hi : u.length = i)
    (hj : i + v.length = j) : slice l i j = some v := by
  subst hl hi hj
  rw [slice, if_pos (by simp), List.drop_left, Nat.add_sub_cancel_left, List.take_left]

/-- One of several fields that follow each other, by its bounds. -/
lemma slice_flatten {fields : List (List α)} {v : List α} {k i j : ℕ} (hk : fields[k]? = some v)
    (hi : (fields.take k).flatten.length = i) (hj : i + v.length = j) :
    slice fields.flatten i j = some v := by
  refine slice_eq_some (u := (fields.take k).flatten) (w := (fields.drop (k + 1)).flatten) ?_ hi hj
  obtain ⟨hlt, rfl⟩ := List.getElem?_eq_some_iff.mp hk
  rw [← List.flatten_cons, List.getElem_cons_drop, ← List.flatten_append, List.take_append_drop]

lemma sliceFrom_eq_some {l u v : List α} {i : ℕ} (hl : l = u ++ v) (hi : u.length = i) :
    sliceFrom l i = some v := by
  subst hl hi
  rw [sliceFrom, if_pos (by simp), List.drop_left]

/-- A list splits at any length below its own. -/
lemma exists_append_of_length {l : List α} (m n : ℕ) (h : l.length = m + n) :
    ∃ u v, l = u ++ v ∧ u.length = m ∧ v.length = n :=
  ⟨l.take m, l.drop m, (List.take_append_drop m l).symm, by simp [h], by simp [h]⟩

/-! ## Exact inverses -/

/-- The decoder reads back every encoding, accepts nothing that is no encoding, tells apart
any two lists that it accepts, and fails on the others with an error of its own: it never
comes to `none`, the access out of bounds. -/
structure Inverts (encode : T → Except ε (List α)) (decode : List α → Option (Except ε' T)) :
    Prop where
  decode_encode : ∀ x l, encode x = .ok l → decode l = some (.ok x)
  encode_decode : ∀ x l, decode l = some (.ok x) → encode x = .ok l
  unique : ∀ x l l', decode l = some (.ok x) → decode l' = some (.ok x) → l = l'
  rejects : ∀ l, (∀ x, encode x ≠ .ok l) → ∃ e, decode l = some (.error e)

/-- It is enough that encodings are read back and that every list is one or is refused. -/
lemma Inverts.of_cases {encode : T → Except ε (List α)} {decode : List α → Option (Except ε' T)}
    (hread : ∀ x l, encode x = .ok l → decode l = some (.ok x))
    (hcases : ∀ l, (∃ x, encode x = .ok l) ∨ ∃ e, decode l = some (.error e)) :
    Inverts encode decode := by
  have hencode : ∀ x l, decode l = some (.ok x) → encode x = .ok l := by
    intro x l hdecode
    rcases hcases l with ⟨y, hy⟩ | ⟨e, he⟩
    · have hsame := (hread y l hy).symm.trans hdecode
      obtain rfl := Except.ok.inj (Option.some.inj hsame)
      exact hy
    · rw [he] at hdecode
      exact absurd (Option.some.inj hdecode) (by simp)
  refine ⟨hread, hencode, fun x l l' h h' => ?_, fun l hl => ?_⟩
  · exact Except.ok.inj ((hencode x l h).symm.trans (hencode x l' h'))
  · exact (hcases l).resolve_left fun ⟨x, hx⟩ => hl x hx

end Codec
