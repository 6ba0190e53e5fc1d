import Mathlib

/-!
# Segments of a list

A list is cut into segments of equally many entries.  What is done to a list block by block is
done to each of its segments: `apply_segment`.
-/

namespace Segments

variable {α β : Type*} {n m i : ℕ} {l : List α}

/-- The `i`-th segment of `n` entries. -/
def segment (n i : ℕ) (l : List α) : List α := (l.drop (n * i)).take n

lemma length_segment (h : l.length = n * m) (hi : i < m) : (segment n i l).length = n := by
  have hend : n * (i + 1) ≤ n * m := Nat.mul_le_mul_left n hi
  rw [Nat.mul_succ] at hend
  rw [segment, List.length_take, List.length_drop, h]
  omega

/-- A list with what comes before a segment and what comes after it. -/
lemma take_append_segment (n i : ℕ) (l : List α) :
    l.take (n * i) ++ (segment n i l ++ l.drop (n * (i + 1))) = l := by
  rw [segment, Nat.mul_succ, ← List.drop_drop, List.take_append_drop, List.take_append_drop]

lemma segment_append {u s v : List α} (hu : u.length = n * i) (hs : s.length = n) :
    segment n i (u ++ (s ++ v)) = s := by
  rw [segment, List.drop_left' hu, List.take_left' hs]

lemma segment_one (hi : i < l.length) : segment 1 i l = [l[i]] := by
  rw [segment, Nat.one_mul, List.drop_eq_getElem_cons hi]
  rfl

/-- A function that turns every `b` entries into `c`, one block after the other, turns segments
into segments. -/
lemma apply_segment {f : List α → List β} {b c : ℕ} (hb : 0 < b)
    (happend : ∀ u v, b ∣ u.length → f (u ++ v) = f u ++ f v)
    (hlength : ∀ u, b ∣ u.length → b * (f u).length = c * u.length)
    (h : l.length = b * n * m) (hi : i < m) :
    f (segment (b * n) i l) = segment (c * n) i (f l) := by
  have hend : b * n * (i + 1) ≤ b * n * m := Nat.mul_le_mul_left _ hi
  have hbefore : (l.take (b * n * i)).length = b * (n * i) := by
    rw [Nat.mul_succ] at hend
    rw [List.length_take, h, Nat.min_eq_left (by omega), Nat.mul_assoc]
  have hsegment := length_segment h hi
  have hf : f l = f (l.take (b * n * i)) ++
      (f (segment (b * n) i l) ++ f (l.drop (b * n * (i + 1)))) := by
    rw [← happend _ _ (by rw [hsegment]; exact dvd_mul_right b n),
      ← happend _ _ (by rw [hbefore]; exact dvd_mul_right b _), take_append_segment]
  have hcount : ∀ {u : List α} {k : ℕ}, u.length = b * k → (f u).length = c * k := by
    intro u k hu
    have := hlength u (by rw [hu]; exact dvd_mul_right b k)
    rw [hu, Nat.mul_left_comm] at this
    exact Nat.eq_of_mul_eq_mul_left hb this
  rw [hf, segment_append]
  · rw [hcount hbefore, Nat.mul_assoc]
  · exact hcount hsegment

end Segments
