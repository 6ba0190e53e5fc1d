import Mathlib

/-!
# The first difference

Where two lists first differ, found by going through both at once.  Lists of one length have no
difference exactly if they are the same, and the first difference of two encodings lies where the
first elements that differ are encoded: `firstDiff_flatMap`.
-/

namespace FirstDiff

variable {α : Type*} [DecidableEq α]

/-- The first place at which both lists go on and differ, if their first elements have the
place `i`. -/
def firstDiff : ℕ → List α → List α → Option ℕ
  | i, a :: as, b :: bs => if a ≠ b then some i else firstDiff (i + 1) as bs
  | _, _, _ => none

variable {i k : ℕ} {as bs u v : List α}

lemma firstDiff_cons_self (i : ℕ) (a : α) (as bs : List α) :
    firstDiff i (a :: as) (a :: bs) = firstDiff (i + 1) as bs :=
  if_neg (by simp)

lemma firstDiff_cons_of_ne {a b : α} (h : a ≠ b) (i : ℕ) (as bs : List α) :
    firstDiff i (a :: as) (b :: bs) = some i :=
  if_pos h

lemma firstDiff_add (i k : ℕ) (as bs : List α) :
    firstDiff (i + k) as bs = (firstDiff k as bs).map (i + ·) := by
  induction as generalizing k bs with
  | nil => rfl
  | cons a as ih =>
    cases bs with
    | nil => rfl
    | cons b bs =>
      by_cases hab : a = b
      · subst hab
        rw [firstDiff_cons_self, firstDiff_cons_self, Nat.add_assoc, ih]
      · rw [firstDiff_cons_of_ne hab, firstDiff_cons_of_ne hab, Option.map_some]

/-- What both lists begin with is skipped. -/
lemma firstDiff_append (i : ℕ) (u as bs : List α) :
    firstDiff i (u ++ as) (u ++ bs) = firstDiff (i + u.length) as bs := by
  induction u generalizing i with
  | nil => rfl
  | cons a u ih =>
    rw [List.cons_append, List.cons_append, firstDiff_cons_self, ih, List.length_cons,
      Nat.add_assoc, Nat.add_comm 1]

/-- What comes after a difference does not matter. -/
lemma firstDiff_append_of_eq_some (h : firstDiff i u v = some k) (as bs : List α) :
    firstDiff i (u ++ as) (v ++ bs) = some k := by
  induction u generalizing i v with
  | nil => cases h
  | cons a u ih =>
    cases v with
    | nil => cases h
    | cons b v =>
      rw [List.cons_append, List.cons_append]
      by_cases hab : a = b
      · subst hab
        rw [firstDiff_cons_self] at h ⊢
        exact ih h
      · rw [firstDiff_cons_of_ne hab] at h ⊢
        exact h

/-- Lists of one length that are not the same differ somewhere. -/
lemma exists_firstDiff (hlen : u.length = v.length) (hne : u ≠ v) :
    ∃ j < u.length, firstDiff 0 u v = some j := by
  induction u generalizing v with
  | nil => exact absurd (List.eq_nil_of_length_eq_zero hlen.symm).symm hne
  | cons a u ih =>
    obtain ⟨b, v, rfl⟩ := List.exists_cons_of_length_eq_add_one hlen.symm
    by_cases hab : a = b
    · subst hab
      have htail : u ≠ v := fun h => hne (congrArg (a :: ·) h)
      obtain ⟨j, hj, hsome⟩ := ih (by simpa using hlen) htail
      refine ⟨1 + j, by rw [List.length_cons]; omega, ?_⟩
      rw [firstDiff_cons_self, Nat.add_comm 0, firstDiff_add, hsome, Option.map_some]
    · exact ⟨0, Nat.succ_pos _, firstDiff_cons_of_ne hab 0 u v⟩

/-- Lists of one length have no difference exactly if they are the same. -/
theorem firstDiff_eq_none_iff (hlen : u.length = v.length) : firstDiff 0 u v = none ↔ u = v := by
  constructor
  · intro hnone
    by_contra hne
    obtain ⟨j, -, hsome⟩ := exists_firstDiff hlen hne
    rw [hnone] at hsome
    cases hsome
  · rintro rfl
    have h := firstDiff_append 0 u [] []
    rwa [List.append_nil] at h

/-- In two lists that go on alike up to pieces of one length which differ, the first difference
lies in the pieces. -/
lemma exists_firstDiff_append (hlen : u.length = v.length) (hne : u ≠ v) (w as bs : List α) :
    ∃ j < u.length, firstDiff 0 u v = some j ∧
      firstDiff 0 (w ++ (u ++ as)) (w ++ (v ++ bs)) = some (w.length + j) := by
  obtain ⟨j, hj, hsome⟩ := exists_firstDiff hlen hne
  refine ⟨j, hj, hsome, ?_⟩
  rw [firstDiff_append, Nat.zero_add]
  refine firstDiff_append_of_eq_some ?_ as bs
  rw [← Nat.add_zero w.length, firstDiff_add, hsome, Option.map_some, Nat.add_zero]

lemma bounds_of_firstDiff_append (hlen : u.length = v.length) (hne : u ≠ v) {w : List α}
    (h : firstDiff 0 (w ++ (u ++ as)) (w ++ (v ++ bs)) = some k) :
    w.length ≤ k ∧ k < w.length + u.length := by
  obtain ⟨j, hj, -, hfirst⟩ := exists_firstDiff_append hlen hne w as bs
  obtain rfl := Option.some.inj (h.symm.trans hfirst)
  omega

/-- Lists of one length that are not the same go on alike up to elements which differ. -/
lemma exists_split {β : Type*} {xs ys : List β} (hlen : xs.length = ys.length) (hne : xs ≠ ys) :
    ∃ pre x y post post', xs = pre ++ x :: post ∧ ys = pre ++ y :: post' ∧ x ≠ y := by
  induction xs generalizing ys with
  | nil => exact absurd (List.eq_nil_of_length_eq_zero hlen.symm).symm hne
  | cons x xs ih =>
    obtain ⟨y, ys, rfl⟩ := List.exists_cons_of_length_eq_add_one hlen.symm
    by_cases hxy : x = y
    · subst hxy
      have htail : xs ≠ ys := fun h => hne (congrArg (x :: ·) h)
      obtain ⟨pre, z, z', post, post', rfl, rfl, hzz⟩ := ih (by simpa using hlen) htail
      exact ⟨x :: pre, z, z', post, post', rfl, rfl, hzz⟩
    · exact ⟨[], x, y, xs, ys, rfl, rfl, hxy⟩

/-- Behind a common beginning, the first difference of two rows of encodings with `n` symbols each
lies where the first elements that differ are encoded. -/
theorem firstDiff_flatMap {β : Type*} {encode : β → List α} {n : ℕ}
    (hn : ∀ x, (encode x).length = n) (hinj : Function.Injective encode) {xs ys : List β}
    (hlen : xs.length = ys.length) (hne : xs ≠ ys) (w : List α) :
    ∃ pre x y post post' j, xs = pre ++ x :: post ∧ ys = pre ++ y :: post' ∧ x ≠ y ∧
      firstDiff 0 (encode x) (encode y) = some j ∧
      firstDiff 0 (w ++ xs.flatMap encode) (w ++ ys.flatMap encode) =
        some (w.length + n * pre.length + j) := by
  obtain ⟨pre, x, y, post, post', rfl, rfl, hxy⟩ := exists_split hlen hne
  have hpre : (pre.flatMap encode).length = n * pre.length := by
    rw [List.length_flatMap, List.map_congr_left fun z _ => hn z, List.map_const',
      List.sum_replicate, smul_eq_mul, Nat.mul_comm]
  obtain ⟨j, -, hsome, hdiff⟩ := exists_firstDiff_append ((hn x).trans (hn y).symm)
    (hinj.ne hxy) (w ++ pre.flatMap encode) (post.flatMap encode) (post'.flatMap encode)
  refine ⟨pre, x, y, post, post', j, rfl, rfl, hxy, hsome, ?_⟩
  rw [List.flatMap_append, List.flatMap_append, List.flatMap_cons, List.flatMap_cons,
    ← List.append_assoc w, ← List.append_assoc w, hdiff, List.length_append, hpre]

end FirstDiff
