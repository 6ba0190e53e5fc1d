import Mathlib

/-!
# Computations that may fail

When a sequence of two computations, a loop over a list and a map over a list succeed, and where
the error of a map comes from.
-/

namespace Fallible

universe u

variable {ε : Type*} {α β : Type u}

/-- Two computations in sequence succeed if the first does and the second does on its result. -/
lemma bind_eq_ok_iff {x : Except ε α} {f : α → Except ε β} {b : β} :
    x >>= f = .ok b ↔ ∃ a, x = .ok a ∧ f a = .ok b := by
  cases x with
  | error e => exact iff_of_false (by rintro ⟨⟩) (by rintro ⟨_, ⟨⟩, -⟩)
  | ok a => exact ⟨fun h => ⟨a, rfl, h⟩, by rintro ⟨_, ⟨⟩, h⟩; exact h⟩

/-! ## Loops -/

section

variable {γ : Type*} {step : α → γ → Except ε α} {s s' : α}

lemma foldlM_cons_eq_ok {c : γ} {l : List γ} :
    (c :: l).foldlM step s = .ok s' ↔ ∃ mid, step s c = .ok mid ∧ l.foldlM step mid = .ok s' := by
  rw [List.foldlM_cons]
  exact bind_eq_ok_iff

lemma foldlM_append_eq_ok {l l' : List γ} :
    (l ++ l').foldlM step s = .ok s' ↔
      ∃ mid, l.foldlM step s = .ok mid ∧ l'.foldlM step mid = .ok s' := by
  rw [List.foldlM_append]
  exact bind_eq_ok_iff

end

/-! ## Maps -/

variable {γ : Type*} {f : γ → Except ε β}

lemma mapM_cons_eq_ok {x : γ} {xs : List γ} {ys : List β} :
    (x :: xs).mapM f = .ok ys ↔
      ∃ y, f x = .ok y ∧ ∃ ys', xs.mapM f = .ok ys' ∧ ys = y :: ys' := by
  rw [List.mapM_cons, bind_eq_ok_iff]
  refine exists_congr fun y => and_congr_right fun _ => ?_
  rw [bind_eq_ok_iff]
  refine exists_congr fun ys' => and_congr_right fun _ => ?_
  exact ⟨fun h => (Except.ok.inj h).symm, fun h => h ▸ rfl⟩

/-- A fallible map succeeds exactly if its function does on every entry. -/
lemma mapM_eq_ok_iff {xs : List γ} {ys : List β} :
    xs.mapM f = .ok ys ↔ List.Forall₂ (fun x y => f x = .ok y) xs ys := by
  induction xs generalizing ys with
  | nil =>
    rw [List.mapM_nil, List.forall₂_nil_left_iff]
    exact ⟨fun h => (Except.ok.inj h).symm, fun h => h ▸ rfl⟩
  | cons x xs ih =>
    rw [mapM_cons_eq_ok, List.forall₂_cons_left_iff]
    constructor
    · rintro ⟨y, hy, ys', hys', rfl⟩
      exact ⟨y, ys', hy, ih.mp hys', rfl⟩
    · rintro ⟨y, ys', hy, hys', rfl⟩
      exact ⟨y, hy, ys', ih.mpr hys', rfl⟩

/-- The error of a fallible map is that of one of the entries. -/
lemma mapM_eq_error {xs : List γ} {e : ε} (h : xs.mapM f = .error e) :
    ∃ x ∈ xs, f x = .error e := by
  induction xs with
  | nil => cases h
  | cons x xs ih =>
    rw [List.mapM_cons] at h
    cases hx : f x with
    | error e' =>
      rw [hx] at h
      obtain rfl := Except.error.inj h
      exact ⟨x, by simp, hx⟩
    | ok y =>
      cases hxs : xs.mapM f with
      | error e' =>
        rw [hx, hxs] at h
        obtain rfl := Except.error.inj h
        obtain ⟨x', hmem, he⟩ := ih hxs
        exact ⟨x', by simp [hmem], he⟩
      | ok ys =>
        rw [hx, hxs] at h
        cases h

end Fallible
