import Mathlib

/-!
# Lists related entry by entry

Composition of `List.Forall₂` relations, and choosing what they relate; properties of every entry
of a list together with the entries before it.
-/

namespace Pointwise

open List

variable {α β γ : Type*} {R : α → β → Prop} {S : β → γ → Prop}

/-- Related lists compose. -/
lemma trans {xs : List α} {ys : List β} {zs : List γ} (h : Forall₂ R xs ys)
    (h' : Forall₂ S ys zs) : Forall₂ (fun x z => ∃ y, R x y ∧ S y z) xs zs := by
  induction h generalizing zs with
  | nil =>
    cases h'
    exact .nil
  | cons hxy _ ih =>
    cases h' with
    | cons hyz hrest => exact .cons ⟨_, hxy, hyz⟩ (ih hrest)

lemma symm {xs : List α} {ys : List β} (h : Forall₂ R xs ys) :
    Forall₂ (fun y x => R x y) ys xs := by
  induction h with
  | nil => exact .nil
  | cons hxy _ ih => exact .cons hxy ih

/-- Every entry on the right is related to one on the left. -/
lemma exists_left {xs : List α} {ys : List β} (h : Forall₂ R xs ys) {y : β} (hy : y ∈ ys) :
    ∃ x ∈ xs, R x y := by
  induction h with
  | nil => exact absurd hy (by simp)
  | cons hxy _ ih =>
    rcases List.mem_cons.mp hy with rfl | hy
    · exact ⟨_, by simp, hxy⟩
    · obtain ⟨x, hx, hrel⟩ := ih hy
      exact ⟨x, by simp [hx], hrel⟩

/-- Related lists whose right entries all satisfy `P`. -/
lemma forall_right {P : β → Prop} {xs : List α} {ys : List β} (h : Forall₂ R xs ys)
    (hP : ∀ y ∈ ys, P y) : Forall₂ (fun x y => R x y ∧ P y) xs ys := by
  induction h with
  | nil => exact .nil
  | cons hxy _ ih =>
    obtain ⟨hy, hys⟩ := forall_mem_cons.mp hP
    exact .cons ⟨hxy, hy⟩ (ih hys)

/-- Where `S` says of two related entries something about the left one alone, it holds of
the lists exactly if that holds of every entry on the left. -/
lemma forall_left_iff {S : α → β → Prop} {P : α → Prop} {xs : List α} {ys : List β}
    (h : Forall₂ R xs ys) (hiff : ∀ x y, R x y → (S x y ↔ P x)) :
    Forall₂ S xs ys ↔ ∀ x ∈ xs, P x := by
  induction h with
  | nil => simp
  | cons hxy _ ih => rw [forall₂_cons, ih, hiff _ _ hxy, forall_mem_cons]

/-- Choose a middle entry for every pair. -/
lemma choose {xs : List α} {zs : List γ} (h : Forall₂ (fun x z => ∃ y, R x y ∧ S y z) xs zs) :
    ∃ ys, Forall₂ R xs ys ∧ Forall₂ S ys zs := by
  induction h with
  | nil => exact ⟨[], .nil, .nil⟩
  | cons hxz _ ih =>
    obtain ⟨y, hxy, hyz⟩ := hxz
    obtain ⟨ys, hxs, hzs⟩ := ih
    exact ⟨y :: ys, .cons hxy hxs, .cons hyz hzs⟩

/-- Two lists that are each related to a third one, side by side. -/
lemma zip {T : α → γ → Prop} {xs : List α} {ys : List β} {zs : List γ} (h : Forall₂ R xs ys)
    (h' : Forall₂ T xs zs) : Forall₂ (fun p z => R p.1 p.2 ∧ T p.1 z) (xs.zip ys) zs := by
  induction h generalizing zs with
  | nil =>
    cases h'
    exact .nil
  | cons hxy _ ih =>
    cases h' with
    | cons hxz hrest => exact .cons ⟨hxy, hxz⟩ (ih hrest)

/-- Two relations between neighbours at once. -/
lemma isChain_and {R S : α → α → Prop} {l : List α} (h : l.IsChain R) (h' : l.IsChain S) :
    l.IsChain fun a b => R a b ∧ S a b :=
  isChain_iff_getElem.mpr fun i hi =>
    ⟨isChain_iff_getElem.mp h i hi, isChain_iff_getElem.mp h' i hi⟩

/-! ## Every entry after those before it -/

/-- Every entry satisfies `P` with the list of the entries before it. -/
def EachStep (P : List α → α → Prop) (l : List α) : Prop :=
  ∀ pre a, pre ++ [a] <+: l → P pre a

variable {P Q : List α → α → Prop} {l : List α} {a : α}

lemma eachStep_nil : EachStep P [] := by
  intro pre a h
  exact absurd (List.prefix_nil.mp h) (by simp)

lemma eachStep_append_singleton : EachStep P (l ++ [a]) ↔ EachStep P l ∧ P l a := by
  constructor
  · intro h
    exact ⟨fun pre b hb => h pre b (hb.trans (List.prefix_append l [a])),
      h l a (List.prefix_refl _)⟩
  · rintro ⟨h, ha⟩ pre b hb
    rcases List.prefix_concat_iff.mp hb with heq | hb
    · obtain ⟨rfl, hlast⟩ := List.append_inj' heq rfl
      obtain rfl : b = a := by simpa using hlast
      exact ha
    · exact h pre b hb

/-- Some entry fails `P`. -/
lemma not_eachStep_iff : ¬ EachStep P l ↔ ∃ pre a post, l = pre ++ a :: post ∧ ¬ P pre a := by
  simp only [EachStep, not_forall]
  constructor
  · rintro ⟨pre, a, ⟨post, rfl⟩, hP⟩
    exact ⟨pre, a, post, by simp, hP⟩
  · rintro ⟨pre, a, post, rfl, hP⟩
    exact ⟨pre, a, ⟨post, by simp⟩, hP⟩

/-- Where `P` of an entry depends on the earlier entries of the same part alone, it holds of every
entry exactly if it does in each part. -/
lemma eachStep_iff_filter {ι : Type*} [DecidableEq ι] (part : α → Option ι)
    (hnone : ∀ pre a, part a = none → P pre a)
    (hsome : ∀ pre a i, part a = some i →
      (P (pre.filter fun b => part b = some i) a ↔ P pre a)) :
    EachStep P l ↔ ∀ i, EachStep P (l.filter fun a => part a = some i) := by
  induction l using List.reverseRecOn with
  | nil => simp [eachStep_nil]
  | append_singleton l a ih =>
    rw [eachStep_append_singleton, ih]
    simp only [List.filter_append]
    constructor
    · rintro ⟨h, ha⟩ i
      by_cases hi : part a = some i
      · rw [filter_cons_of_pos (by simp [hi]), filter_nil, eachStep_append_singleton]
        exact ⟨h i, (hsome l a i hi).mpr ha⟩
      · rw [filter_cons_of_neg (by simp [hi]), filter_nil, append_nil]
        exact h i
    · intro h
      refine ⟨fun i => ?_, ?_⟩
      · by_cases hi : part a = some i
        · have hstep := h i
          rw [filter_cons_of_pos (by simp [hi]), filter_nil, eachStep_append_singleton] at hstep
          exact hstep.1
        · have hstep := h i
          rwa [filter_cons_of_neg (by simp [hi]), filter_nil, append_nil] at hstep
      · cases hi : part a with
        | none => exact hnone l a hi
        | some i =>
          have hstep := h i
          rw [filter_cons_of_pos (by simp [hi]), filter_nil, eachStep_append_singleton] at hstep
          exact (hsome l a i hi).mp hstep.2

/-- What `f` tells of the entries that fail `P`, in order. -/
inductive Failures (P : List α → α → Prop) (f : α → List β) : List α → List β → Prop
  | nil : Failures P f [] []
  | pass {l : List α} {out : List β} {a : α} (h : Failures P f l out) (ha : P l a) :
      Failures P f (l ++ [a]) out
  | fail {l : List α} {out : List β} {a : α} (h : Failures P f l out) (ha : ¬ P l a) :
      Failures P f (l ++ [a]) (out ++ f a)

end Pointwise
