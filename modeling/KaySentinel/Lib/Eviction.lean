import Mathlib

/-!
# Eviction by key

The members of a list take part in rounds, and in each round some of them are faulty.  After a
round every member that shares its key with a faulty participant is evicted.  The rounds evict
exactly the members that were faulty themselves if and only if members with one key become
faulty together: `active_iff_innocent_iff`.
-/

namespace Eviction

variable {σ κ : Type*} [DecidableEq κ] (key : σ → κ) (faulty : ℕ → σ → Bool)

/-- The participants of a round that stay for the next one. -/
def evict (faulty : σ → Bool) (active : List σ) : List σ :=
  active.filter fun t => active.all fun s => !faulty s || key s ≠ key t

/-- The participants of each round. -/
def activeAt (members : List σ) : ℕ → List σ
  | 0 => members
  | i + 1 => evict key (faulty i) (activeAt members i)

/-- The member was not faulty before the round. -/
def Innocent (i : ℕ) (s : σ) : Prop := ∀ j < i, faulty j s = false

/-- Up to any round but the last of `n`, of the members with one key either all have been faulty
or none. -/
def Together (members : List σ) (n : ℕ) : Prop :=
  ∀ i, i + 1 < n → ∀ s ∈ members, ∀ t ∈ members, key s = key t →
    (∃ j ≤ i, faulty j s = true) → ∃ j ≤ i, faulty j t = true

variable {key faulty} {members : List σ} {i n : ℕ} {s t : σ}

lemma mem_evict {faulty : σ → Bool} {active : List σ} :
    t ∈ evict key faulty active ↔
      t ∈ active ∧ ∀ s ∈ active, faulty s = true → key s ≠ key t := by
  simp only [evict, List.mem_filter, List.all_eq_true, Bool.or_eq_true, Bool.not_eq_true',
    decide_eq_true_eq, ← Bool.not_eq_true, imp_iff_not_or]

lemma mem_activeAt_succ :
    t ∈ activeAt key faulty members (i + 1) ↔ t ∈ activeAt key faulty members i ∧
      ∀ s ∈ activeAt key faulty members i, faulty i s = true → key s ≠ key t := mem_evict

lemma innocent_succ : Innocent faulty (i + 1) s ↔ Innocent faulty i s ∧ faulty i s = false := by
  constructor
  · intro h
    exact ⟨fun j hj => h j (Nat.lt_succ_of_lt hj), h i (Nat.lt_succ_self i)⟩
  · rintro ⟨h, hi⟩ j hj
    rcases Nat.lt_succ_iff_lt_or_eq.mp hj with hlt | rfl
    · exact h j hlt
    · exact hi

lemma not_innocent_succ : ¬ Innocent faulty (i + 1) s ↔ ∃ j ≤ i, faulty j s = true := by
  simp only [Innocent, not_forall, Bool.not_eq_false, Nat.lt_succ_iff, exists_prop]

/-- A participant is a member, and was never faulty before. -/
lemma innocent_of_mem_activeAt (h : s ∈ activeAt key faulty members i) :
    s ∈ members ∧ Innocent faulty i s := by
  induction i with
  | zero => exact ⟨h, fun j hj => absurd hj (Nat.not_lt_zero j)⟩
  | succ i ih =>
    obtain ⟨hmem, hkeys⟩ := mem_activeAt_succ.mp h
    obtain ⟨hmember, hinnocent⟩ := ih hmem
    refine ⟨hmember, innocent_succ.mpr ⟨hinnocent, ?_⟩⟩
    exact Bool.eq_false_iff.mpr fun hfaulty => hkeys s hmem hfaulty rfl

lemma nodup_activeAt (h : members.Nodup) : (activeAt key faulty members i).Nodup := by
  induction i with
  | zero => exact h
  | succ i ih => exact ih.filter _

/-- While the members with one key become faulty together, only faulty ones are evicted. -/
lemma mem_activeAt_of_innocent (h : Together key faulty members n) (hi : i < n)
    (hs : s ∈ members) (hinnocent : Innocent faulty i s) : s ∈ activeAt key faulty members i := by
  induction i with
  | zero => exact hs
  | succ i ih =>
    have hbefore := (innocent_succ.mp hinnocent).1
    refine mem_activeAt_succ.mpr ⟨ih (Nat.lt_of_succ_lt hi) hbefore, ?_⟩
    intro t ht hfaulty heq
    have hmember := (innocent_of_mem_activeAt ht).1
    exact not_innocent_succ.mpr (h i hi t hmember s hs heq ⟨i, le_rfl, hfaulty⟩) hinnocent

/-- **Eviction by key against eviction by fault.** -/
theorem active_iff_innocent_iff :
    (∀ i < n, ∀ s ∈ members, Innocent faulty i s → s ∈ activeAt key faulty members i) ↔
      Together key faulty members n := by
  constructor
  · intro h i hi s hs t ht heq hfaulty
    by_contra hnone
    have hinnocent : Innocent faulty (i + 1) t := by
      by_contra hguilty
      exact hnone (not_innocent_succ.mp hguilty)
    -- the first round in which `s` is faulty
    classical
    obtain ⟨hle, hfirst⟩ := Nat.find_spec hfaulty
    have hs' : Innocent faulty (Nat.find hfaulty) s := by
      intro j hj
      have hnot := Nat.find_min hfaulty hj
      rw [not_and] at hnot
      exact Bool.eq_false_iff.mpr (hnot (hj.le.trans hle))
    have hactive := h _ (by omega) s hs hs'
    have hnext := h (Nat.find hfaulty + 1) (by omega) t ht
      fun j hj => hinnocent j (by omega)
    exact (mem_activeAt_succ.mp hnext).2 s hactive hfirst heq
  · intro h i hi s hs hinnocent
    exact mem_activeAt_of_innocent h hi hs hinnocent

omit [DecidableEq κ] in
/-- Members whose keys differ become faulty as they like. -/
lemma together_of_injective (h : ∀ s ∈ members, ∀ t ∈ members, key s = key t → s = t) :
    Together key faulty members n := by
  intro i _ s hs t ht heq hfaulty
  rwa [← h s hs t ht heq]

end Eviction
