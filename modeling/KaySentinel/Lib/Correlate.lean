import Mathlib

/-!
# Correlating two kinds of reports

A report of the first kind waits until one of the second kind takes it; one that comes while
another waits replaces it.  The pairs that are formed are the places at which a report of the
second kind directly follows one of the first: `count_pairs`.
-/

namespace Correlate

/-- A report of one of two kinds. -/
inductive Report (α β : Type*) where
  | first (a : α)
  | second (b : β)
deriving DecidableEq

variable {α β : Type*}

/-- The pairs that reports form, if `waiting` waits before them. -/
def pairs : Option α → List (Report α β) → List (α × β)
  | _, [] => []
  | _, .first a :: reports => pairs (some a) reports
  | waiting, .second b :: reports => waiting.toList.map (·, b) ++ pairs none reports

/-- The reports that come directly one after the other. -/
def successions (reports : List (Report α β)) : List (Report α β × Report α β) :=
  reports.zip reports.tail

/-- A pair takes its two halves from the reports, or the first from before. -/
lemma mem_of_mem_pairs {waiting : Option α} {reports : List (Report α β)} {a : α} {b : β}
    (h : (a, b) ∈ pairs waiting reports) :
    (waiting = some a ∨ .first a ∈ reports) ∧ .second b ∈ reports := by
  induction reports generalizing waiting with
  | nil => exact absurd h List.not_mem_nil
  | cons report reports ih =>
    cases report with
    | first a' =>
      obtain ⟨ha, hb⟩ := ih h
      refine ⟨.inr ?_, List.mem_cons_of_mem _ hb⟩
      rcases ha with hwait | ha
      · rw [Option.some.inj hwait]
        exact List.mem_cons_self
      · exact List.mem_cons_of_mem _ ha
    | second b' =>
      rcases List.mem_append.mp h with hnow | hlater
      · obtain ⟨a', ha', heq⟩ := List.mem_map.mp hnow
        obtain ⟨rfl, rfl⟩ := Prod.mk.inj heq
        exact ⟨.inl (Option.mem_toList.mp ha'), List.mem_cons_self⟩
      · obtain ⟨ha, hb⟩ := ih hlater
        refine ⟨.inr ?_, List.mem_cons_of_mem _ hb⟩
        exact List.mem_cons_of_mem _ (ha.resolve_left (by simp))

variable [DecidableEq α] [DecidableEq β]

/-- Nothing directly follows a report of the second kind as the half of a pair. -/
lemma count_successions_second (b' : β) (reports : List (Report α β)) (a : α) (b : β) :
    (successions (.second b' :: reports)).count (.first a, .second b) =
      (successions reports).count (.first a, .second b) := by
  cases reports with
  | nil => rfl
  | cons report reports => exact List.count_cons_of_ne (by simp)

/-- **The pairs.**  A pair is formed as often as its second half directly follows the first. -/
theorem count_pairs (waiting : Option α) (reports : List (Report α β)) (a : α) (b : β) :
    (pairs waiting reports).count (a, b) =
      (successions (waiting.toList.map .first ++ reports)).count (.first a, .second b) := by
  induction reports generalizing waiting with
  | nil => cases waiting <;> rfl
  | cons report reports ih =>
    cases report with
    | first a' =>
      rw [pairs, ih (some a')]
      cases waiting with
      | none => rfl
      | some w => exact (List.count_cons_of_ne (by simp)).symm
    | second b' =>
      have hlater := count_successions_second b' reports a b
      rw [pairs, List.count_append, ih none]
      cases waiting with
      | none => exact (Nat.zero_add _).trans hlater.symm
      | some w =>
        have hnow : (successions (.first w :: .second b' :: reports)).count
              (.first a, .second b) =
            (successions (.second b' :: reports)).count (.first a, .second b) +
              if (w, b') = (a, b) then 1 else 0 := by
          rw [successions, List.tail_cons, List.zip_cons_cons, List.count_cons]
          simp [successions]
        have hone : List.count (a, b) [(w, b')] = if (w, b') = (a, b) then 1 else 0 := by
          rw [List.count_singleton]
          simp
        exact (congrArg₂ _ hone hlater.symm).trans ((Nat.add_comm _ _).trans hnow.symm)

/-- Reports of one account and one beneficiary form their pair exactly if the first kind comes
first. -/
example : pairs none [Report.first 1, .second 2] = [(1, 2)] ∧
    pairs none [Report.second 2, .first 1] = [] := by decide

end Correlate
