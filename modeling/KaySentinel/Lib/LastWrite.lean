import Mathlib

/-!
# The last write wins

Calls that write at most one cell of a memory each.  After a run of calls a cell holds what the
last call that wrote it left there, and a cell that no call wrote holds what it held before:
`foldl_step`.
-/

namespace LastWrite

variable {ι κ ν : Type*} [DecidableEq κ] {writes : ι → Option (κ × ν)} {k : κ} {v : ν}

/-- The memory after a call. -/
def step (writes : ι → Option (κ × ν)) (memory : κ → Option ν) (call : ι) : κ → Option ν :=
  match writes call with
  | none => memory
  | some (k, v) => Function.update memory k (some v)

/-- What a call writes to the cell. -/
def writesAt (writes : ι → Option (κ × ν)) (k : κ) (call : ι) : Option ν :=
  (writes call).bind fun write => if write.1 = k then some write.2 else none

/-- What the last call that writes the cell leaves there. -/
def last (writes : ι → Option (κ × ν)) (k : κ) : List ι → Option ν
  | [] => none
  | call :: calls => (last writes k calls).or (writesAt writes k call)

lemma writesAt_eq_some_iff {call : ι} : writesAt writes k call = some v ↔
    writes call = some (k, v) := by
  rw [writesAt]
  cases hwrite : writes call with
  | none => simp
  | some write =>
    obtain ⟨k', v'⟩ := write
    by_cases hk : k' = k
    · simp [hk]
    · simp [hk]

lemma writesAt_eq_none_iff {call : ι} : writesAt writes k call = none ↔
    ∀ v, writes call ≠ some (k, v) := by
  rw [Option.eq_none_iff_forall_ne_some]
  exact forall_congr' fun v => not_congr writesAt_eq_some_iff

lemma step_apply (memory : κ → Option ν) (call : ι) (k : κ) :
    step writes memory call k = (writesAt writes k call).or (memory k) := by
  rw [step, writesAt]
  cases hwrite : writes call with
  | none => rfl
  | some write =>
    obtain ⟨k', v'⟩ := write
    by_cases hk : k' = k
    · subst hk
      simp
    · simp [hk, Function.update_of_ne (Ne.symm hk)]

theorem foldl_step (calls : List ι) (memory : κ → Option ν) (k : κ) :
    calls.foldl (step writes) memory k = (last writes k calls).or (memory k) := by
  induction calls generalizing memory with
  | nil => rfl
  | cons call calls ih =>
    rw [List.foldl_cons, ih, step_apply, last, Option.or_assoc]

/-- Calls that write nothing. -/
lemma foldl_step_of_forall_none {calls : List ι} (h : ∀ call ∈ calls, writes call = none)
    (memory : κ → Option ν) : calls.foldl (step writes) memory = memory := by
  induction calls with
  | nil => rfl
  | cons call calls ih =>
    obtain ⟨hcall, hcalls⟩ := List.forall_mem_cons.mp h
    rw [List.foldl_cons, step, hcall]
    exact ih hcalls

lemma last_eq_none_iff {calls : List ι} :
    last writes k calls = none ↔ ∀ call ∈ calls, ∀ v, writes call ≠ some (k, v) := by
  induction calls with
  | nil => simp [last]
  | cons call calls ih =>
    rw [last, Option.or_eq_none_iff, ih, writesAt_eq_none_iff, List.forall_mem_cons, and_comm]

lemma last_eq_some_iff {calls : List ι} :
    last writes k calls = some v ↔ ∃ pre call post, calls = pre ++ call :: post ∧
      writes call = some (k, v) ∧ last writes k post = none := by
  induction calls with
  | nil => simp [last]
  | cons call calls ih =>
    rw [last]
    constructor
    · intro h
      rcases Option.or_eq_some_iff.mp h with h | ⟨hnone, h⟩
      · obtain ⟨pre, call', post, rfl, hwrite, hnone⟩ := ih.mp h
        exact ⟨call :: pre, call', post, rfl, hwrite, hnone⟩
      · exact ⟨[], call, calls, rfl, writesAt_eq_some_iff.mp h, hnone⟩
    · rintro ⟨pre, call', post, heq, hwrite, hnone⟩
      rcases pre with - | ⟨first, pre⟩
      · obtain ⟨rfl, rfl⟩ := List.cons.inj heq
        rw [hnone, Option.none_or]
        exact writesAt_eq_some_iff.mpr hwrite
      · obtain ⟨rfl, rfl⟩ := List.cons.inj heq
        rw [ih.mpr ⟨pre, call', post, rfl, hwrite, hnone⟩, Option.some_or]

end LastWrite
