import KaySentinel.Lib.Journal

/-!
# Patches between stores

A patch names some keys and gives for each the value before and the value after.  It carries
one store to another if it is right about the keys that it names and the stores agree on all
others; then it can be applied forward and backward.
-/

namespace Journal

variable {K : Type*} {V : K → Type*}

/-- For some keys, the value before and the value after. -/
abbrev Patch (V : K → Type*) := ∀ k, Option (V k × V k)

namespace Patch

/-- The patch leads from `s` to `t`. -/
def Carries (p : Patch V) (s t : Store V) : Prop :=
  ∀ k, (p k = none ∧ s k = t k) ∨ p k = some (s k, t k)

/-- Write the values after. -/
def forward (p : Patch V) (s : Store V) : Store V := fun k => ((p k).map Prod.snd).getD (s k)

/-- Write the values before. -/
def backward (p : Patch V) (t : Store V) : Store V := fun k => ((p k).map Prod.fst).getD (t k)

variable {p : Patch V} {s t u : Store V}

lemma Carries.forward_eq (h : p.Carries s t) : p.forward s = t := by
  funext k
  rcases h k with ⟨hnone, heq⟩ | hsome
  · simp [forward, hnone, heq]
  · simp [forward, hsome]

lemma Carries.backward_eq (h : p.Carries s t) : p.backward t = s := by
  funext k
  rcases h k with ⟨hnone, heq⟩ | hsome
  · simp [backward, hnone, heq]
  · simp [backward, hsome]

/-- The patches lead from the first store to the last one, through the stores between. -/
inductive Leads : Store V → List (Patch V) → List (Store V) → Store V → Prop
  | nil (s : Store V) : Leads s [] [] s
  | cons {p : Patch V} {ps : List (Patch V)} {s t u : Store V} {ts : List (Store V)}
      (hp : p.Carries s t) (hps : Leads t ps ts u) : Leads s (p :: ps) (t :: ts) u

variable {ps ps' : List (Patch V)} {ts ts' : List (Store V)}

lemma Leads.append (h : Leads s ps ts t) (h' : Leads t ps' ts' u) :
    Leads s (ps ++ ps') (ts ++ ts') u := by
  induction h with
  | nil s => exact h'
  | cons hp _ ih => exact .cons hp (ih h')

/-- Applied in order, they give all the stores. -/
lemma Leads.scanl_forward (h : Leads s ps ts t) :
    ps.scanl (fun s p => p.forward s) s = s :: ts := by
  induction h with
  | nil s => rfl
  | cons hp _ ih => rw [List.scanl_cons, hp.forward_eq, ih]

/-- Taken back in reverse order, they lead to the first store. -/
lemma Leads.foldr_backward (h : Leads s ps ts t) :
    ps.foldr (fun p t => p.backward t) t = s := by
  induction h with
  | nil s => rfl
  | cons hp _ ih => rw [List.foldr_cons, ih, hp.backward_eq]

/-- Taken back in reverse order, they give all the stores. -/
lemma Leads.scanr_backward (h : Leads s ps ts t) :
    ps.scanr (fun p t => p.backward t) t = s :: ts := by
  induction h with
  | nil s => rfl
  | cons hp hps ih => rw [List.scanr_cons, (Leads.cons hp hps).foldr_backward, ih]

end Patch

end Journal
