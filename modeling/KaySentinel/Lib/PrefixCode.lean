import Mathlib

/-!
# Tagged words

A word behind a tag.  The tag and the word can be read off exactly if no tag is a prefix of
another: `tagged_injective_iff`.
-/

namespace PrefixCode

variable {ι α : Type*} {tag : ι → List α}

/-- No tag is a prefix of another. -/
def PrefixFree (tag : ι → List α) : Prop := ∀ i j, tag i <+: tag j → i = j

/-- The word behind the tag. -/
def tagged (tag : ι → List α) (m : ι × List α) : List α := tag m.1 ++ m.2

/-- Behind tags that are no prefixes of one another, the tag and the word can be read off. -/
theorem tagged_injective_iff : Function.Injective (tagged tag) ↔ PrefixFree tag := by
  constructor
  · rintro h i j ⟨rest, hrest⟩
    have heq : tagged tag (i, rest) = tagged tag (j, []) := by
      rw [tagged, tagged, hrest, List.append_nil]
    exact congrArg Prod.fst (h heq)
  · rintro h ⟨i, x⟩ ⟨j, y⟩ heq
    have hij : i = j := by
      rcases List.append_eq_append_iff.mp heq with ⟨rest, hj, -⟩ | ⟨rest, hi, -⟩
      · exact h i j ⟨rest, hj.symm⟩
      · exact (h j i ⟨rest, hi.symm⟩).symm
    subst hij
    exact congrArg (Prod.mk i) (List.append_cancel_left heq)

end PrefixCode
