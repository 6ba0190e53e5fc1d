import Mathlib

/-!
# Words of nested brackets

Some letters of a word open a node and name it and its parent, others close a node.
`Trees` are the words of properly nested nodes.  `exists_trees` extracts them from the run of
a stack machine, by its first return to the stack below a node, and `absorb_trees` feeds them
to one.
-/

namespace Bracketing

variable {E ι : Type*}

/-- What a letter opens, as identifiers of the node and its parent, and what it closes. -/
structure Shape (E ι : Type*) where
  enter : E → Option (ι × ι)
  exit : E → Option ι

/-- A list of trees under `parent`. -/
inductive Trees (S : Shape E ι) : ι → List E → Prop
  | nil (parent : ι) : Trees S parent []
  | cons {parent id : ι} {e x : E} {inner rest : List E} (henter : S.enter e = some (id, parent))
      (hexit : S.exit x = some id) (hinner : Trees S id inner) (hrest : Trees S parent rest) :
      Trees S parent (e :: (inner ++ x :: rest))

variable {S : Shape E ι}

/-- **First return.**  Suppose that a machine with the stack `id :: outer` before it, whatever
the stack, reads a letter that opens a child of `id` or one that closes `id`.  Then it reads a
list of trees under `id` and a letter that closes `id`. -/
theorem exists_trees {P : List ι → List E → Prop} {Q : List ι → E → List E → Prop}
    (hstep : ∀ id outer w, P (id :: outer) w → ∃ e rest, w = e :: rest ∧
      ((∃ child, S.enter e = some (child, id) ∧ P (child :: id :: outer) rest) ∨
        (S.exit e = some id ∧ Q outer e rest)))
    (hpop : ∀ id outer e rest, Q (id :: outer) e rest → P (id :: outer) rest)
    {id : ι} {outer : List ι} {w : List E} (h : P (id :: outer) w) :
    ∃ inner x rest, w = inner ++ x :: rest ∧ Trees S id inner ∧ S.exit x = some id ∧
      Q outer x rest := by
  -- a child is read as a whole, so the induction is on the length
  induction hn : w.length using Nat.strong_induction_on generalizing id outer w with
  | _ n ih =>
  subst hn
  obtain ⟨e, rest, rfl, ⟨child, henter, hchild⟩ | ⟨hexit, hout⟩⟩ := hstep id outer w h
  · obtain ⟨inner, x, rest, rfl, hinner, hx, hback⟩ := ih rest.length (by simp) hchild rfl
    have hlt : rest.length < (e :: (inner ++ x :: rest)).length := by
      simp only [List.length_cons, List.length_append]
      omega
    obtain ⟨siblings, y, rest, rfl, hsiblings, hy, hout⟩ := ih _ hlt (hpop _ _ _ _ hback) rfl
    exact ⟨e :: (inner ++ x :: siblings), y, rest, by simp, .cons henter hx hinner hsiblings, hy,
      hout⟩
  · exact ⟨[], e, rest, rfl, .nil id, hexit, hout⟩

/-- A machine that opens children and closes them passes over trees. -/
theorem absorb_trees {P : List ι → List E → Prop}
    (henter : ∀ id outer e child rest, S.enter e = some (child, id) →
      P (child :: id :: outer) rest → P (id :: outer) (e :: rest))
    (hexit : ∀ id parent outer x rest, S.exit x = some id →
      P (parent :: outer) rest → P (id :: parent :: outer) (x :: rest))
    {id : ι} {outer : List ι} {inner rest : List E} (hinner : Trees S id inner)
    (h : P (id :: outer) rest) : P (id :: outer) (inner ++ rest) := by
  induction hinner generalizing outer rest with
  | nil => exact h
  | @cons parent id e x inner siblings he hx _ _ ihinner ihsiblings =>
    rw [List.cons_append, List.append_assoc, List.cons_append]
    exact henter _ _ _ _ _ he (ihinner (hexit _ _ _ _ _ hx (ihsiblings h)))

end Bracketing
