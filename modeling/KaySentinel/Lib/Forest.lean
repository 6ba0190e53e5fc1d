import KaySentinel.Lib.NestedLog

/-!
# Complete logs as forests

A stream in which every frame is closed is a forest of items and frames.  Its survivors are
those items around which no frame is rolled back.
-/

namespace NestedLog

/-- Items and closed frames in order. -/
inductive Forest (α β : Type*)
  | nil
  /-- An item, and what comes after it. -/
  | leaf (a : α) (rest : Forest α β)
  /-- A frame around `inner`, and what comes after it. -/
  | node (b : β) (inner rest : Forest α β)

namespace Forest

variable {α β γ : Type*}

/-- Items, and what comes after them. -/
def prepend (items : List α) (rest : Forest α β) : Forest α β := items.foldr leaf rest

@[simp] lemma prepend_nil (rest : Forest α β) : prepend [] rest = rest := rfl

@[simp] lemma prepend_cons (a : α) (items : List α) (rest : Forest α β) :
    prepend (a :: items) rest = leaf a (prepend items rest) := rfl

/-- Change the frames. -/
def mapFrames (g : β → γ) : Forest α β → Forest α γ
  | nil => nil
  | leaf a rest => leaf a (rest.mapFrames g)
  | node b inner rest => node (g b) (inner.mapFrames g) (rest.mapFrames g)

/-- The operations of a forest.  Outside its frames the items are direct if `outside`. -/
def ops (reverted : β → Bool) : Bool → Forest α β → List (Op α)
  | _, nil => []
  | outside, leaf a rest => .item a outside :: rest.ops reverted outside
  | outside, node b inner rest =>
      .enter :: (inner.ops reverted false ++ .exit (reverted b) :: rest.ops reverted outside)

/-- The items around which no frame is rolled back, in order. -/
def kept (reverted : β → Bool) : Forest α β → List α
  | nil => []
  | leaf a rest => a :: rest.kept reverted
  | node b inner rest => (if reverted b then [] else inner.kept reverted) ++ rest.kept reverted

/-- The frames around which there is no other. -/
def roots : Forest α β → List β
  | nil => []
  | leaf _ rest => rest.roots
  | node b _ rest => b :: rest.roots

/-- All frames, in the order in which they are entered. -/
def frames : Forest α β → List β
  | nil => []
  | leaf _ rest => rest.frames
  | node b inner rest => b :: (inner.frames ++ rest.frames)

/-- All items, in order. -/
def leaves : Forest α β → List α
  | nil => []
  | leaf a rest => a :: rest.leaves
  | node _ inner rest => inner.leaves ++ rest.leaves

/-- The items outside all frames. -/
def direct : Forest α β → List α
  | nil => []
  | leaf a rest => a :: rest.direct
  | node _ _ rest => rest.direct

/-- The items directly inside each frame, in the order in which the frames are entered. -/
def insides : Forest α β → List (List α)
  | nil => []
  | leaf _ rest => rest.insides
  | node _ inner rest => inner.direct :: (inner.insides ++ rest.insides)

lemma length_insides (f : Forest α β) : f.insides.length = f.frames.length := by
  induction f with
  | nil => rfl
  | leaf a f ih => exact ih
  | node b inner f ihinner ihrest =>
    rw [insides, frames, List.length_cons, List.length_append, List.length_cons,
      List.length_append, ihinner, ihrest]

variable {reverted : β → Bool}

lemma roots_prepend (items : List α) (rest : Forest α β) :
    (prepend items rest).roots = rest.roots := by
  induction items with
  | nil => rfl
  | cons a items ih => exact ih

lemma frames_prepend (items : List α) (rest : Forest α β) :
    (prepend items rest).frames = rest.frames := by
  induction items with
  | nil => rfl
  | cons a items ih => exact ih

lemma kept_prepend (items : List α) (rest : Forest α β) :
    (prepend items rest).kept reverted = items ++ rest.kept reverted := by
  induction items with
  | nil => rfl
  | cons a items ih => exact congrArg (a :: ·) ih

/-- A forest closes no frame that is open before it. -/
lemma exitFlag_ops (n : ℕ) (outside : Bool) (f : Forest α β) (rest : List (Op α)) :
    exitFlag n (f.ops reverted outside ++ rest) = exitFlag n rest := by
  induction f generalizing n outside rest with
  | nil => rfl
  | leaf a f ih => exact ih n outside rest
  | node b inner f ihinner ihrest =>
    rw [ops, List.cons_append, List.append_assoc, exitFlag, ihinner]
    exact ihrest n outside rest

lemma allCommit_ops (d : ℕ) (outside : Bool) (f : Forest α β) (rest : List (Op α)) :
    AllCommit d (f.ops reverted outside ++ rest) ↔ AllCommit d rest := by
  simp only [AllCommit, exitFlag_ops]

lemma allCommit_zero (rest : List (Op α)) : AllCommit 0 rest :=
  fun n hn => absurd hn (Nat.not_lt_zero n)

/-- A frame and those around it commit exactly if it is not rolled back and they commit. -/
lemma allCommit_exit (d : ℕ) (r : Bool) (rest : List (Op α)) :
    AllCommit (d + 1) (.exit r :: rest) ↔ r = false ∧ AllCommit d rest := by
  constructor
  · intro h
    have hr : some r = some false := h 0 (Nat.succ_pos d)
    exact ⟨Option.some.inj hr, fun n hn => h (n + 1) (Nat.succ_lt_succ hn)⟩
  · rintro ⟨rfl, h⟩ n hn
    cases n with
    | zero => rfl
    | succ n => exact h n (Nat.lt_of_succ_lt_succ hn)

/-- **Survivors of a forest.**  With `d` frames open before it, its kept items survive if those
frames commit. -/
theorem survivors_ops (d : ℕ) (f : Forest α β) (rest : List (Op α)) :
    survivors d (f.ops reverted (d = 0) ++ rest) =
      (if AllCommit d rest then f.kept reverted else []) ++ survivors d rest := by
  induction f generalizing d rest with
  | nil => split <;> rfl
  | leaf a f ih =>
    have houtside : (decide (d = 0) = true ∨ AllCommit d (f.ops reverted (d = 0) ++ rest)) ↔
        AllCommit d rest := by
      rw [allCommit_ops]
      refine or_iff_right_of_imp fun hd => ?_
      obtain rfl : d = 0 := of_decide_eq_true hd
      exact allCommit_zero rest
    rw [ops, List.cons_append, survivors, ih]
    by_cases hc : AllCommit d rest
    · rw [if_pos (houtside.mpr hc), if_pos hc, if_pos hc, kept, List.cons_append]
    · rw [if_neg (mt houtside.mp hc), if_neg hc, if_neg hc]
  | node b inner f ihinner ihrest =>
    have hinside : decide (d + 1 = 0) = false := by simp
    have hinner := ihinner (d + 1) (.exit (reverted b) :: (f.ops reverted (d = 0) ++ rest))
    rw [hinside] at hinner
    rw [ops, List.cons_append, List.append_assoc, List.cons_append, survivors, hinner]
    have hexit : survivors (d + 1) (.exit (reverted b) :: (f.ops reverted (d = 0) ++ rest)) =
        survivors d (f.ops reverted (d = 0) ++ rest) := rfl
    rw [hexit, ihrest, kept]
    simp only [allCommit_exit, allCommit_ops]
    cases reverted b <;> by_cases hc : AllCommit d rest <;> simp [hc]

/-- The survivors of a complete log. -/
lemma survivors_ops_outside (f : Forest α β) :
    survivors 0 (f.ops reverted true) = f.kept reverted := by
  have h : survivors 0 (f.ops reverted true ++ []) =
      (if AllCommit 0 [] then f.kept reverted else []) ++ survivors 0 [] := survivors_ops 0 f []
  rwa [List.append_nil, survivors, List.append_nil, if_pos (allCommit_zero [])] at h

/-- The direct items of a forest are outside its frames. -/
lemma directOutside_ops (d : ℕ) (f : Forest α β) (rest : List (Op α)) (h : DirectOutside d rest) :
    DirectOutside d (f.ops reverted (d = 0) ++ rest) := by
  induction f generalizing d rest with
  | nil => exact h
  | leaf a f ih => exact ⟨of_decide_eq_true, ih d rest h⟩
  | node b inner f ihinner ihrest =>
    rw [ops, List.cons_append, List.append_assoc]
    exact ihinner (d + 1) _ (ihrest d rest h)

end Forest

end NestedLog
