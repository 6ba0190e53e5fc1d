import KaySentinel.Lib.Segments

/-!
# Folding a row pair by pair

A binary tree over a row of `2 ^ n` entries is built by replacing, `n` times, the row by
the row of its neighbouring pairs combined with `node`.  The library says how far the last
row binds the first one when `node` is injective only on the pairs combined on the way:
equal ends of equally long rows come from equal rows (`eq_of_iterate_eq`), and equal ends
of rows of different lengths make the shorter row a level of the longer one's tree
(`level_of_iterate_eq`).  An entry of a level stands for a segment of the row below
(`segment_level_eq_iff`).  The last row is the root of the perfect tree over the first one,
computed from the top down (`level_leaves`).
-/

namespace PairTree

open Segments

variable {α : Type*} (node : α → α → α)

/-- The neighbouring pairs of a row. -/
def pairs : List α → List (α × α)
  | x :: y :: rest => (x, y) :: pairs rest
  | _ => []

/-- Combine the neighbouring pairs of a row. -/
def pairUp (row : List α) : List α := (pairs row).map fun p => node p.1 p.2

/-- The row `n` levels up. -/
def level (n : ℕ) (row : List α) : List α := (pairUp node)^[n] row

/-- The pairs combined on the way to the row `n` levels up. -/
def queries : ℕ → List α → List (α × α)
  | 0, _ => []
  | n + 1, row => pairs row ++ queries n (pairUp node row)

@[simp] lemma level_zero (row : List α) : level node 0 row = row := rfl

lemma level_succ (n : ℕ) (row : List α) :
    level node (n + 1) row = level node n (pairUp node row) := rfl

lemma level_add (n k : ℕ) (row : List α) :
    level node (n + k) row = level node n (level node k row) :=
  Function.iterate_add_apply _ n k row

lemma length_pairs (row : List α) : (pairs row).length = row.length / 2 := by
  induction row using pairs.induct with
  | case1 x y rest ih =>
    simp only [pairs, List.length_cons, ih]
    omega
  | case2 row h =>
    match row, h with
    | [], _ => simp [pairs]
    | [x], _ => simp [pairs]
    | x :: y :: rest, h => exact absurd rfl (h x y rest)

/-- A row of even length is paired apart from what follows it. -/
lemma pairs_append {xs : List α} (h : 2 ∣ xs.length) (ys : List α) :
    pairs (xs ++ ys) = pairs xs ++ pairs ys := by
  induction xs using pairs.induct with
  | case1 x x' rest ih =>
    have hrest : 2 ∣ rest.length := by
      simp only [List.length_cons] at h
      omega
    rw [List.cons_append, List.cons_append, pairs, ih hrest, pairs, List.cons_append]
  | case2 xs hxs =>
    match xs, hxs with
    | x :: x' :: xs, hxs => exact absurd rfl (hxs x x' xs)
    | [x], _ => simp at h
    | [], _ => rfl

lemma length_pairUp (row : List α) : (pairUp node row).length = row.length / 2 := by
  rw [pairUp, List.length_map, length_pairs]

lemma length_level {n m : ℕ} {row : List α} (h : row.length = 2 ^ n * m) :
    (level node n row).length = m := by
  induction n generalizing row with
  | zero => simpa using h
  | succ n ih =>
    rw [level_succ]
    apply ih
    rw [length_pairUp, h, pow_succ]
    have : 2 ^ n * 2 * m = 2 * (2 ^ n * m) := by ring
    omega

lemma pairUp_append {xs : List α} (h : 2 ∣ xs.length) (ys : List α) :
    pairUp node (xs ++ ys) = pairUp node xs ++ pairUp node ys := by
  rw [pairUp, pairs_append h, List.map_append]
  rfl

/-- A row is folded apart from what follows it. -/
lemma level_append {n m : ℕ} {xs : List α} (h : xs.length = 2 ^ n * m) (ys : List α) :
    level node n (xs ++ ys) = level node n xs ++ level node n ys := by
  induction n generalizing xs ys with
  | zero => rfl
  | succ n ih =>
    have hhalf : xs.length = 2 * (2 ^ n * m) := by
      rw [h]
      ring
    simp only [level_succ, pairUp_append node (Dvd.intro _ hhalf.symm)]
    apply ih
    rw [length_pairUp, hhalf]
    omega

lemma queries_append {n m : ℕ} {xs : List α} (h : xs.length = 2 ^ n * m) {ys : List α}
    {p : α × α} (hp : p ∈ queries node n xs ∨ p ∈ queries node n ys) :
    p ∈ queries node n (xs ++ ys) := by
  induction n generalizing xs ys with
  | zero => simp [queries] at hp
  | succ n ih =>
    have hhalf : xs.length = 2 * (2 ^ n * m) := by
      rw [h]
      ring
    have heven : 2 ∣ xs.length := Dvd.intro _ hhalf.symm
    simp only [queries, List.mem_append, pairs_append heven, pairUp_append node heven] at hp ⊢
    have hup : (pairUp node xs).length = 2 ^ n * m := by
      rw [length_pairUp, hhalf]
      omega
    rcases hp with (hp | hp) | hp | hp
    · exact .inl (.inl hp)
    · exact .inr (ih hup (.inl hp))
    · exact .inl (.inr hp)
    · exact .inr (ih hup (.inr hp))

/-- No entry is left above the last row. -/
lemma level_eq_nil {n k : ℕ} {row : List α} (h : row.length = 2 ^ n) (hlt : n < k) :
    level node k row = [] := by
  obtain ⟨i, rfl⟩ := Nat.exists_eq_add_of_lt hlt
  have hlen : (level node n row).length = 1 := length_level node (by rw [h, mul_one])
  obtain ⟨root, hroot⟩ := List.length_eq_one_iff.mp hlen
  have hempty : ∀ j, level node j ([] : List α) = [] := by
    intro j
    induction j with
    | zero => rfl
    | succ j ih => exact ih
  rw [show n + i + 1 = i + 1 + n by omega, level_add, hroot, level_succ]
  exact hempty i

/-- A row of even length is determined by its pairs. -/
lemma eq_of_pairs_eq {xs ys : List α} (hx : 2 ∣ xs.length) (hy : 2 ∣ ys.length)
    (h : pairs xs = pairs ys) : xs = ys := by
  induction xs using pairs.induct generalizing ys with
  | case1 x x' xs ih =>
    match ys with
    | [] => simp [pairs] at h
    | [y] => simp [pairs] at h
    | y :: y' :: ys =>
      simp only [pairs, List.cons.injEq, Prod.mk.injEq] at h
      obtain ⟨⟨rfl, rfl⟩, hrest⟩ := h
      simp only [List.length_cons] at hx hy
      rw [ih (by omega) (by omega) hrest]
  | case2 xs hxs =>
    match xs, hxs with
    | x :: x' :: xs, hxs => exact absurd rfl (hxs x x' xs)
    | [x], _ => simp at hx
    | [], _ =>
      match ys with
      | [] => rfl
      | [y] => simp at hy
      | y :: y' :: ys => simp [pairs] at h

/-- `node` does not collide on a set of pairs. -/
def InjectiveOn (Q : Set (α × α)) : Prop :=
  ∀ p ∈ Q, ∀ q ∈ Q, node p.1 p.2 = node q.1 q.2 → p = q

variable {node}

lemma eq_of_map_eq {Q : Set (α × α)} (hinj : InjectiveOn node Q) {ps qs : List (α × α)}
    (hp : ∀ p ∈ ps, p ∈ Q) (hq : ∀ q ∈ qs, q ∈ Q)
    (h : ps.map (fun p => node p.1 p.2) = qs.map fun q => node q.1 q.2) : ps = qs := by
  induction ps generalizing qs with
  | nil => simpa using h
  | cons p ps ih =>
    cases qs with
    | nil => simp at h
    | cons q qs =>
      simp only [List.map_cons, List.cons.injEq] at h
      rw [hinj p (hp p (by simp)) q (hq q (by simp)) h.1,
        ih (fun r hr => hp r (by simp [hr])) (fun r hr => hq r (by simp [hr])) h.2]

/-- Equally long rows with the same end are equal. -/
theorem eq_of_iterate_eq {Q : Set (α × α)} (hinj : InjectiveOn node Q) {n m : ℕ}
    {xs ys : List α} (hx : xs.length = 2 ^ n * m) (hy : ys.length = 2 ^ n * m)
    (hqx : ∀ p ∈ queries node n xs, p ∈ Q) (hqy : ∀ p ∈ queries node n ys, p ∈ Q)
    (h : level node n xs = level node n ys) : xs = ys := by
  induction n generalizing xs ys with
  | zero => exact h
  | succ n ih =>
    simp only [queries, List.mem_append] at hqx hqy
    have hhalf : 2 ^ (n + 1) * m = 2 * (2 ^ n * m) := by ring
    have hup : pairUp node xs = pairUp node ys := by
      refine ih ?_ ?_ (fun p hp => hqx p (.inr hp)) (fun p hp => hqy p (.inr hp)) h
      · rw [length_pairUp, hx]
        omega
      · rw [length_pairUp, hy]
        omega
    have hpairs := eq_of_map_eq hinj (fun p hp => hqx p (.inl hp)) (fun p hp => hqy p (.inl hp)) hup
    exact eq_of_pairs_eq (by omega) (by omega) hpairs

lemma queries_add (k n : ℕ) (row : List α) :
    queries node (k + n) row = queries node k row ++ queries node n (level node k row) := by
  induction k generalizing row with
  | zero => rw [Nat.zero_add, queries, List.nil_append, level_zero]
  | succ k ih => rw [Nat.succ_add, queries, queries, ih, List.append_assoc, level_succ]

/-- A row with the same end as a longer one is a level of the longer one's tree. -/
theorem level_of_iterate_eq {Q : Set (α × α)} (hinj : InjectiveOn node Q) {n k : ℕ}
    {xs ys : List α} (hx : xs.length = 2 ^ n) (hy : ys.length = 2 ^ (k + n))
    (hqx : ∀ p ∈ queries node n xs, p ∈ Q) (hqy : ∀ p ∈ queries node (k + n) ys, p ∈ Q)
    (h : level node n xs = level node (k + n) ys) : xs = level node k ys := by
  refine eq_of_iterate_eq hinj (m := 1) (by omega) ?_ hqx
    (fun p hp => hqy p (by rw [queries_add]; exact List.mem_append_right _ hp)) ?_
  · rw [length_level node (by rw [hy, pow_add])]
    omega
  · rw [h, ← level_add, Nat.add_comm]

/-- Every entry of a row above the first is a combined pair. -/
lemma exists_of_mem_level {n k : ℕ} {row : List α} {x : α}
    (hx : x ∈ level node (k + 1) row) :
    ∃ p ∈ queries node (k + 1 + n) row, x = node p.1 p.2 := by
  induction k generalizing row with
  | zero =>
    obtain ⟨p, hp, rfl⟩ := List.mem_map.mp hx
    refine ⟨p, ?_, rfl⟩
    rw [show 0 + 1 + n = n + 1 by omega, queries, List.mem_append]
    exact .inl hp
  | succ k ih =>
    obtain ⟨p, hp, hxp⟩ := ih hx
    refine ⟨p, ?_, hxp⟩
    rw [show k + 1 + 1 + n = (k + 1 + n) + 1 by omega, queries, List.mem_append]
    exact .inr hp

/-! ## Segments of a row -/

lemma pairs_segment {m i : ℕ} {row : List α} (h : row.length = 2 * 1 * m) (hi : i < m) :
    pairs (segment 2 i row) = segment 1 i (pairs row) := by
  refine apply_segment (b := 2) (c := 1) (n := 1) two_pos (fun u v hu => pairs_append hu v) ?_ h hi
  intro u hu
  rw [length_pairs]
  omega

lemma level_segment {k c m i : ℕ} {row : List α} (h : row.length = 2 ^ k * c * m) (hi : i < m) :
    level node k (segment (2 ^ k * c) i row) = segment c i (level node k row) := by
  have := apply_segment (f := level node k) (c := 1) (Nat.two_pow_pos k)
    (fun u v ⟨_, hu⟩ => level_append node hu v)
    (fun u ⟨_, hu⟩ => by rw [length_level node hu, hu, Nat.one_mul]) h hi
  rwa [Nat.one_mul] at this

/-- Above rows without collisions, entries agree exactly if the segments under them do. -/
lemma segment_level_eq_iff {Q : Set (α × α)} (hinj : InjectiveOn node Q) {k c m i j : ℕ}
    {row : List α} (hQ : ∀ p ∈ queries node k row, p ∈ Q) (h : row.length = 2 ^ k * c * m)
    (hi : i < m) (hj : j < m) :
    segment c i (level node k row) = segment c j (level node k row) ↔
      segment (2 ^ k * c) i row = segment (2 ^ k * c) j row := by
  rw [← level_segment h hi, ← level_segment h hj]
  refine ⟨fun heq => ?_, fun heq => by rw [heq]⟩
  have hquery : ∀ {l}, l < m → ∀ p ∈ queries node k (segment (2 ^ k * c) l row), p ∈ Q := by
    intro l hl p hp
    refine hQ p ?_
    rw [← take_append_segment (2 ^ k * c) l row]
    refine queries_append node (m := c * l) ?_ (.inr ?_)
    · have hend : 2 ^ k * c * (l + 1) ≤ 2 ^ k * c * m := Nat.mul_le_mul_left _ hl
      rw [Nat.mul_succ] at hend
      rw [List.length_take, h, Nat.min_eq_left (by omega), Nat.mul_assoc]
    · exact queries_append node (length_segment h hl) (.inl hp)
  exact eq_of_iterate_eq hinj (length_segment h hi) (length_segment h hj) (hquery hi) (hquery hj)
    heq

/-! ## Perfect trees -/

/-- A binary tree whose leaves all lie `n` levels below the root. -/
inductive PerfectTree (α : Type*) : ℕ → Type _ where
  | leaf (x : α) : PerfectTree α 0
  | branch {n : ℕ} (left right : PerfectTree α n) : PerfectTree α (n + 1)

namespace PerfectTree

/-- The leaves from left to right. -/
def leaves {n : ℕ} : PerfectTree α n → List α
  | leaf x => [x]
  | branch left right => left.leaves ++ right.leaves

/-- The root: a branch combines the roots of its two halves. -/
def root (node : α → α → α) {n : ℕ} : PerfectTree α n → α
  | leaf x => x
  | branch left right => node (left.root node) (right.root node)

@[simp] lemma length_leaves {n : ℕ} (t : PerfectTree α n) : t.leaves.length = 2 ^ n := by
  induction t with
  | leaf x => rfl
  | branch left right ihl ihr =>
    rw [leaves, List.length_append, ihl, ihr, pow_succ]
    omega

/-- Every row of the right length is the row of leaves of a tree. -/
lemma exists_leaves_eq {n : ℕ} {row : List α} (h : row.length = 2 ^ n) :
    ∃ t : PerfectTree α n, t.leaves = row := by
  induction n generalizing row with
  | zero =>
    obtain ⟨x, rfl⟩ := List.length_eq_one_iff.mp h
    exact ⟨leaf x, rfl⟩
  | succ n ih =>
    rw [pow_succ] at h
    have htake : (row.take (2 ^ n)).length = 2 ^ n := by
      rw [List.length_take]
      omega
    have hdrop : (row.drop (2 ^ n)).length = 2 ^ n := by
      rw [List.length_drop]
      omega
    obtain ⟨left, hleft⟩ := ih htake
    obtain ⟨right, hright⟩ := ih hdrop
    refine ⟨branch left right, ?_⟩
    rw [leaves, hleft, hright, List.take_append_drop]

end PerfectTree

variable (node)

/-- **From the bottom and from the top.**  Folding the leaves of a perfect tree pair by pair
leaves its root. -/
theorem level_leaves {n : ℕ} (t : PerfectTree α n) : level node n t.leaves = [t.root node] := by
  induction t with
  | leaf x => rfl
  | @branch n left right ihl ihr =>
    have hleft : left.leaves.length = 2 ^ n * 1 := by rw [PerfectTree.length_leaves, mul_one]
    calc level node (n + 1) (left.leaves ++ right.leaves)
        = level node 1 (level node n (left.leaves ++ right.leaves)) := by
          rw [Nat.add_comm, level_add]
      _ = level node 1 ([left.root node] ++ [right.root node]) := by
          rw [level_append node hleft, ihl, ihr]

end PairTree
