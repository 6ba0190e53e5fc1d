import KaySentinel.Lib.PairTree

/-!
# Choosing the node

What a tree binds is said of any `node` that does not collide on the pairs it is given.  Here
such a `node` is chosen, pair by pair and with entries not used so far, to see that nothing more
is bound: a row can be a level of a longer row's tree exactly if its entries label the segments
under them (`labels_of_level_eq`, `exists_level_eq`).
-/

namespace PairTree

open Segments

variable {α : Type*}

/-- However `N` entries are taken, one is left over. -/
def Ample (α : Type*) (N : ℕ) : Prop := ∀ l : List α, l.length ≤ N → ∃ x, x ∉ l

/-- On the pairs of `D`, `node` does not collide and stays out of `W`. -/
structure Fits (node : α → α → α) (W : List α) (D : List (α × α)) : Prop where
  injective : InjectiveOn node {p | p ∈ D}
  avoids : ∀ p ∈ D, node p.1 p.2 ∉ W

/-- The two nodes agree on the pairs of `D`. -/
def AgreeOn (node' node : α → α → α) (D : List (α × α)) : Prop :=
  ∀ p ∈ D, node' p.1 p.2 = node p.1 p.2

lemma Fits.mono {node : α → α → α} {W : List α} {D E : List (α × α)} (h : Fits node W D)
    (hE : ∀ p ∈ E, p ∈ D) : Fits node W E :=
  ⟨fun p hp q hq => h.injective p (hE p hp) q (hE q hq), fun p hp => h.avoids p (hE p hp)⟩

lemma ample_of_injective {N : ℕ} {f : Fin (N + 1) → α} (hf : Function.Injective f) :
    Ample α N := by
  classical
  intro l hl
  by_contra hall
  simp only [not_exists, not_not] at hall
  have hsub : Finset.univ.image f ⊆ l.toFinset := fun x _ => List.mem_toFinset.mpr (hall x)
  have hcard := Finset.card_le_card hsub
  rw [Finset.card_image_of_injective _ hf, Finset.card_univ, Fintype.card_fin] at hcard
  have := l.toFinset_card_le
  omega

/-! ## Fresh entries -/

variable {N : ℕ}

/-- Different names, none of them taken. -/
lemma exists_names (hN : Ample α N) {β : Type*} (E : List β) (V : List α)
    (hsize : V.length + E.length ≤ N) :
    ∃ name : β → α, (∀ p ∈ E, ∀ q ∈ E, name p = name q → p = q) ∧ ∀ p ∈ E, name p ∉ V := by
  classical
  induction E with
  | nil =>
    obtain ⟨x, -⟩ := hN [] (Nat.zero_le _)
    exact ⟨fun _ => x, by simp, by simp⟩
  | cons p E ih =>
    rw [List.length_cons] at hsize
    obtain ⟨name, hinj, hfresh⟩ := ih (by omega)
    obtain ⟨x, hx⟩ := hN (V ++ E.map name) (by simp; omega)
    rw [List.mem_append, not_or] at hx
    obtain ⟨hxV, hxE⟩ := hx
    have hnew : ∀ q ∈ E, name q ≠ x := fun q hq h => hxE (List.mem_map.mpr ⟨q, hq, h⟩)
    by_cases hp : p ∈ E
    · refine ⟨name, ?_, ?_⟩
      · simp only [List.mem_cons, forall_eq_or_imp]
        exact ⟨⟨fun _ => trivial, hinj p hp⟩, fun q hq => ⟨hinj q hq p hp, hinj q hq⟩⟩
      · simp only [List.mem_cons, forall_eq_or_imp]
        exact ⟨hfresh p hp, hfresh⟩
    · have hold : ∀ q ∈ E, Function.update name p x q = name q := fun q hq =>
        Function.update_of_ne (ne_of_mem_of_not_mem hq hp) _ _
      refine ⟨Function.update name p x, ?_, ?_⟩
      · simp only [List.mem_cons, forall_eq_or_imp, Function.update_self]
        refine ⟨⟨fun _ => trivial, fun r hr heq => ?_⟩,
          fun q hq => ⟨fun heq => ?_, fun r hr heq => ?_⟩⟩
        · rw [hold r hr] at heq
          exact absurd heq.symm (hnew r hr)
        · rw [hold q hq] at heq
          exact absurd heq (hnew q hq)
        · rw [hold q hq, hold r hr] at heq
          exact hinj q hq r hr heq
      · simp only [List.mem_cons, forall_eq_or_imp, Function.update_self]
        refine ⟨hxV, fun q hq => ?_⟩
        rw [hold q hq]
        exact hfresh q hq

/-! ## Extending a node -/

section

variable [DecidableEq α]

/-- `node` on the pairs of `D`, and `value` on the others. -/
def extend (node : α → α → α) (D : List (α × α)) (value : α × α → α) : α → α → α :=
  fun x y => if (x, y) ∈ D then node x y else value (x, y)

variable {node : α → α → α} {value : α × α → α} {W : List α} {D E : List (α × α)}

lemma agreeOn_extend : AgreeOn (extend node D value) node D := fun _ hp => if_pos hp

lemma extend_of_notMem {p : α × α} (hp : p ∉ D) : extend node D value p.1 p.2 = value p :=
  if_neg hp

/-- A node is extended by values that differ from one another and from those it has. -/
lemma Fits.extend (h : Fits node W D)
    (hinj : ∀ p ∈ E, p ∉ D → ∀ q ∈ E, q ∉ D → value p = value q → p = q)
    (hW : ∀ p ∈ E, p ∉ D → value p ∉ W)
    (hD : ∀ p ∈ E, p ∉ D → ∀ q ∈ D, value p ≠ node q.1 q.2) :
    Fits (extend node D value) W (D ++ E) := by
  have hnew : ∀ p ∈ D ++ E, p ∉ D → p ∈ E := fun p hp hpD =>
    (List.mem_append.mp hp).resolve_left hpD
  constructor
  · intro p hp q hq heq
    by_cases hpD : p ∈ D <;> by_cases hqD : q ∈ D
    · rw [agreeOn_extend p hpD, agreeOn_extend q hqD] at heq
      exact h.injective p hpD q hqD heq
    · rw [agreeOn_extend p hpD, extend_of_notMem hqD] at heq
      exact absurd heq.symm (hD q (hnew q hq hqD) hqD p hpD)
    · rw [extend_of_notMem hpD, agreeOn_extend q hqD] at heq
      exact absurd heq (hD p (hnew p hp hpD) hpD q hqD)
    · rw [extend_of_notMem hpD, extend_of_notMem hqD] at heq
      exact hinj p (hnew p hp hpD) hpD q (hnew q hq hqD) hqD heq
  · intro p hp
    by_cases hpD : p ∈ D
    · rw [agreeOn_extend p hpD]
      exact h.avoids p hpD
    · rw [extend_of_notMem hpD]
      exact hW p (hnew p hp hpD) hpD

end

variable {node node' : α → α → α} {W : List α} {D : List (α × α)}

/-- A node is extended to more pairs by entries outside `V`. -/
lemma exists_extension (hN : Ample α N) (h : Fits node W D) (E : List (α × α)) (V : List α)
    (hsize : W.length + D.length + V.length + E.length ≤ N) :
    ∃ node', AgreeOn node' node D ∧ Fits node' W (D ++ E) ∧
      ∀ p ∈ E, p ∉ D → node' p.1 p.2 ∉ V := by
  classical
  obtain ⟨name, hinj, hfresh⟩ := exists_names hN E (W ++ D.map (fun p => node p.1 p.2) ++ V)
    (by simpa [Nat.add_assoc] using hsize)
  simp only [List.mem_append, not_or] at hfresh
  refine ⟨extend node D name, agreeOn_extend, ?_, ?_⟩
  · refine h.extend (fun p hp _ q hq _ heq => hinj p hp q hq heq)
      (fun p hp _ => (hfresh p hp).1.1) ?_
    intro p hp _ q hq heq
    exact (hfresh p hp).1.2 (List.mem_map.mpr ⟨q, hq, heq.symm⟩)
  · intro p hp hpD
    rw [extend_of_notMem hpD]
    exact (hfresh p hp).2

lemma pairUp_congr {row : List α} (h : AgreeOn node' node (pairs row)) :
    pairUp node' row = pairUp node row :=
  List.map_congr_left h

/-- The rows above depend on the pairs combined on the way only. -/
lemma level_congr {n : ℕ} {row : List α} (h : AgreeOn node' node (queries node n row)) :
    queries node' n row = queries node n row ∧ level node' n row = level node n row := by
  induction n generalizing row with
  | zero => exact ⟨rfl, rfl⟩
  | succ n ih =>
    have hup : pairUp node' row = pairUp node row :=
      pairUp_congr fun p hp => h p (List.mem_append_left _ hp)
    obtain ⟨hqueries, hlevel⟩ := ih fun p hp => h p (List.mem_append_right _ hp)
    rw [queries, queries, level_succ, level_succ, hup, hqueries, hlevel]
    exact ⟨rfl, rfl⟩

lemma length_queries_le (node : α → α → α) (n : ℕ) (row : List α) :
    (queries node n row).length ≤ row.length := by
  induction n generalizing row with
  | zero => exact Nat.zero_le _
  | succ n ih =>
    have := ih (pairUp node row)
    rw [length_pairUp] at this
    rw [queries, List.length_append, length_pairs]
    omega

lemma fst_mem_of_mem_pairs {row : List α} {p : α × α} (hp : p ∈ pairs row) : p.1 ∈ row := by
  induction row using pairs.induct with
  | case1 x y rest ih =>
    rcases List.mem_cons.mp hp with rfl | hp
    · exact List.mem_cons_self
    · exact List.mem_cons_of_mem _ (List.mem_cons_of_mem _ (ih hp))
  | case2 row hrow =>
    rw [pairs] at hp
    · cases hp
    · exact hrow

/-- A node is extended to all pairs combined above a row.  If those of the row are new, so are
those of the rows above. -/
lemma exists_fold (hN : Ample α N) (h : Fits node W D) (k : ℕ) (row : List α)
    (hsize : W.length + 2 * D.length + 3 * row.length ≤ N) :
    ∃ node', AgreeOn node' node D ∧ Fits node' W (D ++ queries node' k row) ∧
      ((∀ p ∈ pairs row, p ∉ D) →
        ∀ p ∈ pairs (level node' k row), p ∉ D ++ queries node' k row) := by
  induction k generalizing node D row with
  | zero => exact ⟨node, fun _ _ => rfl, by rwa [queries, List.append_nil],
      by simp [queries]⟩
  | succ k ih =>
    have hpairs := length_pairs row
    -- one level, with entries that occur neither in the row nor in the pairs so far
    obtain ⟨node₁, hagree₁, hfits₁, hnew₁⟩ := exists_extension hN h (pairs row)
      (D.map Prod.fst ++ row) (by simp; omega)
    obtain ⟨node₂, hagree₂, hfits₂, hnew₂⟩ := ih hfits₁ (pairUp node₁ row) (by
      rw [length_pairUp, List.length_append]
      omega)
    have hup : pairUp node₂ row = pairUp node₁ row :=
      pairUp_congr fun p hp => hagree₂ p (List.mem_append_right _ hp)
    refine ⟨node₂, ?_, ?_, ?_⟩
    · intro p hp
      rw [hagree₂ p (List.mem_append_left _ hp), hagree₁ p hp]
    · rwa [queries, hup, ← List.append_assoc]
    · intro hrow
      rw [queries, level_succ, hup, ← List.append_assoc]
      refine hnew₂ fun p hp hmem => ?_
      obtain ⟨q, hq, hqp⟩ := List.mem_map.mp (fst_mem_of_mem_pairs hp)
      have hfresh := hnew₁ q hq (hrow q hq)
      rw [hqp, List.mem_append, not_or] at hfresh
      rcases List.mem_append.mp hmem with hmem | hmem
      · exact hfresh.1 (List.mem_map_of_mem hmem)
      · exact hfresh.2 (fst_mem_of_mem_pairs hmem)

/-! ## A row above another -/

/-- Entries that agree where those of another list do are their values. -/
lemma exists_map_eq {β : Type*} (z : α) {ps : List β} {xs : List α}
    (hlen : ps.length = xs.length)
    (h : ∀ i < xs.length, ∀ j < xs.length,
      segment 1 i ps = segment 1 j ps ↔ segment 1 i xs = segment 1 j xs) :
    ∃ value : β → α, ps.map value = xs ∧ ∀ p ∈ ps, ∀ q ∈ ps, value p = value q → p = q := by
  classical
  have hentry : ∀ {i j} (hi : i < xs.length) (hj : j < xs.length) (hi' : i < ps.length)
      (hj' : j < ps.length), ps[i] = ps[j] ↔ xs[i] = xs[j] := by
    intro i j hi hj hi' hj'
    have hsegment := h i hi j hj
    rwa [segment_one hi', segment_one hj', segment_one hi, segment_one hj,
      List.singleton_inj, List.singleton_inj] at hsegment
  have hvalue : ∀ {i} (hi : i < xs.length) (hi' : i < ps.length),
      xs.getD (ps.idxOf ps[i]) z = xs[i] := by
    intro i hi hi'
    have hfirst : ps.idxOf ps[i] < ps.length :=
      List.idxOf_lt_length_of_mem (List.getElem_mem _)
    have hlt := hfirst.trans_eq hlen
    rw [List.getD_eq_getElem _ _ hlt]
    exact (hentry hlt hi hfirst hi').mp (List.getElem_idxOf hfirst)
  refine ⟨fun p => xs.getD (ps.idxOf p) z, ?_, ?_⟩
  · refine List.ext_getElem (by rw [List.length_map, hlen]) fun i hi' hi => ?_
    rw [List.getElem_map]
    exact hvalue hi (by rwa [List.length_map] at hi')
  · intro p hp q hq heq
    obtain ⟨i, hi, rfl⟩ := List.getElem_of_mem hp
    obtain ⟨j, hj, rfl⟩ := List.getElem_of_mem hq
    have hi' := hi.trans_eq hlen
    have hj' := hj.trans_eq hlen
    have hvalues : xs[i] = xs[j] := by
      rw [← hvalue hi' hi, ← hvalue hj' hj]
      exact heq
    exact (hentry hi' hj' hi hj).mpr hvalues

/-- The entries of `xs`, none of which is `z`, label the segments of `2 ^ k` entries of `ys`:
equal ones get equal labels, and different ones different labels. -/
structure Labels (z : α) (k : ℕ) (xs ys : List α) : Prop where
  length : ys.length = 2 ^ k * xs.length
  notMem : z ∉ xs
  segment_eq_iff : ∀ i < xs.length, ∀ j < xs.length,
    segment 1 i xs = segment 1 j xs ↔ segment (2 ^ k) i ys = segment (2 ^ k) j ys

variable {z : α} {k n : ℕ} {xs ys : List α}

/-- A row above another labels its segments. -/
lemma labels_of_level_eq (hfits : Fits node [z] (queries node (k + 1) ys))
    (hy : ys.length = 2 ^ (k + 1) * xs.length) (h : level node (k + 1) ys = xs) :
    Labels z (k + 1) xs ys := by
  refine ⟨hy, fun hmem => ?_, fun i hi j hj => ?_⟩
  · rw [← h] at hmem
    obtain ⟨p, hp, hzp⟩ := exists_of_mem_level (n := 0) hmem
    exact hfits.avoids p hp (List.mem_singleton.mpr hzp.symm)
  · have hsegment := segment_level_eq_iff (c := 1) hfits.injective (fun p hp => hp)
      (by rw [hy, Nat.mul_one]) hi hj
    rwa [h, Nat.mul_one] at hsegment

/-- The labels of segments are values for the last pairs combined from them. -/
lemma Labels.exists_value (h : Labels z (k + 1) xs ys)
    (hinj : InjectiveOn node {p | p ∈ queries node k ys}) :
    ∃ value : α × α → α, (pairs (level node k ys)).map value = xs ∧
      ∀ p ∈ pairs (level node k ys), ∀ q ∈ pairs (level node k ys), value p = value q → p = q := by
  have hys : ys.length = 2 ^ k * 2 * xs.length := by rw [h.length, pow_succ]
  have hrow : (level node k ys).length = 2 * xs.length :=
    length_level node (by rw [hys, Nat.mul_assoc])
  have hrow' : (level node k ys).length = 2 * 1 * xs.length := hrow
  have heven : ∀ {i}, i < xs.length → 2 ∣ (segment 2 i (level node k ys)).length := fun hi => by
    rw [length_segment hrow hi]
  refine exists_map_eq z (by rw [length_pairs, hrow]; omega) fun i hi j hj => ?_
  rw [h.segment_eq_iff i hi j hj, ← pairs_segment hrow' hi, ← pairs_segment hrow' hj, pow_succ,
    ← segment_level_eq_iff hinj (fun p hp => hp) hys hi hj]
  exact ⟨eq_of_pairs_eq (heven hi) (heven hj), fun heq => by rw [heq]⟩

/-- Some node makes the labels a level: all levels but the last get fresh entries, and the last
one those of `xs`. -/
lemma Labels.exists_level_eq (hN : Ample α N) (h : Labels z (k + 1) xs ys)
    (hsize : xs.length + 1 + 3 * ys.length ≤ N) :
    ∃ node, level node (k + 1) ys = xs ∧ Fits node [z] (queries node (k + 1) ys) := by
  classical
  have hempty : Fits (fun x _ : α => x) (z :: xs) [] := ⟨by simp [InjectiveOn], by simp⟩
  obtain ⟨node, -, hfits, hnew⟩ := exists_fold hN hempty k ys (by
    rw [List.length_cons, List.length_nil]
    omega)
  rw [List.nil_append] at hfits hnew
  have hnew' : ∀ p ∈ pairs (level node k ys), p ∉ queries node k ys := hnew (by simp)
  obtain ⟨value, hmap, hinj⟩ := h.exists_value hfits.injective
  have hvalue : ∀ p ∈ pairs (level node k ys), value p ∈ xs := fun p hp => by
    rw [← hmap]
    exact List.mem_map_of_mem hp
  have hagree : AgreeOn (extend node (queries node k ys) value) node (queries node k ys) :=
    agreeOn_extend
  obtain ⟨hqueries, hlevel⟩ := level_congr hagree
  refine ⟨extend node (queries node k ys) value, ?_, ?_⟩
  · calc level (extend node (queries node k ys) value) (k + 1) ys
        = pairUp (extend node (queries node k ys) value) (level node k ys) := by
          rw [Nat.add_comm, level_add, hlevel]
          rfl
      _ = (pairs (level node k ys)).map value :=
          List.map_congr_left fun p hp => extend_of_notMem (hnew' p hp)
      _ = xs := hmap
  · rw [queries_add, hqueries, hlevel, queries, queries, List.append_nil]
    refine Fits.extend ⟨hfits.injective, fun p hp => ?_⟩ (fun p hp _ q hq _ => hinj p hp q hq)
      (fun p hp _ => ?_) (fun p hp _ q hq heq => ?_)
    · exact fun hmem => hfits.avoids p hp (List.mem_cons.mpr (.inl (List.mem_singleton.mp hmem)))
    · exact fun hmem => h.notMem (List.mem_singleton.mp hmem ▸ hvalue p hp)
    · exact hfits.avoids q hq (List.mem_cons_of_mem _ (heq ▸ hvalue p hp))

/-- **What is not bound.**  A row that labels the segments of another is a level of its tree, for
a node that does not collide on the pairs combined and stays out of `z`. -/
theorem exists_level_eq (hN : Ample α N) (h : Labels z (k + 1) xs ys) (n : ℕ)
    (hsize : 3 * (xs.length + ys.length) < N) :
    ∃ node, level node (k + 1) ys = xs ∧
      Fits node [z] (queries node (k + 1) ys ++ queries node n xs) := by
  obtain ⟨node, hlevel, hfits⟩ := h.exists_level_eq hN (by omega)
  -- the pairs above `xs` get fresh entries again
  obtain ⟨node', hagree, hfits', -⟩ := exists_fold hN hfits n xs (by
    have hquery := length_queries_le node (k + 1) ys
    rw [List.length_singleton]
    omega)
  obtain ⟨hqueries, hlevel'⟩ := level_congr hagree
  rw [← hqueries] at hfits'
  exact ⟨node', hlevel'.trans hlevel, hfits'⟩

end PairTree
