import KaySentinel.Hash
import KaySentinel.Lib.FreshNode

/-!
# The zero-padded Merkle fold

The storage root and the snapshot root are computed by two loops of the same shape: pad
the leaves with zero words up to a power of two, then hash neighbouring pairs until one
word is left.  `merkleFold` is that loop, with the domain of the node hash as a parameter;
`merkleFold_eq` gives its result and its log in closed form.  The root binds the padded row up to
the height of the tree: `exists_foldRoot_eq_iff` says exactly which rows can share a root.
-/

namespace KaySentinel

open PairTree

/-- `while size < len { size <<= 1; }` -/
def paddedSize (len : ℕ) : ℕ → ℕ → ℕ
  | 0, size => size
  | fuel + 1, size => if size < len then paddedSize len fuel (size * 2) else size

/-- The layer padded with zero words to a power of two. -/
def padLayer (layer : List Word) : List Word :=
  layer ++ List.replicate (paddedSize layer.length layer.length 1 - layer.length) (Bytes.zero 32)

/-- `for pair in layer.chunks(2)`: hash `pair[0]` and `pair[1]`. -/
def hashLayer (blake3 : Blake3) (domain : Domain) : List Word → Hashing (List Word)
  | [] => pure []
  -- `pair[1]` is out of bounds
  | [_] => .abort
  | left :: right :: rest => do
      let hash ← deriveCommitment blake3 domain (left.toList ++ right.toList)
      let next ← hashLayer blake3 domain rest
      pure (hash :: next)

/-- `while layer.len() > 1 { .. }`, then `layer[0]`. -/
def foldLayers (blake3 : Blake3) (domain : Domain) : ℕ → List Word → Hashing Word
  | _, [] => .abort
  | _, [root] => pure root
  | 0, _ => .abort
  | fuel + 1, layer => do
      let next ← hashLayer blake3 domain layer
      foldLayers blake3 domain fuel next

def merkleFold (blake3 : Blake3) (domain : Domain) (leaves : List Word) : Hashing Word :=
  let layer := padLayer (if leaves.isEmpty then [Bytes.zero 32] else leaves)
  foldLayers blake3 domain layer.length layer

/-! ## Padding -/

lemma paddedSize_eq (len fuel n : ℕ) (hfuel : Nat.clog 2 len ≤ n + fuel)
    (hn : n ≤ Nat.clog 2 len) : paddedSize len fuel (2 ^ n) = 2 ^ Nat.clog 2 len := by
  induction fuel generalizing n with
  | zero =>
    have : n = Nat.clog 2 len := by omega
    rw [paddedSize, this]
  | succ fuel ih =>
    rw [paddedSize]
    split_ifs with hlt
    · have hlog : n < Nat.clog 2 len := (Nat.lt_clog_iff_pow_lt (by norm_num)).mpr hlt
      rw [← pow_succ]
      exact ih (n + 1) (by omega) hlog
    · have hlog : Nat.clog 2 len ≤ n := Nat.clog_le_of_le_pow (by omega)
      rw [le_antisymm hn hlog]

/-- The number of layers above the padded leaves. -/
def height (leaves : List Word) : ℕ := Nat.clog 2 leaves.length

lemma clog_le_self (len : ℕ) : Nat.clog 2 len ≤ len :=
  Nat.clog_le_of_le_pow (Nat.lt_two_pow_self).le

lemma padLayer_eq (layer : List Word) :
    padLayer layer =
      layer ++ List.replicate (2 ^ height layer - layer.length) (Bytes.zero 32) := by
  rw [padLayer, height, ← paddedSize_eq layer.length layer.length 0 ?_ (Nat.zero_le _), pow_zero]
  rw [Nat.zero_add]
  exact clog_le_self _

lemma length_padLayer (layer : List Word) : (padLayer layer).length = 2 ^ height layer := by
  have : layer.length ≤ 2 ^ height layer := Nat.le_pow_clog (by norm_num) _
  rw [padLayer_eq, List.length_append, List.length_replicate]
  omega

/-! ## The fold in closed form -/

variable (blake3 : Blake3) (domain : Domain)

/-- The byte string hashed for a pair. -/
def pairInput (p : Word × Word) : List UInt8 :=
  domain.asBytes ++ (p.1.toList ++ p.2.toList)

/-- The hash of a pair. -/
def nodeHash (left right : Word) : Word := blake3 (pairInput domain (left, right))

variable {domain} in
lemma pairInput_injective : Function.Injective (pairInput domain) := by
  intro p q h
  obtain ⟨hleft, hright⟩ := Bytes.append_inj (List.append_cancel_left h)
  exact Prod.ext hleft (Bytes.toList_inj.mp hright)

variable {blake3 domain} in
/-- Where BLAKE3 is free of collisions, so is the hash of pairs. -/
lemma nodeHash_injectiveOn {inputs : List (List UInt8)} (h : CollisionFree blake3 inputs) :
    InjectiveOn (nodeHash blake3 domain) {p | pairInput domain p ∈ inputs} := by
  intro p hp q hq heq
  exact pairInput_injective (h.injective _ hp _ hq heq)

lemma hashLayer_eq {layer : List Word} (h : 2 ∣ layer.length) :
    hashLayer blake3 domain layer =
      ⟨some (pairUp (nodeHash blake3 domain) layer), (pairs layer).map (pairInput domain)⟩ := by
  induction layer using pairs.induct with
  | case1 left right rest ih =>
    simp only [List.length_cons] at h
    have hquery : deriveCommitment blake3 domain (left.toList ++ right.toList) =
        ⟨some (nodeHash blake3 domain left right), [pairInput domain (left, right)]⟩ := rfl
    rw [hashLayer, Logged.bind_eq hquery, Logged.bind_eq (ih (by omega))]
    simp [Logged.pure_eq, pairs, pairUp]
  | case2 layer hlayer =>
    rcases layer with _ | ⟨x, _ | ⟨y, rest⟩⟩
    · rfl
    · simp at h
    · exact absurd rfl (hlayer x y rest)

/-- The root of a padded row: the only entry of the last layer. -/
def rowRoot (n : ℕ) (row : List Word) : Word :=
  (level (nodeHash blake3 domain) n row).headD (Bytes.zero 32)

lemma level_eq_rowRoot {n : ℕ} {row : List Word} (h : row.length = 2 ^ n) :
    level (nodeHash blake3 domain) n row = [rowRoot blake3 domain n row] := by
  have hlen : (level (nodeHash blake3 domain) n row).length = 1 :=
    length_level _ (by rw [h, mul_one])
  obtain ⟨root, hroot⟩ := List.length_eq_one_iff.mp hlen
  rw [rowRoot, hroot]
  rfl

/-- With enough fuel the fold returns the root, having hashed every pair on the way. -/
lemma foldLayers_eq {n fuel : ℕ} {row : List Word} (h : row.length = 2 ^ n) (hfuel : n ≤ fuel) :
    foldLayers blake3 domain fuel row =
      ⟨some (rowRoot blake3 domain n row),
        (queries (nodeHash blake3 domain) n row).map (pairInput domain)⟩ := by
  induction n generalizing fuel row with
  | zero =>
    obtain ⟨root, rfl⟩ := List.length_eq_one_iff.mp h
    cases fuel <;> rfl
  | succ n ih =>
    obtain ⟨fuel, rfl⟩ : ∃ k, fuel = k + 1 := ⟨fuel - 1, by omega⟩
    have hpow : 2 ^ (n + 1) = 2 * 2 ^ n := by ring
    have hpos : 0 < 2 ^ n := Nat.two_pow_pos n
    obtain ⟨x, y, rest, rfl⟩ : ∃ x y rest, row = x :: y :: rest := by
      match row, h with
      | [], h => simp only [List.length_nil] at h; omega
      | [x], h => simp only [List.length_cons, List.length_nil] at h; omega
      | x :: y :: rest, _ => exact ⟨x, y, rest, rfl⟩
    have hnext : (pairUp (nodeHash blake3 domain) (x :: y :: rest)).length = 2 ^ n := by
      rw [length_pairUp]
      omega
    rw [foldLayers, Logged.bind_eq (hashLayer_eq blake3 domain (by omega)),
      ih hnext (by omega), queries, List.map_append]
    · rfl
    · simp
    · simp

/-- The leaves of the fold, at least one. -/
def foldLeaves (leaves : List Word) : List Word :=
  if leaves.isEmpty then [Bytes.zero 32] else leaves

lemma foldLeaves_of_ne_nil {leaves : List Word} (h : leaves ≠ []) :
    foldLeaves leaves = leaves := by
  rw [foldLeaves, if_neg (by simpa using h)]

/-- The root that the fold computes. -/
def foldRoot (leaves : List Word) : Word :=
  rowRoot blake3 domain (height (foldLeaves leaves)) (padLayer (foldLeaves leaves))

/-- The pairs that the fold hashes. -/
def foldQueries (leaves : List Word) : List (Word × Word) :=
  queries (nodeHash blake3 domain) (height (foldLeaves leaves)) (padLayer (foldLeaves leaves))

/-- The fold always returns. -/
theorem merkleFold_eq (leaves : List Word) :
    merkleFold blake3 domain leaves =
      ⟨some (foldRoot blake3 domain leaves),
        (foldQueries blake3 domain leaves).map (pairInput domain)⟩ := by
  refine foldLayers_eq blake3 domain (length_padLayer _) ?_
  rw [length_padLayer]
  exact (Nat.lt_two_pow_self).le

/-! ## What the root binds -/

variable {blake3 domain}

/-- Two folds with one root, free of collisions: one padded row is a level of the tree over
the other. -/
theorem exists_level_of_foldRoot_eq {inputs : List (List UInt8)}
    (hfree : CollisionFree blake3 inputs) {xs ys : List Word}
    (hx : ∀ p ∈ foldQueries blake3 domain xs, pairInput domain p ∈ inputs)
    (hy : ∀ p ∈ foldQueries blake3 domain ys, pairInput domain p ∈ inputs)
    (hlen : height (foldLeaves xs) ≤ height (foldLeaves ys))
    (h : foldRoot blake3 domain xs = foldRoot blake3 domain ys) :
    padLayer (foldLeaves xs) = level (nodeHash blake3 domain)
      (height (foldLeaves ys) - height (foldLeaves xs)) (padLayer (foldLeaves ys)) := by
  obtain ⟨k, hk⟩ : ∃ k, height (foldLeaves ys) = k + height (foldLeaves xs) :=
    ⟨_, (Nat.sub_add_cancel hlen).symm⟩
  have hxlen := length_padLayer (foldLeaves xs)
  have hylen := length_padLayer (foldLeaves ys)
  rw [hk] at hylen
  rw [foldRoot, foldRoot, hk] at h
  rw [foldQueries, hk] at hy
  rw [hk, Nat.add_sub_cancel]
  refine level_of_iterate_eq (nodeHash_injectiveOn hfree) hxlen hylen hx hy ?_
  rw [level_eq_rowRoot blake3 domain hxlen, level_eq_rowRoot blake3 domain hylen, h]

/-- A row with one root and the same height is the same row. -/
lemma padLayer_eq_of_foldRoot_eq {inputs : List (List UInt8)}
    (hfree : CollisionFree blake3 inputs) {xs ys : List Word}
    (hx : ∀ p ∈ foldQueries blake3 domain xs, pairInput domain p ∈ inputs)
    (hy : ∀ p ∈ foldQueries blake3 domain ys, pairInput domain p ∈ inputs)
    (hlen : height (foldLeaves xs) = height (foldLeaves ys))
    (h : foldRoot blake3 domain xs = foldRoot blake3 domain ys) :
    padLayer (foldLeaves xs) = padLayer (foldLeaves ys) := by
  have := exists_level_of_foldRoot_eq hfree hx hy hlen.le h
  rwa [hlen, Nat.sub_self] at this

/-- The padded row of `xs` is a row of the tree over `ys`, `k` levels up. -/
def RowAbove (blake3 : Blake3) (domain : Domain) (k : ℕ) (xs ys : List Word) : Prop :=
  padLayer (foldLeaves xs) = level (nodeHash blake3 domain) k (padLayer (foldLeaves ys))

lemma height_of_rowAbove {xs ys : List Word} {k : ℕ} (h : RowAbove blake3 domain k xs ys) :
    height (foldLeaves ys) = k + height (foldLeaves xs) := by
  have hxlen := length_padLayer (foldLeaves xs)
  have hylen := length_padLayer (foldLeaves ys)
  have hle : k ≤ height (foldLeaves ys) := by
    by_contra hlt
    have hnil := level_eq_nil (nodeHash blake3 domain) hylen (not_le.mp hlt)
    rw [h, hnil, List.length_nil] at hxlen
    exact absurd hxlen (Nat.two_pow_pos _).ne
  obtain ⟨i, hi⟩ : ∃ i, height (foldLeaves ys) = k + i := Nat.exists_eq_add_of_le hle
  rw [h, length_level (m := 2 ^ i) _ (by rw [hylen, hi, pow_add])] at hxlen
  rw [hi, Nat.pow_right_injective le_rfl hxlen]

/-- A row of a tree has the tree's root. -/
lemma foldRoot_eq_of_rowAbove {xs ys : List Word} {k : ℕ} (h : RowAbove blake3 domain k xs ys) :
    foldRoot blake3 domain xs = foldRoot blake3 domain ys := by
  rw [foldRoot, foldRoot, rowRoot, rowRoot, height_of_rowAbove h, Nat.add_comm, level_add, h]

/-- **Folds with one root.**  Free of collisions, two folds have one root exactly if the
padded row of one is a row of the tree over the other. -/
theorem foldRoot_eq_iff {inputs : List (List UInt8)} (hfree : CollisionFree blake3 inputs)
    {xs ys : List Word} (hx : ∀ p ∈ foldQueries blake3 domain xs, pairInput domain p ∈ inputs)
    (hy : ∀ p ∈ foldQueries blake3 domain ys, pairInput domain p ∈ inputs) :
    foldRoot blake3 domain xs = foldRoot blake3 domain ys ↔
      (∃ k, RowAbove blake3 domain k xs ys) ∨ ∃ k, RowAbove blake3 domain k ys xs := by
  constructor
  · intro h
    rcases le_total (height (foldLeaves xs)) (height (foldLeaves ys)) with hle | hle
    · exact .inl ⟨_, exists_level_of_foldRoot_eq hfree hx hy hle h⟩
    · exact .inr ⟨_, exists_level_of_foldRoot_eq hfree hy hx hle h.symm⟩
  · rintro (⟨k, h⟩ | ⟨k, h⟩)
    · exact foldRoot_eq_of_rowAbove h
    · exact (foldRoot_eq_of_rowAbove h).symm

/-! ## What the root does not bind -/

lemma ample_word : Ample Word (2 ^ 255) := by
  refine ample_of_injective (f := fun i => Bytes.bigEndian 32 i) fun i j h => ?_
  have hbytes : leBytes 32 i = leBytes 32 j :=
    List.reverse_injective (congrArg List.Vector.toList h)
  exact Fin.ext (leBytes_inj (i.isLt.trans (by norm_num)) (j.isLt.trans (by norm_num)) hbytes)

/-- A BLAKE3 with the given digests of pairs. -/
noncomputable def Blake3.ofNode (domain : Domain) (node : Word → Word → Word) : Blake3 :=
  Function.extend (pairInput domain) (fun p => node p.1 p.2) fun _ => Bytes.zero 32

lemma nodeHash_ofNode (node : Word → Word → Word) :
    nodeHash (Blake3.ofNode domain node) domain = node := by
  ext1 left
  ext1 right
  exact pairInput_injective.extend_apply (fun p => node p.1 p.2) (fun _ => Bytes.zero 32)
    (left, right)

/-- Freedom of collisions, said of the pairs. -/
lemma collisionFree_map_iff {D : List (Word × Word)} :
    CollisionFree blake3 (D.map (pairInput domain)) ↔
      Fits (nodeHash blake3 domain) [Bytes.zero 32] D := by
  constructor
  · intro h
    refine ⟨fun p hp q hq heq => ?_, fun p hp hzero => ?_⟩
    · exact pairInput_injective
        (h.injective _ (List.mem_map_of_mem hp) _ (List.mem_map_of_mem hq) heq)
    · exact h.nonzero _ (List.mem_map_of_mem hp) (List.mem_singleton.mp hzero)
  · intro h
    refine ⟨?_, ?_⟩
    · simp only [List.forall_mem_map]
      exact fun p hp q hq heq => congrArg _ (h.injective p hp q hq heq)
    · simp only [List.forall_mem_map]
      exact fun p hp hzero => h.avoids p hp (List.mem_singleton.mpr hzero)

variable {xs ys : List Word}

/-- Some BLAKE3 is free of collisions on what is hashed for a row. -/
lemma exists_collisionFree (xs : List Word)
    (hsize : 3 * (padLayer (foldLeaves xs)).length < 2 ^ 255) :
    ∃ blake3, CollisionFree blake3 ((foldQueries blake3 domain xs).map (pairInput domain)) := by
  have hempty : Fits (fun left _ : Word => left) [Bytes.zero 32] [] :=
    ⟨by simp [InjectiveOn], by simp⟩
  obtain ⟨node, -, hfits, -⟩ := exists_fold ample_word hempty (height (foldLeaves xs))
    (padLayer (foldLeaves xs)) (by
      rw [List.length_singleton, List.length_nil]
      omega)
  refine ⟨.ofNode domain node, ?_⟩
  rwa [collisionFree_map_iff, foldQueries, nodeHash_ofNode]

/-- A row that labels the segments of another has its root, under some BLAKE3. -/
lemma exists_foldRoot_eq {k : ℕ}
    (h : Labels (Bytes.zero 32) (k + 1) (padLayer (foldLeaves xs)) (padLayer (foldLeaves ys)))
    (hsize : 3 * ((padLayer (foldLeaves xs)).length +
      (padLayer (foldLeaves ys)).length) < 2 ^ 255) :
    ∃ blake3, CollisionFree blake3
        ((foldQueries blake3 domain ys ++ foldQueries blake3 domain xs).map (pairInput domain)) ∧
      foldRoot blake3 domain xs = foldRoot blake3 domain ys := by
  obtain ⟨node, hlevel, hfits⟩ :=
    exists_level_eq ample_word h (height (foldLeaves xs)) hsize
  have hheight : height (foldLeaves ys) = k + 1 + height (foldLeaves xs) := by
    have hlen := h.length
    rw [length_padLayer, length_padLayer, ← pow_add] at hlen
    exact Nat.pow_right_injective le_rfl hlen
  refine ⟨.ofNode domain node, ?_, foldRoot_eq_of_rowAbove (k := k + 1) ?_⟩
  · rw [collisionFree_map_iff, foldQueries, foldQueries, nodeHash_ofNode, hheight, queries_add,
      hlevel]
    exact hfits.mono fun p hp => by simpa using hp
  · rw [RowAbove, nodeHash_ofNode, hlevel]

/-- A row above another labels it. -/
lemma RowAbove.labels {k : ℕ} (h : RowAbove blake3 domain (k + 1) xs ys)
    (hfree : CollisionFree blake3 ((foldQueries blake3 domain ys).map (pairInput domain))) :
    Labels (Bytes.zero 32) (k + 1) (padLayer (foldLeaves xs)) (padLayer (foldLeaves ys)) := by
  have hheight := height_of_rowAbove h
  rw [collisionFree_map_iff, foldQueries, hheight, queries_add] at hfree
  refine labels_of_level_eq (hfree.mono fun p hp => List.mem_append_left _ hp) ?_ h.symm
  rw [length_padLayer, length_padLayer, hheight, pow_add]

/-- **What a root does not bind.**  Under some BLAKE3 without collisions two folds have one root
exactly if their padded rows are the same or one labels the other. -/
theorem exists_foldRoot_eq_iff (hsize : 3 * ((padLayer (foldLeaves xs)).length +
    (padLayer (foldLeaves ys)).length) < 2 ^ 255) :
    (∃ blake3, CollisionFree blake3
        ((foldQueries blake3 domain xs ++ foldQueries blake3 domain ys).map (pairInput domain)) ∧
      foldRoot blake3 domain xs = foldRoot blake3 domain ys) ↔
      padLayer (foldLeaves xs) = padLayer (foldLeaves ys) ∨ ∃ k > 0,
        Labels (Bytes.zero 32) k (padLayer (foldLeaves xs)) (padLayer (foldLeaves ys)) ∨
          Labels (Bytes.zero 32) k (padLayer (foldLeaves ys)) (padLayer (foldLeaves xs)) := by
  constructor
  · rintro ⟨blake3, hfree, heq⟩
    have hpart : ∀ zs : List Word, zs = xs ∨ zs = ys →
        ∀ p ∈ foldQueries blake3 domain zs,
          p ∈ foldQueries blake3 domain xs ++ foldQueries blake3 domain ys := by
      rintro zs (rfl | rfl) p hp
      · exact List.mem_append_left _ hp
      · exact List.mem_append_right _ hp
    have hfree' : ∀ zs : List Word, zs = xs ∨ zs = ys →
        CollisionFree blake3 ((foldQueries blake3 domain zs).map (pairInput domain)) := by
      intro zs hzs
      rw [collisionFree_map_iff] at hfree ⊢
      exact hfree.mono (hpart zs hzs)
    rcases (foldRoot_eq_iff hfree
        (fun p hp => List.mem_map_of_mem (hpart xs (.inl rfl) p hp))
        (fun p hp => List.mem_map_of_mem (hpart ys (.inr rfl) p hp))).mp heq with
      ⟨_ | k, h⟩ | ⟨_ | k, h⟩
    · exact .inl h
    · exact .inr ⟨k + 1, Nat.succ_pos k, .inl (h.labels (hfree' ys (.inr rfl)))⟩
    · exact .inl h.symm
    · exact .inr ⟨k + 1, Nat.succ_pos k, .inr (h.labels (hfree' xs (.inl rfl)))⟩
  · rintro (h | ⟨_ | k, hk, h | h⟩)
    · -- one row, and one tree
      obtain ⟨blake3, hfree⟩ : ∃ blake3, CollisionFree blake3
          ((foldQueries blake3 domain xs).map (pairInput domain)) :=
        exists_collisionFree xs (by omega)
      have habove : RowAbove blake3 domain 0 xs ys := h
      have hqueries : foldQueries blake3 domain ys = foldQueries blake3 domain xs := by
        rw [foldQueries, foldQueries, h, height_of_rowAbove habove, Nat.zero_add]
      refine ⟨blake3, ?_, foldRoot_eq_of_rowAbove habove⟩
      rw [collisionFree_map_iff] at hfree ⊢
      exact hfree.mono fun p hp => by simpa [hqueries] using hp
    · cases hk
    · cases hk
    · obtain ⟨blake3, hfree, heq⟩ := @exists_foldRoot_eq domain _ _ _ h (by omega)
      refine ⟨blake3, ?_, heq⟩
      rw [collisionFree_map_iff] at hfree ⊢
      exact hfree.mono fun p hp => by simpa [or_comm] using hp
    · obtain ⟨blake3, hfree, heq⟩ := @exists_foldRoot_eq domain _ _ _ h (by omega)
      exact ⟨blake3, hfree, heq.symm⟩

/-! ## Entries above the leaves -/

/-- An entry above the leaves is the digest of a hashed pair. -/
lemma exists_of_mem_level_padLayer {leaves : List Word} {k : ℕ} (hk : k < height leaves)
    {x : Word} (hx : x ∈ level (nodeHash blake3 domain) (k + 1) (padLayer leaves)) :
    ∃ p ∈ queries (nodeHash blake3 domain) (height leaves) (padLayer leaves),
      x = nodeHash blake3 domain p.1 p.2 := by
  obtain ⟨p, hp, hxp⟩ := exists_of_mem_level (n := height leaves - (k + 1)) hx
  rw [show k + 1 + (height leaves - (k + 1)) = height leaves by omega] at hp
  exact ⟨p, hp, hxp⟩

/-- The root over at least one leaf is the leaf itself or the digest of a hashed pair. -/
lemma foldRoot_cases {leaves : List Word} (hne : leaves ≠ []) :
    leaves = [foldRoot blake3 domain leaves] ∨
      ∃ p ∈ foldQueries blake3 domain leaves,
        foldRoot blake3 domain leaves = nodeHash blake3 domain p.1 p.2 := by
  have hleaves := foldLeaves_of_ne_nil hne
  rcases hheight : height leaves with _ | n
  · left
    have hlen := length_padLayer leaves
    have hle : leaves.length ≤ 1 := by
      have : leaves.length ≤ 2 ^ height leaves := Nat.le_pow_clog (by norm_num) _
      rwa [hheight] at this
    obtain ⟨x, rfl⟩ : ∃ x, leaves = [x] := by
      obtain ⟨x, rest, rfl⟩ := List.exists_cons_of_ne_nil hne
      exact ⟨x, by simpa using hle⟩
    rfl
  · right
    have hroot := level_eq_rowRoot blake3 domain (length_padLayer leaves)
    have hmem : foldRoot blake3 domain leaves ∈
        level (nodeHash blake3 domain) (n + 1) (padLayer leaves) := by
      rw [foldRoot, hleaves, ← hheight, hroot]
      exact List.mem_singleton_self _
    obtain ⟨p, hp, hxp⟩ := exists_of_mem_level_padLayer (by omega) hmem
    refine ⟨p, ?_, hxp⟩
    rwa [foldQueries, hleaves]

/-- Rows without zero leaves are determined by their padding. -/
lemma eq_of_padLayer_eq {xs ys : List Word} (hx : ∀ x ∈ xs, x ≠ Bytes.zero 32)
    (hy : ∀ y ∈ ys, y ≠ Bytes.zero 32) (h : padLayer xs = padLayer ys) : xs = ys := by
  have hfilter : ∀ zs : List Word, (∀ z ∈ zs, z ≠ Bytes.zero 32) →
      (padLayer zs).filter (fun z => decide (z ≠ Bytes.zero 32)) = zs := by
    intro zs hz
    rw [padLayer, List.filter_append, List.filter_eq_self.mpr (by simpa using hz),
      List.filter_eq_nil_iff.mpr (by simp), List.append_nil]
  rw [← hfilter xs hx, ← hfilter ys hy, h]

end KaySentinel
