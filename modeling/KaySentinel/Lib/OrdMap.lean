import KaySentinel.Lib.Fallible

/-!
# Ordered maps with fallible bodies

A `BTreeMap` is a `Std.ExtTreeMap`.  `mapExcept` is the loop that rebuilds a map entry by
entry and stops at the first error; `getElem?_mapExcept` and `mapExcept_eq_error` describe
it one key at a time.
-/

namespace OrdMap

variable {K V W ε : Type} [Ord K] [Std.TransOrd K] [Std.LawfulEqOrd K]

/-- A `BTreeMap<K, V>`. -/
abbrev Map (K V : Type) [Ord K] := Std.ExtTreeMap K V compare

/-- An update of one entry, read at any key. -/
lemma getElem?_alter [DecidableEq K] (t : Map K V) (k k' : K) (f : Option V → Option V) :
    (t.alter k f)[k']? = if k = k' then f t[k]? else t[k']? := by
  rw [Std.ExtTreeMap.getElem?_alter]
  simp only [Std.LawfulEqCmp.compare_eq_iff_eq]

lemma getElem?_insert [DecidableEq K] (t : Map K V) (k k' : K) (v : V) :
    (t.insert k v)[k']? = if k = k' then some v else t[k']? := by
  rw [Std.ExtTreeMap.getElem?_insert]
  simp only [Std.LawfulEqCmp.compare_eq_iff_eq]

/-- The values in key order. -/
def values (t : Map K V) : List V := t.toList.map Prod.snd

/-! ## Grouping by key -/

section Grouping

variable {E S : Type} [DecidableEq K]

/-- `entry(key).or_insert_with(Vec::new).push(value)` -/
def pushEntry (t : Map K (List V)) (k : K) (v : V) : Map K (List V) :=
  t.alter k fun entry => some (entry.getD [] ++ [v])

/-- The values that a list of letters has at a key, in order. -/
def valuesAt (f : E → Option (K × V)) (k : K) (l : List E) : List V :=
  l.filterMap fun e => (f e).bind fun p => if p.1 = k then some p.2 else none

/-- A loop whose steps push the value of a letter under the key of the letter groups the values
by key.  `table` is the part of the state that holds the groups. -/
lemma getElem?_foldl_pushEntry (table : S → Map K (List V)) {f : E → Option (K × V)}
    {step : S → E → S} {s : S} (hs : table s = ∅)
    (hstep : ∀ s e, table (step s e) =
      (f e).elim (table s) fun p => pushEntry (table s) p.1 p.2) (l : List E) (k : K) :
    (table (l.foldl step s))[k]? = if valuesAt f k l = [] then none else some (valuesAt f k l) := by
  induction l using List.reverseRecOn with
  | nil => simp [hs, valuesAt]
  | append_singleton l e ih =>
    rw [List.foldl_append, List.foldl_cons, List.foldl_nil, hstep, valuesAt, List.filterMap_append,
      ← valuesAt]
    cases hf : f e with
    | none => simpa [hf] using ih
    | some p =>
      obtain ⟨k', v⟩ := p
      simp only [Option.elim, pushEntry, getElem?_alter]
      by_cases hk : k' = k
      · subst hk
        have hpush : (table (l.foldl step s))[k']?.getD [] = valuesAt f k' l := by
          rw [ih]
          split_ifs with hnil
          · exact hnil.symm
          · rfl
        simp [hf, hpush]
      · rw [if_neg hk, ih]
        simp [hf, hk]

end Grouping

/-! ## Rebuilding a map -/

/-- The loop of `mapExcept` over the entries. -/
def collect (f : K → V → Except ε W) (acc : Map K W) : List (K × V) → Except ε (Map K W)
  | [] => .ok acc
  | (k, v) :: rest => do
      let w ← f k v
      collect f (acc.insert k w) rest

/-- Apply a fallible function to every entry, in key order. -/
def mapExcept (f : K → V → Except ε W) (t : Map K V) : Except ε (Map K W) :=
  collect f ∅ t.toList

omit [Std.LawfulEqOrd K] in
lemma collect_cons_eq_ok {f : K → V → Except ε W} {acc t : Map K W} {k : K} {v : V}
    {rest : List (K × V)} :
    collect f acc ((k, v) :: rest) = .ok t ↔
      ∃ w, f k v = .ok w ∧ collect f (acc.insert k w) rest = .ok t := by
  rw [collect]
  exact Fallible.bind_eq_ok_iff

lemma getElem?_collect [DecidableEq K] {f : K → V → Except ε W} {acc t : Map K W}
    {l : List (K × V)} (h : collect f acc l = .ok t)
    (hl : l.Pairwise fun a b => a.1 ≠ b.1) (k : K) :
    (∀ v, (k, v) ∈ l → ∃ w, f k v = .ok w ∧ t[k]? = some w) ∧
      ((∀ v, (k, v) ∉ l) → t[k]? = acc[k]?) := by
  induction l generalizing acc with
  | nil =>
    obtain rfl := Except.ok.inj h
    exact ⟨by simp, fun _ => rfl⟩
  | cons entry rest ih =>
    obtain ⟨k₀, v₀⟩ := entry
    obtain ⟨w₀, hw₀, hrest⟩ := collect_cons_eq_ok.mp h
    obtain ⟨hhead, hl'⟩ := List.pairwise_cons.mp hl
    obtain ⟨hmem, hnot⟩ := ih hrest hl'
    constructor
    · intro v hv
      rcases List.mem_cons.mp hv with heq | hv
      · obtain ⟨rfl, rfl⟩ := Prod.mk.inj heq
        refine ⟨w₀, hw₀, ?_⟩
        rw [hnot fun v' hv' => hhead _ hv' rfl, getElem?_insert, if_pos rfl]
      · exact hmem v hv
    · intro hne
      have hk : k₀ ≠ k := by
        rintro rfl
        exact hne v₀ (by simp)
      rw [hnot fun v hv => hne v (by simp [hv]), getElem?_insert, if_neg hk]

lemma pairwise_toList (t : Map K V) : t.toList.Pairwise fun a b => a.1 ≠ b.1 := by
  refine t.distinct_keys_toList.imp ?_
  intro a b h heq
  exact h (by rw [heq]; exact Std.ReflCmp.compare_self)

lemma mem_toList_iff {t : Map K V} {k : K} {v : V} : (k, v) ∈ t.toList ↔ t[k]? = some v :=
  Std.ExtTreeMap.mem_toList_iff_getElem?_eq_some

lemma mem_values_iff {t : Map K V} {v : V} : v ∈ values t ↔ ∃ k : K, t[k]? = some v := by
  rw [values, List.mem_map]
  constructor
  · rintro ⟨⟨k, v⟩, hmem, rfl⟩
    exact ⟨k, mem_toList_iff.mp hmem⟩
  · rintro ⟨k, h⟩
    exact ⟨(k, v), mem_toList_iff.mpr h, rfl⟩

/-- A rebuilt map holds, at each key, what the function made of the old entry. -/
lemma getElem?_mapExcept [DecidableEq K] {f : K → V → Except ε W} {t : Map K V} {t' : Map K W}
    (h : mapExcept f t = .ok t') (k : K) :
    match t[k]? with
    | some v => ∃ w, f k v = .ok w ∧ t'[k]? = some w
    | none => t'[k]? = none := by
  obtain ⟨hmem, hnot⟩ := getElem?_collect h (pairwise_toList t) k
  cases hk : t[k]? with
  | some v => exact hmem v (mem_toList_iff.mpr hk)
  | none =>
    simpa using hnot fun v hv => by simp [mem_toList_iff.mp hv] at hk

omit [Std.LawfulEqOrd K] in
lemma collect_eq_error {f : K → V → Except ε W} {acc : Map K W} {l : List (K × V)} {e : ε}
    (h : collect f acc l = .error e) : ∃ k v, (k, v) ∈ l ∧ f k v = .error e := by
  induction l generalizing acc with
  | nil => exact absurd h (by simp [collect])
  | cons entry rest ih =>
    obtain ⟨k, v⟩ := entry
    cases hf : f k v with
    | error e' =>
      simp only [collect, hf, bind, Except.bind, Except.error.injEq] at h
      exact ⟨k, v, by simp, h ▸ hf⟩
    | ok w =>
      simp only [collect, hf, bind, Except.bind] at h
      obtain ⟨k', v', hmem, he⟩ := ih h
      exact ⟨k', v', List.mem_cons_of_mem _ hmem, he⟩

/-- The error of a failed rebuild is that of one of the entries. -/
lemma mapExcept_eq_error {f : K → V → Except ε W} {t : Map K V} {e : ε}
    (h : mapExcept f t = .error e) : ∃ k v, t[k]? = some v ∧ f k v = .error e := by
  obtain ⟨k, v, hmem, he⟩ := collect_eq_error h
  exact ⟨k, v, mem_toList_iff.mp hmem, he⟩

omit [Std.LawfulEqOrd K] in
lemma collect_congr {f g : K → V → Except ε W} {acc : Map K W} {l : List (K × V)}
    (h : ∀ e ∈ l, f e.1 e.2 = g e.1 e.2) : collect f acc l = collect g acc l := by
  induction l generalizing acc with
  | nil => rfl
  | cons e l ih =>
    obtain ⟨k, v⟩ := e
    have hhead : f k v = g k v := h (k, v) (by simp)
    simp only [collect, hhead, ih fun e he => h e (by simp [he])]

lemma mapExcept_congr {f g : K → V → Except ε W} {t : Map K V}
    (h : ∀ (k : K) (v : V), t[k]? = some v → f k v = g k v) : mapExcept f t = mapExcept g t :=
  collect_congr fun e he => h e.1 e.2 (mem_toList_iff.mp he)

/-- Where the function succeeds on every entry, the rebuild does. -/
lemma mapExcept_eq_ok_map {f : K → V → Except ε W} {t : Map K V} {g : K → V → W}
    (h : ∀ (k : K) (v : V), t[k]? = some v → f k v = .ok (g k v)) :
    mapExcept f t = .ok (t.map g) := by
  classical
  cases hf : mapExcept f t with
  | error e =>
    obtain ⟨k, v, hk, he⟩ := mapExcept_eq_error hf
    rw [h k v hk] at he
    exact absurd he (by simp)
  | ok t' =>
    refine congrArg Except.ok (Std.ExtTreeMap.ext_getElem? fun k => ?_)
    have hget := getElem?_mapExcept hf k
    rw [Std.ExtTreeMap.getElem?_map]
    cases hk : t[k]? with
    | none =>
      rw [hk] at hget
      exact hget
    | some v =>
      rw [hk] at hget
      obtain ⟨w, hw, hget⟩ := hget
      rw [hget, ← Except.ok.inj ((h k v hk).symm.trans hw)]
      rfl

lemma exists_mapExcept_eq_ok_iff {f : K → V → Except ε W} {t : Map K V} :
    (∃ t', mapExcept f t = .ok t') ↔ ∀ (k : K) (v : V), t[k]? = some v → ∃ w, f k v = .ok w := by
  classical
  constructor
  · rintro ⟨t', h⟩ k v hk
    have hget := getElem?_mapExcept h k
    rw [hk] at hget
    obtain ⟨w, hw, -⟩ := hget
    exact ⟨w, hw⟩
  · intro h
    cases hf : mapExcept f t with
    | ok t' => exact ⟨t', rfl⟩
    | error e =>
      obtain ⟨k, v, hk, he⟩ := mapExcept_eq_error hf
      obtain ⟨w, hw⟩ := h k v hk
      rw [hw] at he
      exact absurd he (by simp)

/-- Overwriting every entry of a map in key order. -/
lemma foldl_insert_toList (t : Map K V) (f : K → V → V) :
    t.toList.foldl (fun acc e => acc.insert e.1 (f e.1 e.2)) t = t.map f := by
  classical
  have hcollect : ∀ (l : List (K × V)) (acc : Map K V),
      collect (ε := Empty) (fun k v => .ok (f k v)) acc l =
        .ok (l.foldl (fun acc e => acc.insert e.1 (f e.1 e.2)) acc) := by
    intro l
    induction l with
    | nil => exact fun acc => rfl
    | cons e l ih => exact fun acc => ih _
  refine Std.ExtTreeMap.ext_getElem? fun k => ?_
  obtain ⟨hmem, hnot⟩ := getElem?_collect (hcollect t.toList t) (pairwise_toList t) k
  rw [Std.ExtTreeMap.getElem?_map]
  cases hk : t[k]? with
  | some v =>
    obtain ⟨w, hw, hget⟩ := hmem v (mem_toList_iff.mpr hk)
    rw [hget, ← Except.ok.inj hw]
    rfl
  | none =>
    rw [hnot fun v hv => by simp [mem_toList_iff.mp hv] at hk, hk]
    rfl

end OrdMap
