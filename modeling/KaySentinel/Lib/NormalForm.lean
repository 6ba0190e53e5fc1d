import Mathlib

/-!
# Sorting, then dropping repeated keys

`normalize cmp key` sorts a list stably by `cmp` and drops every entry whose predecessor has
the same key; entries that tie under `cmp` have the same key, the converse need not hold.
What is left is strictly sorted, so that a second pass changes nothing
(`normalize_normalize`).  An entry is left exactly if it is the first of its tie class and
starts a run of its key (`StartsRun`); hence the result depends on the order of the input
only through entries that tie (`map_normalize_perm_iff`), and its keys are distinct exactly
if no key is interrupted by another (`nodup_map_key_normalize_iff`).
-/

namespace NormalForm

variable {α κ : Type*} (cmp : α → α → Ordering) (key : α → κ)

/-- A stable sort. -/
def sort (l : List α) : List α :=
  l.insertionSort fun a b => (cmp a b).isLE

/-- Sort, then keep the first of consecutive entries with one key. -/
def normalize [DecidableEq κ] (l : List α) : List α :=
  (sort cmp l).destutter fun a b => key a ≠ key b

/-- Between `a` and any earlier entry with its key there is an entry with another key. -/
def StartsRun (l : List α) (a : α) : Prop :=
  ∀ c ∈ l, key c = key a → cmp c a = .lt →
    ∃ d ∈ l, (cmp c d).isLE = true ∧ (cmp d a).isLE = true ∧ key d ≠ key a

/-- No entry with another key lies between two entries with one key. -/
def Uninterrupted (l : List α) : Prop :=
  ∀ a ∈ l, ∀ b ∈ l, ∀ c ∈ l, (cmp a b).isLE = true → (cmp b c).isLE = true → key a = key c →
    key b = key a

/-! ## The sort -/

lemma perm_sort (l : List α) : (sort cmp l).Perm l :=
  List.perm_insertionSort _ l

@[simp] lemma mem_sort {l : List α} {a : α} : a ∈ sort cmp l ↔ a ∈ l :=
  (perm_sort cmp l).mem_iff

section Sorted

variable [Std.TransCmp cmp]

lemma isLE_of_not_lt {a b : α} (h : ¬cmp a b = .lt) : (cmp b a).isLE = true := by
  by_contra hnot
  exact h (Std.OrientedCmp.lt_of_not_isLE hnot)

lemma lt_of_not_isLE {a b : α} (h : ¬(cmp a b).isLE = true) : cmp b a = .lt :=
  Std.OrientedCmp.lt_of_not_isLE h

lemma pairwise_sort (l : List α) : (sort cmp l).Pairwise fun a b => (cmp a b).isLE = true := by
  have htotal : Std.Total fun a b => (cmp a b).isLE = true := by
    refine ⟨fun a b => ?_⟩
    by_cases h : (cmp a b).isLE = true
    · exact .inl h
    · exact .inr (by rw [lt_of_not_isLE cmp h]; rfl)
  have htrans : IsTrans α fun a b => (cmp a b).isLE = true :=
    ⟨fun a b c => Std.TransCmp.isLE_trans⟩
  exact List.pairwise_insertionSort _ l

/-- A nonempty list has a least entry. -/
lemma exists_least {l : List α} (h : l ≠ []) : ∃ a ∈ l, ∀ b ∈ l, (cmp a b).isLE = true := by
  cases hsort : sort cmp l with
  | nil =>
    have hlength := (perm_sort cmp l).length_eq
    rw [hsort] at hlength
    exact absurd (List.length_eq_zero_iff.mp hlength.symm) h
  | cons a rest =>
    have hmem : ∀ b, b ∈ l ↔ b = a ∨ b ∈ rest := by
      intro b
      rw [← mem_sort cmp, hsort, List.mem_cons]
    have hle := pairwise_sort cmp l
    rw [hsort] at hle
    refine ⟨a, (hmem a).mpr (.inl rfl), fun b hb => ?_⟩
    rcases (hmem b).mp hb with rfl | hb
    · exact Std.ReflCmp.isLE_rfl
    · exact (List.pairwise_cons.mp hle).1 b hb

/-- Two strictly sorted lists whose entries have partners in each other are related entry by
entry. -/
lemma forall₂_of_partners {R : α → α → Prop} (hR : ∀ {a b}, R a b → cmp a b = .eq)
    {s t : List α} (hs : s.Pairwise fun a b => cmp a b = .lt)
    (ht : t.Pairwise fun a b => cmp a b = .lt) (hst : ∀ a ∈ s, ∃ b ∈ t, R a b)
    (hts : ∀ b ∈ t, ∃ a ∈ s, R a b) : List.Forall₂ R s t := by
  induction s generalizing t with
  | nil =>
    cases t with
    | nil => exact .nil
    | cons b t =>
      obtain ⟨a, ha, -⟩ := hts b (by simp)
      exact absurd ha (by simp)
  | cons a s ih =>
    cases t with
    | nil =>
      obtain ⟨b, hb, -⟩ := hst a (by simp)
      exact absurd hb (by simp)
    | cons b t =>
      obtain ⟨has, hs⟩ := List.pairwise_cons.mp hs
      obtain ⟨hbt, ht⟩ := List.pairwise_cons.mp ht
      -- the least entries are partners
      have hab : R a b := by
        obtain ⟨b', hb', hab'⟩ := hst a (by simp)
        obtain ⟨a', ha', ha'b⟩ := hts b (by simp)
        rcases List.mem_cons.mp hb' with rfl | hb'
        · exact hab'
        rcases List.mem_cons.mp ha' with rfl | ha'
        · exact ha'b
        have hlt : cmp a b = .lt := by
          rw [← Std.TransCmp.congr_right (hR ha'b)]
          exact has a' ha'
        have hgt : cmp b a = .lt := by
          rw [Std.TransCmp.congr_right (hR hab')]
          exact hbt b' hb'
        rw [Std.OrientedCmp.gt_of_lt hgt] at hlt
        exact absurd hlt (by simp)
      refine .cons hab (ih hs ht ?_ ?_)
      · intro a' ha'
        obtain ⟨b', hb', hrel⟩ := hst a' (by simp [ha'])
        rcases List.mem_cons.mp hb' with rfl | hb'
        · have htie := Std.TransCmp.eq_trans (hR hab) (Std.OrientedCmp.eq_symm (hR hrel))
          rw [has a' ha'] at htie
          exact absurd htie (by simp)
        · exact ⟨b', hb', hrel⟩
      · intro b' hb'
        obtain ⟨a', ha', hrel⟩ := hts b' (by simp [hb'])
        rcases List.mem_cons.mp ha' with rfl | ha'
        · have htie := Std.TransCmp.eq_trans (Std.OrientedCmp.eq_symm (hR hab)) (hR hrel)
          rw [hbt b' hb'] at htie
          exact absurd htie (by simp)
        · exact ⟨a', ha', hrel⟩

/-- A strictly sorted list has one entry of a tie class. -/
lemma eq_of_tie {l : List α} (h : l.Pairwise fun a b => cmp a b = .lt) {a b : α} (ha : a ∈ l)
    (hb : b ∈ l) (htie : cmp a b = .eq) : a = b := by
  have hpair : l.Pairwise fun a b => cmp a b = .eq → a = b := by
    refine h.imp fun hlt heq => ?_
    rw [hlt] at heq
    exact absurd heq (by simp)
  have hsymm : Std.Symm fun a b => cmp a b = .eq → a = b :=
    ⟨fun a b hab hba => (hab (Std.OrientedCmp.eq_symm hba)).symm⟩
  exact hpair.forall_of_forall (fun a _ _ => rfl) ha hb htie

end Sorted

/-! ## The entries that are left -/

section Destutter

variable {key} [DecidableEq κ]

lemma mem_destutter'_iff {a b : α} {l : List α} :
    a ∈ l.destutter' (fun a b => key a ≠ key b) b ↔
      a = b ∨ ∃ p q, l = p ++ a :: q ∧ ∀ c ∈ (b :: p).getLast?, key c ≠ key a := by
  induction l generalizing b with
  | nil => simp
  | cons x l ih =>
    by_cases hkey : key b = key x
    · rw [List.destutter'_cons_neg _ (by simpa using hkey), ih]
      refine or_congr_right ⟨?_, ?_⟩
      · rintro ⟨p, q, rfl, hlast⟩
        refine ⟨x :: p, q, rfl, ?_⟩
        cases p with
        | nil => simpa [hkey] using hlast
        | cons y p => simpa using hlast
      · rintro ⟨p, q, heq, hlast⟩
        cases p with
        | nil =>
          obtain ⟨rfl, rfl⟩ := List.cons.inj heq
          exact absurd hkey (by simpa using hlast)
        | cons y p =>
          obtain ⟨rfl, rfl⟩ := List.cons.inj heq
          refine ⟨p, q, rfl, ?_⟩
          cases p with
          | nil => simpa [hkey] using hlast
          | cons z p => simpa using hlast
    · rw [List.destutter'_cons_pos _ hkey, List.mem_cons, ih]
      refine or_congr_right ⟨?_, ?_⟩
      · rintro (rfl | ⟨p, q, rfl, hlast⟩)
        · exact ⟨[], l, rfl, by simpa using hkey⟩
        · exact ⟨x :: p, q, rfl, by simpa using hlast⟩
      · rintro ⟨p, q, heq, hlast⟩
        cases p with
        | nil => exact .inl (List.cons.inj heq).1.symm
        | cons y p =>
          obtain ⟨rfl, rfl⟩ := List.cons.inj heq
          exact .inr ⟨p, q, rfl, by simpa using hlast⟩

/-- An entry is left exactly if its predecessor has another key. -/
lemma mem_destutter_iff {a : α} {l : List α} :
    a ∈ l.destutter (fun a b => key a ≠ key b) ↔
      ∃ p q, l = p ++ a :: q ∧ ∀ c ∈ p.getLast?, key c ≠ key a := by
  cases l with
  | nil => simp
  | cons b l =>
    rw [List.destutter_cons', mem_destutter'_iff]
    constructor
    · rintro (rfl | ⟨p, q, rfl, hlast⟩)
      · exact ⟨[], l, rfl, by simp⟩
      · exact ⟨b :: p, q, rfl, hlast⟩
    · rintro ⟨p, q, heq, hlast⟩
      cases p with
      | nil => exact .inl (List.cons.inj heq).1.symm
      | cons c p =>
        obtain ⟨rfl, rfl⟩ := List.cons.inj heq
        exact .inr ⟨p, q, rfl, hlast⟩

end Destutter

section Run

variable {cmp key} [Std.TransCmp cmp]

omit [Std.TransCmp cmp] in
lemma StartsRun.of_mem_iff {l l' : List α} {a : α} (h : ∀ d, d ∈ l ↔ d ∈ l')
    (ha : StartsRun cmp key l a) : StartsRun cmp key l' a := by
  intro c hc hkey hlt
  obtain ⟨d, hd, hrest⟩ := ha c ((h c).mpr hc) hkey hlt
  exact ⟨d, (h d).mp hd, hrest⟩

/-- Entries that tie start a run together. -/
lemma StartsRun.of_tie (hkey : ∀ a b, cmp a b = .eq → key a = key b) {l : List α} {a b : α}
    (htie : cmp a b = .eq) (ha : StartsRun cmp key l a) : StartsRun cmp key l b := by
  intro c hc hcb hlt
  rw [← Std.TransCmp.congr_right htie] at hlt
  obtain ⟨d, hd, hcd, hda, hne⟩ := ha c hc (hcb.trans (hkey _ _ htie).symm) hlt
  refine ⟨d, hd, hcd, ?_, fun hdb => hne (hdb.trans (hkey _ _ htie).symm)⟩
  rw [← Std.TransCmp.congr_right htie]
  exact hda

/-- In a sorted list the entry after one with another key starts a run. -/
lemma startsRun_of_getLast {p q : List α} {a : α}
    (hsorted : (p ++ a :: q).Pairwise fun a b => (cmp a b).isLE = true)
    (hlast : ∀ c ∈ p.getLast?, key c ≠ key a) : StartsRun cmp key (p ++ a :: q) a := by
  obtain ⟨hp, hq, hpq⟩ := List.pairwise_append.mp hsorted
  intro c hc hkey hlt
  rcases List.mem_append.mp hc with hc | hc
  · -- the last entry before `a` lies between `c` and `a`
    cases hd : p.getLast? with
    | none => rw [List.getLast?_eq_none_iff.mp hd] at hc; exact absurd hc (by simp)
    | some d =>
      obtain ⟨p, rfl⟩ := List.getLast?_eq_some_iff.mp hd
      refine ⟨d, by simp, ?_, hpq d (by simp) a (by simp), hlast d hd⟩
      rcases List.mem_append.mp hc with hc | hc
      · exact (List.pairwise_append.mp hp).2.2 c hc d (by simp)
      · rw [List.mem_singleton.mp hc]
        exact Std.ReflCmp.isLE_rfl
  · rcases List.mem_cons.mp hc with rfl | hc
    · have hself : cmp c c = .eq := Std.ReflCmp.compare_self
      rw [hself] at hlt
      exact absurd hlt (by simp)
    · exact absurd hlt (Std.OrientedCmp.not_lt_of_isLE ((List.pairwise_cons.mp hq).1 c hc))

/-- In a sorted list an entry that starts a run and ties with no earlier one comes after an
entry with another key. -/
lemma getLast_of_startsRun (hkey : ∀ a b, cmp a b = .eq → key a = key b) {p q : List α} {a : α}
    (hsorted : (p ++ a :: q).Pairwise fun a b => (cmp a b).isLE = true)
    (hfirst : ∀ c ∈ p, cmp c a = .lt) (ha : StartsRun cmp key (p ++ a :: q) a) :
    ∀ c ∈ p.getLast?, key c ≠ key a := by
  intro c hc hca
  obtain ⟨p, rfl⟩ := List.getLast?_eq_some_iff.mp hc
  obtain ⟨hp, hq, -⟩ := List.pairwise_append.mp hsorted
  obtain ⟨d, hd, hcd, hda, hne⟩ := ha c (by simp) hca (hfirst c (by simp))
  have hbefore : ∀ d ∈ p ++ [c], (cmp d c).isLE = true := by
    intro d hd
    rcases List.mem_append.mp hd with hd | hd
    · exact (List.pairwise_append.mp hp).2.2 d hd c (by simp)
    · rw [List.mem_singleton.mp hd]
      exact Std.ReflCmp.isLE_rfl
  have hafter : ∀ d ∈ a :: q, (cmp a d).isLE = true := by
    intro d hd
    rcases List.mem_cons.mp hd with rfl | hd
    · exact Std.ReflCmp.isLE_rfl
    · exact (List.pairwise_cons.mp hq).1 d hd
  rcases List.mem_append.mp hd with hd | hd
  · exact hne ((hkey _ _ (Std.OrientedCmp.isLE_antisymm (hbefore d hd) hcd)).trans hca)
  · exact hne (hkey _ _ (Std.OrientedCmp.isLE_antisymm hda (hafter d hd)))

end Run

/-! ## The normal form -/

section Normalize

variable {cmp key} [DecidableEq κ] [Std.TransCmp cmp]

omit [Std.TransCmp cmp] in
lemma mem_of_mem_normalize {l : List α} {a : α} (h : a ∈ normalize cmp key l) : a ∈ l :=
  (mem_sort cmp).mp ((List.destutter_sublist _ _).subset h)

omit [Std.TransCmp cmp] in
/-- A sorted list without repeated keys next to each other is left as it is. -/
lemma normalize_eq_self {l : List α} (hsorted : l.Pairwise fun a b => (cmp a b).isLE = true)
    (hkeys : l.IsChain fun a b => key a ≠ key b) : normalize cmp key l = l := by
  rw [normalize, sort, hsorted.insertionSort_eq]
  exact List.destutter_of_isChain _ _ hkeys

omit [Std.TransCmp cmp] in
/-- Where no key is repeated, no entry is dropped. -/
lemma perm_normalize {l : List α} (h : (l.map key).Nodup) : (normalize cmp key l).Perm l := by
  have hsort := perm_sort cmp l
  have hnodup : ((sort cmp l).map key).Nodup := (hsort.map key).nodup_iff.mpr h
  rw [normalize, List.destutter_of_isChain _ _ (List.pairwise_map.mp hnodup).isChain]
  exact hsort

lemma startsRun_of_mem_normalize {l : List α} {a : α} (h : a ∈ normalize cmp key l) :
    StartsRun cmp key l a := by
  obtain ⟨p, q, heq, hlast⟩ := mem_destutter_iff.mp h
  have hsorted := pairwise_sort cmp l
  rw [heq] at hsorted
  refine (startsRun_of_getLast hsorted hlast).of_mem_iff fun d => ?_
  rw [← heq, mem_sort]

variable (hkey : ∀ a b, cmp a b = .eq → key a = key b)
include hkey

/-- Of entries that tie and start a run, one is left. -/
lemma exists_tie_mem_normalize {l : List α} {a : α} (ha : a ∈ l) (hrun : StartsRun cmp key l a) :
    ∃ b ∈ normalize cmp key l, cmp a b = .eq := by
  have hfind : ((sort cmp l).find? fun b => cmp a b = .eq).isSome := by
    rw [List.find?_isSome]
    exact ⟨a, (mem_sort cmp).mpr ha, by simp [Std.ReflCmp.compare_self]⟩
  obtain ⟨b, hb⟩ := Option.isSome_iff_exists.mp hfind
  obtain ⟨htie, p, q, heq, hnot⟩ := List.find?_eq_some_iff_append.mp hb
  have htie : cmp a b = .eq := by simpa using htie
  have hsorted := pairwise_sort cmp l
  rw [heq] at hsorted
  have hfirst : ∀ c ∈ p, cmp c b = .lt := by
    intro c hc
    have hle := (List.pairwise_append.mp hsorted).2.2 c hc b (by simp)
    cases hcb : cmp c b with
    | lt => rfl
    | gt => rw [hcb] at hle; exact absurd hle (by simp)
    | eq =>
      have hca : cmp a c = .eq := Std.TransCmp.eq_trans htie (Std.OrientedCmp.eq_symm hcb)
      exact absurd (hnot c hc) (by simp [hca])
  have hrun' : StartsRun cmp key (p ++ b :: q) b :=
    (hrun.of_tie hkey htie).of_mem_iff fun d => by rw [← heq, mem_sort]
  exact ⟨b, mem_destutter_iff.mpr ⟨p, q, heq, getLast_of_startsRun hkey hsorted hfirst hrun'⟩,
    htie⟩

/-- The sort is stable: an entry that heads the list comes before all that tie with it. -/
lemma mem_normalize_cons {l : List α} {a : α} (hrun : StartsRun cmp key (a :: l) a) :
    a ∈ normalize cmp key (a :: l) := by
  have heq : sort cmp (a :: l) = ((sort cmp l).takeWhile fun b => !(cmp a b).isLE) ++
      a :: (sort cmp l).dropWhile fun b => !(cmp a b).isLE := by
    have h := List.orderedInsert_eq_take_drop (fun a b => (cmp a b).isLE = true) a (sort cmp l)
    simp only [decide_not, Bool.decide_eq_true] at h
    exact h
  have hsorted := pairwise_sort cmp (a :: l)
  rw [heq] at hsorted
  refine mem_destutter_iff.mpr ⟨_, _, heq, getLast_of_startsRun hkey hsorted ?_ ?_⟩
  · intro c hc
    exact lt_of_not_isLE cmp (by simpa using List.mem_takeWhile_imp hc)
  · refine hrun.of_mem_iff fun d => ?_
    rw [← heq, mem_sort]

lemma pairwise_normalize (l : List α) :
    (normalize cmp key l).Pairwise fun a b => cmp a b = .lt := by
  have hle := (pairwise_sort cmp l).sublist
    (List.destutter_sublist (fun a b => key a ≠ key b) (sort cmp l))
  have hne := List.isChain_destutter (fun a b => key a ≠ key b) (sort cmp l)
  have htrans : IsTrans α fun a b => cmp a b = .lt := ⟨fun a b c => Std.TransCmp.lt_trans⟩
  rw [← List.isChain_iff_pairwise]
  refine List.isChain_iff_getElem.mpr fun i hi => ?_
  have hle := List.pairwise_iff_getElem.mp hle i (i + 1) (Nat.lt_of_succ_lt hi) hi (by omega)
  have hne := List.isChain_iff_getElem.mp hne i hi
  by_contra hnot
  exact hne (hkey _ _ (Std.OrientedCmp.isLE_antisymm hle (isLE_of_not_lt cmp hnot)))

/-- **Idempotence.** -/
theorem normalize_normalize (l : List α) :
    normalize cmp key (normalize cmp key l) = normalize cmp key l := by
  refine normalize_eq_self ((pairwise_normalize hkey l).imp ?_) (List.isChain_destutter _ _)
  intro a b hlt
  rw [hlt]
  rfl

/-! ## The order of the input -/

/-- Only the entries that tie can make the order of the input show. -/
theorem map_normalize_perm_iff {β : Type*} {f : α → β} {l : List α} :
    (∀ l', l'.Perm l → (normalize cmp key l').map f = (normalize cmp key l).map f) ↔
      ∀ a ∈ l, ∀ b ∈ l, cmp a b = .eq → StartsRun cmp key l a → f a = f b := by
  have hpartner : ∀ l₁ l₂ : List α, l₁.Perm l₂ → ∀ a ∈ normalize cmp key l₁,
      ∃ b ∈ normalize cmp key l₂, cmp a b = .eq := by
    intro l₁ l₂ hperm a ha
    exact exists_tie_mem_normalize hkey (hperm.mem_iff.mp (mem_of_mem_normalize ha))
      ((startsRun_of_mem_normalize ha).of_mem_iff fun d => hperm.mem_iff)
  constructor
  · intro h a ha b hb htie hrun
    -- put `a` in front, then `b`
    have hfront : ∀ c ∈ l, StartsRun cmp key l c → ∃ l', l'.Perm l ∧ c ∈ normalize cmp key l' := by
      intro c hc hrun
      obtain ⟨p, q, rfl⟩ := List.append_of_mem hc
      have hperm : (c :: (p ++ q)).Perm (p ++ c :: q) := List.perm_middle.symm
      exact ⟨c :: (p ++ q), hperm, mem_normalize_cons hkey
        (hrun.of_mem_iff fun d => hperm.mem_iff.symm)⟩
    obtain ⟨l₁, hl₁, ha₁⟩ := hfront a ha hrun
    obtain ⟨l₂, hl₂, hb₂⟩ := hfront b hb (hrun.of_tie hkey htie)
    have heq : (normalize cmp key l₁).map f = (normalize cmp key l₂).map f :=
      (h l₁ hl₁).trans (h l₂ hl₂).symm
    have hties : List.Forall₂ (fun a b => cmp a b = .eq) (normalize cmp key l₁)
        (normalize cmp key l₂) := by
      refine forall₂_of_partners cmp id (pairwise_normalize hkey l₁) (pairwise_normalize hkey l₂)
        (hpartner l₁ l₂ (hl₁.trans hl₂.symm)) ?_
      intro b hb
      obtain ⟨a, ha, htie⟩ := hpartner l₂ l₁ (hl₂.trans hl₁.symm) b hb
      exact ⟨a, ha, Std.OrientedCmp.eq_symm htie⟩
    obtain ⟨i, hi, rfl⟩ := List.getElem_of_mem ha₁
    have hi₂ : i < (normalize cmp key l₂).length := hties.length_eq ▸ hi
    have hsame : (normalize cmp key l₂)[i] = b :=
      eq_of_tie cmp (pairwise_normalize hkey l₂) (List.getElem_mem hi₂) hb₂
        (Std.TransCmp.eq_trans (Std.OrientedCmp.eq_symm (hties.get hi hi₂)) htie)
    rw [← hsame]
    have hget := List.getElem_of_eq heq (by simpa using hi)
    rwa [List.getElem_map, List.getElem_map] at hget
  · intro h l' hperm
    have hrel : List.Forall₂ (fun a b => cmp a b = .eq ∧ f a = f b) (normalize cmp key l')
        (normalize cmp key l) := by
      refine forall₂_of_partners cmp And.left (pairwise_normalize hkey l')
        (pairwise_normalize hkey l) ?_ ?_
      · intro a ha
        obtain ⟨b, hb, htie⟩ := hpartner l' l hperm a ha
        have hrun := (startsRun_of_mem_normalize hb).of_tie hkey (Std.OrientedCmp.eq_symm htie)
        exact ⟨b, hb, htie, h a (hperm.mem_iff.mp (mem_of_mem_normalize ha)) b
          (mem_of_mem_normalize hb) htie hrun⟩
      · intro b hb
        obtain ⟨a, ha, htie⟩ := hpartner l l' hperm.symm b hb
        exact ⟨a, ha, Std.OrientedCmp.eq_symm htie, (h b (mem_of_mem_normalize hb) a
          (hperm.mem_iff.mp (mem_of_mem_normalize ha)) htie (startsRun_of_mem_normalize hb)).symm⟩
    rw [← List.forall₂_eq_eq_eq, List.forall₂_map_left_iff, List.forall₂_map_right_iff]
    exact hrel.imp fun a b hab => hab.2

/-! ## The keys -/

/-- Every entry has its key left at the start of its run. -/
lemma exists_run_mem_normalize {l : List α} {a : α} (ha : a ∈ l) :
    ∃ b ∈ normalize cmp key l, key b = key a ∧ (cmp b a).isLE = true ∧
      ∀ d ∈ l, (cmp b d).isLE = true → (cmp d a).isLE = true → key d = key a := by
  classical
  -- the entries from which on every key up to `a` is that of `a`
  let inRun : α → Prop := fun b => key b = key a ∧ (cmp b a).isLE = true ∧
    ∀ d ∈ l, (cmp b d).isLE = true → (cmp d a).isLE = true → key d = key a
  have hself : a ∈ l.filter inRun := by
    refine List.mem_filter.mpr ⟨ha, decide_eq_true ⟨rfl, Std.ReflCmp.isLE_rfl, ?_⟩⟩
    intro d _ had hda
    exact (hkey _ _ (Std.OrientedCmp.isLE_antisymm hda had))
  obtain ⟨b, hb, hleast⟩ := exists_least cmp (List.ne_nil_of_mem hself)
  obtain ⟨hbl, hrun⟩ := List.mem_filter.mp hb
  obtain ⟨hkeyb, hba, hbetween⟩ : inRun b := of_decide_eq_true hrun
  have hstarts : StartsRun cmp key l b := by
    intro c hc hcb hlt
    by_contra hnone
    have hcb' : (cmp c b).isLE = true := by rw [hlt]; rfl
    have hmem : c ∈ l.filter inRun := by
      refine List.mem_filter.mpr ⟨hc, decide_eq_true ⟨hcb.trans hkeyb,
        Std.TransCmp.isLE_trans hcb' hba, ?_⟩⟩
      intro d hd hcd hda
      by_cases hbd : (cmp b d).isLE = true
      · exact hbetween d hd hbd hda
      · by_contra hne
        refine hnone ⟨d, hd, hcd, ?_, fun heq => hne (heq.trans hkeyb)⟩
        rw [lt_of_not_isLE cmp hbd]
        rfl
    exact Std.OrientedCmp.not_lt_of_isLE (hleast c hmem) hlt
  obtain ⟨b', hb', htie⟩ := exists_tie_mem_normalize hkey hbl hstarts
  refine ⟨b', hb', (hkey _ _ htie).symm.trans hkeyb, ?_, ?_⟩
  · rw [← Std.TransCmp.congr_left htie]
    exact hba
  · intro d hd hbd hda
    rw [← Std.TransCmp.congr_left htie] at hbd
    exact hbetween d hd hbd hda

/-- No key is lost. -/
theorem mem_map_key_normalize {l : List α} {k : κ} :
    k ∈ (normalize cmp key l).map key ↔ k ∈ l.map key := by
  simp only [List.mem_map]
  constructor
  · rintro ⟨a, ha, hk⟩
    exact ⟨a, mem_of_mem_normalize ha, hk⟩
  · rintro ⟨a, ha, rfl⟩
    obtain ⟨b, hb, hb', -⟩ := exists_run_mem_normalize hkey ha
    exact ⟨b, hb, hb'⟩

/-- **Distinct keys.** -/
theorem nodup_map_key_normalize_iff {l : List α} :
    ((normalize cmp key l).map key).Nodup ↔ Uninterrupted cmp key l := by
  constructor
  · intro hnodup a ha b hb c hc hab hbc hac
    by_contra hne
    -- the runs of `a` and `c` start on the two sides of `b`
    obtain ⟨a', ha', hkeya, haa, -⟩ := exists_run_mem_normalize hkey ha
    obtain ⟨c', hc', hkeyc, hcc, hrun⟩ := exists_run_mem_normalize hkey hc
    have hsame : a' = c' :=
      List.inj_on_of_nodup_map hnodup ha' hc' (hkeya.trans (hac.trans hkeyc.symm))
    rw [← hsame] at hrun
    exact hne ((hrun b hb (Std.TransCmp.isLE_trans haa hab) hbc).trans hac.symm)
  · intro h
    refine List.pairwise_map.mpr ((pairwise_normalize hkey l).imp_of_mem ?_)
    intro a b ha hb hlt heq
    obtain ⟨d, hd, had, hdb, hne⟩ :=
      startsRun_of_mem_normalize hb a (mem_of_mem_normalize ha) heq hlt
    exact hne ((h a (mem_of_mem_normalize ha) d hd b (mem_of_mem_normalize hb) had hdb heq).trans
      heq)

end Normalize

end NormalForm
