import KaySentinel.Builder.Lifecycle.Schema
import KaySentinel.Lib.Pointwise

/-!
# What the schema verification promises

A schema is coherent (`CanonicalSemanticIr.Coherent`) if the generations of an address do not
overlap, an open one lasting to the end.  The verification compares neighbours, and skips them
where the first is open; hence a schema that passes is coherent exactly if no open generation
is followed directly by one of its address (`coherent_iff_of_verified`).
-/

namespace KaySentinel.Builder

open Cse

/-- `g` is closed, and ends before `g'` begins. -/
def CanonicalGeneration.Precedes (g g' : CanonicalGeneration) : Prop :=
  g.begin.traceOrdinal < g'.begin.traceOrdinal ∧
    ∃ e, g.fin = some e ∧ e.traceOrdinal < g'.begin.traceOrdinal

namespace CanonicalSemanticIr

/-- Distinct keys, well-formed intervals, no dangling balance, and of any two generations of
one address one precedes the other. -/
structure Coherent (ir : CanonicalSemanticIr) : Prop where
  keys : (ir.generations.map (·.key)).Nodup
  intervals : ∀ g ∈ ir.generations, g.IntervalValid
  integrity : ∀ bal ∈ ir.balances, bal.key ∈ ir.generations.map (·.key)
  apart : ir.generations.Pairwise fun g g' =>
    g.key.address = g'.key.address → g.Precedes g' ∨ g'.Precedes g

/-- No open generation is followed directly by one of its address. -/
def ClosedBeforeNext (ir : CanonicalSemanticIr) : Prop :=
  ir.generations.IsChain fun g g' => g.key.address = g'.key.address → g.fin.isSome

/-- Two generations of one address are never both open. -/
lemma Coherent.isSome_or_isSome {ir : CanonicalSemanticIr} (h : ir.Coherent) :
    ir.generations.Pairwise fun g g' =>
      g.key.address = g'.key.address → g.fin.isSome ∨ g'.fin.isSome := by
  refine h.apart.imp ?_
  intro g g' hapart haddress
  rcases hapart haddress with ⟨-, e, he, -⟩ | ⟨-, e, he, -⟩
  · exact .inl (by rw [he]; rfl)
  · exact .inr (by rw [he]; rfl)

end CanonicalSemanticIr

namespace CanonicalGeneration

/-- In the order of canonicalization, and apart if of one address. -/
def InTurn (g g' : CanonicalGeneration) : Prop :=
  (g.cmp g').isLE = true ∧ (g.key.address = g'.key.address → g.Precedes g')

lemma Precedes.trans {g₁ g₂ g₃ : CanonicalGeneration} (h : g₁.Precedes g₂) (h' : g₂.Precedes g₃) :
    g₁.Precedes g₃ := by
  obtain ⟨hbegin, e, he, hlt⟩ := h
  exact ⟨UInt64.lt_trans hbegin h'.1, e, he, UInt64.lt_trans hlt h'.1⟩

/-- The addresses are sorted, so that one between two of an address is of that address. -/
lemma InTurn.trans {g₁ g₂ g₃ : CanonicalGeneration} (h : g₁.InTurn g₂) (h' : g₂.InTurn g₃) :
    g₁.InTurn g₃ := by
  refine ⟨Std.TransCmp.isLE_trans h.1 h'.1, fun haddress => ?_⟩
  have hle := isLE_address_of_cmp h.1
  have hge := isLE_address_of_cmp h'.1
  rw [← haddress] at hge
  have hsame : g₁.key.address = g₂.key.address :=
    Std.LawfulEqCmp.compare_eq_iff_eq.mp (Std.OrientedCmp.isLE_antisymm hle hge)
  exact (h.2 hsame).trans (h'.2 (hsame.symm.trans haddress))

/-- A closed generation with a well-formed interval that ends before the next begins. -/
lemma EndsBefore.precedes {g g' : CanonicalGeneration} (h : g.EndsBefore g')
    (hvalid : g.IntervalValid) (haddress : g.key.address = g'.key.address)
    (hclosed : g.fin.isSome) : g.Precedes g' := by
  obtain ⟨e, he⟩ := Option.isSome_iff_exists.mp hclosed
  have hlt := h haddress e he
  exact ⟨UInt64.lt_trans (hvalid e he) hlt, e, he, hlt⟩

/-- Of two generations in order only the first can precede the second. -/
lemma not_precedes_of_cmp {g g' : CanonicalGeneration} (haddress : g.key.address = g'.key.address)
    (h : (g.cmp g').isLE = true) : ¬g'.Precedes g :=
  fun hprec => UInt64.not_le.mpr hprec.1 (begin_le_of_cmp haddress h)

end CanonicalGeneration

namespace CanonicalizationPipeline

open CanonicalGeneration

/-- **What a verified schema promises.** -/
theorem coherent_iff_of_verified {ir : CanonicalSemanticIr}
    (h : ∀ d ∈ (verifyAlreadyCanonical ir).1, d.severity ≠ .error) :
    ir.Coherent ↔ ir.ClosedBeforeNext := by
  obtain ⟨herror, -, hnil⟩ := verifyGlobalSchema_spec ir
  have hnone : (verifyGlobalSchema ir).1 = [] := by
    rw [List.eq_nil_iff_forall_not_mem]
    exact fun d hd => h d hd (herror d hd).1
  obtain ⟨hkeys, hintervals, hintegrity, hchain⟩ := hnil.mp hnone
  have hvalid : ir.generations.IsChain fun g g' =>
      ((g.cmp g').isLE = true ∧ g.EndsBefore g') ∧ g.IntervalValid := by
    refine hchain.imp_of_mem_imp fun g g' hg _ hstep => ⟨hstep, hintervals g hg⟩
  constructor
  · intro hcoherent
    have hapart := hcoherent.apart.isChain
    refine (Pointwise.isChain_and hchain hapart).imp ?_
    rintro g g' ⟨⟨hle, -⟩, hapart⟩ haddress
    rcases hapart haddress with ⟨-, e, he, -⟩ | hprec
    · rw [he]
      rfl
    · exact absurd hprec (not_precedes_of_cmp haddress hle)
  · intro hclosed
    have hturn : ir.generations.IsChain InTurn := by
      refine (Pointwise.isChain_and hvalid hclosed).imp ?_
      rintro g g' ⟨⟨⟨hle, hends⟩, hinterval⟩, hsome⟩
      exact ⟨hle, fun haddress => hends.precedes hinterval haddress (hsome haddress)⟩
    -- what holds of neighbours in turn holds of all pairs
    have htrans : IsTrans CanonicalGeneration InTurn := ⟨fun _ _ _ => InTurn.trans⟩
    exact ⟨hkeys, hintervals, hintegrity,
      (List.isChain_iff_pairwise.mp hturn).imp fun hturn haddress => .inl (hturn.2 haddress)⟩

/-- One generation after another. -/
theorem coherent_two_generations :
    let ir : CanonicalSemanticIr :=
      { preStates := [], generations := [generationAt 0 1 (some 2), generationAt 1 3 none]
        balances := [] }
    ir.Coherent ↔ ir.ClosedBeforeNext :=
  coherent_iff_of_verified (by decide +kernel)

/-- The generation that begins at 1 never ends, and that of the same address that begins at 2
is reported neither as an overlap nor otherwise. -/
theorem two_open_generations :
    let ir : CanonicalSemanticIr :=
      { preStates := [], generations := [generationAt 0 1 none, generationAt 1 2 none]
        balances := [] }
    (verifyAlreadyCanonical ir).1 = [] ∧ ¬ir.Coherent := by
  refine ⟨by decide +kernel, fun h => ?_⟩
  have hopen := (List.pairwise_cons.mp h.isSome_or_isSome).1 (generationAt 1 2 none) (by simp) rfl
  exact absurd hopen (by decide)

end CanonicalizationPipeline

end KaySentinel.Builder
