import KaySentinel.Lib.Forest

/-!
# Balanced words

A word of items, opening and closing brackets is balanced if every closing bracket has an
opening one before it and none stays open.  The balanced words are the words of forests, each of
exactly one.
-/

namespace NestedLog

/-- An item, or a bracket with what it says. -/
inductive Letter (α β γ : Type*)
  | item (a : α)
  | opening (b : β)
  | closing (c : γ)

namespace Letter

variable {α β γ : Type*}

/-- The number of open brackets after a word, if every closing bracket closes one. -/
def depth : ℕ → List (Letter α β γ) → Option ℕ
  | d, [] => some d
  | d, .item _ :: w => depth d w
  | d, .opening _ :: w => depth (d + 1) w
  | 0, .closing _ :: _ => none
  | d + 1, .closing _ :: w => depth d w

end Letter

namespace Forest

open Letter

variable {α β γ δ : Type*} (left : δ → β) (right : δ → γ)

/-- The word of a forest, whose frames are labelled with what both brackets say. -/
def word : Forest α δ → List (Letter α β γ)
  | nil => []
  | leaf a rest => .item a :: rest.word
  | node b inner rest => .opening (left b) :: (inner.word ++ .closing (right b) :: rest.word)

variable {left right}

/-- A forest leaves no bracket open, and closes none that is open before it. -/
lemma depth_word_append (f : Forest α δ) (d : ℕ) (w : List (Letter α β γ)) :
    depth d (f.word left right ++ w) = depth d w := by
  induction f generalizing d w with
  | nil => rfl
  | leaf a rest ih => exact ih d w
  | node b inner rest ihinner ihrest =>
    rw [word, List.cons_append, List.append_assoc, List.cons_append, depth, ihinner, depth]
    exact ihrest d w

/-- **First return.**  Where all brackets are closed in the end, the word up to the letter that
closes the innermost one is that of a forest. -/
lemma exists_word_closing (hpair : ∀ b c, ∃ d, left d = b ∧ right d = c) {d : ℕ}
    {w : List (Letter α β γ)} (h : depth (d + 1) w = some 0) :
    ∃ (f : Forest α δ) (c : γ) (rest : List (Letter α β γ)),
      w = f.word left right ++ .closing c :: rest ∧ depth d rest = some 0 := by
  -- an inner bracket is read up to its end, so the induction is on the length
  induction hn : w.length using Nat.strong_induction_on generalizing d w with
  | _ n ih =>
  subst hn
  rcases w with _ | ⟨letter, w⟩
  · exact absurd (Option.some.inj h) (Nat.succ_ne_zero d)
  cases letter with
  | item a =>
    obtain ⟨f, c, rest, rfl, hrest⟩ := ih w.length (by simp) (w := w) h rfl
    exact ⟨.leaf a f, c, rest, rfl, hrest⟩
  | opening b =>
    obtain ⟨inner, c, rest, rfl, hrest⟩ := ih w.length (by simp) (w := w) h rfl
    have hlt : rest.length < (Letter.opening b ::
        (inner.word left right ++ Letter.closing c :: rest)).length := by
      simp only [List.length_cons, List.length_append]
      omega
    obtain ⟨f, c', rest', rfl, hrest'⟩ := ih rest.length hlt hrest rfl
    obtain ⟨label, rfl, rfl⟩ := hpair b c
    refine ⟨.node label inner f, c', rest', ?_, hrest'⟩
    rw [word, List.cons_append, List.append_assoc, List.cons_append]
  | closing c => exact ⟨.nil, c, w, rfl, h⟩

lemma exists_word (hpair : ∀ b c, ∃ d, left d = b ∧ right d = c) {w : List (Letter α β γ)}
    (h : depth 0 w = some 0) : ∃ f : Forest α δ, w = f.word left right := by
  induction hn : w.length using Nat.strong_induction_on generalizing w with
  | _ n ih =>
  subst hn
  rcases w with _ | ⟨letter, w⟩
  · exact ⟨.nil, rfl⟩
  cases letter with
  | item a =>
    obtain ⟨f, rfl⟩ := ih w.length (by simp) (w := w) h rfl
    exact ⟨.leaf a f, rfl⟩
  | opening b =>
    obtain ⟨inner, c, rest, rfl, hrest⟩ := exists_word_closing hpair h
    obtain ⟨f, rfl⟩ := ih rest.length (by simp; omega) hrest rfl
    obtain ⟨label, rfl, rfl⟩ := hpair b c
    exact ⟨.node label inner f, rfl⟩
  | closing c => cases h

/-- **Balanced words.**  The words of forests are those that close all their brackets. -/
theorem depth_eq_zero_iff (hpair : ∀ b c, ∃ d, left d = b ∧ right d = c)
    {w : List (Letter α β γ)} :
    depth 0 w = some 0 ↔ ∃ f : Forest α δ, w = f.word left right := by
  refine ⟨exists_word hpair, ?_⟩
  rintro ⟨f, rfl⟩
  have hword : depth 0 (f.word left right ++ []) = some 0 := f.depth_word_append 0 []
  rwa [List.append_nil] at hword

end Forest

end NestedLog
