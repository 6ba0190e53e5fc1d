import Mathlib

/-!
# Computations that log their queries

A computation that may abort -- a panic, or a loop cut short -- and that remembers every
input on which it queried a given function.  Statements about such a function that hold
only "among the inputs queried" refer to this log.
-/

/-- The result, if there is one, and the inputs queried on the way, in order. -/
structure Logged (ι α : Type) where
  result : Option α
  log : List ι

namespace Logged

variable {ι α β : Type}

instance : Monad (Logged ι) where
  pure a := ⟨some a, []⟩
  bind x f :=
    match x.result with
    | none => ⟨none, x.log⟩
    | some a => ⟨(f a).result, x.log ++ (f a).log⟩

/-- The computation stops without a result. -/
def abort : Logged ι α := ⟨none, []⟩

/-- Query a function. -/
def query (f : ι → α) (i : ι) : Logged ι α := ⟨some (f i), [i]⟩

lemma pure_eq (a : α) : (pure a : Logged ι α) = ⟨some a, []⟩ := rfl

/-- Go on after a computation that returned. -/
lemma bind_eq {x : Logged ι α} {a : α} {log : List ι} (h : x = ⟨some a, log⟩)
    (f : α → Logged ι β) : x >>= f = ⟨(f a).result, log ++ (f a).log⟩ := by
  subst h
  rfl

/-- A result passes through the intermediate one. -/
lemma result_bind_eq_some {x : Logged ι α} {f : α → Logged ι β} {b : β} :
    (x >>= f).result = some b ↔ ∃ a, x.result = some a ∧ (f a).result = some b := by
  obtain ⟨result, log⟩ := x
  cases result with
  | none => simp [bind]
  | some a => simp [bind]

lemma result_bind_of_result {x : Logged ι α} {f : α → Logged ι β} {a : α}
    (h : x.result = some a) : (x >>= f).result = (f a).result := by
  obtain ⟨result, log⟩ := x
  obtain rfl : result = some a := h
  rfl

/-- What a returning computation has logged. -/
lemma log_bind_of_result {x : Logged ι α} {f : α → Logged ι β} {a : α}
    (h : x.result = some a) : (x >>= f).log = x.log ++ (f a).log := by
  obtain ⟨result, log⟩ := x
  obtain rfl : result = some a := h
  rfl

end Logged
