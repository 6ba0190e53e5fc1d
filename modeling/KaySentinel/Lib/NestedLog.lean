import Mathlib

/-!
# Logs with nested commit and rollback

A stream of operations opens frames, closes them -- committing or rolling back -- and
logs items.  An item is either *direct*, and then kept whatever happens to the frames
around it, or belongs to the innermost open frame.

`Buffers.step` is the usual implementation: one buffer for each open frame, merged into
the parent's when the frame commits, dropped when it rolls back.  `survivors` says what
it is for: an item of a frame survives when every frame open around it is later closed
by a commit.  `run_perm` and `run_eq` connect the two.
-/

namespace NestedLog

variable {α β : Type*}

/-- One operation of the stream. -/
inductive Op (α : Type*) where
  /-- Log an item; a `direct` item bypasses the open frames. -/
  | item (a : α) (direct : Bool)
  /-- Open a frame. -/
  | enter
  /-- Close the innermost open frame, rolling it back if `reverted`. -/
  | exit (reverted : Bool)
deriving DecidableEq

/-- Apply a function to the logged items. -/
def Op.map (f : α → β) : Op α → Op β
  | .item a direct => .item (f a) direct
  | .enter => .enter
  | .exit reverted => .exit reverted

lemma Op.map_map {γ : Type*} (f : α → β) (g : β → γ) (op : Op α) :
    (op.map f).map g = op.map (g ∘ f) := by
  cases op <;> rfl

/-! ## Buffers -/

/-- The log written so far and the buffers of the open frames, innermost first. -/
structure Buffers (α : Type*) where
  out : List α
  stack : List (List α)

namespace Buffers

/-- Append items to the buffer of the innermost open frame, or to the log. -/
def append (b : Buffers α) (items : List α) : Buffers α :=
  match b.stack with
  | [] => ⟨b.out ++ items, []⟩
  | top :: rest => ⟨b.out, (top ++ items) :: rest⟩

/-- One step.  Closing a frame when none is open fails, and so does an item that belongs
to a frame then. -/
def step (b : Buffers α) : Op α → Option (Buffers α)
  | .item a true => some ⟨b.out ++ [a], b.stack⟩
  | .item a false => if b.stack = [] then none else some (b.append [a])
  | .enter => some ⟨b.out, [] :: b.stack⟩
  | .exit reverted =>
      match b.stack with
      | [] => none
      | top :: rest => some (if reverted then ⟨b.out, rest⟩ else append ⟨b.out, rest⟩ top)

/-- The steps of a whole stream. -/
def run (b : Buffers α) (ops : List (Op α)) : Option (Buffers α) := ops.foldlM step b

@[simp] lemma run_nil (b : Buffers α) : b.run [] = some b := rfl

lemma run_cons (b : Buffers α) (op : Op α) (ops : List (Op α)) :
    b.run (op :: ops) = (b.step op).bind (run · ops) := rfl

lemma run_singleton (b : Buffers α) (op : Op α) : b.run [op] = b.step op :=
  Option.bind_fun_some (b.step op)

lemma run_append (b : Buffers α) (ops ops' : List (Op α)) :
    b.run (ops ++ ops') = (b.run ops).bind (run · ops') := by
  simp only [run, List.foldlM_append]
  rfl

end Buffers

namespace Buffers

/-- Apply a function to the items in the log and in the buffers. -/
def map (f : α → β) (b : Buffers α) : Buffers β := ⟨b.out.map f, b.stack.map (List.map f)⟩

lemma append_map (f : α → β) (b : Buffers α) (items : List α) :
    (b.map f).append (items.map f) = (b.append items).map f := by
  obtain ⟨out, _ | ⟨top, rest⟩⟩ := b <;> simp [map, append]

/-- The steps do not look at the items. -/
lemma step_map (f : α → β) (b : Buffers α) (op : Op α) :
    (b.map f).step (op.map f) = (b.step op).map (map f) := by
  cases op with
  | item a direct =>
    cases direct with
    | true => simp [step, Op.map, map]
    | false =>
      by_cases hs : b.stack = []
      · simp [step, Op.map, map, hs]
      · have hs' : (b.map f).stack ≠ [] := by simpa [map] using hs
        have happend := append_map f b [a]
        simp only [step, Op.map, if_neg hs, if_neg hs', Option.map_some, ← happend]
        rfl
  | enter => rfl
  | exit reverted =>
    obtain ⟨out, _ | ⟨top, rest⟩⟩ := b
    · rfl
    · cases reverted with
      | true => rfl
      | false => exact congrArg some (append_map f ⟨out, rest⟩ top)

lemma run_map (f : α → β) (b : Buffers α) (ops : List (Op α)) :
    (b.map f).run (ops.map (Op.map f)) = (b.run ops).map (map f) := by
  induction ops generalizing b with
  | nil => rfl
  | cons op ops ih =>
    rw [List.map_cons, run_cons, run_cons, step_map]
    cases b.step op with
    | none => rfl
    | some b' => exact ih b'

end Buffers

/-! ## Survivors -/

/-- The flag of the operation that closes the `n`-th open frame, counted from the
innermost one. -/
def exitFlag : ℕ → List (Op α) → Option Bool
  | _, [] => none
  | n, .item _ _ :: ops => exitFlag n ops
  | n, .enter :: ops => exitFlag (n + 1) ops
  | 0, .exit reverted :: _ => some reverted
  | n + 1, .exit _ :: ops => exitFlag n ops

/-- The first `d` open frames are all closed by a commit. -/
def AllCommit (d : ℕ) (ops : List (Op α)) : Prop := ∀ n < d, exitFlag n ops = some false

instance (d : ℕ) (ops : List (Op α)) : Decidable (AllCommit d ops) :=
  inferInstanceAs (Decidable (∀ n < d, _))

/-- The items of a stream that survive, in order, when `d` frames are open at its start:
the direct ones, and those around which every open frame is later committed. -/
def survivors : ℕ → List (Op α) → List α
  | _, [] => []
  | d, .item a direct :: ops =>
      if direct ∨ AllCommit d ops then a :: survivors d ops else survivors d ops
  | d, .enter :: ops => survivors (d + 1) ops
  | d, .exit _ :: ops => survivors (d - 1) ops

/-- Direct items occur only where no frame is open. -/
def DirectOutside : ℕ → List (Op α) → Prop
  | _, [] => True
  | d, .item _ direct :: ops => (direct → d = 0) ∧ DirectOutside d ops
  | d, .enter :: ops => DirectOutside (d + 1) ops
  | d, .exit _ :: ops => DirectOutside (d - 1) ops

/-- All items of a stream, in order. -/
def items (ops : List (Op α)) : List α :=
  ops.filterMap fun
    | .item a _ => some a
    | _ => none

lemma survivors_sublist (d : ℕ) (ops : List (Op α)) : (survivors d ops).Sublist (items ops) := by
  induction ops generalizing d with
  | nil => exact .slnil
  | cons op ops ih =>
    cases op with
    | item a direct =>
      have hitems : items (.item a direct :: ops) = a :: items ops := rfl
      rw [hitems, survivors]
      split
      · exact (ih d).cons_cons a
      · exact (ih d).cons a
    | enter => exact ih (d + 1)
    | exit reverted => exact ih (d - 1)

/-- If the items with some property are all direct, all of them survive. -/
lemma filter_survivors {p : α → Bool} (d : ℕ) {ops : List (Op α)}
    (h : ∀ a direct, .item a direct ∈ ops → p a = true → direct = true) :
    (survivors d ops).filter p = (items ops).filter p := by
  induction ops generalizing d with
  | nil => rfl
  | cons op ops ih =>
    have hrest : ∀ a direct, .item a direct ∈ ops → p a = true → direct = true :=
      fun a direct hmem => h a direct (List.mem_cons_of_mem _ hmem)
    cases op with
    | item a direct =>
      have hitems : items (.item a direct :: ops) = a :: items ops := rfl
      rw [hitems, survivors]
      split
      · rw [List.filter_cons, List.filter_cons, ih d hrest]
      · rename_i hlost
        have hpa : p a = false := by
          by_contra hpa
          exact hlost (.inl (h a direct (by simp) (by simpa using hpa)))
        rw [List.filter_cons, hpa, ih d hrest]
        rfl
    | enter => exact ih (d + 1) hrest
    | exit reverted => exact ih (d - 1) hrest

/-! ## The buffers keep exactly the survivors -/

/-- What the buffers of the open frames will contribute, when the `n`-th of them will be
closed with the flag `flag n`: outer frames first, each only if it and all the frames
around it commit. -/
def kept : List (List α) → (ℕ → Option Bool) → List α
  | [], _ => []
  | top :: rest, flag =>
      kept rest (fun n => flag (n + 1)) ++
        if ∀ n ≤ rest.length, flag n = some false then top else []

/-- What the log will hold at the end of the stream. -/
def pending (b : Buffers α) (ops : List (Op α)) : List α :=
  b.out ++ kept b.stack (exitFlag · ops) ++ survivors b.stack.length ops

lemma kept_rollback (top : List α) (rest : List (List α)) (ops : List (Op α)) :
    kept (top :: rest) (exitFlag · (.exit true :: ops)) = kept rest (exitFlag · ops) := by
  have hflag : ¬ ∀ n ≤ rest.length, exitFlag n (.exit true :: ops) = some false := by
    intro h
    simpa [exitFlag] using h 0 (Nat.zero_le _)
  simp only [kept, if_neg hflag, List.append_nil]
  rfl

/-- After a commit all frames commit exactly if the frames around it do. -/
lemma exit_commit_iff (d : ℕ) (ops : List (Op α)) :
    (∀ n ≤ d, exitFlag n (.exit false :: ops) = some false) ↔ AllCommit d ops := by
  constructor
  · intro h n hn
    simpa [exitFlag] using h (n + 1) hn
  · intro h n hn
    cases n with
    | zero => rfl
    | succ n => exact h n hn

lemma allCommit_succ_iff (d : ℕ) (ops : List (Op α)) :
    (∀ n ≤ d, exitFlag n ops = some false) ↔ AllCommit (d + 1) ops := by
  simp only [AllCommit, Nat.lt_succ_iff]

/-- A step other than a direct item inside a frame changes nothing of what the log will
hold. -/
lemma pending_step {b b' : Buffers α} {op : Op α} (ops : List (Op α)) (h : b.step op = some b')
    (hop : ∀ a, op = .item a true → b.stack = []) : pending b (op :: ops) = pending b' ops := by
  obtain ⟨out, stack⟩ := b
  cases op with
  | item a direct =>
    cases direct with
    | true =>
      obtain rfl : stack = [] := hop a rfl
      simp only [Buffers.step, Option.some.injEq] at h
      subst h
      simp [pending, kept, survivors]
    | false =>
      cases stack with
      | nil => simp [Buffers.step] at h
      | cons top rest =>
        simp only [Buffers.step, Buffers.append, reduceCtorEq, if_false, Option.some.injEq] at h
        subst h
        by_cases hc : AllCommit (rest.length + 1) ops
        · simp [pending, kept, survivors, exitFlag, allCommit_succ_iff, hc]
        · simp [pending, kept, survivors, exitFlag, allCommit_succ_iff, hc]
  | enter =>
    simp only [Buffers.step, Option.some.injEq] at h
    subst h
    simp [pending, kept, survivors, exitFlag]
  | exit reverted =>
    cases stack with
    | nil => simp [Buffers.step] at h
    | cons top rest =>
      simp only [Buffers.step, Option.some.injEq] at h
      subst h
      cases reverted with
      | true => simp only [pending, kept_rollback, if_true, survivors, List.length_cons]; rfl
      | false =>
        cases rest with
        | nil => simp [pending, kept, survivors, exitFlag, Buffers.append]
        | cons parent rest =>
          -- the parent's buffer survives under the same condition as the merged one
          have htop : (∀ n ≤ rest.length + 1, exitFlag n (.exit false :: ops) = some false) ↔
              ∀ n ≤ rest.length, exitFlag n ops = some false := by
            rw [exit_commit_iff, allCommit_succ_iff]
          have hparent : (∀ n ≤ rest.length, exitFlag (n + 1) (.exit false :: ops) = some false) ↔
              ∀ n ≤ rest.length, exitFlag n ops = some false := Iff.rfl
          simp only [pending, kept, survivors, Buffers.append, List.length_cons, htop, hparent,
            Bool.false_eq_true, if_false]
          split <;> simp [exitFlag]

/-- A direct item may move ahead of what the open frames will contribute. -/
lemma pending_direct (b : Buffers α) (a : α) (ops : List (Op α)) :
    (pending ⟨b.out ++ [a], b.stack⟩ ops).Perm (pending b (.item a true :: ops)) := by
  simp only [pending, survivors, exitFlag, true_or, if_true, List.append_assoc,
    List.cons_append, List.nil_append]
  exact (List.perm_middle.symm.append_left b.out)

lemma pending_done (out : List α) : pending ⟨out, []⟩ [] = out := by
  simp [pending, kept, survivors]

/-- The log of a completed stream holds every survivor exactly once and nothing else. -/
theorem run_perm {b : Buffers α} {ops : List (Op α)} {out : List α}
    (h : b.run ops = some ⟨out, []⟩) : out.Perm (pending b ops) := by
  induction ops generalizing b with
  | nil =>
    obtain rfl := Option.some.inj h
    rw [pending_done]
  | cons op ops ih =>
    rw [Buffers.run_cons, Option.bind_eq_some_iff] at h
    obtain ⟨b', hstep, hrun⟩ := h
    by_cases hop : ∃ a, op = .item a true
    · obtain ⟨a, rfl⟩ := hop
      obtain rfl := Option.some.inj hstep
      exact (ih hrun).trans (pending_direct b a ops)
    · rw [pending_step ops hstep fun a ha => absurd ⟨a, ha⟩ hop]
      exact ih hrun

lemma length_stack_step {b b' : Buffers α} {op : Op α} (h : b.step op = some b') :
    b'.stack.length = match op with
      | .item _ _ => b.stack.length
      | .enter => b.stack.length + 1
      | .exit _ => b.stack.length - 1 := by
  obtain ⟨out, stack⟩ := b
  cases op with
  | item a direct =>
    cases direct with
    | true => obtain rfl := Option.some.inj h; rfl
    | false =>
      cases stack with
      | nil => simp [Buffers.step] at h
      | cons top rest => obtain rfl := Option.some.inj h; rfl
  | enter => obtain rfl := Option.some.inj h; rfl
  | exit reverted =>
    cases stack with
    | nil => simp [Buffers.step] at h
    | cons top rest =>
      obtain rfl := Option.some.inj h
      cases reverted with
      | true => rfl
      | false => cases rest <;> rfl

/-- When direct items occur only outside frames the log keeps the order of the stream. -/
theorem run_eq {b : Buffers α} {ops : List (Op α)} {out : List α}
    (h : b.run ops = some ⟨out, []⟩) (hd : DirectOutside b.stack.length ops) :
    out = pending b ops := by
  induction ops generalizing b with
  | nil =>
    obtain rfl := Option.some.inj h
    rw [pending_done]
  | cons op ops ih =>
    rw [Buffers.run_cons, Option.bind_eq_some_iff] at h
    obtain ⟨b', hstep, hrun⟩ := h
    have hlen := length_stack_step hstep
    rw [pending_step ops hstep ?_]
    · refine ih hrun ?_
      cases op <;> simp_all [DirectOutside]
    · rintro a rfl
      exact List.eq_nil_of_length_eq_zero (hd.1 rfl)

/-! ## One item more -/

/-- The number of open frames after the stream, when `d` are open at its start. -/
def openAfter : ℕ → List (Op α) → ℕ
  | d, [] => d
  | d, .item _ _ :: ops => openAfter d ops
  | d, .enter :: ops => openAfter (d + 1) ops
  | d, .exit _ :: ops => openAfter (d - 1) ops

lemma openAfter_append (d : ℕ) (l l' : List (Op α)) :
    openAfter d (l ++ l') = openAfter (openAfter d l) l' := by
  induction l generalizing d with
  | nil => rfl
  | cons op l ih => cases op <;> exact ih _

/-- A frame that is open at the start of a stream but not at its end is closed by it. -/
lemma exists_exitFlag {d n : ℕ} {ops : List (Op α)} (h : openAfter d ops = 0) (hn : n < d) :
    ∃ reverted, exitFlag n ops = some reverted := by
  induction ops generalizing d n with
  | nil =>
    have hd : d = 0 := h
    omega
  | cons op ops ih =>
    cases op with
    | item a direct => exact ih h hn
    | enter => exact ih h (Nat.succ_lt_succ hn)
    | exit reverted =>
      cases n with
      | zero => exact ⟨reverted, rfl⟩
      | succ n => exact ih h (Nat.lt_sub_of_add_lt hn)

lemma exitFlag_append {n : ℕ} {ops : List (Op α)} {reverted : Bool}
    (h : exitFlag n ops = some reverted) (ops' : List (Op α)) :
    exitFlag n (ops ++ ops') = some reverted := by
  induction ops generalizing n with
  | nil => simp [exitFlag] at h
  | cons op ops ih =>
    cases op with
    | item a direct => exact ih h
    | enter => exact ih h
    | exit r =>
      cases n with
      | zero => exact h
      | succ n => exact ih h

/-- Items close no frame. -/
lemma exitFlag_insert (n : ℕ) (ops : List (Op α)) (a : α) (direct : Bool) (ops' : List (Op α)) :
    exitFlag n (ops ++ .item a direct :: ops') = exitFlag n (ops ++ ops') := by
  induction ops generalizing n with
  | nil => rfl
  | cons op ops ih =>
    cases op with
    | item a direct => exact ih n
    | enter => exact ih (n + 1)
    | exit r =>
      cases n with
      | zero => rfl
      | succ n => exact ih n

lemma allCommit_insert (d : ℕ) (ops : List (Op α)) (a : α) (direct : Bool) (ops' : List (Op α)) :
    AllCommit d (ops ++ .item a direct :: ops') ↔ AllCommit d (ops ++ ops') := by
  simp only [AllCommit, exitFlag_insert]

/-- An item that survives is one more survivor, -/
lemma survivors_insert_perm {d : ℕ} {ops : List (Op α)} (a : α) {direct : Bool}
    {ops' : List (Op α)} (h : direct ∨ AllCommit (openAfter d ops) ops') :
    (survivors d (ops ++ .item a direct :: ops')).Perm (a :: survivors d (ops ++ ops')) := by
  induction ops generalizing d with
  | nil =>
    rw [openAfter] at h
    rw [List.nil_append, List.nil_append, survivors, if_pos h]
  | cons op ops ih =>
    cases op with
    | item b direct' =>
      simp only [List.cons_append, survivors, allCommit_insert]
      split
      · exact ((ih h).cons b).trans (.swap a b _)
      · exact ih h
    | enter => exact ih h
    | exit reverted => exact ih h

/-- and one that is lost makes no difference. -/
lemma survivors_insert_eq {d : ℕ} {ops : List (Op α)} (a : α) {direct : Bool}
    {ops' : List (Op α)} (h : ¬ (direct ∨ AllCommit (openAfter d ops) ops')) :
    survivors d (ops ++ .item a direct :: ops') = survivors d (ops ++ ops') := by
  induction ops generalizing d with
  | nil =>
    rw [openAfter] at h
    rw [List.nil_append, List.nil_append, survivors, if_neg h]
  | cons op ops ih =>
    cases op with
    | item b direct' =>
      simp only [List.cons_append, survivors, allCommit_insert, ih h]
    | enter => exact ih h
    | exit reverted => exact ih h

/-! ## Renaming the items -/

lemma exitFlag_map (f : α → β) (n : ℕ) (ops : List (Op α)) :
    exitFlag n (ops.map (Op.map f)) = exitFlag n ops := by
  induction ops generalizing n with
  | nil => rfl
  | cons op ops ih =>
    cases op with
    | item a direct => simpa [Op.map, exitFlag] using ih n
    | enter => simpa [Op.map, exitFlag] using ih (n + 1)
    | exit reverted =>
      cases n with
      | zero => rfl
      | succ n => simpa [Op.map, exitFlag] using ih n

lemma survivors_map (f : α → β) (d : ℕ) (ops : List (Op α)) :
    survivors d (ops.map (Op.map f)) = (survivors d ops).map f := by
  induction ops generalizing d with
  | nil => rfl
  | cons op ops ih =>
    cases op with
    | item a direct =>
      have hall : AllCommit d (ops.map (Op.map f)) ↔ AllCommit d ops := by
        simp only [AllCommit, exitFlag_map]
      simp only [List.map_cons, Op.map, survivors, hall, ih]
      split <;> simp
    | enter => simpa [Op.map, survivors] using ih (d + 1)
    | exit reverted => simpa [Op.map, survivors] using ih (d - 1)

lemma directOutside_map (f : α → β) (d : ℕ) (ops : List (Op α)) :
    DirectOutside d (ops.map (Op.map f)) ↔ DirectOutside d ops := by
  induction ops generalizing d with
  | nil => rfl
  | cons op ops ih => cases op <;> simp [Op.map, DirectOutside, ih]

end NestedLog
