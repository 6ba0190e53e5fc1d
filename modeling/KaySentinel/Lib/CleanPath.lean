import Mathlib

/-!
# Clean paths

Paths of a Unix file system as text: the shortest text for a path (`clean`) and the way paths are
put together (`join`).  Both walk over the elements of a path with a stack.

A plain name is the name of an entry of a directory.  Below a directory that is joined from
anything, plain names lead to the entry with these names and no other: `join_plain_inj`.
-/

namespace CleanPath

/-- The element that stands for the parent directory. -/
def dotDot : List Char := ['.', '.']

/-- One more element on the stack. -/
def push (rooted : Bool) (stack : List (List Char)) (element : List Char) : List (List Char) :=
  if element = [] ∨ element = ['.'] then stack
  else if element = dotDot then
    match stack with
    | [] => if rooted then [] else [dotDot]
    | top :: rest => if top = dotDot then element :: top :: rest else rest
  else element :: stack

/-- The stack after some elements. -/
def walk (rooted : Bool) (elements : List (List Char)) : List (List Char) :=
  elements.foldl (push rooted) []

def isRooted (path : List Char) : Bool := path.head? = some '/'

/-- The path with the elements on the stack. -/
def render (rooted : Bool) (stack : List (List Char)) : List Char :=
  if rooted then '/' :: ['/'].intercalate stack.reverse
  else if stack = [] then ['.']
  else ['/'].intercalate stack.reverse

/-- The shortest path equivalent to this one. -/
def clean (path : List Char) : List Char :=
  render (isRooted path) (walk (isRooted path) (path.splitOn '/'))

/-- Empty paths are ignored. -/
def join (paths : List (List Char)) : List Char :=
  match paths.dropWhile List.isEmpty with
  | [] => []
  | first :: rest => clean (['/'].intercalate (first :: rest))

/-! ## Plain names -/

/-- The name of an entry of a directory. -/
structure Plain (name : List Char) : Prop where
  ne_nil : name ≠ []
  ne_dot : name ≠ ['.']
  ne_dotDot : name ≠ dotDot
  no_slash : '/' ∉ name

variable {rooted : Bool} {name : List Char} {stack stack' names elements : List (List Char)}

lemma push_plain (h : Plain name) : push rooted stack name = name :: stack := by
  rw [push.eq_def, if_neg (not_or.mpr ⟨h.ne_nil, h.ne_dot⟩), if_neg h.ne_dotDot]

lemma foldl_push_plain (h : ∀ name ∈ names, Plain name) :
    names.foldl (push rooted) stack = names.reverse ++ stack := by
  induction names generalizing stack with
  | nil => rfl
  | cons name names ih =>
    rw [List.foldl_cons, push_plain (h name (by simp)),
      ih fun name hname => h name (List.mem_cons_of_mem _ hname), List.reverse_cons,
      List.append_assoc, List.singleton_append]

/-! ## Stacks of clean paths -/

/-- The stack of a clean path: names above some parents, and no parents above the root. -/
def Settled (rooted : Bool) (stack : List (List Char)) : Prop :=
  ∃ names k, stack = names ++ List.replicate k dotDot ∧ (∀ name ∈ names, Plain name) ∧
    (rooted = true → k = 0)

lemma Settled.nil : Settled rooted [] := ⟨[], 0, rfl, by simp, fun _ => rfl⟩

lemma Settled.append (h : Settled rooted stack) (hnames : ∀ name ∈ names, Plain name) :
    Settled rooted (names ++ stack) := by
  obtain ⟨names', k, rfl, hnames', hk⟩ := h
  refine ⟨names ++ names', k, (List.append_assoc _ _ _).symm, ?_, hk⟩
  intro name hname
  rcases List.mem_append.mp hname with hname | hname
  · exact hnames name hname
  · exact hnames' name hname

lemma Settled.push (h : Settled rooted stack) {element : List Char} (hslash : '/' ∉ element) :
    Settled rooted (push rooted stack element) := by
  rw [CleanPath.push.eq_def]
  by_cases hskip : element = [] ∨ element = ['.']
  · rw [if_pos hskip]
    exact h
  rw [if_neg hskip]
  obtain ⟨hne, hdot⟩ := not_or.mp hskip
  by_cases hparent : element = dotDot
  · rw [if_pos hparent]
    obtain ⟨names, k, rfl, hnames, hk⟩ := h
    rcases names with - | ⟨name, names⟩
    · rcases k with - | k
      · cases rooted with
        | true => exact .nil
        | false => exact ⟨[], 1, rfl, by simp, by simp⟩
      · have hrooted : rooted ≠ true := fun htrue => absurd (hk htrue) (Nat.succ_ne_zero k)
        refine ⟨[], k + 2, ?_, by simp, fun htrue => absurd htrue hrooted⟩
        subst hparent
        rfl
    · refine ⟨names, k, ?_, fun name hname => hnames name (List.mem_cons_of_mem _ hname), hk⟩
      exact if_neg (hnames name List.mem_cons_self).ne_dotDot
  · rw [if_neg hparent]
    have hplain : ∀ name ∈ [element], Plain name := by
      intro name hname
      rw [List.mem_singleton.mp hname]
      exact ⟨hne, hdot, hparent, hslash⟩
    exact h.append hplain

lemma settled_foldl (h : Settled rooted stack) (helements : ∀ e ∈ elements, '/' ∉ e) :
    Settled rooted (elements.foldl (push rooted) stack) := by
  induction elements generalizing stack with
  | nil => exact h
  | cons e elements ih =>
    exact ih (h.push (helements e (by simp))) fun e he => helements e (List.mem_cons_of_mem _ he)

lemma not_mem_of_mem_splitOn (path : List Char) : ∀ e ∈ path.splitOn '/', '/' ∉ e := by
  induction path with
  | nil => simp
  | cons c path ih =>
    rw [List.splitOn_cons_eq_if_modifyHead]
    by_cases hc : c = '/'
    · simpa [hc] using ih
    · rw [if_neg (by simpa using hc)]
      cases hsplit : path.splitOn '/' with
      | nil => simp
      | cons first rest =>
        rw [hsplit] at ih
        intro e he
        rcases List.mem_cons.mp he with rfl | he
        · simpa [Ne.symm hc] using ih first (by simp)
        · exact ih e (List.mem_cons_of_mem _ he)

/-- Walking over the elements of a clean path restores its stack. -/
lemma walk_reverse (h : Settled rooted stack) : walk rooted stack.reverse = stack := by
  obtain ⟨names, k, rfl, hnames, hk⟩ := h
  have hparents : walk rooted (List.replicate k dotDot) = List.replicate k dotDot := by
    cases rooted with
    | true => rw [hk rfl]; rfl
    | false =>
      clear hk
      induction k with
      | zero => rfl
      | succ k ih =>
        rw [List.replicate_succ', walk, List.foldl_append, ← walk, ih]
        cases k with
        | zero => rfl
        | succ k => rw [← List.replicate_succ']; rfl
  rw [List.reverse_append, List.reverse_replicate, walk, List.foldl_append, ← walk, hparents,
    foldl_push_plain (by simpa using hnames), List.reverse_reverse]

/-! ## Clean paths -/

lemma Settled.ne_nil (h : Settled rooted stack) : ∀ e ∈ stack, e ≠ [] := by
  obtain ⟨names, k, rfl, hnames, -⟩ := h
  intro e he
  rcases List.mem_append.mp he with he | he
  · exact (hnames e he).ne_nil
  · rw [List.eq_of_mem_replicate he]
    exact List.cons_ne_nil _ _

lemma Settled.no_slash (h : Settled rooted stack) : ∀ e ∈ stack, '/' ∉ e := by
  obtain ⟨names, k, rfl, hnames, -⟩ := h
  intro e he
  rcases List.mem_append.mp he with he | he
  · exact (hnames e he).no_slash
  · rw [List.eq_of_mem_replicate he]
    decide

lemma head?_intercalate {first : List Char} (h : first ≠ []) (rest : List (List Char)) :
    (['/'].intercalate (first :: rest)).head? = first.head? := by
  obtain ⟨c, cs, rfl⟩ := List.exists_cons_of_ne_nil h
  cases rest with
  | nil => rfl
  | cons second rest => rfl

lemma isRooted_intercalate {first : List Char} (h : first ≠ []) (rest : List (List Char)) :
    isRooted (['/'].intercalate (first :: rest)) = isRooted first := by
  rw [isRooted, isRooted, head?_intercalate h]

lemma isRooted_of_no_slash {path : List Char} (h : '/' ∉ path) : isRooted path = false := by
  cases path with
  | nil => rfl
  | cons c cs =>
    have hc : c ≠ '/' := by
      rintro rfl
      exact h (by simp)
    simpa [isRooted] using hc

lemma exists_bottom (hne : stack ≠ []) :
    ∃ first rest, stack.reverse = first :: rest ∧ first ∈ stack := by
  obtain ⟨first, rest, hstack⟩ := List.exists_cons_of_ne_nil (List.reverse_eq_nil_iff.not.mpr hne)
  refine ⟨first, rest, hstack, ?_⟩
  rw [← List.mem_reverse, hstack]
  exact List.mem_cons_self

lemma isRooted_render (h : Settled rooted stack) : isRooted (render rooted stack) = rooted := by
  cases rooted with
  | true => rfl
  | false =>
    rw [render, if_neg (by decide)]
    split_ifs with hnil
    · rfl
    · obtain ⟨first, rest, hstack, hmem⟩ := exists_bottom hnil
      rw [hstack, isRooted_intercalate (h.ne_nil first hmem),
        isRooted_of_no_slash (h.no_slash first hmem)]

lemma walk_nil_cons (rooted : Bool) (elements : List (List Char)) :
    walk rooted ([] :: elements) = walk rooted elements := rfl

/-- The stack of a clean path can be read off. -/
lemma walk_render (h : Settled rooted stack) :
    walk rooted ((render rooted stack).splitOn '/') = stack := by
  have hsplit : stack ≠ [] → (['/'].intercalate stack.reverse).splitOn '/' = stack.reverse := by
    intro hne
    exact List.splitOn_intercalate _ (by simpa using h.no_slash) (by simpa using hne)
  cases rooted with
  | true =>
    rw [render, if_pos rfl, List.splitOn_cons_eq_if_modifyHead, if_pos (by decide), walk_nil_cons]
    by_cases hnil : stack = []
    · subst hnil
      rfl
    · rw [hsplit hnil, walk_reverse h]
  | false =>
    rw [render, if_neg (by decide)]
    split_ifs with hnil
    · subst hnil
      decide
    · rw [hsplit hnil, walk_reverse h]

lemma render_inj (h : Settled rooted stack) (h' : Settled rooted stack') :
    render rooted stack = render rooted stack' ↔ stack = stack' := by
  refine ⟨fun heq => ?_, fun heq => heq ▸ rfl⟩
  rw [← walk_render h, heq, walk_render h']

lemma render_ne_nil (h : Settled rooted stack) : render rooted stack ≠ [] := by
  rw [render]
  split_ifs with hrooted hnil
  · exact List.cons_ne_nil _ _
  · exact List.cons_ne_nil _ _
  · obtain ⟨first, rest, hstack, hmem⟩ := exists_bottom hnil
    intro heq
    have hhead := head?_intercalate (h.ne_nil first hmem) rest
    rw [← hstack, heq, List.head?_nil] at hhead
    exact h.ne_nil first hmem (List.head?_eq_none_iff.mp hhead.symm)

/-! ## Joining -/

/-- The elements of the paths. -/
def elementsOf (paths : List (List Char)) : List (List Char) := paths.flatMap (List.splitOn '/')

/-- Whether the path joined from these starts at the root. -/
def rootedOf (paths : List (List Char)) : Bool :=
  (paths.dropWhile List.isEmpty).head?.any isRooted

/-- The stack of the path joined from these. -/
def stackOf (paths : List (List Char)) : List (List Char) :=
  walk (rootedOf paths) (elementsOf paths)

lemma settled_stackOf (paths : List (List Char)) : Settled (rootedOf paths) (stackOf paths) := by
  refine settled_foldl .nil fun e he => ?_
  obtain ⟨path, -, he⟩ := List.mem_flatMap.mp he
  exact not_mem_of_mem_splitOn path e he

lemma splitOn_intercalate (first : List Char) (rest : List (List Char)) :
    (['/'].intercalate (first :: rest)).splitOn '/' = elementsOf (first :: rest) := by
  induction rest generalizing first with
  | nil => simp [elementsOf]
  | cons second rest ih =>
    rw [List.intercalate_cons_cons, List.append_assoc, List.singleton_append,
      List.splitOn_append_cons_self, ih]
    rfl

lemma walk_elementsOf_dropWhile (rooted : Bool) (paths : List (List Char)) :
    walk rooted (elementsOf (paths.dropWhile List.isEmpty)) = walk rooted (elementsOf paths) := by
  induction paths with
  | nil => rfl
  | cons path paths ih =>
    cases path with
    | nil => exact ih
    | cons c cs => rfl

lemma join_eq (paths : List (List Char)) (hne : ∃ path ∈ paths, path ≠ []) :
    join paths = render (rootedOf paths) (stackOf paths) := by
  have hdrop : paths.dropWhile List.isEmpty ≠ [] := by
    obtain ⟨path, hmem, hpath⟩ := hne
    intro hnil
    exact hpath (by simpa using List.dropWhile_eq_nil_iff.mp hnil path hmem)
  obtain ⟨first, rest, hpaths⟩ := List.exists_cons_of_ne_nil hdrop
  have hfirst : first ≠ [] := by
    have hhead := List.head_dropWhile_not List.isEmpty hdrop
    simp only [hpaths, List.head_cons] at hhead
    simpa using hhead
  have hjoin : join paths = clean (['/'].intercalate (first :: rest)) := by
    rw [join, hpaths]
  rw [hjoin, clean, isRooted_intercalate hfirst, splitOn_intercalate, stackOf,
    ← walk_elementsOf_dropWhile _ paths, rootedOf, hpaths]
  rfl

/-- Plain names below a directory. -/
lemma join_append (dir : List (List Char)) (hnames : ∀ name ∈ names, Plain name)
    (hne : names ≠ []) :
    join (dir ++ names) = render (rootedOf dir) (names.reverse ++ stackOf dir) := by
  obtain ⟨first, rest, rfl⟩ := List.exists_cons_of_ne_nil hne
  have hfirst := hnames first (by simp)
  have hrooted : rootedOf (dir ++ first :: rest) = rootedOf dir := by
    rw [rootedOf, rootedOf, List.dropWhile_append]
    by_cases hnil : dir.dropWhile List.isEmpty = []
    · rw [hnil, List.isEmpty_nil, if_pos rfl,
        List.dropWhile_cons_of_neg (by simpa using hfirst.ne_nil)]
      exact isRooted_of_no_slash hfirst.no_slash
    · rw [if_neg (by simpa using hnil), List.head?_append_of_ne_nil _ hnil]
  have helements : elementsOf (first :: rest) = first :: rest := by
    have hsingle : ∀ name ∈ first :: rest, name.splitOn '/' = [name] := fun name hname =>
      List.splitOn_eq_singleton (hnames name hname).no_slash
    rw [elementsOf, List.flatMap_congr hsingle, List.flatMap_singleton']
  rw [join_eq _ ⟨first, by simp, hfirst.ne_nil⟩, hrooted, stackOf, hrooted, elementsOf,
    List.flatMap_append, ← elementsOf, ← elementsOf, helements, walk, List.foldl_append, ← walk,
    ← stackOf, foldl_push_plain hnames]

/-- The path of a file in a directory that is itself joined. -/
lemma join_join (dir : List (List Char)) {file : List Char}
    (hnames : ∀ name ∈ names, Plain name) (hne : names ≠ []) (hfile : Plain file) :
    join [join (dir ++ names), file] =
      render (rootedOf dir) (file :: names.reverse ++ stackOf dir) := by
  have hsettled : Settled (rootedOf dir) (names.reverse ++ stackOf dir) :=
    (settled_stackOf dir).append (by simpa using hnames)
  have hpath := render_ne_nil hsettled
  have hrooted :
      rootedOf [render (rootedOf dir) (names.reverse ++ stackOf dir)] = rootedOf dir := by
    rw [rootedOf, List.dropWhile_cons_of_neg (by simpa using hpath)]
    exact isRooted_render hsettled
  have hstack : stackOf [render (rootedOf dir) (names.reverse ++ stackOf dir)] =
      names.reverse ++ stackOf dir := by
    rw [stackOf, hrooted, elementsOf, List.flatMap_singleton, walk_render hsettled]
  have hjoin := join_append [render (rootedOf dir) (names.reverse ++ stackOf dir)]
    (by simpa using hfile : ∀ name ∈ [file], Plain name) (List.cons_ne_nil _ _)
  rw [join_append dir hnames hne]
  rw [hrooted, hstack] at hjoin
  exact hjoin

/-- In one place, files with different names, or in directories with different names, have
different paths. -/
theorem join_plain_inj (dir : List (List Char)) {names names' : List (List Char)}
    {file file' : List Char} (hnames : ∀ name ∈ names, Plain name) (hne : names ≠ [])
    (hnames' : ∀ name ∈ names', Plain name) (hne' : names' ≠ []) (hfile : Plain file)
    (hfile' : Plain file') :
    join [join (dir ++ names), file] = join [join (dir ++ names'), file'] ↔
      names = names' ∧ file = file' := by
  have hplain : ∀ {names : List (List Char)} {file : List Char}, (∀ name ∈ names, Plain name) →
      Plain file → ∀ name ∈ file :: names.reverse, Plain name := by
    intro names file hnames hfile
    simpa using ⟨hfile, hnames⟩
  rw [join_join dir hnames hne hfile, join_join dir hnames' hne' hfile',
    render_inj ((settled_stackOf dir).append (hplain hnames hfile))
      ((settled_stackOf dir).append (hplain hnames' hfile')), List.append_left_inj, List.cons.injEq,
    List.reverse_inj, and_comm]

end CleanPath
