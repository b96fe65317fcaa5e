import Mathlib.Data.List.Basic
import Mathlib.Data.List.Infix

/-! # Paths

A path is text; its components are what stands between the slashes.  Resolving a
path walks down the names and up at every `..`.  Below a directory, a list of
components comes down to a number of steps up and the names after them (`reduce`),
which decides whether it ends inside the directory.
-/
namespace PosixPaths

abbrev Component := List Char

def dot : Component := ['.']
def dotdot : Component := ['.', '.']

/-! ## Text -/

/-- What stands between the slashes. -/
def splitSlash : List Char → List Component
  | [] => [[]]
  | c :: s =>
    if c = '/' then [] :: splitSlash s
    else
      match splitSlash s with
      | [] => [[c]]
      | part :: parts => (c :: part) :: parts

/-- The text of an absolute path. -/
def absolute (parts : List Component) : List Char := parts.flatMap fun part => '/' :: part

variable {part : Component} {parts dir names : List Component} {up : Nat}

theorem splitSlash_of_not_mem (h : '/' ∉ part) : splitSlash part = [part] := by
  induction part with
  | nil => rfl
  | cons c part ih =>
    obtain ⟨hc, hpart⟩ := not_or.mp (mt List.mem_cons.mpr h)
    rw [splitSlash, if_neg (Ne.symm hc), ih hpart]

theorem splitSlash_append (h : '/' ∉ part) (s : List Char) :
    splitSlash (part ++ '/' :: s) = part :: splitSlash s := by
  induction part with
  | nil =>
    rw [List.nil_append, splitSlash, if_pos rfl]
  | cons c part ih =>
    obtain ⟨hc, hpart⟩ := not_or.mp (mt List.mem_cons.mpr h)
    rw [List.cons_append, splitSlash, if_neg (Ne.symm hc), ih hpart]

/-- No component has a slash. -/
theorem not_mem_splitSlash (s : List Char) : ∀ part ∈ splitSlash s, '/' ∉ part := by
  induction s with
  | nil =>
    intro part hpart
    rw [List.mem_singleton.mp hpart]
    exact List.not_mem_nil
  | cons c s ih =>
    rw [splitSlash]
    by_cases hc : c = '/'
    · rw [if_pos hc, List.forall_mem_cons]
      exact ⟨List.not_mem_nil, ih⟩
    · rw [if_neg hc]
      cases hs : splitSlash s with
      | nil =>
        intro part hpart
        rw [List.mem_singleton.mp hpart, List.mem_singleton]
        exact Ne.symm hc
      | cons part parts =>
        rw [hs, List.forall_mem_cons] at ih
        refine List.forall_mem_cons.mpr ⟨?_, ih.2⟩
        rw [List.mem_cons, not_or]
        exact ⟨Ne.symm hc, ih.1⟩

/-- **The components of a text are those it was made of.** -/
theorem splitSlash_absolute (h : ∀ part ∈ parts, '/' ∉ part) :
    splitSlash (absolute parts) = [] :: parts := by
  induction parts with
  | nil => rfl
  | cons part parts ih =>
    obtain ⟨hpart, hparts⟩ := List.forall_mem_cons.mp h
    rw [absolute, List.flatMap_cons, List.cons_append, splitSlash, if_pos rfl]
    cases parts with
    | nil =>
      rw [List.flatMap_nil, List.append_nil, splitSlash_of_not_mem hpart]
    | cons next parts =>
      have hnext := ih hparts
      rw [absolute, List.flatMap_cons, List.cons_append, splitSlash, if_pos rfl] at hnext
      rw [List.flatMap_cons, List.cons_append, splitSlash_append hpart, (List.cons.inj hnext).2]

/-! ## Resolving -/

/-- Walking from a directory: down a name, up at `..`; the root is its own parent. -/
def resolveFrom : List Component → List Component → List Component
  | dir, [] => dir
  | dir, part :: parts =>
    if part = [] ∨ part = dot then resolveFrom dir parts
    else if part = dotdot then resolveFrom dir.dropLast parts
    else resolveFrom (dir ++ [part]) parts

/-- The directory or file an absolute path leads to. -/
def resolve (path : List Char) : List Component := resolveFrom [] (splitSlash path)

/-- A name that is walked down. -/
structure Plain (part : Component) : Prop where
  ne_nil : part ≠ []
  ne_dot : part ≠ dot
  ne_dotdot : part ≠ dotdot
  no_slash : '/' ∉ part

theorem resolveFrom_append (parts' : List Component) :
    resolveFrom dir (parts ++ parts') = resolveFrom (resolveFrom dir parts) parts' := by
  induction parts generalizing dir with
  | nil => rfl
  | cons part parts ih =>
    simp only [List.cons_append, resolveFrom, ih]
    split
    · rfl
    split <;> rfl

/-- Names are walked down one by one. -/
theorem resolveFrom_plain (h : ∀ part ∈ parts, Plain part) :
    resolveFrom dir parts = dir ++ parts := by
  induction parts generalizing dir with
  | nil => exact (List.append_nil dir).symm
  | cons part parts ih =>
    obtain ⟨hpart, hparts⟩ := List.forall_mem_cons.mp h
    rw [resolveFrom, if_neg (not_or.mpr ⟨hpart.ne_nil, hpart.ne_dot⟩), if_neg hpart.ne_dotdot,
      ih hparts, List.append_assoc, List.singleton_append]

/-- Steps up and names, read on: `..` takes back a name, or is a step up. -/
def reduceFrom : Nat × List Component → List Component → Nat × List Component
  | acc, [] => acc
  | (up, names), part :: parts =>
    if part = [] ∨ part = dot then reduceFrom (up, names) parts
    else if part = dotdot then
      if names = [] then reduceFrom (up + 1, []) parts else reduceFrom (up, names.dropLast) parts
    else reduceFrom (up, names ++ [part]) parts

/-- The steps up of a relative path, and the names that follow them. -/
def reduce (parts : List Component) : Nat × List Component := reduceFrom (0, []) parts

theorem dropLast_take (l : List Component) (up : Nat) :
    (l.take (l.length - up)).dropLast = l.take (l.length - (up + 1)) := by
  rw [List.dropLast_eq_take, List.length_take, List.take_take]
  congr 1
  omega

theorem resolveFrom_reduceFrom : resolveFrom (dir.take (dir.length - up) ++ names) parts =
    dir.take (dir.length - (reduceFrom (up, names) parts).1) ++
      (reduceFrom (up, names) parts).2 := by
  induction parts generalizing up names with
  | nil => rfl
  | cons part parts ih =>
    rw [resolveFrom, reduceFrom]
    split
    · exact ih
    split
    · by_cases hnames : names = []
      · rw [if_pos hnames, hnames, List.append_nil, dropLast_take, ← ih, List.append_nil]
      · rw [if_neg hnames, List.dropLast_append_of_ne_nil hnames, ih]
    · rw [List.append_assoc, ih]

/-- **A path below a directory**: so many steps up, then down the names. -/
theorem resolveFrom_eq (dir parts : List Component) :
    resolveFrom dir parts = dir.take (dir.length - (reduce parts).1) ++ (reduce parts).2 := by
  have h : resolveFrom (dir.take (dir.length - 0) ++ []) parts = _ := resolveFrom_reduceFrom
  rwa [Nat.sub_zero, List.take_length, List.append_nil] at h

/-- **It ends inside the directory** when the names lead back down. -/
theorem prefix_resolveFrom_iff (dir parts : List Component) :
    dir <+: resolveFrom dir parts ↔
      dir.drop (dir.length - (reduce parts).1) <+: (reduce parts).2 := by
  rw [resolveFrom_eq]
  have hsplit := List.take_append_drop (dir.length - (reduce parts).1) dir
  constructor
  · intro h
    nth_rewrite 1 [← hsplit] at h
    exact (List.prefix_append_right_inj _).mp h
  · intro h
    nth_rewrite 1 [← hsplit]
    exact (List.prefix_append_right_inj _).mpr h

end PosixPaths
