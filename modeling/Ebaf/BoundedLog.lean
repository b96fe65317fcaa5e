import Mathlib.Data.List.DropRight

/-! # Logs of bounded length

A log keeps the newest of what was put in.  One that is cut after every entry keeps
the newest `n`; one that is cut by a fixed number of entries whenever it is too long
keeps a number of them that depends on how many there were.
-/
namespace BoundedLog
variable {α : Type} {l : List α} {x : α} {n m cap cut : Nat}

/-! ## Cut after every entry -/

/-- Newest first. -/
theorem take_cons_take (x : α) (l : List α) (n : Nat) : (x :: l.take n).take n = (x :: l).take n := by
  cases n with
  | zero => rfl
  | succ n => rw [List.take_succ_cons, List.take_succ_cons, List.take_take, Nat.min_eq_left (Nat.le_succ n)]

/-- Newest last. -/
theorem rtake_concat_rtake (l : List α) (x : α) (n : Nat) :
    (l.rtake n ++ [x]).rtake n = (l ++ [x]).rtake n := by
  rw [List.rtake_eq_reverse_take_reverse, List.rtake_eq_reverse_take_reverse (l := l ++ [x]),
    List.reverse_append, List.reverse_append, List.rtake_eq_reverse_take_reverse, List.reverse_reverse]
  exact congrArg List.reverse (take_cons_take x l.reverse n)

theorem length_rtake (l : List α) (n : Nat) : (l.rtake n).length = min n l.length := by
  rw [List.rtake, List.length_drop]
  omega

/-- What is dropped at the front are the oldest. -/
theorem drop_rtake (h : n ≤ l.length) : (l.rtake n).drop m = l.rtake (n - m) := by
  rw [List.rtake, List.drop_drop, List.rtake]
  by_cases hm : m ≤ n
  · congr 1
    omega
  · rw [List.drop_eq_nil_of_le (by omega), List.drop_eq_nil_of_le (by omega)]

theorem rtake_suffix (l : List α) (n : Nat) : l.rtake n <:+ l := List.drop_suffix _ _

/-! ## Cut by a fixed number when too long -/

/-- Put in at the end; beyond `cap` entries the oldest `cut` are dropped. -/
def slide (cap cut : Nat) (l : List α) (x : α) : List α :=
  let l := l ++ [x]
  if cap < l.length then l.drop cut else l

/-- How many are kept of `n`. -/
def kept (cap cut : Nat) : Nat → Nat
  | 0 => 0
  | n + 1 => if cap < kept cap cut n + 1 then kept cap cut n + 1 - cut else kept cap cut n + 1

theorem kept_le (hcut : 0 < cut) (n : Nat) : kept cap cut n ≤ cap := by
  induction n with
  | zero => exact Nat.zero_le _
  | succ n ih =>
    rw [kept]
    split <;> omega

theorem kept_le_self (cap cut n : Nat) : kept cap cut n ≤ n := by
  induction n with
  | zero => exact Nat.le_refl _
  | succ n ih =>
    rw [kept]
    split <;> omega

/-- Up to the limit all are kept, and from then on never fewer than what a cut leaves. -/
theorem le_kept (cap cut n : Nat) : min n (cap + 1 - cut) ≤ kept cap cut n := by
  induction n with
  | zero => exact Nat.min_le_left _ _
  | succ n ih =>
    rw [kept]
    split <;> omega

/-- **What the log holds**: the newest of all that was put in. -/
theorem slide_rtake (cap cut : Nat) (l : List α) (x : α) :
    slide cap cut (l.rtake (kept cap cut l.length)) x =
      (l ++ [x]).rtake (kept cap cut (l.length + 1)) := by
  have hkept : kept cap cut l.length ≤ l.length := kept_le_self cap cut l.length
  have hlen : ((l ++ [x]).rtake (kept cap cut l.length + 1)).length = kept cap cut l.length + 1 := by
    rw [length_rtake, List.length_append]
    exact Nat.min_eq_left (Nat.succ_le_succ hkept)
  rw [slide, ← List.rtake_concat_succ, hlen, kept]
  by_cases hfull : cap < kept cap cut l.length + 1
  · have hroom : kept cap cut l.length + 1 ≤ (l ++ [x]).length := by
      rw [List.length_append]
      exact Nat.succ_le_succ hkept
    rw [if_pos hfull, if_pos hfull, drop_rtake hroom]
  · rw [if_neg hfull, if_neg hfull]

/-! ## Numbered entries -/

section Numbered
variable {β : Type} (f : Nat → α → β)

/-- The entries with their numbers, from `start` on. -/
def numbered (start : Nat) (l : List α) : List (Nat × β) :=
  l.mapIdx fun i x => (start + i, f (start + i) x)

theorem numbered_cons (start : Nat) (x : α) (l : List α) :
    numbered f start (x :: l) = (start, f start x) :: numbered f (start + 1) l := by
  rw [numbered, List.mapIdx_cons, numbered]
  simp only [Nat.add_zero, Nat.add_assoc, Nat.add_comm 1]

theorem numbered_concat (start : Nat) (l : List α) (x : α) :
    numbered f start (l ++ [x]) =
      numbered f start l ++ [(start + l.length, f (start + l.length) x)] :=
  List.mapIdx_concat

theorem length_numbered (start : Nat) (l : List α) : (numbered f start l).length = l.length :=
  List.length_mapIdx

theorem drop_numbered (start n : Nat) (l : List α) :
    (numbered f start l).drop n = numbered f (start + n) (l.drop n) := by
  apply List.ext_getElem?
  intro i
  rw [List.getElem?_drop, numbered, numbered, List.getElem?_mapIdx, List.getElem?_mapIdx,
    List.getElem?_drop, Nat.add_assoc]

theorem ne_of_mem_numbered {start : Nat} {entry : Nat × β} (h : entry ∈ numbered f start l) :
    entry.1 ≠ start + l.length := by
  obtain ⟨i, hi, rfl⟩ := List.mem_mapIdx.mp h
  exact Nat.ne_of_lt (Nat.add_lt_add_left hi start)

/-- A number finds its own entry. -/
theorem lookup_numbered (start i : Nat) (l : List α) :
    (numbered f start l).lookup i = if start ≤ i then (l[i - start]?).map (f i) else none := by
  induction l generalizing start with
  | nil =>
    rw [List.getElem?_nil, Option.map_none, ite_self]
    rfl
  | cons x l ih =>
    rw [numbered_cons, List.lookup_cons, ih]
    rcases Nat.lt_trichotomy i start with hlt | rfl | hgt
    · rw [beq_false_of_ne (Nat.ne_of_lt hlt), if_neg (by omega), if_neg (by omega)]
    · rw [beq_self_eq_true, if_pos (Nat.le_refl i), Nat.sub_self]
      rfl
    · have hsub : i - start = i - (start + 1) + 1 := by omega
      rw [beq_false_of_ne (Nat.ne_of_gt hgt), if_pos (by omega), if_pos (by omega), hsub,
        List.getElem?_cons_succ]

/-- **A number finds its entry as long as it is kept.** -/
theorem lookup_rtake_numbered (i n : Nat) (l : List α) :
    ((numbered f 0 l).rtake n).lookup i =
      if l.length ≤ i + n then (l[i]?).map (f i) else none := by
  rw [List.rtake, length_numbered, drop_numbered, Nat.zero_add, lookup_numbered]
  by_cases h : l.length ≤ i + n
  · rw [if_pos h, if_pos (by omega), List.getElem?_drop]
    congr 2
    omega
  · rw [if_neg h, if_neg (by omega)]

end Numbered

end BoundedLog
