import Mathlib.Data.List.Basic

/-! # Lines and columns

A loop writes a table so many elements at a time.  It is read back by cutting the text at
its separators, where nothing between two of them counts for nothing.
-/
namespace Columns
variable {α : Type}

/-! ## So many at a time -/

/-- The values of `i` in `for (i = 0; i < len; i += n)`. -/
def steps (n len : Nat) : List Nat := (List.range ((len + n - 1) / n)).map fun k => n * k

theorem lt_of_mem_steps {n len i : Nat} (hn : 0 < n) (hi : i ∈ steps n len) : i < len := by
  obtain ⟨k, hk, rfl⟩ := List.mem_map.mp hi
  have hle : (k + 1) * n ≤ len + n - 1 :=
    (Nat.le_div_iff_mul_le hn).mp (List.mem_range.mp hk)
  rw [Nat.succ_mul, Nat.mul_comm] at hle
  omega

theorem flatMap_range (n m : Nat) (l : List α) :
    ((List.range m).flatMap fun k => (l.drop (n * k)).take n) = l.take (n * m) := by
  induction m with
  | zero => rfl
  | succ m ih =>
    rw [List.range_succ, List.flatMap_append, ih, List.flatMap_singleton, Nat.mul_succ, List.take_add]

/-- **The parts make up the list.** -/
theorem flatMap_steps {n : Nat} (hn : 0 < n) (l : List α) :
    ((steps n l.length).flatMap fun i => (l.drop i).take n) = l := by
  have hlen : l.length ≤ n * ((l.length + n - 1) / n) := by
    have hdiv := Nat.div_add_mod (l.length + n - 1) n
    have hmod := Nat.mod_lt (l.length + n - 1) hn
    omega
  rw [steps, List.flatMap_map, flatMap_range, List.take_of_length_le hlen]

/-! ## What stands between separators -/

section Fields
variable [DecidableEq α] {c : α} {w : List α} {ws : List (List α)}

def fields (c : α) (s : List α) : List (List α) := (s.splitOn c).filter fun w => w ≠ []

theorem fields_nil : fields c [] = [] := by
  rw [fields, List.splitOn_nil]
  rfl

theorem fields_word (hc : c ∉ w) (hw : w ≠ []) : fields c w = [w] := by
  rw [fields, List.splitOn_eq_singleton hc]
  exact List.filter_cons_of_pos (decide_eq_true hw)

theorem fields_append (s t : List α) : fields c (s ++ c :: t) = fields c s ++ fields c t := by
  rw [fields, List.splitOn_eq_splitOnP,
    List.splitOnP_append_cons (p := fun x => x == c) s t (beq_self_eq_true c), List.filter_append]
  rfl

/-- A separator in front. -/
theorem fields_cons (t : List α) : fields c (c :: t) = fields c t := by
  have happend := fields_append (c := c) [] t
  rwa [fields_nil] at happend

theorem fields_replicate (n : Nat) (t : List α) : fields c (List.replicate n c ++ t) = fields c t := by
  induction n with
  | zero => rfl
  | succ n ih =>
    rw [List.replicate_succ, List.cons_append, fields_cons, ih]

/-- **Words between separators are read back.** -/
theorem fields_intercalate (h : ∀ w ∈ ws, c ∉ w ∧ w ≠ []) : fields c ([c].intercalate ws) = ws := by
  cases ws with
  | nil => exact fields_nil
  | cons w ws =>
    rw [fields, List.splitOn_intercalate c (fun w hw => (h w hw).1) (List.cons_ne_nil w ws),
      List.filter_eq_self]
    exact fun w hw => decide_eq_true (h w hw).2

/-- Words with a separator on either side. -/
theorem fields_cells (h : ∀ w ∈ ws, c ∉ w ∧ w ≠ []) (t : List α) :
    fields c ((ws.map fun w => c :: (w ++ [c])).flatten ++ t) = ws ++ fields c t := by
  induction ws with
  | nil => rfl
  | cons w ws ih =>
    obtain ⟨⟨hc, hw⟩, hws⟩ := List.forall_mem_cons.mp h
    rw [List.map_cons, List.flatten_cons, List.append_assoc, List.cons_append, fields_cons,
      List.append_assoc, List.singleton_append, fields_append, fields_word hc hw, ih hws]
    rfl

end Fields
end Columns
