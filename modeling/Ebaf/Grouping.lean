import Mathlib.Algebra.Ring.Nat
import Mathlib.Data.List.Induction
import Mathlib.Data.List.Nodup

/-! # Grouping by a key

A dictionary that keeps the order of insertion collects the elements of a list by a key:
`groups.setdefault(key, []).append(x)`.  The groups come in the order in which their keys
first appear, and each one is the part of the list with its key.
-/
namespace Grouping
variable {α β : Type} [DecidableEq β] (key : α → β)

/-- An element goes to the group of its key, or starts one. -/
def add : List (β × List α) → α → List (β × List α)
  | [], a => [(key a, [a])]
  | (k, g) :: groups, a =>
    if k = key a then (k, g ++ [a]) :: groups else (k, g) :: add groups a

def group (l : List α) : List (β × List α) := l.foldl (add key) []

/-- The keys in the order of their first appearance. -/
def keys (l : List α) : List β := (l.map key).eraseDups

variable {key} {l : List α} {a : α} {k : β}

theorem group_concat : group key (l ++ [a]) = add key (group key l) a := by
  rw [group, List.foldl_append]
  rfl

theorem mem_keys : k ∈ keys key l ↔ ∃ a ∈ l, key a = k := by
  rw [keys, List.mem_eraseDups, List.mem_map]

theorem keys_concat :
    keys key (l ++ [a]) = if key a ∈ keys key l then keys key l else keys key l ++ [key a] := by
  rw [keys, List.map_append, List.eraseDups_append, List.map_singleton]
  by_cases hin : key a ∈ keys key l
  · have hmem : key a ∈ l.map key := List.mem_eraseDups.mp hin
    have hremoved : [key a].removeAll (l.map key) = [] := by
      simpa [List.removeAll] using hmem
    rw [if_pos hin, hremoved]
    exact List.append_nil _
  · have hmem : key a ∉ l.map key := fun h => hin (List.mem_eraseDups.mpr h)
    have hkept : [key a].removeAll (l.map key) = [key a] := by
      simpa [List.removeAll] using hmem
    rw [if_neg hin, hkept]
    rfl

theorem nodup_keys : (keys key l).Nodup := by
  induction l using List.reverseRecOn with
  | nil => exact List.nodup_nil
  | append_singleton l a ih =>
    rw [keys_concat]
    split
    · exact ih
    · rename_i hin
      refine List.nodup_append.mpr ⟨ih, List.nodup_singleton _, ?_⟩
      rintro k hk k' hk' rfl
      exact hin (List.mem_singleton.mp hk' ▸ hk)

/-- An element is added to groups that are the parts of a list. -/
theorem add_map {ks : List β} (hnodup : ks.Nodup) :
    add key (ks.map fun k => (k, l.filter fun x => key x = k)) a =
      if key a ∈ ks then ks.map fun k => (k, (l ++ [a]).filter fun x => key x = k)
      else ks.map (fun k => (k, (l ++ [a]).filter fun x => key x = k)) ++
        [(key a, [a])] := by
  have hother : ∀ k, k ≠ key a →
      (l ++ [a]).filter (fun x => decide (key x = k)) = l.filter fun x => decide (key x = k) := by
    intro k hk
    rw [List.filter_append, List.filter_cons_of_neg (by simpa using fun h => hk h.symm), List.filter_nil,
      List.append_nil]
  have hown : (l ++ [a]).filter (fun x => decide (key x = key a)) =
      l.filter (fun x => decide (key x = key a)) ++ [a] := by
    rw [List.filter_append, List.filter_cons_of_pos (by simp), List.filter_nil]
  induction ks with
  | nil => rfl
  | cons k ks ih =>
    obtain ⟨hk, hks⟩ := List.nodup_cons.mp hnodup
    rw [List.map_cons, add]
    by_cases heq : k = key a
    · subst heq
      have hrest : (ks.map fun k => (k, l.filter fun x => decide (key x = k))) =
          ks.map fun k => (k, (l ++ [a]).filter fun x => decide (key x = k)) := by
        refine List.map_congr_left fun k' hk' => ?_
        rw [hother k' fun h => hk (h ▸ hk')]
      rw [if_pos rfl, if_pos List.mem_cons_self, List.map_cons, hown, hrest]
    · have hmem : key a ∈ k :: ks ↔ key a ∈ ks := by
        rw [List.mem_cons]
        exact or_iff_right fun h => heq h.symm
      rw [if_neg heq, ih hks]
      simp only [hmem, List.map_cons, hother k heq]
      split <;> rfl

/-- **The groups are the parts of the list**, in the order in which their keys appear. -/
theorem group_eq (l : List α) :
    group key l = (keys key l).map fun k => (k, l.filter fun a => key a = k) := by
  induction l using List.reverseRecOn with
  | nil => rfl
  | append_singleton l a ih =>
    rw [group_concat, ih, add_map nodup_keys, keys_concat]
    by_cases hin : key a ∈ keys key l
    · rw [if_pos hin, if_pos hin]
    · have hnone : l.filter (fun x => decide (key x = key a)) = [] := by
        refine List.filter_eq_nil_iff.mpr fun x hx h => hin (mem_keys.mpr ⟨x, hx, ?_⟩)
        exact of_decide_eq_true h
      rw [if_neg hin, if_neg hin, List.map_append, List.map_singleton, List.filter_append, hnone,
        List.filter_cons_of_pos (by simp)]
      rfl

theorem perm_add (groups : List (β × List α)) (a : α) :
    ((add key groups a).flatMap Prod.snd).Perm (groups.flatMap Prod.snd ++ [a]) := by
  induction groups with
  | nil => exact .refl _
  | cons g groups ih =>
    obtain ⟨k, g⟩ := g
    rw [add]
    split
    · rw [List.flatMap_cons, List.flatMap_cons, List.append_assoc, List.append_assoc]
      exact List.Perm.append_left g List.perm_append_comm
    · rw [List.flatMap_cons, List.flatMap_cons, List.append_assoc]
      exact ih.append_left g

/-- **No element is lost or doubled.** -/
theorem perm_group (l : List α) : ((group key l).flatMap Prod.snd).Perm l := by
  induction l using List.reverseRecOn with
  | nil => exact .refl _
  | append_singleton l a ih =>
    rw [group_concat]
    exact (perm_add _ a).trans (ih.append_right [a])

/-- What is summed up group by group is summed up as a whole. -/
theorem sum_group (f : α → Nat) (l : List α) :
    ((group key l).map fun g => (g.2.map f).sum).sum = (l.map f).sum := by
  have hperm : ((group key l).flatMap Prod.snd).Perm l := perm_group l
  rw [← (hperm.map f).sum_nat, List.map_flatMap]
  clear hperm
  induction group key l with
  | nil => rfl
  | cons g groups ih =>
    rw [List.map_cons, List.sum_cons, ih, List.flatMap_cons, List.sum_append]

end Grouping
