import Mathlib.Data.Nat.ModEq
import Mathlib.Algebra.BigOperators.Group.List.Basic

/-! # One's-complement sums

The Internet checksum adds 16-bit words with end-around carry: arithmetic on
`0 … M` (`M = 2 ^ w - 1`) in which `0` and `M` both stand for zero.  A header
field can be replaced without summing the header again (`replace`), and
replacing it back restores the checksum — except that a checksum of `M` comes
back as `0` (`replace_replace`), the one place where the two zeros show.

A header verifies when the sum of all its words is `M`.  Sums are decided modulo
`M` (`sum_modEq`), up to the two zeros: the sum is `0` only if every word is
(`foldl_add_eq_zero`).  Replacing a word together with the checksum therefore keeps
a header that verifies one that does (`sum_of_replace`).
-/
namespace OnesComplement

variable {M a b c m m' : Nat}

/-- Sum with end-around carry. -/
def add (M a b : Nat) : Nat := if a + b ≤ M then a + b else a + b - M

/-- Complement. -/
def neg (M a : Nat) : Nat := M - a

/-- The checksum `c` after a summed word changes from `m` to `m'`. -/
def replace (M c m m' : Nat) : Nat := neg M (add M (add M (neg M c) (neg M m)) m')

theorem add_le (ha : a ≤ M) (hb : b ≤ M) : add M a b ≤ M := by
  unfold add
  split <;> omega

theorem neg_le : neg M a ≤ M := Nat.sub_le ..

theorem replace_le : replace M c m m' ≤ M := neg_le

theorem add_comm : add M a b = add M b a := by
  unfold add
  rw [Nat.add_comm]

theorem add_assoc (ha : a ≤ M) (hb : b ≤ M) (hc : c ≤ M) :
    add M (add M a b) c = add M a (add M b c) := by
  unfold add
  split <;> split <;> split <;> split <;> omega

theorem neg_neg (ha : a ≤ M) : neg M (neg M a) = a := by
  unfold neg
  omega

/-- Adding a word and its complement is adding zero: it only turns the zero `0`
into the other one. -/
theorem add_neg_add (ha : a ≤ M) (hm : m ≤ M) :
    add M (add M a m) (neg M m) = if a = 0 then M else a := by
  unfold add neg
  split <;> split <;> split <;> omega

/-- **Replacing a word and replacing it back restores the checksum**, up to the
two zeros. -/
theorem replace_replace (hc : c ≤ M) (hm : m ≤ M) (hm' : m' ≤ M) :
    replace M (replace M c m m') m' m = if c = M then 0 else c := by
  have hsum : add M (neg M c) (neg M m) ≤ M := add_le neg_le neg_le
  -- undo the outer complement, then the two words one after the other
  have hback : add M (add M (neg M (replace M c m m')) (neg M m')) m =
      if neg M c = 0 then M else neg M c := by
    rw [replace, neg_neg (add_le hsum hm'), add_neg_add hsum hm']
    split
    · rename_i hz
      unfold add neg at hz ⊢
      split at hz <;> split <;> split <;> omega
    · have h := add_neg_add (M := M) (a := neg M c) (m := neg M m) neg_le neg_le
      rwa [neg_neg hm] at h
  rw [replace, hback]
  unfold neg
  split <;> split <;> omega

/-! ## The sum of a list of words -/

/-- The one's-complement sum of words. -/
def sum (M : Nat) (ws : List Nat) : Nat := ws.foldl (add M) 0

/-- Modulo `M`, the carry does not matter. -/
theorem add_modEq : add M a b ≡ a + b [MOD M] := by
  unfold add
  split
  · rfl
  · rename_i h
    show (a + b - M) % M = (a + b) % M
    rw [← Nat.add_mod_right (a + b - M) M, Nat.sub_add_cancel (by omega)]

theorem add_eq_zero_iff : add M a b = 0 ↔ a = 0 ∧ b = 0 := by
  unfold add
  split <;> omega

theorem foldl_add_modEq (ws : List Nat) : ∀ a, ws.foldl (add M) a ≡ a + ws.sum [MOD M] := by
  induction ws with
  | nil => exact fun a => Nat.ModEq.refl a
  | cons w ws ih =>
    intro a
    rw [List.foldl_cons, List.sum_cons, ← Nat.add_assoc]
    exact (ih (add M a w)).trans (add_modEq.add_right _)

theorem sum_modEq (ws : List Nat) : sum M ws ≡ ws.sum [MOD M] := by
  have h := foldl_add_modEq (M := M) ws 0
  rwa [Nat.zero_add] at h

theorem foldl_add_le (ws : List Nat) (hws : ∀ w ∈ ws, w ≤ M) :
    ∀ a, a ≤ M → ws.foldl (add M) a ≤ M := by
  induction ws with
  | nil => exact fun _ ha => ha
  | cons w ws ih =>
    intro a ha
    exact ih (fun v hv => hws v (List.mem_cons_of_mem _ hv)) _
      (add_le ha (hws w List.mem_cons_self))

theorem foldl_add_eq_zero (ws : List Nat) :
    ∀ a, ws.foldl (add M) a = 0 → a = 0 ∧ ∀ w ∈ ws, w = 0 := by
  induction ws with
  | nil => exact fun a ha => ⟨ha, fun w hw => by cases hw⟩
  | cons w ws ih =>
    intro a ha
    obtain ⟨hadd, hws⟩ := ih _ ha
    obtain ⟨ha, hw⟩ := add_eq_zero_iff.mp hadd
    refine ⟨ha, fun v hv => ?_⟩
    rcases List.mem_cons.mp hv with rfl | hv
    · exact hw
    · exact hws v hv

/-- **A header verifies** when `M` divides the sum of its words and they are not
all zero. -/
theorem sum_eq_max (ws : List Nat) (hws : ∀ w ∈ ws, w ≤ M) (hne : ∃ w ∈ ws, w ≠ 0)
    (hdvd : ws.sum ≡ 0 [MOD M]) : sum M ws = M := by
  have hle : sum M ws ≤ M := foldl_add_le ws hws 0 (Nat.zero_le _)
  have hmod : sum M ws % M = 0 % M := (sum_modEq ws).trans hdvd
  by_contra hn
  rw [Nat.mod_eq_of_lt (by omega), Nat.zero_mod] at hmod
  obtain ⟨w, hw, hw0⟩ := hne
  exact hw0 ((foldl_add_eq_zero ws 0 hmod).2 w hw)

/-- A word and the checksum, replaced together, keep their sum. -/
theorem replace_modEq (hc : c ≤ M) (hm : m ≤ M) (hm' : m' ≤ M) :
    m' + replace M c m m' ≡ m + c [MOD M] := by
  have hle : add M (add M (neg M c) (neg M m)) m' ≤ M := add_le (add_le neg_le neg_le) hm'
  have hsum : add M (add M (neg M c) (neg M m)) m' + (m + c) ≡ m' [MOD M] := by
    calc add M (add M (neg M c) (neg M m)) m' + (m + c)
      _ ≡ add M (neg M c) (neg M m) + m' + (m + c) [MOD M] := add_modEq.add_right _
      _ ≡ neg M c + neg M m + m' + (m + c) [MOD M] := (add_modEq.add_right _).add_right _
      _ = m' + M * 2 := by
        unfold neg
        omega
      _ ≡ m' [MOD M] := Nat.add_mul_mod_self_left m' M 2
  have hneg : replace M c m m' + add M (add M (neg M c) (neg M m)) m' = M := by
    rw [replace, neg]
    omega
  refine Nat.ModEq.add_right_cancel' (add M (add M (neg M c) (neg M m)) m') ?_
  rw [Nat.add_assoc, hneg, Nat.add_comm (m + c)]
  exact (Nat.add_mod_right m' M).trans hsum.symm

/-- **Replacing a word keeps a header that verifies one that does**, if a word of it
is not zero. -/
theorem sum_of_replace {ws ws' : List Nat} (hws' : ∀ w ∈ ws', w ≤ M) (hne : ∃ w ∈ ws', w ≠ 0)
    (hc : c ≤ M) (hm : m ≤ M) (hm' : m' ≤ M)
    (hsum : ws'.sum + (m + c) = ws.sum + (m' + replace M c m m')) (h : sum M ws = M) :
    sum M ws' = M := by
  refine sum_eq_max ws' hws' hne ?_
  have hold : ws.sum ≡ 0 [MOD M] := by
    refine (sum_modEq ws).symm.trans ?_
    rw [h]
    exact Nat.modEq_zero_iff_dvd.mpr (Nat.dvd_refl M)
  refine Nat.ModEq.add_right_cancel' (m + c) ?_
  rw [hsum]
  exact hold.add (replace_modEq hc hm hm')

end OnesComplement
