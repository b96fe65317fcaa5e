import Mathlib.Algebra.Ring.Nat
import Mathlib.Data.List.TakeWhile
import Ebaf.CStrings

/-! # Numbers as text

Decimal digits denote a number, and `decimal` writes one down.  A numeral is what
`strtoul` can convert to its end: white space, a sign and digits.  The number it
denotes has a sign; `strtoul` returns one without, so the two agree on numerals
without a minus sign whose magnitude fits.
-/
namespace CStrings

/-! ## Digits -/

def IsDigit (b : UInt8) : Prop := 48 ≤ b ∧ b ≤ 57

instance (b : UInt8) : Decidable (IsDigit b) := inferInstanceAs (Decidable (_ ∧ _))

/-- The number a run of digits denotes when it is read on from `acc`. -/
def digitsFrom (acc : Nat) (digits : CString) : Nat :=
  digits.foldl (fun acc b => acc * 10 + (b.toNat - 48)) acc

/-- The number the digits denote. -/
def digitsValue (digits : CString) : Nat := digitsFrom 0 digits

variable {acc : Nat} {b : UInt8} {s digits rest : CString}

theorem digitsFrom_cons : digitsFrom acc (b :: s) = digitsFrom (acc * 10 + (b.toNat - 48)) s := by
  rw [digitsFrom, List.foldl_cons, digitsFrom]

theorem digitsFrom_append : digitsFrom acc (s ++ rest) = digitsFrom (digitsFrom acc s) rest :=
  List.foldl_append

theorem takeDigits_cons (hb : IsDigit b) :
    takeDigits acc (b :: s) = takeDigits (acc * 10 + (b.toNat - 48)) s := by
  have hdigit : digitValue b = some (b.toNat - 48) := if_pos hb
  rw [takeDigits, hdigit]

theorem takeDigits_stop (hb : ¬ IsDigit b) : takeDigits acc (b :: s) = (acc, b :: s) := by
  have hdigit : digitValue b = none := if_neg hb
  rw [takeDigits, hdigit]

/-- **`takeDigits` reads a run of digits to its end.** -/
theorem takeDigits_append (hdigits : ∀ b ∈ digits, IsDigit b)
    (hrest : ∀ b ∈ rest.head?, ¬ IsDigit b) (acc : Nat) :
    takeDigits acc (digits ++ rest) = (digitsFrom acc digits, rest) := by
  induction digits generalizing acc with
  | nil =>
    cases rest with
    | nil => rfl
    | cons b rest => exact takeDigits_stop (hrest b rfl)
  | cons b digits ih =>
    rw [List.cons_append, takeDigits_cons (hdigits b List.mem_cons_self), digitsFrom_cons]
    exact ih (fun b hb => hdigits b (List.mem_cons_of_mem _ hb)) _

/-- What it leaves follows a run of digits. -/
theorem takeDigits_split (acc : Nat) (s : CString) :
    ∃ digits, (∀ b ∈ digits, IsDigit b) ∧ s = digits ++ (takeDigits acc s).2 ∧
      (takeDigits acc s).1 = digitsFrom acc digits := by
  induction s generalizing acc with
  | nil => exact ⟨[], by simp, rfl, rfl⟩
  | cons b s ih =>
    by_cases hb : IsDigit b
    · obtain ⟨digits, hdigits, hs, hvalue⟩ := ih (acc * 10 + (b.toNat - 48))
      refine ⟨b :: digits, List.forall_mem_cons.mpr ⟨hb, hdigits⟩, ?_, ?_⟩
      · rw [takeDigits_cons hb, List.cons_append, ← hs]
      · rw [takeDigits_cons hb, hvalue, digitsFrom_cons]
    · rw [takeDigits_stop hb]
      exact ⟨[], by simp, rfl, rfl⟩

/-! ## Writing a number down -/

/-- `%u` and `%llu` -/
def decimal (n : Nat) : CString := lit n.repr

theorem decimal_eq (n : Nat) :
    decimal n = (Nat.toDigits 10 n).map fun c => UInt8.ofNat c.toNat := by
  rw [decimal, lit, Nat.toList_repr]

theorem decimal_ne_nil (n : Nat) : decimal n ≠ [] := by
  rw [decimal_eq, ne_eq, List.map_eq_nil_iff]
  exact Nat.toDigits_ne_nil

/-- A number of at most `k` digits. -/
theorem length_decimal_le {n k : Nat} (hk : 0 < k) (hn : n < 10 ^ k) : (decimal n).length ≤ k := by
  rw [decimal_eq, List.length_map]
  exact (Nat.length_toDigits_le_iff (by decide) hk).mpr hn

/-- The last digit, and what is in front of it. -/
theorem decimal_of_ge {n : Nat} (h : 10 ≤ n) :
    decimal n = decimal (n / 10) ++ [UInt8.ofNat (48 + n % 10)] := by
  rw [decimal_eq, decimal_eq, Nat.toDigits_of_base_le (by decide) h, List.map_append,
    List.map_singleton, Nat.toNat_digitChar_of_lt_ten (Nat.mod_lt _ (by decide))]

theorem decimal_of_lt {n : Nat} (h : n < 10) : decimal n = [UInt8.ofNat (48 + n)] := by
  rw [decimal_eq, Nat.toDigits_of_lt_base h, List.map_singleton, Nat.toNat_digitChar_of_lt_ten h]

theorem toNat_digit {d : Nat} (h : d < 10) : (UInt8.ofNat (48 + d)).toNat = 48 + d := by
  rw [UInt8.toNat_ofNat']
  omega

theorem isDigit_ofNat {d : Nat} (h : d < 10) : IsDigit (UInt8.ofNat (48 + d)) := by
  rw [IsDigit, UInt8.le_iff_toNat_le, UInt8.le_iff_toNat_le, toNat_digit h]
  exact ⟨Nat.le_add_right .., show 48 + d ≤ 57 by omega⟩

theorem isDigit_decimal (n : Nat) : ∀ b ∈ decimal n, IsDigit b := by
  induction n using Nat.strongRecOn with
  | ind n ih =>
    intro b hb
    by_cases h : n < 10
    · rw [decimal_of_lt h] at hb
      rw [List.mem_singleton.mp hb]
      exact isDigit_ofNat h
    · rw [decimal_of_ge (Nat.not_lt.mp h)] at hb
      rcases List.mem_append.mp hb with hfront | hlast
      · exact ih (n / 10) (by omega) b hfront
      · rw [List.mem_singleton.mp hlast]
        exact isDigit_ofNat (Nat.mod_lt _ (by decide))

/-- **What is written down denotes the number.** -/
theorem digitsValue_decimal (n : Nat) : digitsValue (decimal n) = n := by
  induction n using Nat.strongRecOn with
  | ind n ih =>
    by_cases h : n < 10
    · rw [decimal_of_lt h, digitsValue, digitsFrom_cons, toNat_digit h]
      show 0 * 10 + (48 + n - 48) = n
      omega
    · rw [decimal_of_ge (Nat.not_lt.mp h), digitsValue, digitsFrom_append, digitsFrom_cons,
        toNat_digit (Nat.mod_lt _ (by decide))]
      show digitsValue (decimal (n / 10)) * 10 + (48 + n % 10 - 48) = n
      rw [ih (n / 10) (by omega)]
      omega

theorem decimal_injective : Function.Injective decimal := by
  intro m n h
  rw [← digitsValue_decimal m, h, digitsValue_decimal]

/-! ## Numerals -/

/-- The sign of a numeral. -/
inductive Sign where
  | none | plus | minus
  deriving DecidableEq

def Sign.text : Sign → CString
  | .none => []
  | .plus => [43]
  | .minus => [45]

/-- A numeral: white space, a sign and digits. -/
structure Numeral where
  space : CString
  sign : Sign
  digits : CString
  space_isSpace : ∀ b ∈ space, isSpace b = true
  digits_isDigit : ∀ b ∈ digits, IsDigit b
  digits_ne_nil : digits ≠ []

namespace Numeral
variable (n : Numeral)

def text : CString := n.space ++ (n.sign.text ++ n.digits)

def magnitude : Nat := digitsValue n.digits

/-- **The number a numeral denotes.** -/
def value : Int :=
  match n.sign with
  | .none | .plus => n.magnitude
  | .minus => -n.magnitude

end Numeral

/-- A text is a numeral, and denotes this number. -/
def Denotes (text : CString) (v : Int) : Prop := ∃ n : Numeral, n.text = text ∧ n.value = v

/-- A negative number is written with a minus sign. -/
theorem denotes_neg (n : Nat) : Denotes (45 :: decimal n) (-n) := by
  refine ⟨⟨[], .minus, decimal n, by simp, isDigit_decimal n, decimal_ne_nil n⟩, rfl, ?_⟩
  rw [Numeral.value, Numeral.magnitude, digitsValue_decimal]

theorem not_isSpace_of_isDigit (h : IsDigit b) : isSpace b = false := by
  obtain ⟨hlo, hhi⟩ := h
  rw [UInt8.le_iff_toNat_le] at hlo hhi
  have hlo : 48 ≤ b.toNat := hlo
  simp only [isSpace, Bool.or_eq_false_iff, Bool.and_eq_false_iff, beq_eq_false_iff_ne,
    decide_eq_false_iff_not, UInt8.le_iff_toNat_le]
  refine ⟨?_, Or.inr (show ¬ b.toNat ≤ 13 by omega)⟩
  rintro rfl
  exact absurd hlo (by decide)

namespace Numeral
variable (n : Numeral)

/-- Behind the white space of a numeral. -/
theorem dropWhile_text : n.text.dropWhile isSpace = n.sign.text ++ n.digits := by
  rw [text, List.dropWhile_append_of_pos n.space_isSpace]
  cases hsign : n.sign with
  | plus | minus => rfl
  | none =>
    obtain ⟨b, digits, hdigits⟩ := List.exists_cons_of_ne_nil n.digits_ne_nil
    have hb : IsDigit b := n.digits_isDigit b (by rw [hdigits]; exact List.mem_cons_self)
    show n.digits.dropWhile isSpace = n.digits
    rw [hdigits, List.dropWhile_cons_of_neg (by rw [not_isSpace_of_isDigit hb]; decide)]

/-- **The sign and the digits can be told apart.** -/
theorem takeSign_text :
    takeSign (n.text.dropWhile isSpace) = (decide (n.sign = .minus), n.digits) := by
  rw [dropWhile_text]
  cases hsign : n.sign with
  | plus | minus => rfl
  | none =>
    obtain ⟨b, digits, hdigits⟩ := List.exists_cons_of_ne_nil n.digits_ne_nil
    have hb : IsDigit b := n.digits_isDigit b (by rw [hdigits]; exact List.mem_cons_self)
    have hminus : b ≠ 45 := by
      rintro rfl
      exact absurd hb (by decide)
    have hplus : b ≠ 43 := by
      rintro rfl
      exact absurd hb (by decide)
    show takeSign n.digits = _
    rw [hdigits, takeSign, if_neg hminus, if_neg hplus]
    rfl

/-- Two numerals with the same text denote the same number. -/
theorem value_eq_of_text {m n : Numeral} (h : m.text = n.text) : m.value = n.value := by
  have hsplit := m.takeSign_text
  rw [h, n.takeSign_text] at hsplit
  obtain ⟨hminus, hdigits⟩ := Prod.mk.inj hsplit
  have hmagnitude : m.magnitude = n.magnitude := by rw [magnitude, ← hdigits, magnitude]
  have hsign : n.sign = .minus ↔ m.sign = .minus := decide_eq_decide.mp hminus
  rw [value, value, hmagnitude]
  cases hm : m.sign with
  | minus => rw [hsign.mpr hm]
  | none | plus =>
    cases hn : n.sign with
    | none | plus => rfl
    | minus =>
      rw [hsign.mp hn] at hm
      cases hm

/-- What `strtoul` makes of the number: it has no sign. -/
def wrapped : Nat :=
  if n.sign = .minus then (ulongMax + 1 - n.magnitude) % (ulongMax + 1) else n.magnitude

/-- **`strtoul` converts a numeral to its end.** -/
theorem strtoul_text : strtoul n.text =
    if ulongMax < n.magnitude then ⟨ulongMax, [], true⟩ else ⟨n.wrapped, [], false⟩ := by
  have hdigits : takeDigits 0 n.digits = (n.magnitude, []) := by
    have hend : ∀ b ∈ ([] : CString).head?, ¬ IsDigit b := by simp
    have h := takeDigits_append n.digits_isDigit hend 0
    rwa [List.append_nil] at h
  have hread : ¬ ([] : CString).length = n.digits.length :=
    fun h => n.digits_ne_nil (List.length_eq_zero_iff.mp h.symm)
  simp only [strtoul, takeSign_text, hdigits, if_neg hread, wrapped, decide_eq_true_eq]

end Numeral

/-- Conversely, a text that is converted to its end is a numeral. -/
theorem exists_numeral_of_strtoul {text : CString} (hne : text ≠ [])
    (h : (strtoul text).rest = []) : ∃ n : Numeral, n.text = text := by
  have hspace : text.takeWhile isSpace ++ text.dropWhile isSpace = text :=
    List.takeWhile_append_dropWhile
  have hsign : ∃ sign : Sign, text.dropWhile isSpace =
      sign.text ++ (takeSign (text.dropWhile isSpace)).2 := by
    cases text.dropWhile isSpace with
    | nil => exact ⟨.none, rfl⟩
    | cons b s =>
      rw [takeSign]
      by_cases hminus : b = 45
      · rw [if_pos hminus, hminus]
        exact ⟨.minus, rfl⟩
      · by_cases hplus : b = 43
        · rw [if_neg hminus, if_pos hplus, hplus]
          exact ⟨.plus, rfl⟩
        · rw [if_neg hminus, if_neg hplus]
          exact ⟨.none, rfl⟩
  obtain ⟨sign, hsign⟩ := hsign
  -- the digits go to the end, since the conversion does
  generalize hafter : (takeSign (text.dropWhile isSpace)).2 = after at hsign
  obtain ⟨digits, hdigits, hsplit, -⟩ := takeDigits_split 0 after
  have hconverted : ¬ (takeDigits 0 after).2.length = after.length ∧ (takeDigits 0 after).2 = [] := by
    simp only [strtoul, hafter] at h
    split at h
    · exact absurd h hne
    · rename_i hread
      refine ⟨hread, ?_⟩
      split at h
      · exact h
      · exact h
  obtain ⟨hread, hend⟩ := hconverted
  rw [hend, List.append_nil] at hsplit
  refine ⟨⟨text.takeWhile isSpace, sign, digits, ?_, hdigits, ?_⟩, ?_⟩
  · exact fun b hb => List.mem_takeWhile_imp hb
  · rintro rfl
    rw [hend, hsplit] at hread
    exact hread rfl
  · rw [hsplit] at hsign
    show text.takeWhile isSpace ++ (sign.text ++ digits) = text
    rw [← hsign, hspace]

end CStrings
