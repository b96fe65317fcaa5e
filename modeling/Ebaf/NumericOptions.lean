import Ebaf.NumberText
import Ebaf.UserConfig

/-! # Numeric options

`parse_uint` compares what `strtoul` returns with the bounds of the option.  A
minus sign has been applied modulo `2 ^ 64` by then, so a negative number close
enough to `-2 ^ 64` passes for a small one.
-/
namespace Ebaf
open CStrings

variable {text : CString} {min max out : UInt32}

/-- A number up to a bound of the option fits the option. -/
theorem toNat_ofNat_of_le {k : Nat} (h : k ≤ max.toNat) : (UInt32.ofNat k).toNat = k := by
  rw [UInt32.toNat_ofNat']
  exact Nat.mod_eq_of_lt (Nat.lt_of_le_of_lt h max.toNat_lt)

/-- **What `parse_uint` accepts**: numerals that fit, with the number `strtoul`
makes of them in range. -/
theorem parseUint_eq_some_iff : parseUint text min max = some out ↔
    ∃ n : Numeral, n.text = text ∧ n.magnitude ≤ ulongMax ∧
      min.toNat ≤ n.wrapped ∧ n.wrapped ≤ max.toNat ∧ n.wrapped = out.toNat := by
  constructor
  · intro h
    rw [parseUint] at h
    -- past the empty text and past the five checks
    split at h
    · cases h
    rename_i hne
    dsimp only at h
    split at h
    · cases h
    rename_i hn
    simp only [not_or, not_not, Nat.not_lt] at hn
    obtain ⟨herange, -, hrest, hmin, hmax⟩ := hn
    obtain ⟨n, rfl⟩ := exists_numeral_of_strtoul hne hrest
    obtain rfl := Option.some.inj h
    have hfits : n.magnitude ≤ ulongMax := by
      by_contra hlarge
      rw [n.strtoul_text, if_pos (Nat.not_le.mp hlarge)] at herange
      exact herange rfl
    rw [n.strtoul_text, if_neg (Nat.not_lt.mpr hfits)] at hmin hmax ⊢
    exact ⟨n, rfl, hfits, hmin, hmax, (toNat_ofNat_of_le hmax).symm⟩
  · rintro ⟨n, rfl, hfits, hmin, hmax, hout⟩
    have hne : n.text ≠ [] := by
      intro h
      exact n.digits_ne_nil (List.append_eq_nil_iff.mp (List.append_eq_nil_iff.mp h).2).2
    have hlength : ¬ ([] : CString).length = n.text.length :=
      fun h => hne (List.length_eq_zero_iff.mp h.symm)
    rw [parseUint, if_neg hne, n.strtoul_text, if_neg (Nat.not_lt.mpr hfits)]
    dsimp only
    rw [if_neg, hout, UInt32.ofNat_toNat]
    -- none of the checks fails
    rintro (h | h | h | h | h)
    · cases h
    · exact hlength h
    · exact h rfl
    · exact absurd hmin (Nat.not_le.mpr h)
    · exact absurd hmax (Nat.not_le.mpr h)

theorem value_of_neg {n : Numeral} (h : n.value < 0) :
    n.sign = .minus ∧ n.value = -(n.magnitude : Int) := by
  cases hsign : n.sign with
  | none | plus =>
    simp only [Numeral.value, hsign] at h
    omega
  | minus => exact ⟨rfl, by rw [Numeral.value, hsign]⟩

/-- A number that is not negative is what `strtoul` returns. -/
theorem wrapped_of_nonneg {n : Numeral} (h : 0 ≤ n.value) : (n.wrapped : Int) = n.value := by
  cases hsign : n.sign with
  | none | plus => simp [Numeral.wrapped, Numeral.value, hsign]
  | minus =>
    simp only [Numeral.value, hsign] at h ⊢
    have hzero : n.magnitude = 0 := by omega
    simp [Numeral.wrapped, hsign, hzero]

/-- A negative number that fits comes back as its complement. -/
theorem wrapped_of_neg {n : Numeral} (h : n.value < 0) (hfits : n.magnitude ≤ ulongMax) :
    (n.wrapped : Int) = n.value + (ulongMax + 1) := by
  obtain ⟨hsign, hvalue⟩ := value_of_neg h
  rw [Numeral.wrapped, if_pos hsign, Nat.mod_eq_of_lt (by omega)]
  omega

/-- A negative number that is in range modulo `2 ^ 64`. -/
def WrapsInto (text : CString) (min max : UInt32) : Prop :=
  ∃ v : Int, Denotes text v ∧ -(ulongMax : Int) ≤ v ∧ v < 0 ∧
    (min.toNat : Int) ≤ v + (ulongMax + 1) ∧ v + (ulongMax + 1) ≤ max.toNat

/-- **Numbers in range are accepted as they are.** -/
theorem parseUint_of_denotes {v : Int} (h : Denotes text v) (hmin : (min.toNat : Int) ≤ v)
    (hmax : v ≤ max.toNat) : ∃ out, parseUint text min max = some out ∧ (out.toNat : Int) = v := by
  obtain ⟨n, rfl, rfl⟩ := h
  have hnonneg : 0 ≤ n.value := by omega
  have hvalue := wrapped_of_nonneg hnonneg
  have hlt := max.toNat_lt
  have hout : (UInt32.ofNat n.wrapped).toNat = n.wrapped :=
    toNat_ofNat_of_le (show n.wrapped ≤ max.toNat by omega)
  have hfits : n.magnitude ≤ ulongMax := by
    cases hsign : n.sign with
    | none | plus =>
      simp only [Numeral.value, hsign] at hmax
      rw [ulongMax]
      omega
    | minus =>
      simp only [Numeral.value, hsign] at hnonneg
      omega
  exact ⟨UInt32.ofNat n.wrapped,
    parseUint_eq_some_iff.mpr ⟨n, rfl, hfits, by omega, by omega, hout.symm⟩, by omega⟩

/-- `parse_uint` is sound for an argument: what it accepts denotes a number in
range, and that number is stored. -/
def SoundFor (text : CString) (min max : UInt32) : Prop :=
  ∀ out, parseUint text min max = some out →
    ∃ v : Int, Denotes text v ∧ (min.toNat : Int) ≤ v ∧ v ≤ max.toNat ∧ (out.toNat : Int) = v

/-- What such an argument is taken for is no number in range. -/
theorem WrapsInto.not_soundFor (h : WrapsInto text min max) : ¬ SoundFor text min max := by
  intro hsound
  obtain ⟨v, ⟨n, rfl, rfl⟩, hlow, hneg, hmin, hmax⟩ := h
  have hfits : n.magnitude ≤ ulongMax := by
    have := (value_of_neg hneg).2
    omega
  have hvalue := wrapped_of_neg hneg hfits
  have hout : (UInt32.ofNat n.wrapped).toNat = n.wrapped :=
    toNat_ofNat_of_le (show n.wrapped ≤ max.toNat by omega)
  have haccepted : parseUint n.text min max = some (UInt32.ofNat n.wrapped) :=
    parseUint_eq_some_iff.mpr ⟨n, rfl, hfits, by omega, by omega, hout.symm⟩
  obtain ⟨v, ⟨m, htext, rfl⟩, hge, -⟩ := hsound _ haccepted
  rw [Numeral.value_eq_of_text htext] at hge
  omega

/-- **`parse_uint` is sound exactly for the arguments that do not denote a
negative number in range modulo `2 ^ 64`.** -/
theorem parseUint_sound_iff (text : CString) (min max : UInt32) :
    SoundFor text min max ↔ ¬ WrapsInto text min max := by
  constructor
  · exact fun hsound hwraps => hwraps.not_soundFor hsound
  · intro hwraps out h
    obtain ⟨n, htext, hfits, hmin, hmax, hout⟩ := parseUint_eq_some_iff.mp h
    have hnonneg : 0 ≤ n.value := by
      by_contra hneg
      have hneg : n.value < 0 := Int.not_le.mp hneg
      have hmagnitude := (value_of_neg hneg).2
      have hvalue := wrapped_of_neg hneg hfits
      exact hwraps ⟨n.value, ⟨n, htext, rfl⟩, by omega, hneg, by omega, by omega⟩
    have hvalue := wrapped_of_nonneg hnonneg
    exact ⟨n.value, ⟨n, htext, rfl⟩, by omega, by omega, by omega⟩

/-- A port that is accepted and is not a port. -/
theorem parseUint_unsound : ¬ ∀ (text : CString) (min max : UInt32), min ≤ max →
    SoundFor text min max := by
  intro h
  have htext : lit "-18446744073709551615" = 45 :: decimal 18446744073709551615 := by decide
  have hdenotes : Denotes (lit "-18446744073709551615") (-18446744073709551615) := by
    rw [htext]
    exact denotes_neg _
  have hwraps : WrapsInto (lit "-18446744073709551615") 1 65535 :=
    ⟨_, hdenotes, by decide, by decide, by decide, by decide⟩
  exact hwraps.not_soundFor (h (lit "-18446744073709551615") 1 65535 (by decide))

end Ebaf
