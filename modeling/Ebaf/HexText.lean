import Mathlib.Algebra.Ring.Nat
import Ebaf.UserConfig

/-! # Hexadecimal text

The key on the command line is read by `ebaf_parse_hex_key`, the sample of an event
is written by `format_sample_hex`.  The two loops are inverse to each other: what
is written is read back, and what is read is written again as it was, in lower
case.
-/
namespace Ebaf
open CStrings

/-! ## Digits -/

/-- `"0123456789abcdef"[d]` -/
def hexDigit (d : Nat) : UInt8 := (lit "0123456789abcdef").getD d 0

/-- A hexadecimal digit of either case. -/
def IsHexDigit (c : UInt8) : Prop := (48 ≤ c ∧ c ≤ 57) ∨ (97 ≤ c ∧ c ≤ 102) ∨ (65 ≤ c ∧ c ≤ 70)

/-- `tolower` in the C locale. -/
def toLower (c : UInt8) : UInt8 := if 65 ≤ c ∧ c ≤ 90 then c + 32 else c

variable {c : UInt8} {d hi lo n : Nat}

theorem hexValue_hexDigit : ∀ d < 16, hexValue (hexDigit d) = some d := by
  decide

theorem hexDigit_of_lt_ten : ∀ d < 10, hexDigit d = UInt8.ofNat (48 + d) := by
  decide

theorem hexDigit_of_letter : ∀ d < 6, hexDigit (10 + d) = UInt8.ofNat (97 + d) := by
  decide

theorem le_toNat {a : UInt8} (h : a ≤ c) : a.toNat ≤ c.toNat := UInt8.le_iff_toNat_le.mp h

/-- **The value of a digit is below 16, and its text is the digit in lower case.** -/
theorem hexValue_eq_some (h : hexValue c = some d) : d < 16 ∧ hexDigit d = toLower c := by
  rw [hexValue] at h
  split at h
  · rename_i hc
    obtain rfl := Option.some.inj h
    have hge : 48 ≤ c.toNat := le_toNat hc.1
    have hle : c.toNat ≤ 57 := le_toNat hc.2
    have hlower : toLower c = c :=
      if_neg fun hup => absurd (show 65 ≤ c.toNat from le_toNat (a := 65) hup.1) (by omega)
    refine ⟨by omega, ?_⟩
    rw [hexDigit_of_lt_ten _ (by omega), hlower, Nat.add_sub_cancel' hge, UInt8.ofNat_toNat]
  split at h
  · rename_i hc
    obtain rfl := Option.some.inj h
    have hge : 97 ≤ c.toNat := le_toNat hc.1
    have hle : c.toNat ≤ 102 := le_toNat hc.2
    have hlower : toLower c = c :=
      if_neg fun hup => absurd (show c.toNat ≤ 90 from le_toNat hup.2) (by omega)
    refine ⟨by omega, ?_⟩
    rw [Nat.add_comm, hexDigit_of_letter _ (by omega), hlower, Nat.add_sub_cancel' hge,
      UInt8.ofNat_toNat]
  split at h
  · rename_i hc
    obtain rfl := Option.some.inj h
    have hge : 65 ≤ c.toNat := le_toNat hc.1
    have hle : c.toNat ≤ 70 := le_toNat hc.2
    have hlower : toLower c = c + 32 :=
      if_pos ⟨hc.1, UInt8.le_iff_toNat_le.mpr (show c.toNat ≤ 90 by omega)⟩
    refine ⟨by omega, ?_⟩
    rw [Nat.add_comm, hexDigit_of_letter _ (by omega), hlower]
    apply UInt8.toNat_inj.mp
    rw [UInt8.toNat_ofNat', UInt8.toNat_add]
    show (97 + (c.toNat - 65)) % 256 = (c.toNat + 32) % 256
    omega
  · cases h

theorem hexValue_isSome_iff : (∃ d, hexValue c = some d) ↔ IsHexDigit c := by
  unfold hexValue IsHexDigit
  split <;> rename_i hdigit
  · exact ⟨fun _ => Or.inl hdigit, fun _ => ⟨_, rfl⟩⟩
  split <;> rename_i hlower
  · exact ⟨fun _ => Or.inr (Or.inl hlower), fun _ => ⟨_, rfl⟩⟩
  split <;> rename_i hupper
  · exact ⟨fun _ => Or.inr (Or.inr hupper), fun _ => ⟨_, rfl⟩⟩
  · constructor
    · rintro ⟨d, h⟩
      cases h
    · rintro (h | h | h)
      · exact absurd h hdigit
      · exact absurd h hlower
      · exact absurd h hupper

/-! ## Bytes -/

/-- Two digits for each byte, the high half first. -/
def hexText : List UInt8 → CString
  | [] => []
  | b :: bytes => hexDigit (b >>> 4).toNat :: hexDigit (b &&& 0x0f).toNat :: hexText bytes

theorem toNat_high (b : UInt8) : (b >>> 4).toNat = b.toNat / 16 := by
  rw [UInt8.toNat_shiftRight]
  exact Nat.shiftRight_eq_div_pow b.toNat 4

theorem toNat_low (b : UInt8) : (b &&& 0x0f).toNat = b.toNat % 16 := by
  rw [UInt8.toNat_and]
  exact Nat.and_two_pow_sub_one_eq_mod b.toNat 4

/-- The byte of two digits. -/
theorem toNat_byte (hhi : hi < 16) (hlo : lo < 16) :
    (UInt8.ofNat (hi <<< 4 ||| lo)).toNat = hi * 16 + lo := by
  have hor : hi <<< 4 ||| lo = hi * 16 + lo := by
    rw [← Nat.shiftLeft_add_eq_or_of_lt (show lo < 2 ^ 4 from hlo), Nat.shiftLeft_eq]
  rw [UInt8.toNat_ofNat', hor]
  exact Nat.mod_eq_of_lt (by omega)

@[simp] theorem hexText_length (bytes : List UInt8) : (hexText bytes).length = 2 * bytes.length := by
  induction bytes with
  | nil => rfl
  | cons b bytes ih =>
    rw [hexText, List.length_cons, List.length_cons, ih, List.length_cons]
    omega

/-- **What is written is read back.** -/
theorem hexBytes_hexText (bytes : List UInt8) : hexBytes (hexText bytes) = some bytes := by
  induction bytes with
  | nil => rfl
  | cons b bytes ih =>
    have hb := b.toNat_lt
    have hhi : (b >>> 4).toNat < 16 := by
      rw [toNat_high]
      omega
    have hlo : (b &&& 0x0f).toNat < 16 := by
      rw [toNat_low]
      omega
    have hbyte : UInt8.ofNat ((b >>> 4).toNat <<< 4 ||| (b &&& 0x0f).toNat) = b := by
      apply UInt8.toNat_inj.mp
      rw [toNat_byte hhi hlo, toNat_high, toNat_low]
      omega
    simp only [hexText, hexBytes, hexValue_hexDigit _ hhi, hexValue_hexDigit _ hlo, ih,
      Option.bind_eq_bind, Option.bind_some, hbyte]
    rfl

/-- **What is read is written again in lower case.** -/
theorem hexText_of_hexBytes : ∀ {n : Nat} {hex : CString} {bytes : List UInt8},
    hex.length = n * 2 → hexBytes hex = some bytes → hexText bytes = hex.map toLower
  | n, [], bytes, _, h => by
    cases h
    rfl
  | n, [_], bytes, hlen, h => by
    simp only [List.length_cons, List.length_nil] at hlen
    omega
  | n, hi :: lo :: rest, bytes, hlen, h => by
    simp only [List.length_cons] at hlen
    simp only [hexBytes, Option.bind_eq_bind, Option.bind_eq_some_iff] at h
    obtain ⟨x, hx, y, hy, tail, htail, h⟩ := h
    cases h
    obtain ⟨hx16, hxtext⟩ := hexValue_eq_some hx
    obtain ⟨hy16, hytext⟩ := hexValue_eq_some hy
    have hrest := hexText_of_hexBytes (n := n - 1) (by omega) htail
    have hhigh : (UInt8.ofNat (x <<< 4 ||| y) >>> 4).toNat = x := by
      rw [toNat_high, toNat_byte hx16 hy16]
      omega
    have hlow : (UInt8.ofNat (x <<< 4 ||| y) &&& 0x0f).toNat = y := by
      rw [toNat_low, toNat_byte hx16 hy16]
      omega
    rw [hexText, hhigh, hlow, hxtext, hytext, hrest, List.map_cons, List.map_cons]

/-- Reading succeeds on digits. -/
theorem hexBytes_isSome_iff : ∀ {n : Nat} {hex : CString}, hex.length = n * 2 →
    ((∃ bytes, hexBytes hex = some bytes) ↔ ∀ c ∈ hex, IsHexDigit c)
  | n, [], _ => ⟨fun _ => by simp, fun _ => ⟨[], rfl⟩⟩
  | n, [_], hlen => by
    simp only [List.length_cons, List.length_nil] at hlen
    omega
  | n, hi :: lo :: rest, hlen => by
    simp only [List.length_cons] at hlen
    have hrest := show (∃ bytes, hexBytes rest = some bytes) ↔ _ from hexBytes_isSome_iff (n := n - 1) (by omega)
    simp only [hexBytes, Option.bind_eq_bind, Option.bind_eq_some_iff, List.forall_mem_cons]
    constructor
    · rintro ⟨bytes, x, hx, y, hy, tail, htail, -⟩
      exact ⟨hexValue_isSome_iff.mp ⟨x, hx⟩, hexValue_isSome_iff.mp ⟨y, hy⟩,
        hrest.mp ⟨tail, htail⟩⟩
    · rintro ⟨hhi, hlo, hdigits⟩
      obtain ⟨x, hx⟩ := hexValue_isSome_iff.mpr hhi
      obtain ⟨y, hy⟩ := hexValue_isSome_iff.mpr hlo
      obtain ⟨tail, htail⟩ := hrest.mpr hdigits
      exact ⟨_, x, hx, y, hy, tail, htail, rfl⟩

/-! ## Keys -/

variable {hex : CString} {bytes : List UInt8}

theorem ebafParseHexKey_eq_some_iff :
    ebafParseHexKey hex n = some bytes ↔ hex.length = n * 2 ∧ hexBytes hex = some bytes := by
  rw [ebafParseHexKey]
  split <;> rename_i hlen
  · constructor
    · intro h
      cases h
    · exact fun h => absurd h.1 hlen
  · exact ⟨fun h => ⟨not_not.mp hlen, h⟩, fun h => h.2⟩

/-- **Keys that are accepted**: the right number of digits. -/
theorem ebafParseHexKey_isSome_iff (hex : CString) (n : Nat) :
    (∃ bytes, ebafParseHexKey hex n = some bytes) ↔
      hex.length = 2 * n ∧ ∀ c ∈ hex, IsHexDigit c := by
  simp only [ebafParseHexKey_eq_some_iff, exists_and_left, Nat.mul_comm 2 n]
  constructor
  · rintro ⟨hlen, hbytes⟩
    exact ⟨hlen, (hexBytes_isSome_iff hlen).mp hbytes⟩
  · rintro ⟨hlen, hdigits⟩
    exact ⟨hlen, (hexBytes_isSome_iff hlen).mpr hdigits⟩

theorem hexText_of_ebafParseHexKey (h : ebafParseHexKey hex n = some bytes) :
    hexText bytes = hex.map toLower := by
  obtain ⟨hlen, hbytes⟩ := ebafParseHexKey_eq_some_iff.mp h
  exact hexText_of_hexBytes hlen hbytes

theorem ebafParseHexKey_hexText (bytes : List UInt8) :
    ebafParseHexKey (hexText bytes) bytes.length = some bytes :=
  ebafParseHexKey_eq_some_iff.mpr
    ⟨by rw [hexText_length, Nat.mul_comm], hexBytes_hexText bytes⟩

/-! ## The loop over indices

The source compares the length with a product of type `size_t` and runs over
indices.  Behind the digits stands the NUL, and behind that anything. -/

/-- The rounds of the loop from index `i` on. -/
def hexLoop (mem : Nat → UInt8) : (rounds i : Nat) → Option (List UInt8)
  | 0, _ => some []
  | rounds + 1, i => do
    let hi ← hexValue (mem (i * 2))
    let lo ← hexValue (mem (i * 2 + 1))
    let bytes ← hexLoop mem rounds (i + 1)
    pure (UInt8.ofNat (hi <<< 4 ||| lo) :: bytes)

variable {mem : Nat → UInt8} {i j rounds : Nat}

/-- A round that reads the NUL ends the loop. -/
theorem hexLoop_eq_none (hnul : mem (j * 2) = 0) (hij : i ≤ j) (hj : j < i + rounds) :
    hexLoop mem rounds i = none := by
  induction rounds generalizing i with
  | zero => omega
  | succ rounds ih =>
    by_cases h : i = j
    · have hvalue : hexValue (mem (i * 2)) = none := by
        rw [h, hnul]
        rfl
      simp only [hexLoop, hvalue, Option.bind_eq_bind, Option.bind_none]
    · simp only [hexLoop, ih (show i + 1 ≤ j by omega) (by omega), Option.bind_eq_bind,
        Option.bind_none, Option.bind_fun_none]

/-- As long as it stays within the digits it reads them in pairs. -/
theorem hexLoop_eq_hexBytes (hlen : hex.length = rounds * 2)
    (hmem : ∀ k < hex.length, mem (i * 2 + k) = hex.getD k 0) :
    hexLoop mem rounds i = hexBytes hex := by
  induction rounds generalizing i hex with
  | zero =>
    rw [List.length_eq_zero_iff.mp (hlen.trans (Nat.zero_mul 2))]
    rfl
  | succ rounds ih =>
    rcases hex with - | ⟨hi, - | ⟨lo, rest⟩⟩
    · simp only [List.length_nil] at hlen
      omega
    · simp only [List.length_cons, List.length_nil] at hlen
      omega
    · simp only [List.length_cons] at hlen hmem
      have hfirst : mem (i * 2) = hi := hmem 0 (by omega)
      have hsecond : mem (i * 2 + 1) = lo := hmem 1 (by omega)
      have hrest : hexLoop mem rounds (i + 1) = hexBytes rest := by
        apply ih (by omega)
        intro k hk
        have h := hmem (k + 2) (by omega)
        rw [Nat.add_mul, Nat.add_assoc, Nat.add_comm (1 * 2) k]
        exact h
      simp only [hexLoop, hexBytes, hfirst, hsecond, hrest]

/-- **The product may wrap around**: then the loop meets the NUL, and the key is
refused for its length or for that. -/
theorem ebafParseHexKey_eq_hexLoop (hn : n < 2 ^ 64) (hlen : hex.length < 2 ^ 64)
    (hmem : ∀ k < hex.length, mem k = hex.getD k 0) (hnul : mem hex.length = 0) :
    ebafParseHexKey hex n =
      if hex.length ≠ n * 2 % 2 ^ 64 then none else hexLoop mem n 0 := by
  rw [ebafParseHexKey]
  by_cases hfits : n * 2 < 2 ^ 64
  · rw [Nat.mod_eq_of_lt hfits]
    split <;> rename_i h
    · rfl
    · refine (hexLoop_eq_hexBytes (not_not.mp h) ?_).symm
      intro k hk
      rw [Nat.zero_mul, Nat.zero_add]
      exact hmem k hk
  · rw [if_pos (by omega)]
    split <;> rename_i h
    · rfl
    · have hhalf : mem (hex.length / 2 * 2) = 0 := by
        rw [Nat.div_mul_cancel (by omega)]
        exact hnul
      exact (hexLoop_eq_none hhalf (Nat.zero_le _) (by omega)).symm

/-! ## Numbers -/

/-- `%x` -/
def hexNumber (n : Nat) : CString := (Nat.toDigits 16 n).map fun c => UInt8.ofNat c.toNat

/-- Zeros in front of the digits up to a width. -/
def zeroPadded (width : Nat) (digits : CString) : CString :=
  List.replicate (width - digits.length) 48 ++ digits

/-- The number the digits stand for, read on from `acc`. -/
def hexFrom (acc : Nat) (digits : CString) : Nat :=
  digits.foldl (fun acc b => acc * 16 + (hexValue b).getD 0) acc

theorem digitChar_eq_hexDigit : ∀ d < 16, UInt8.ofNat (Nat.digitChar d).toNat = hexDigit d := by
  decide

theorem hexNumber_of_lt (h : n < 16) : hexNumber n = [hexDigit n] := by
  rw [hexNumber, Nat.toDigits_of_lt_base h, List.map_singleton, digitChar_eq_hexDigit n h]

theorem hexNumber_of_ge (h : 16 ≤ n) : hexNumber n = hexNumber (n / 16) ++ [hexDigit (n % 16)] := by
  rw [hexNumber, hexNumber, Nat.toDigits_of_base_le (by decide) h, List.map_append,
    List.map_singleton, digitChar_eq_hexDigit _ (Nat.mod_lt _ (by decide))]

theorem length_hexNumber_le {k : Nat} (hk : 0 < k) (hn : n < 16 ^ k) :
    (hexNumber n).length ≤ k := by
  rw [hexNumber, List.length_map]
  exact (Nat.length_toDigits_le_iff (by decide) hk).mpr hn

/-- **What is written down stands for the number.** -/
theorem hexFrom_hexNumber (n : Nat) : hexFrom 0 (hexNumber n) = n := by
  induction n using Nat.strongRecOn with
  | ind n ih =>
    by_cases h : n < 16
    · rw [hexNumber_of_lt h, hexFrom, List.foldl_cons, List.foldl_nil, hexValue_hexDigit n h]
      exact Nat.zero_add n
    · have hlast := hexValue_hexDigit (n % 16) (Nat.mod_lt _ (by decide))
      rw [hexNumber_of_ge (Nat.not_lt.mp h), hexFrom, List.foldl_append, List.foldl_cons,
        List.foldl_nil, hlast]
      show hexFrom 0 (hexNumber (n / 16)) * 16 + n % 16 = n
      rw [ih (n / 16) (by omega)]
      omega

/-- Zeros in front change nothing. -/
theorem hexFrom_zeroPadded (width : Nat) (digits : CString) :
    hexFrom 0 (zeroPadded width digits) = hexFrom 0 digits := by
  have hzeros : ∀ k, hexFrom 0 (List.replicate k 48) = 0 := by
    intro k
    induction k with
    | zero => rfl
    | succ k ih => exact ih
  rw [zeroPadded, hexFrom, List.foldl_append]
  exact congrArg (fun acc => hexFrom acc digits) (hzeros _)

theorem length_zeroPadded {width : Nat} {digits : CString} (h : digits.length ≤ width) :
    (zeroPadded width digits).length = width := by
  rw [zeroPadded, List.length_append, List.length_replicate]
  omega

/-! ## The sample of an event -/

/-- `sample_len` after the check against the array. -/
def EbafCryptoEvent.sampleBytes (event : EbafCryptoEvent) : List UInt8 :=
  event.sample.1.take (min event.sampleLen.toNat ebafEventSampleBytes)

/-- `format_sample_hex` -/
def formatSampleHex (event : EbafCryptoEvent) : CString := hexText event.sampleBytes

theorem EbafCryptoEvent.sampleBytes_length (event : EbafCryptoEvent) :
    event.sampleBytes.length = min event.sampleLen.toNat ebafEventSampleBytes := by
  rw [sampleBytes, List.length_take, event.sample.2]
  exact Nat.min_eq_left (Nat.min_le_right ..)

/-- **Reading and writing are inverse**: a key is accepted exactly when it is the
right number of digits, and its bytes are written again in lower case; the sample
of an event is written with two digits for each byte and read back as it was. -/
theorem hex_inverse :
    (∀ (hex : CString) (n : Nat),
      ((∃ bytes, ebafParseHexKey hex n = some bytes) ↔
        hex.length = 2 * n ∧ ∀ c ∈ hex, IsHexDigit c) ∧
      ∀ bytes, ebafParseHexKey hex n = some bytes → hexText bytes = hex.map toLower) ∧
    ∀ event : EbafCryptoEvent,
      (formatSampleHex event).length = 2 * min event.sampleLen.toNat ebafEventSampleBytes ∧
      ebafParseHexKey (formatSampleHex event)
          (min event.sampleLen.toNat ebafEventSampleBytes) =
        some (event.sample.1.take (min event.sampleLen.toNat ebafEventSampleBytes)) := by
  constructor
  · intro hex n
    exact ⟨ebafParseHexKey_isSome_iff hex n, fun bytes h => hexText_of_ebafParseHexKey h⟩
  · intro event
    have hlen := event.sampleBytes_length
    constructor
    · rw [formatSampleHex, hexText_length, hlen]
    · have hread := ebafParseHexKey_hexText event.sampleBytes
      rwa [hlen] at hread

end Ebaf
