import Mathlib.Data.List.Basic

/-! # UTF-8, with replacement characters

`encode` writes a text as UTF-8.  `decodeReplace` reads bytes as text and puts a
replacement character for what is not UTF-8: one for each longest start of a
character.  What was written is read back.
-/
namespace Utf8Text

/-- `s.encode("utf-8")` -/
def encode (s : String) : List UInt8 := s.toList.flatMap String.utf8EncodeChar

/-- The second bytes that may follow a first one. -/
def follows (first second : UInt8) : Bool :=
  if first = 0xE0 then 0xA0 ≤ second && second ≤ 0xBF
  else if first = 0xED then 0x80 ≤ second && second ≤ 0x9F
  else if first = 0xF0 then 0x90 ≤ second && second ≤ 0xBF
  else if first = 0xF4 then 0x80 ≤ second && second ≤ 0x8F
  else 0x80 ≤ second && second ≤ 0xBF

/-- How many bytes are replaced together, where no character starts. -/
def badLength : List UInt8 → Nat
  | first :: second :: rest =>
    if (0xE0 ≤ first && first ≤ 0xF4) && follows first second then
      match rest with
      | third :: _ => if 0xF0 ≤ first && (0x80 ≤ third && third ≤ 0xBF) then 3 else 2
      | [] => 2
    else 1
  | _ => 1

/-- The character at the start. -/
def first? (bytes : List UInt8) : Option Char := bytes.toByteArray.utf8DecodeChar? 0

/-- `bytes.decode("utf-8", errors="replace")`, for at most `n` characters -/
def decodeFrom : Nat → List UInt8 → List Char
  | _, [] => []
  | 0, _ :: _ => []
  | n + 1, bytes@(_ :: _) =>
    match first? bytes with
    | some c => c :: decodeFrom n (bytes.drop c.utf8Size)
    | none => Char.ofNat 0xFFFD :: decodeFrom n (bytes.drop (badLength bytes))

/-- `bytes.decode("utf-8", errors="replace")` -/
def decodeReplace (bytes : List UInt8) : String := String.ofList (decodeFrom bytes.length bytes)

/-! ## Reading back -/

theorem first?_encoded (c : Char) (rest : List UInt8) :
    first? (String.utf8EncodeChar c ++ rest) = some c := by
  rw [first?, List.toByteArray_append]
  exact ByteArray.utf8DecodeChar?_utf8EncodeChar_append

theorem decodeFrom_encoded (chars : List Char) {n : Nat} (h : chars.length ≤ n) :
    decodeFrom n (chars.flatMap String.utf8EncodeChar) = chars := by
  induction chars generalizing n with
  | nil => rw [List.flatMap_nil, decodeFrom]
  | cons c chars ih =>
    obtain ⟨n, rfl⟩ := Nat.exists_eq_succ_of_ne_zero (Nat.ne_of_gt (Nat.lt_of_lt_of_le
      (Nat.succ_pos _) h))
    have hlen : (String.utf8EncodeChar c).length = c.utf8Size := String.length_utf8EncodeChar c
    have hfirst := first?_encoded c (chars.flatMap String.utf8EncodeChar)
    rw [List.flatMap_cons]
    cases hbytes : String.utf8EncodeChar c ++ chars.flatMap String.utf8EncodeChar with
    | nil =>
      have hpos := c.utf8Size_pos
      have := congrArg List.length hbytes
      simp only [List.length_append, hlen, List.length_nil] at this
      omega
    | cons b bytes =>
      rw [hbytes] at hfirst
      rw [decodeFrom, hfirst, ← hbytes]
      dsimp only
      rw [List.drop_left' hlen]
      exact congrArg (c :: ·) (ih (Nat.le_of_succ_le_succ h))

theorem length_le_encode (chars : List Char) :
    chars.length ≤ (chars.flatMap String.utf8EncodeChar).length := by
  induction chars with
  | nil => exact Nat.le_refl _
  | cons c chars ih =>
    have hlen : (String.utf8EncodeChar c).length = c.utf8Size := String.length_utf8EncodeChar c
    have hpos := c.utf8Size_pos
    rw [List.flatMap_cons, List.length_append, List.length_cons]
    omega

/-- **What is encoded is decoded.** -/
theorem decodeReplace_encode (s : String) : decodeReplace (encode s) = s := by
  rw [decodeReplace, encode, decodeFrom_encoded _ (length_le_encode _), String.ofList_toList]

/-- A character cut off in the middle is replaced by one character, a stray byte by one each. -/
example : decodeFrom 4 [0x41, 0xE2, 0x82, 0xFF] =
    ['A', Char.ofNat 0xFFFD, Char.ofNat 0xFFFD] := by rfl

end Utf8Text
