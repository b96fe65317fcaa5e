import Mathlib.Data.List.Basic

/-! # C strings and `strtoul`

A C string is the list of its bytes, without the terminating NUL.  `strtoul`
reads a number in base 10 the way the C library does on a 64-bit machine: it
skips white space, takes an optional sign and as many digits as there are,
negates modulo `2 ^ 64` after a minus sign, and reports a magnitude that does
not fit.
-/
namespace CStrings

abbrev CString := List UInt8

/-- A string literal. -/
def lit (s : String) : CString := s.toList.map fun c => UInt8.ofNat c.toNat

def ulongMax : Nat := 18446744073709551615

/-- `isspace` in the C locale. -/
def isSpace (b : UInt8) : Bool := b == 32 || (9 ≤ b && b ≤ 13)

def digitValue (b : UInt8) : Option Nat :=
  if 48 ≤ b ∧ b ≤ 57 then some (b.toNat - 48) else none

/-- An optional sign: whether it is a minus, and what follows. -/
def takeSign : CString → Bool × CString
  | [] => (false, [])
  | b :: s => if b = 45 then (true, s) else if b = 43 then (false, s) else (false, b :: s)

/-- The longest run of digits, read on from `acc`, and what follows. -/
def takeDigits (acc : Nat) : CString → Nat × CString
  | [] => (acc, [])
  | b :: s =>
    match digitValue b with
    | some d => takeDigits (acc * 10 + d) s
    | none => (acc, b :: s)

/-- What `strtoul` leaves: the number, the end pointer as the rest of the text,
and `errno == ERANGE`. -/
structure Strtoul where
  value : Nat
  rest : CString
  erange : Bool
  deriving DecidableEq

/-- `strtoul(text, &end, 10)`: without a digit nothing is converted, and `end`
is `text`. -/
def strtoul (text : CString) : Strtoul :=
  let (negative, digits) := takeSign (text.dropWhile isSpace)
  let (magnitude, rest) := takeDigits 0 digits
  if rest.length = digits.length then ⟨0, text, false⟩
  else if ulongMax < magnitude then ⟨ulongMax, rest, true⟩
  else ⟨if negative then (ulongMax + 1 - magnitude) % (ulongMax + 1) else magnitude, rest, false⟩

end CStrings
