import Mathlib.Data.List.TakeWhile
import Ebaf.NumberText

/-! # JSON texts

Values, how they are read from a text and how they are written.  A text is read the
way a recursive scanner does it: white space is skipped between the parts, a
number is as long as it can be, and what follows the value must be white space.
The reader is given a bound on the nesting; a text's length is one.
-/
namespace JsonText
open CStrings

/-- A value.  A number with a fraction or an exponent is kept as it is written; of
two members of an object with one name the last counts. -/
inductive Value where
  | null
  | bool (b : Bool)
  | int (n : Int)
  | float (text : CString)
  | str (s : CString)
  | arr (items : List Value)
  | obj (members : List (CString × Value))

/-! ## Reading -/

/-- White space between the parts of a text. -/
def isBlank (b : UInt8) : Bool := b == 32 || b == 9 || b == 10 || b == 13

def skip (s : CString) : CString := s.dropWhile isBlank

/-- A word, and the value it stands for. -/
def keywords : List (CString × Value) :=
  [(lit "null", .null), (lit "true", .bool true), (lit "false", .bool false),
    (lit "NaN", .float (lit "NaN")), (lit "Infinity", .float (lit "Infinity")),
    (lit "-Infinity", .float (lit "-Infinity"))]

def readKeyword (s : CString) : Option (Value × CString) :=
  keywords.findSome? fun (word, v) =>
    if word.isPrefixOf s then some (v, s.drop word.length) else none

/-- A point and digits, if both are there. -/
def takeFraction : CString → CString × CString
  | [] => ([], [])
  | b :: s =>
    let digits := s.takeWhile fun d => IsDigit d
    if b = 46 ∧ digits ≠ [] then (b :: digits, s.dropWhile fun d => IsDigit d) else ([], b :: s)

/-- An exponent, if it has digits. -/
def takeExponent : CString → CString × CString
  | [] => ([], [])
  | b :: s =>
    let sign := (s.take 1).filter fun c => c = 43 ∨ c = 45
    let digits := (s.drop sign.length).takeWhile fun d => IsDigit d
    if (b = 101 ∨ b = 69) ∧ digits ≠ [] then
      (b :: (sign ++ digits), (s.drop sign.length).dropWhile fun d => IsDigit d)
    else ([], b :: s)

/-- The digits in front of the point; nothing follows a zero. -/
def takeInteger : CString → CString × CString
  | [] => ([], [])
  | b :: s =>
    if b = 48 then ([b], s)
    else ((b :: s).takeWhile fun d => IsDigit d, (b :: s).dropWhile fun d => IsDigit d)

def readNumber (s : CString) : Option (Value × CString) :=
  let minus := (s.take 1).filter fun c => c = 45
  let (digits, afterDigits) := takeInteger (s.drop minus.length)
  let (fraction, afterFraction) := takeFraction afterDigits
  let (exponent, rest) := takeExponent afterFraction
  if digits = [] then none
  else if fraction ++ exponent ≠ [] then
    some (.float (minus ++ (digits ++ (fraction ++ exponent))), rest)
  else some (.int (if minus = [] then digitsValue digits else -digitsValue digits), rest)

/-- A character of a string: a byte of the text, or the code of an escape. -/
inductive Piece where
  | byte (b : UInt8)
  | code (n : Nat)
  deriving DecidableEq

/-- The value of a hexadecimal digit of either case. -/
def hexCode (b : UInt8) : Option Nat :=
  if 48 ≤ b ∧ b ≤ 57 then some (b.toNat - 48)
  else if 97 ≤ b ∧ b ≤ 102 then some (b.toNat - 87)
  else if 65 ≤ b ∧ b ≤ 70 then some (b.toNat - 55)
  else none

def hexCode4 (a b c d : UInt8) : Option Nat := do
  let a ← hexCode a
  let b ← hexCode b
  let c ← hexCode c
  let d ← hexCode d
  pure (((a * 16 + b) * 16 + c) * 16 + d)

/-- The character behind a backslash, for the escapes of one letter. -/
def unescape (b : UInt8) : Option UInt8 :=
  if b = 34 ∨ b = 92 ∨ b = 47 then some b
  else if b = 98 then some 8
  else if b = 102 then some 12
  else if b = 110 then some 10
  else if b = 114 then some 13
  else if b = 116 then some 9
  else none

/-- The characters up to the closing quote, and what follows it.  Control characters
are refused. -/
def scan : CString → Option (List Piece × CString)
  | [] => none
  | b :: s =>
    if b = 34 then some ([], s)
    else if b = 92 then
      match s with
      | [] => none
      | e :: s =>
        if e = 117 then
          match s with
          | h1 :: h2 :: h3 :: h4 :: s =>
            (hexCode4 h1 h2 h3 h4).bind fun n =>
              (scan s).map fun (pieces, rest) => (.code n :: pieces, rest)
          | _ => none
        else
          (unescape e).bind fun c => (scan s).map fun (pieces, rest) => (.byte c :: pieces, rest)
    else if b < 32 then none
    else (scan s).map fun (pieces, rest) => (.byte b :: pieces, rest)

/-- A code as UTF-8. -/
def utf8 (n : Nat) : CString :=
  if n < 128 then [UInt8.ofNat n]
  else if n < 2048 then [UInt8.ofNat (192 + n / 64), UInt8.ofNat (128 + n % 64)]
  else if n < 65536 then
    [UInt8.ofNat (224 + n / 4096), UInt8.ofNat (128 + n / 64 % 64), UInt8.ofNat (128 + n % 64)]
  else
    [UInt8.ofNat (240 + n / 262144), UInt8.ofNat (128 + n / 4096 % 64),
      UInt8.ofNat (128 + n / 64 % 64), UInt8.ofNat (128 + n % 64)]

/-- The text of the characters; the two halves of a surrogate pair are one. -/
def text : List Piece → CString
  | [] => []
  | .byte b :: pieces => b :: text pieces
  | .code n :: pieces =>
    match pieces with
    | .code m :: pieces' =>
      if 0xD800 ≤ n ∧ n < 0xDC00 ∧ 0xDC00 ≤ m ∧ m < 0xE000 then
        utf8 (0x10000 + (n - 0xD800) * 1024 + (m - 0xDC00)) ++ text pieces'
      else utf8 n ++ text (.code m :: pieces')
    | pieces => utf8 n ++ text pieces

/-- A string, behind its opening quote. -/
def readString (s : CString) : Option (CString × CString) :=
  (scan s).map fun (pieces, rest) => (text pieces, rest)

section Lists
variable {α : Type}

/-- Items with commas between them, up to the closing bracket; the bound is on their
number. -/
def readList (item : CString → Option (α × CString)) (close : UInt8) :
    Nat → CString → Option (List α × CString)
  | 0, _ => none
  | n + 1, s =>
    (item s).bind fun (x, s) =>
      match skip s with
      | [] => none
      | b :: s =>
        if b = close then some ([x], s)
        else if b = 44 then
          (readList item close n (skip s)).map fun (xs, rest) => (x :: xs, rest)
        else none

/-- What stands between brackets, behind the opening one. -/
def readBracketed (item : CString → Option (α × CString)) (close : UInt8) (s : CString) :
    Option (List α × CString) :=
  match skip s with
  | [] => none
  | b :: t => if b = close then some ([], t) else readList item close (t.length + 1) (b :: t)

/-- A name, a colon and a value. -/
def readMember (value : CString → Option (α × CString)) (s : CString) :
    Option ((CString × α) × CString) :=
  match s with
  | [] => none
  | b :: s =>
    if b = 34 then
      (readString s).bind fun (name, s) =>
        match skip s with
        | [] => none
        | c :: s =>
          if c = 58 then (value (skip s)).map fun (v, rest) => ((name, v), rest) else none
    else none

end Lists

/-- A value nested at most so deep, and what follows it. -/
def readValue : Nat → CString → Option (Value × CString)
  | 0, _ => none
  | _ + 1, [] => none
  | n + 1, b :: s =>
    if b = 34 then (readString s).map fun (u, rest) => (.str u, rest)
    else if b = 123 then
      (readBracketed (readMember (readValue n)) 125 s).map fun (ms, rest) => (.obj ms, rest)
    else if b = 91 then
      (readBracketed (readValue n) 93 s).map fun (vs, rest) => (.arr vs, rest)
    else (readKeyword (b :: s)).or (readNumber (b :: s))

/-- The value a whole text denotes. -/
def parse (s : CString) : Option Value :=
  (readValue (s.length + 1) (skip s)).bind fun (v, rest) =>
    if skip rest = [] then some v else none

/-- The member of an object with this name. -/
def Value.member (name : CString) : Value → Option Value
  | .obj members => (members.findRev? fun m => m.1 = name).map Prod.snd
  | _ => none

end JsonText
