import Mathlib.Data.List.Forall2
import Ebaf.JsonText

/-! # JSON texts read back

`write` is the writer of JSON: it escapes what a string cannot hold and puts commas
and colons between the parts, with the white space its layout asks for.  What is
written without a fraction or an exponent is read back as it was.
-/
namespace JsonText
open CStrings

/-! ## Writing -/

/-- The white space behind commas and behind colons. -/
structure Layout where
  comma : CString
  colon : CString
  comma_blank : ∀ b ∈ comma, isBlank b = true
  colon_blank : ∀ b ∈ colon, isBlank b = true

/-- No white space. -/
def Layout.compact : Layout := ⟨[], [], by simp, by simp⟩

/-- A space behind each. -/
def Layout.spaced : Layout := ⟨[32], [32], List.forall_mem_singleton.mpr rfl, List.forall_mem_singleton.mpr rfl⟩

/-- A digit of a `\u` escape. -/
def hexChar (d : Nat) : UInt8 := UInt8.ofNat (if d < 10 then 48 + d else 87 + d)

/-- What stands for a byte between quotes. -/
def escaped (b : UInt8) : CString :=
  if b = 34 ∨ b = 92 then [92, b]
  else if b = 8 then [92, 98]
  else if b = 12 then [92, 102]
  else if b = 10 then [92, 110]
  else if b = 13 then [92, 114]
  else if b = 9 then [92, 116]
  else if b < 32 ∨ b = 127 then
    [92, 117, 48, 48, hexChar (b.toNat / 16), hexChar (b.toNat % 16)]
  else [b]

def quote (s : CString) : CString := 34 :: (s.flatMap escaped ++ [34])

def writeInt (n : Int) : CString :=
  if n < 0 then 45 :: decimal n.natAbs else decimal n.natAbs

/-- The parts with commas between them. -/
def join (l : Layout) (parts : List CString) : CString := (44 :: l.comma).intercalate parts

mutual

/-- The text of a value. -/
def write (l : Layout) : Value → CString
  | .null => lit "null"
  | .bool b => if b then lit "true" else lit "false"
  | .int n => writeInt n
  | .float text => text
  | .str s => quote s
  | .arr items => 91 :: (join l (writeItems l items) ++ [93])
  | .obj members => 123 :: (join l (writeMembers l members) ++ [125])

def writeItems (l : Layout) : List Value → List CString
  | [] => []
  | v :: vs => write l v :: writeItems l vs

def writeMembers (l : Layout) : List (CString × Value) → List CString
  | [] => []
  | (name, v) :: ms => (quote name ++ (58 :: (l.colon ++ write l v))) :: writeMembers l ms

end

mutual

/-- There is no number with a fraction or an exponent in the value. -/
def Whole : Value → Prop
  | .float _ => False
  | .arr items => WholeItems items
  | .obj members => WholeMembers members
  | _ => True

def WholeItems : List Value → Prop
  | [] => True
  | v :: vs => Whole v ∧ WholeItems vs

def WholeMembers : List (CString × Value) → Prop
  | [] => True
  | (_, v) :: ms => Whole v ∧ WholeMembers ms

end

mutual

/-- How deep a value is nested. -/
def depth : Value → Nat
  | .arr items => depthItems items + 1
  | .obj members => depthMembers members + 1
  | _ => 1

def depthItems : List Value → Nat
  | [] => 0
  | v :: vs => max (depth v) (depthItems vs)

def depthMembers : List (CString × Value) → Nat
  | [] => 0
  | (_, v) :: ms => max (depth v) (depthMembers ms)

end

/-! ## White space -/

variable {b : UInt8} {s rest blank : CString} {l : Layout}

theorem skip_append (h : ∀ b ∈ blank, isBlank b = true) (s : CString) :
    skip (blank ++ s) = skip s :=
  List.dropWhile_append_of_pos h

theorem skip_cons (h : isBlank b = false) (s : CString) : skip (b :: s) = b :: s :=
  List.dropWhile_cons_of_neg (by rw [h]; exact Bool.false_ne_true)

/-- What may follow a value: its end can be told. -/
def Ends (rest : CString) : Prop :=
  ∀ b ∈ rest.head?, b = 44 ∨ b = 93 ∨ b = 125 ∨ isBlank b = true

theorem Ends.not_digit (h : Ends rest) : ∀ b ∈ rest.head?, ¬ IsDigit b ∧ b ≠ 46 ∧ b ≠ 101 ∧ b ≠ 69 := by
  intro b hb
  rcases h b hb with rfl | rfl | rfl | hblank
  · decide
  · decide
  · decide
  · simp only [isBlank, Bool.or_eq_true, beq_iff_eq, or_assoc] at hblank
    rcases hblank with rfl | rfl | rfl | rfl <;> decide

/-! ## Numbers -/

/-- A positive number does not begin with a zero. -/
theorem head?_decimal {n : Nat} (hn : n ≠ 0) : ∀ b ∈ (decimal n).head?, b ≠ 48 := by
  induction n using Nat.strongRecOn with
  | ind n ih =>
    by_cases h : n < 10
    · rw [decimal_of_lt h]
      intro b hb
      obtain rfl := Option.some.inj hb
      intro hzero
      have := toNat_digit h
      rw [hzero] at this
      have : (48 : Nat) = 48 + n := this
      omega
    · rw [decimal_of_ge (Nat.not_lt.mp h)]
      intro b hb
      have hne : decimal (n / 10) ≠ [] := decimal_ne_nil _
      rw [List.head?_append_of_ne_nil _ hne] at hb
      exact ih (n / 10) (by omega) (by omega) b hb

/-- A number is read as long as it is. -/
theorem takeInteger_decimal (n : Nat) (h : ∀ b ∈ rest.head?, ¬ IsDigit b) :
    takeInteger (decimal n ++ rest) = (decimal n, rest) := by
  have hdigits : ∀ b ∈ decimal n, decide (IsDigit b) = true :=
    fun b hb => decide_eq_true (isDigit_decimal n b hb)
  have hstop : rest.takeWhile (fun d => IsDigit d) = [] ∧
      rest.dropWhile (fun d => IsDigit d) = rest := by
    cases rest with
    | nil => exact ⟨rfl, rfl⟩
    | cons b rest =>
      have hb : ¬ decide (IsDigit b) = true := by simpa using h b rfl
      exact ⟨List.takeWhile_cons_of_neg hb, List.dropWhile_cons_of_neg hb⟩
  obtain ⟨b, digits, hb⟩ := List.exists_cons_of_ne_nil (decimal_ne_nil n)
  by_cases hzero : b = 48
  · have hn : n = 0 := by
      by_contra hn
      refine head?_decimal hn b ?_ hzero
      rw [hb]
      rfl
    subst hn
    rfl
  · have htake : (decimal n ++ rest).takeWhile (fun d => IsDigit d) = decimal n := by
      rw [List.takeWhile_append_of_pos hdigits, hstop.1, List.append_nil]
    have hdrop : (decimal n ++ rest).dropWhile (fun d => IsDigit d) = rest := by
      rw [List.dropWhile_append_of_pos hdigits, hstop.2]
    rw [hb, List.cons_append] at htake hdrop
    rw [hb, List.cons_append, takeInteger, if_neg hzero, htake, hdrop]

theorem takeFraction_of_ends (h : Ends rest) : takeFraction rest = ([], rest) := by
  cases rest with
  | nil => rfl
  | cons b rest =>
    have hb := (h.not_digit b rfl).2.1
    rw [takeFraction, if_neg fun hpoint => hb hpoint.1]

theorem takeExponent_of_ends (h : Ends rest) : takeExponent rest = ([], rest) := by
  cases rest with
  | nil => rfl
  | cons b rest =>
    have hb := (h.not_digit b rfl).2.2
    rw [takeExponent, if_neg]
    rintro ⟨hletter | hletter, -⟩
    · exact hb.1 hletter
    · exact hb.2 hletter

/-- **A whole number is read back.** -/
theorem readNumber_writeInt (n : Int) (h : Ends rest) :
    readNumber (writeInt n ++ rest) = some (.int n, rest) := by
  obtain ⟨b, digits, hb⟩ := List.exists_cons_of_ne_nil (decimal_ne_nil n.natAbs)
  have hdigit : IsDigit b := isDigit_decimal n.natAbs b (by rw [hb]; exact List.mem_cons_self)
  have hinteger := takeInteger_decimal n.natAbs fun b hb => (h.not_digit b hb).1
  rw [writeInt]
  split
  · rename_i hneg
    have hvalue : -(n.natAbs : Int) = n := by omega
    have hsign : ((45 :: decimal n.natAbs ++ rest).take 1).filter (fun c => decide (c = 45)) =
        [45] := by
      rfl
    have hrest : (45 :: decimal n.natAbs ++ rest).drop 1 = decimal n.natAbs ++ rest := rfl
    simp only [readNumber, hsign, List.length_singleton, hrest, hinteger, takeFraction_of_ends h,
      takeExponent_of_ends h, decimal_ne_nil, digitsValue_decimal, hvalue, if_false, List.append_nil,
      ne_eq, not_true_eq_false, List.cons_ne_nil]
  · rename_i hneg
    have hvalue : (n.natAbs : Int) = n := by omega
    have hminus : ¬ b = 45 := by
      rintro rfl
      exact absurd hdigit (by decide)
    have hsign : ((decimal n.natAbs ++ rest).take 1).filter (fun c => decide (c = 45)) = [] := by
      rw [hb]
      simp [hminus]
    simp only [readNumber, hsign, List.length_nil, List.drop_zero, hinteger,
      takeFraction_of_ends h, takeExponent_of_ends h, decimal_ne_nil, digitsValue_decimal, hvalue,
      if_false, List.append_nil, ne_eq, not_true_eq_false, if_true]

/-- A number begins with no keyword. -/
theorem readKeyword_writeInt (n : Int) : readKeyword (writeInt n ++ rest) = none := by
  obtain ⟨b, digits, hb⟩ := List.exists_cons_of_ne_nil (decimal_ne_nil n.natAbs)
  have hdigit : IsDigit b := isDigit_decimal n.natAbs b (by rw [hb]; exact List.mem_cons_self)
  have hne : ∀ c : UInt8, ¬ IsDigit c → (c == b) = false := by
    rintro c hc
    rw [beq_eq_false_iff_ne]
    rintro rfl
    exact hc hdigit
  have hn := hne 110 (by decide)
  have ht := hne 116 (by decide)
  have hf := hne 102 (by decide)
  have hN := hne 78 (by decide)
  have hI := hne 73 (by decide)
  have hminus := hne 45 (by decide)
  have hwords : keywords.map Prod.fst = [[110, 117, 108, 108], [116, 114, 117, 101],
      [102, 97, 108, 115, 101], [78, 97, 78], [73, 110, 102, 105, 110, 105, 116, 121],
      [45, 73, 110, 102, 105, 110, 105, 116, 121]] := by decide
  have hnone : ∀ word ∈ keywords.map Prod.fst, word.isPrefixOf (writeInt n ++ rest) = false := by
    rw [hwords, writeInt]
    split <;> simp [hb, List.isPrefixOf, hn, ht, hf, hN, hI, hminus]
  rw [readKeyword, List.findSome?_eq_none_iff]
  rintro ⟨word, v⟩ hmem
  simp [hnone word (List.mem_map_of_mem hmem)]

/-! ## Strings -/

theorem hexCode_hexChar : ∀ d < 16, hexCode (hexChar d) = some d := by decide

/-- A code below 128 is a byte. -/
theorem utf8_toNat (h : b.toNat < 128) : utf8 b.toNat = [b] := by
  rw [utf8, if_pos h, UInt8.ofNat_toNat]

/-- What the scanner makes of a written byte. -/
def piece (b : UInt8) : Piece :=
  if b ∉ [34, 92, 8, 12, 10, 13, 9] ∧ (b < 32 ∨ b = 127) then .code b.toNat else .byte b

theorem scan_byte (h34 : b ≠ 34) (h92 : b ≠ 92) (hlow : ¬ b < 32) :
    scan (b :: s) = (scan s).map fun (pieces, rest) => (.byte b :: pieces, rest) := by
  rw [scan.eq_def]
  dsimp only
  rw [if_neg h34, if_neg h92, if_neg hlow]

theorem scan_unescape {e c : UInt8} (he : e ≠ 117) (hc : unescape e = some c) :
    scan (92 :: e :: s) = (scan s).map fun (pieces, rest) => (.byte c :: pieces, rest) := by
  rw [scan.eq_def]
  dsimp only
  rw [if_neg (by decide), if_pos rfl, if_neg he, hc, Option.bind_some]

/-- **A written byte is read back**, with what follows it. -/
theorem scan_escaped (b : UInt8) (s : CString) :
    scan (escaped b ++ s) = (scan s).map fun (pieces, rest) => (piece b :: pieces, rest) := by
  by_cases hquote : b = 34 ∨ b = 92
  · have hbyte : piece b = .byte b := if_neg fun h => h.1 (by
      rcases hquote with rfl | rfl <;> decide)
    rw [escaped, if_pos hquote, hbyte]
    exact scan_unescape (by rcases hquote with rfl | rfl <;> decide)
      (by rcases hquote with rfl | rfl <;> rfl)
  rw [escaped, if_neg hquote]
  obtain ⟨h34, h92⟩ := not_or.mp hquote
  by_cases h8 : b = 8
  · subst h8
    exact scan_unescape (by decide) rfl
  by_cases h12 : b = 12
  · subst h12
    exact scan_unescape (by decide) rfl
  by_cases h10 : b = 10
  · subst h10
    exact scan_unescape (by decide) rfl
  by_cases h13 : b = 13
  · subst h13
    exact scan_unescape (by decide) rfl
  by_cases h9 : b = 9
  · subst h9
    exact scan_unescape (by decide) rfl
  rw [if_neg h8, if_neg h12, if_neg h10, if_neg h13, if_neg h9]
  by_cases hcode : b < 32 ∨ b = 127
  · have hpiece : piece b = .code b.toNat := if_pos ⟨by simp [*], hcode⟩
    have hhigh : hexCode (hexChar (b.toNat / 16)) = some (b.toNat / 16) :=
      hexCode_hexChar _ (by have := b.toNat_lt; omega)
    have hlow : hexCode (hexChar (b.toNat % 16)) = some (b.toNat % 16) :=
      hexCode_hexChar _ (Nat.mod_lt _ (by decide))
    have hzero : hexCode 48 = some 0 := rfl
    have hvalue : ((0 * 16 + 0) * 16 + b.toNat / 16) * 16 + b.toNat % 16 = b.toNat := by omega
    have hfour : hexCode4 48 48 (hexChar (b.toNat / 16)) (hexChar (b.toNat % 16)) =
        some b.toNat := by
      simp only [hexCode4, hzero, hhigh, hlow, Option.bind_eq_bind, Option.bind_some, hvalue]
      rfl
    rw [if_pos hcode, hpiece]
    show scan (92 :: 117 :: 48 :: 48 :: hexChar (b.toNat / 16) :: hexChar (b.toNat % 16) :: s) = _
    rw [scan.eq_def]
    dsimp only
    rw [if_neg (by decide), if_pos rfl, if_pos rfl, hfour, Option.bind_some]
  · have hpiece : piece b = .byte b := if_neg fun h => hcode h.2
    rw [if_neg hcode, hpiece]
    exact scan_byte h34 h92 fun h => hcode (Or.inl h)

theorem scan_quote (s : CString) : scan (34 :: s) = some ([], s) := by
  rw [scan.eq_def]
  rfl

theorem scan_escapedAll (s rest : CString) :
    scan (s.flatMap escaped ++ 34 :: rest) = some (s.map piece, rest) := by
  induction s with
  | nil => exact scan_quote rest
  | cons b s ih => rw [List.flatMap_cons, List.append_assoc, scan_escaped, ih, List.map_cons,
      Option.map_some]

/-- No code among them is half of a surrogate pair. -/
theorem text_piece (b : UInt8) (s : CString) : text ((b :: s).map piece) = b :: text (s.map piece) := by
  rw [List.map_cons, piece]
  split
  · rename_i h
    have hsmall : b.toNat < 128 := by
      rcases h.2 with h | rfl
      · have := UInt8.lt_iff_toNat_lt.mp h
        exact Nat.lt_trans this (by decide)
      · decide
    have hpair : ∀ m, ¬ (0xD800 ≤ b.toNat ∧ b.toNat < 0xDC00 ∧ 0xDC00 ≤ m ∧ m < 0xE000) :=
      fun m hm => by omega
    rw [text.eq_def]
    dsimp only
    split
    · rename_i heq
      rw [if_neg (hpair _), utf8_toNat hsmall, List.singleton_append, heq]
    · rw [utf8_toNat hsmall, List.singleton_append]
  · rw [text]

theorem text_pieces (s : CString) : text (s.map piece) = s := by
  induction s with
  | nil => rfl
  | cons b s ih => rw [text_piece, ih]

/-- **A written string is read back.** -/
theorem readString_escaped (s rest : CString) :
    readString (s.flatMap escaped ++ 34 :: rest) = some (s, rest) := by
  rw [readString, scan_escapedAll, Option.map_some]
  dsimp only
  rw [text_pieces]

/-! ## Lists -/

/-- What is written of an item is read back, with whatever follows it. -/
structure Reads {α : Type} (item : CString → Option (α × CString)) (part : CString) (x : α) : Prop where
  begins : ∃ b t, part = b :: t ∧ isBlank b = false ∧ b ≠ 93 ∧ b ≠ 125
  read : ∀ rest, Ends rest → item (part ++ rest) = some (x, rest)

section Lists
variable {α : Type} {item : CString → Option (α × CString)} {close : UInt8}
  {parts : List CString} {xs : List α}

/-- A part behind white space. -/
theorem Reads.skip_append {part : CString} {x : α} (h : Reads item part x)
    (hblank : ∀ b ∈ blank, isBlank b = true) : skip (blank ++ (part ++ rest)) = part ++ rest := by
  obtain ⟨b, t, rfl, hb, -, -⟩ := h.begins
  rw [JsonText.skip_append hblank, List.cons_append, skip_cons hb]

theorem ends_cons (h : b = 44 ∨ b = 93 ∨ b = 125) : Ends (b :: rest) := by
  intro c hc
  obtain rfl := Option.some.inj hc
  rcases h with h | h | h
  · exact Or.inl h
  · exact Or.inr (Or.inl h)
  · exact Or.inr (Or.inr (Or.inl h))

theorem exists_join (l : Layout) (part : CString) (parts : List CString) :
    ∃ more, join l (part :: parts) = part ++ more := by
  cases parts with
  | nil => exact ⟨[], by rw [join, List.intercalate_singleton, List.append_nil]⟩
  | cons part' parts => exact ⟨_, by rw [join, List.intercalate_cons_cons, List.append_assoc]⟩

/-- There is a comma in front of every part but the first. -/
theorem length_join_le (l : Layout) (part : CString) (parts : List CString) :
    part.length + parts.length ≤ (join l (part :: parts)).length := by
  induction parts generalizing part with
  | nil => rw [join, List.intercalate_singleton]; exact Nat.le_refl _
  | cons part' parts ih =>
    have hrest := ih part'
    rw [join] at hrest ⊢
    rw [List.intercalate_cons_cons, List.length_append, List.length_append, List.length_cons,
      List.length_cons]
    omega

/-- **A list is read back**: item by item, each ends at the comma or bracket behind it. -/
theorem readList_join (hclose : close = 93 ∨ close = 125) (h : List.Forall₂ (Reads item) parts xs)
    (hne : parts ≠ []) {n : Nat} (hn : parts.length ≤ n) :
    readList item close n (join l parts ++ close :: rest) = some (xs, rest) := by
  have hblank : isBlank close = false := by rcases hclose with rfl | rfl <;> rfl
  have hcomma : close ≠ 44 := by rcases hclose with rfl | rfl <;> decide
  induction h generalizing n with
  | nil => exact absurd rfl hne
  | @cons part x parts xs hpart hparts ih =>
    obtain ⟨n, rfl⟩ := Nat.exists_eq_succ_of_ne_zero (show n ≠ 0 from fun h0 => by simp [h0] at hn)
    cases hparts with
    | nil =>
      have hends : Ends (close :: rest) := ends_cons (Or.inr hclose)
      rw [join, List.intercalate_singleton, readList, hpart.read _ hends, Option.bind_some]
      dsimp only
      rw [skip_cons hblank]
      dsimp only
      rw [if_pos rfl]
    | @cons part' y parts xs hpart' hparts =>
      have hnext : readList item close n (join l (part' :: parts) ++ close :: rest) =
          some (y :: xs, rest) :=
        ih (List.cons_ne_nil _ _) (by simpa using hn)
      have hskip : skip (l.comma ++ (join l (part' :: parts) ++ close :: rest)) =
          join l (part' :: parts) ++ close :: rest := by
        obtain ⟨more, hmore⟩ := exists_join l part' parts
        rw [hmore, List.append_assoc]
        exact hpart'.skip_append l.comma_blank
      have hjoin : join l (part :: part' :: parts) ++ close :: rest =
          part ++ 44 :: (l.comma ++ (join l (part' :: parts) ++ close :: rest)) := by
        rw [join, List.intercalate_cons_cons, join]
        simp only [List.append_assoc, List.cons_append]
      rw [hjoin, readList, hpart.read _ (ends_cons (Or.inl rfl)), Option.bind_some]
      dsimp only
      rw [skip_cons (show isBlank 44 = false from rfl)]
      dsimp only
      rw [if_neg hcomma.symm, if_pos rfl, hskip, hnext, Option.map_some]

/-- What stands between brackets is read back. -/
theorem readBracketed_join (hclose : close = 93 ∨ close = 125)
    (h : List.Forall₂ (Reads item) parts xs) :
    readBracketed item close (join l parts ++ close :: rest) = some (xs, rest) := by
  have hblank : isBlank close = false := by rcases hclose with rfl | rfl <;> rfl
  cases h with
  | nil =>
    rw [join, List.intercalate_nil, List.nil_append, readBracketed, skip_cons hblank]
    exact if_pos rfl
  | @cons part x parts xs hpart hparts =>
    obtain ⟨b, t, rfl, hb, h93, h125⟩ := hpart.begins
    obtain ⟨more, hmore⟩ := exists_join l (b :: t) parts
    have hne : b ≠ close := by
      rintro rfl
      rcases hclose with h | h
      · exact h93 h
      · exact h125 h
    have hlen := length_join_le l (b :: t) parts
    have hlist : readList item close ((t ++ more ++ close :: rest).length + 1)
        (join l ((b :: t) :: parts) ++ close :: rest) = some (x :: xs, rest) :=
      readList_join hclose (List.Forall₂.cons hpart hparts) (List.cons_ne_nil _ _) (by
        rw [hmore] at hlen
        simp only [List.length_append, List.length_cons] at hlen ⊢
        omega)
    rw [hmore, List.cons_append, List.cons_append] at hlist ⊢
    rw [readBracketed, skip_cons hb]
    dsimp only
    rw [if_neg hne]
    exact hlist

end Lists

/-! ## Values -/

/-- A name and its value. -/
theorem reads_member {value : CString → Option (Value × CString)} {part name : CString} {v : Value}
    (h : Reads value part v) :
    Reads (readMember value) (quote name ++ 58 :: (l.colon ++ part)) (name, v) := by
  refine ⟨⟨34, _, rfl, rfl, by decide, by decide⟩, fun rest hrest => ?_⟩
  have htext : quote name ++ 58 :: (l.colon ++ part) ++ rest =
      34 :: (name.flatMap escaped ++ 34 :: (58 :: (l.colon ++ (part ++ rest)))) := by
    simp only [quote, List.append_assoc, List.cons_append, List.nil_append]
  rw [htext, readMember]
  dsimp only
  rw [if_pos rfl, readString_escaped, Option.bind_some]
  dsimp only
  rw [skip_cons (show isBlank 58 = false from rfl)]
  dsimp only
  rw [if_pos rfl, h.skip_append l.colon_blank, h.read rest hrest, Option.map_some]

/-- A keyword, whatever follows it. -/
theorem readKeyword_of_mem {word : CString} {v : Value}
    (h : (word, v) ∈ keywords.take 3) (rest : CString) :
    readKeyword (word ++ rest) = some (v, rest) := by
  simp only [keywords, List.take, List.mem_cons, List.not_mem_nil, or_false, Prod.mk.injEq] at h
  rcases h with ⟨rfl, rfl⟩ | ⟨rfl, rfl⟩ | ⟨rfl, rfl⟩ <;> rfl

theorem reads_keyword {word : CString} {v : Value} {n : Nat} (h : (word, v) ∈ keywords.take 3) :
    Reads (readValue (n + 1)) word v := by
  have hhead : ∃ b t, word = b :: t ∧ isBlank b = false ∧ b ∉ ([93, 125, 34, 123, 91] : List UInt8) := by
    simp only [keywords, List.take, List.mem_cons, List.not_mem_nil, or_false, Prod.mk.injEq] at h
    rcases h with ⟨rfl, -⟩ | ⟨rfl, -⟩ | ⟨rfl, -⟩ <;> exact ⟨_, _, rfl, rfl, by decide⟩
  obtain ⟨b, t, rfl, hb, hnot⟩ := hhead
  simp only [List.mem_cons, List.not_mem_nil, or_false, not_or] at hnot
  obtain ⟨h93, h125, h34, h123, h91⟩ := hnot
  refine ⟨⟨b, t, rfl, hb, h93, h125⟩, fun rest _ => ?_⟩
  have hread := readKeyword_of_mem h rest
  rw [List.cons_append] at hread ⊢
  rw [readValue, if_neg h34, if_neg h123, if_neg h91, hread, Option.some_or]

theorem reads_int (n : Nat) (k : Int) : Reads (readValue (n + 1)) (writeInt k) (.int k) := by
  have hhead : ∃ b t, writeInt k = b :: t ∧ (b = 45 ∨ IsDigit b) := by
    rw [writeInt]
    split
    · exact ⟨45, _, rfl, Or.inl rfl⟩
    · obtain ⟨b, t, hb⟩ := List.exists_cons_of_ne_nil (decimal_ne_nil k.natAbs)
      exact ⟨b, t, hb, Or.inr (isDigit_decimal k.natAbs b (by rw [hb]; exact List.mem_cons_self))⟩
  obtain ⟨b, t, hb, hkind⟩ := hhead
  have hne : ∀ c : UInt8, c ≠ 45 → ¬ IsDigit c → b ≠ c := by
    rintro c hminus hdigit rfl
    rcases hkind with h | h
    · exact hminus h
    · exact hdigit h
  refine ⟨⟨b, t, hb, ?_, hne _ (by decide) (by decide), hne _ (by decide) (by decide)⟩,
    fun rest hrest => ?_⟩
  · simp only [isBlank, Bool.or_eq_false_iff, beq_eq_false_iff_ne]
    exact ⟨⟨⟨hne _ (by decide) (by decide), hne _ (by decide) (by decide)⟩,
      hne _ (by decide) (by decide)⟩, hne _ (by decide) (by decide)⟩
  · have hnumber := readNumber_writeInt k hrest
    have hkeyword : readKeyword (writeInt k ++ rest) = none := readKeyword_writeInt k
    rw [hb, List.cons_append] at hnumber hkeyword ⊢
    rw [readValue, if_neg (hne _ (by decide) (by decide)), if_neg (hne _ (by decide) (by decide)),
      if_neg (hne _ (by decide) (by decide)), hkeyword, hnumber, Option.none_or]

theorem reads_str (n : Nat) (s : CString) : Reads (readValue (n + 1)) (quote s) (.str s) := by
  refine ⟨⟨34, _, rfl, rfl, by decide, by decide⟩, fun rest _ => ?_⟩
  have htext : quote s ++ rest = 34 :: (s.flatMap escaped ++ 34 :: rest) := by
    simp only [quote, List.append_assoc, List.cons_append, List.nil_append]
  rw [htext, readValue, if_pos rfl, readString_escaped, Option.map_some]

mutual

/-- **A whole value is read back**, by induction on the value. -/
theorem reads_write : ∀ {n : Nat} (v : Value), Whole v → depth v ≤ n →
    Reads (readValue n) (write l v) v
  | 0, v, _, hn => by cases v <;> simp [depth] at hn
  | n + 1, .null, _, _ => reads_keyword (.head _)
  | n + 1, .bool b, _, _ => by
    cases b with
    | true => exact reads_keyword (.tail _ (.head _))
    | false => exact reads_keyword (.tail _ (.tail _ (.head _)))
  | n + 1, .int k, _, _ => reads_int n k
  | n + 1, .float _, h, _ => h.elim
  | n + 1, .str s, _, _ => reads_str n s
  | n + 1, .arr items, h, hn => by
    refine ⟨⟨91, _, rfl, rfl, by decide, by decide⟩, fun rest _ => ?_⟩
    have hitems := reads_items (n := n) items h (by simpa [depth] using hn)
    have htext : write l (.arr items) ++ rest = 91 :: (join l (writeItems l items) ++ 93 :: rest) := by
      simp only [write, List.cons_append, List.append_assoc, List.nil_append]
    rw [htext, readValue, if_neg (by decide), if_neg (by decide), if_pos rfl,
      readBracketed_join (Or.inl rfl) hitems, Option.map_some]
  | n + 1, .obj members, h, hn => by
    refine ⟨⟨123, _, rfl, rfl, by decide, by decide⟩, fun rest _ => ?_⟩
    have hmembers := reads_members (n := n) members h (by simpa [depth] using hn)
    have htext : write l (.obj members) ++ rest =
        123 :: (join l (writeMembers l members) ++ 125 :: rest) := by
      simp only [write, List.cons_append, List.append_assoc, List.nil_append]
    rw [htext, readValue, if_neg (by decide), if_pos rfl,
      readBracketed_join (Or.inr rfl) hmembers, Option.map_some]

theorem reads_items : ∀ {n : Nat} (vs : List Value), WholeItems vs → depthItems vs ≤ n →
    List.Forall₂ (Reads (readValue n)) (writeItems l vs) vs
  | _, [], _, _ => .nil
  | _, v :: vs, h, hn =>
    .cons (reads_write v h.1 (Nat.le_trans (Nat.le_max_left ..) hn))
      (reads_items vs h.2 (Nat.le_trans (Nat.le_max_right ..) hn))

theorem reads_members : ∀ {n : Nat} (ms : List (CString × Value)), WholeMembers ms →
    depthMembers ms ≤ n →
    List.Forall₂ (Reads (readMember (readValue n))) (writeMembers l ms) ms
  | _, [], _, _ => .nil
  | _, (_, v) :: ms, h, hn =>
    .cons (reads_member (reads_write v h.1 (Nat.le_trans (Nat.le_max_left ..) hn)))
      (reads_members ms h.2 (Nat.le_trans (Nat.le_max_right ..) hn))

end

/-! ## Whole texts -/

/-- A list of parts is as long as its first part, and as what is behind it. -/
theorem length_le_join (l : Layout) (part : CString) (parts : List CString) :
    part.length ≤ (join l (part :: parts)).length ∧
      (join l parts).length ≤ (join l (part :: parts)).length := by
  cases parts with
  | nil =>
    rw [join, join, List.intercalate_singleton, List.intercalate_nil]
    exact ⟨Nat.le_refl _, Nat.zero_le _⟩
  | cons part' parts =>
    rw [join, join, List.intercalate_cons_cons, List.length_append, List.length_append]
    omega

theorem Reads.length_pos {α : Type} {item : CString → Option (α × CString)} {part : CString} {x : α}
    (h : Reads item part x) : 1 ≤ part.length := by
  obtain ⟨b, t, rfl, -⟩ := h.begins
  exact Nat.le_add_left _ _

mutual

/-- The length of a text bounds the nesting of its value. -/
theorem depth_le_length : ∀ v : Value, Whole v → depth v ≤ (write l v).length
  | .null, h => (reads_write (n := 1) .null h (Nat.le_refl _)).length_pos
  | .bool b, h => (reads_write (n := 1) (.bool b) h (Nat.le_refl _)).length_pos
  | .int k, h => (reads_write (n := 1) (.int k) h (Nat.le_refl _)).length_pos
  | .float _, h => h.elim
  | .str s, h => (reads_write (n := 1) (.str s) h (Nat.le_refl _)).length_pos
  | .arr items, h => by
    have hitems := depthItems_le_length items h
    rw [depth, write, List.length_cons, List.length_append]
    omega
  | .obj members, h => by
    have hmembers := depthMembers_le_length members h
    rw [depth, write, List.length_cons, List.length_append]
    omega

theorem depthItems_le_length : ∀ vs : List Value, WholeItems vs →
    depthItems vs ≤ (join l (writeItems l vs)).length
  | [], _ => Nat.zero_le _
  | v :: vs, h => by
    obtain ⟨hfirst, hrest⟩ := length_le_join l (write l v) (writeItems l vs)
    exact Nat.max_le.mpr ⟨(depth_le_length v h.1).trans hfirst,
      (depthItems_le_length vs h.2).trans hrest⟩

theorem depthMembers_le_length : ∀ ms : List (CString × Value), WholeMembers ms →
    depthMembers ms ≤ (join l (writeMembers l ms)).length
  | [], _ => Nat.zero_le _
  | (name, v) :: ms, h => by
    obtain ⟨hfirst, hrest⟩ := length_le_join l (quote name ++ 58 :: (l.colon ++ write l v))
      (writeMembers l ms)
    have hv := depth_le_length v h.1
    have hmember : depth v ≤ (quote name ++ 58 :: (l.colon ++ write l v)).length := by
      simp only [List.length_append, List.length_cons]
      omega
    exact Nat.max_le.mpr ⟨hmember.trans hfirst, (depthMembers_le_length ms h.2).trans hrest⟩

end

/-- **A written text denotes its value**, with any white space around it. -/
theorem parse_write {before after : CString} {v : Value} (hv : Whole v)
    (hbefore : ∀ b ∈ before, isBlank b = true) (hafter : ∀ b ∈ after, isBlank b = true) :
    parse (before ++ (write l v ++ after)) = some v := by
  have hlen := depth_le_length (l := l) v hv
  have hread := reads_write (l := l) (n := (before ++ (write l v ++ after)).length + 1) v hv (by
    simp only [List.length_append]
    omega)
  have hends : Ends after := fun b hb =>
    Or.inr (Or.inr (Or.inr (hafter b (List.mem_of_mem_head? hb))))
  have hend : skip after = [] := by
    have := skip_append hafter []
    rwa [List.append_nil] at this
  rw [parse, hread.skip_append hbefore, hread.read after hends, Option.bind_some]
  exact if_pos hend

end JsonText
