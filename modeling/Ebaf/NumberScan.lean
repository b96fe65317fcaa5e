import Ebaf.Printf

/-! # Numbers behind a key

`re.findall` with a pattern made of a fixed text and digits: from left to right every
place is taken where the text stands and a digit follows, with all digits there are.
A character that is in no match separates the text into parts that are searched one by
one.
-/
namespace NumberScan
open CStrings

/-- The digits behind the text, if it stands here and a digit follows. -/
def valueHere (key s : CString) : Option CString :=
  let digits := (s.drop key.length).takeWhile fun b => IsDigit b
  if key <+: s ∧ digits ≠ [] then some digits else none

/-- The digits of all matches, after as many characters of the last match as are left. -/
def findAll (key : CString) : Nat → CString → List CString
  | _, [] => []
  | skip + 1, _ :: s => findAll key skip s
  | 0, b :: s =>
    match valueHere key (b :: s) with
    | some digits => digits :: findAll key (key.length + digits.length - 1) s
    | none => findAll key 0 s

variable {key s rest digits : CString} {b : UInt8} {skip : Nat}

theorem findAll_skip (h : s.length ≤ skip) : findAll key skip s = [] := by
  induction s generalizing skip with
  | nil => cases skip <;> rfl
  | cons b s ih =>
    cases skip with
    | zero => cases h
    | succ skip => exact ih (Nat.le_of_succ_le_succ h)

/-- A match lies in the text. -/
theorem length_valueHere (h : valueHere key s = some digits) :
    0 < digits.length ∧ key.length + digits.length ≤ s.length := by
  obtain ⟨hkey, h⟩ := Option.ite_none_right_eq_some.mp h
  obtain rfl := Option.some.inj h
  have hle : ((s.drop key.length).takeWhile fun b => decide (IsDigit b)).length ≤
      (s.drop key.length).length := (List.takeWhile_sublist _).length_le
  have hstart := hkey.1.length_le
  rw [List.length_drop] at hle
  exact ⟨List.length_pos_iff.mpr hkey.2, by omega⟩

/-- A match ends before a character that is in none. -/
theorem valueHere_append (hb : b ∉ key) (hdigit : ¬ IsDigit b) (s rest : CString) :
    valueHere key (s ++ b :: rest) = valueHere key s := by
  have hstart : key <+: s ++ b :: rest ↔ key <+: s := by
    constructor
    · intro h
      by_contra hn
      have hlong : s.length < key.length := by
        by_contra hshort
        exact hn (List.prefix_of_prefix_length_le h (List.prefix_append s (b :: rest))
          (Nat.not_lt.mp hshort))
      have hmem : b ∈ key := by
        have hthere : s ++ [b] <+: key := by
          refine List.prefix_of_prefix_length_le ?_ h ?_
          · exact ⟨rest, List.append_assoc s [b] rest⟩
          · rw [List.length_append]
            exact hlong
        exact hthere.subset (List.mem_append_right _ List.mem_cons_self)
      exact hb hmem
    · exact fun h => h.trans (List.prefix_append _ _)
  rw [valueHere, valueHere]
  by_cases hkey : key <+: s
  · have hdrop : (s ++ b :: rest).drop key.length = s.drop key.length ++ b :: rest :=
      List.drop_append_of_le_length hkey.length_le
    have htake : (s.drop key.length ++ b :: rest).takeWhile (fun c => decide (IsDigit c)) =
        (s.drop key.length).takeWhile fun c => decide (IsDigit c) := by
      rw [List.takeWhile_append]
      split
      · rename_i hall
        rw [List.takeWhile_cons_of_neg (by simpa using hdigit), List.append_nil,
          (List.takeWhile_prefix _).eq_of_length hall]
      · rfl
    simp only [hdrop, htake, hstart]
  · rw [if_neg fun h => hkey (hstart.mp h.1), if_neg fun h => hkey h.1]

/-- **The parts of a text are searched one by one.** -/
theorem findAll_append (hb : b ∉ key) (hdigit : ¬ IsDigit b) (s rest : CString) :
    findAll key 0 (s ++ b :: rest) = findAll key 0 s ++ findAll key 0 rest := by
  have hall : ∀ (s : CString) (skip : Nat), skip ≤ s.length →
      findAll key skip (s ++ b :: rest) = findAll key skip s ++ findAll key 0 rest := by
    intro s
    induction s with
    | nil =>
      intro skip hskip
      obtain rfl := Nat.le_zero.mp hskip
      have hnone : valueHere key (b :: rest) = none := by
        have hnil := valueHere_append hb hdigit [] rest
        rw [List.nil_append] at hnil
        rw [hnil]
        exact if_neg fun h => h.2 (by rw [List.drop_nil]; rfl)
      show findAll key 0 (b :: rest) = findAll key 0 rest
      rw [findAll, hnone]
    | cons c s ih =>
      intro skip hskip
      cases skip with
      | succ skip => exact ih skip (Nat.le_of_succ_le_succ hskip)
      | zero =>
        have hhere := valueHere_append hb hdigit (c :: s) rest
        rw [List.cons_append] at hhere
        rw [List.cons_append, findAll, findAll, hhere]
        cases hvalue : valueHere key (c :: s) with
        | none => exact ih 0 (Nat.zero_le _)
        | some digits =>
          have hlen := length_valueHere hvalue
          rw [List.length_cons] at hlen
          exact congrArg (digits :: ·) (ih _ (by omega))
  exact hall s 0 (Nat.zero_le _)

/-- A text that lacks a character of the key has no match. -/
theorem findAll_of_not_mem (hb : b ∈ key) (h : b ∉ s) : findAll key 0 s = [] := by
  induction s with
  | nil => rfl
  | cons c s ih =>
    have hnone : valueHere key (c :: s) = none :=
      if_neg fun hkey => h (hkey.1.subset hb)
    rw [findAll, hnone]
    exact ih fun hmem => h (List.mem_cons_of_mem _ hmem)

/-! ## Assignments -/

/-- A name, an equals sign and a number. -/
def assign (name : CString) (n : Nat) : CString := name ++ 61 :: decimal n

/-- A key of this form stands in front of an equals sign only if its name does. -/
theorem valueHere_equals {name name' : CString} (hname : 61 ∉ name) (hname' : 61 ∉ name')
    (rest : CString) : valueHere (name ++ [61]) (name' ++ 61 :: rest) =
      if name = name' ∧ rest.takeWhile (fun b => decide (IsDigit b)) ≠ [] then
        some (rest.takeWhile fun b => decide (IsDigit b))
      else none := by
  have hstart : name ++ [61] <+: name' ++ 61 :: rest ↔ name = name' := by
    constructor
    · rintro ⟨t, ht⟩
      rw [List.append_assoc, List.singleton_append] at ht
      exact (append_delimiter_inj hname hname' ht).1
    · rintro rfl
      exact ⟨rest, List.append_assoc name [61] rest⟩
  rw [valueHere]
  by_cases heq : name = name'
  · subst heq
    have hdrop : (name ++ 61 :: rest).drop (name ++ [61]).length = rest := by
      rw [List.append_cons name 61 rest, List.drop_left]
    simp only [hdrop, hstart]
  · rw [if_neg fun h => heq (hstart.mp h.1), if_neg fun h => heq h.1]

/-- **Up to an equals sign there is nothing if the name in front of it is another one.** -/
theorem findAll_equals {name name' : CString} (hname : 61 ∉ name) (hname' : 61 ∉ name')
    (hother : ¬ name <:+ name') (rest : CString) :
    findAll (name ++ [61]) 0 (name' ++ 61 :: rest) = findAll (name ++ [61]) 0 rest := by
  have hnone : valueHere (name ++ [61]) (name' ++ 61 :: rest) = none := by
    rw [valueHere_equals hname hname', if_neg]
    rintro ⟨rfl, -⟩
    exact hother (List.suffix_refl _)
  induction name' with
  | nil =>
    rw [List.nil_append] at hnone ⊢
    rw [findAll, hnone]
  | cons b name' ih =>
    have hrest : 61 ∉ name' := fun h => hname' (List.mem_cons_of_mem _ h)
    have hother' : ¬ name <:+ name' := fun h => hother (h.trans (List.suffix_cons b name'))
    rw [List.cons_append] at hnone ⊢
    rw [findAll, hnone]
    refine ih hrest hother' ?_
    rw [valueHere_equals hname hrest, if_neg]
    rintro ⟨rfl, -⟩
    exact hother' (List.suffix_refl _)

/-- **An assignment has one match if its name ends in the one looked for.** -/
theorem findAll_assign {name name' : CString} (hname : 61 ∉ name) (hname' : 61 ∉ name') (n : Nat) :
    findAll (name ++ [61]) 0 (assign name' n) = if name <:+ name' then [decimal n] else [] := by
  have hkey : (61 : UInt8) ∈ name ++ [61] := List.mem_append_right _ List.mem_cons_self
  have hdigits : (decimal n).takeWhile (fun b => decide (IsDigit b)) = decimal n :=
    List.takeWhile_eq_self_iff.mpr fun b hb => decide_eq_true (isDigit_decimal n b hb)
  by_cases hend : name <:+ name'
  · rw [if_pos hend]
    obtain ⟨front, rfl⟩ := hend
    induction front with
    | nil =>
      rw [List.nil_append] at hname' ⊢
      have hvalue := valueHere_equals hname hname' (decimal n)
      rw [hdigits, if_pos ⟨rfl, decimal_ne_nil n⟩] at hvalue
      have hlen : (assign name n).length = (name ++ [61]).length + (decimal n).length := by
        rw [assign, List.append_cons, List.length_append]
      -- the match leaves nothing behind it
      cases hs : assign name n with
      | nil =>
        rw [hs, List.length_append, List.length_singleton, List.length_nil] at hlen
        omega
      | cons b s =>
        rw [assign] at hs
        rw [hs] at hvalue
        rw [findAll, hvalue]
        refine congrArg (decimal n :: ·) (findAll_skip ?_)
        rw [assign, hs, List.length_cons] at hlen
        omega
    | cons b front ih =>
      have hrest : 61 ∉ front ++ name := fun h => hname' (List.mem_cons_of_mem _ h)
      have hnone : valueHere (name ++ [61]) (assign (b :: front ++ name) n) = none := by
        rw [assign, valueHere_equals hname hname', if_neg]
        rintro ⟨heq, -⟩
        have hlen := congrArg List.length heq
        rw [List.length_append, List.length_cons] at hlen
        omega
      have hcons : assign (b :: front ++ name) n = b :: assign (front ++ name) n := rfl
      rw [hcons] at hnone ⊢
      rw [findAll, hnone]
      exact ih hrest
  · rw [if_neg hend, assign, findAll_equals hname hname' hend]
    exact findAll_of_not_mem hkey (not_mem_decimal (by decide) n)

/-- What ends in a word that lacks a character ends in it behind that character. -/
theorem suffix_delimiter {word front back : CString} (hb : b ∉ word) :
    word <:+ front ++ b :: back ↔ word <:+ back := by
  constructor
  · intro h
    rcases List.suffix_or_suffix_of_suffix h (List.suffix_append front (b :: back)) with hin | hout
    · rcases List.suffix_cons_iff.mp hin with rfl | hback
      · exact absurd List.mem_cons_self hb
      · exact hback
    · exact absurd (hout.subset List.mem_cons_self) hb
  · exact fun h => (h.trans (List.suffix_cons b back)).trans (List.suffix_append front (b :: back))

end NumberScan
