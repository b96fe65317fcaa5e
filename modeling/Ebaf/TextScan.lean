import Mathlib.Data.List.DropRight
import Mathlib.Data.List.Find
import Mathlib.Data.List.Infix

/-! # Scanning text

What a script does to a line of text with `trim`, `includes`, global replacement
and regular expressions of the form `key\s*==\s*"?(value+)"?`.  None of the keys
and tokens looked for contains a blank, so a scan of a text made of words can be
followed word by word.
-/
namespace TextScan

abbrev Text := List Char

/-- White space of `trim` and of `\s`. -/
def isSpace (c : Char) : Bool :=
  (9 ≤ c.toNat && c.toNat ≤ 13) || c.toNat == 32 || c.toNat == 0xA0 || c.toNat == 0x1680 ||
    (0x2000 ≤ c.toNat && c.toNat ≤ 0x200A) || c.toNat == 0x2028 || c.toNat == 0x2029 ||
    c.toNat == 0x202F || c.toNat == 0x205F || c.toNat == 0x3000 || c.toNat == 0xFEFF

def Blank (s : Text) : Prop := ∀ c ∈ s, isSpace c = true

instance (s : Text) : Decidable (Blank s) := List.decidableBAll _ s

/-- A text without white space and without `=`. -/
def IsWord (s : Text) : Prop := ∀ c ∈ s, isSpace c = false ∧ c ≠ '='

instance (s : Text) : Decidable (IsWord s) := List.decidableBAll _ s

variable {c : Char} {s t u v x y rest : Text} {l : List Char}

/-- ASCII from the exclamation mark on. -/
theorem isSpace_of_visible (hlo : 33 ≤ c.toNat) (hhi : c.toNat < 128) : isSpace c = false := by
  simp only [isSpace, Bool.or_eq_false_iff, Bool.and_eq_false_iff, decide_eq_false_iff_not,
    beq_eq_false_iff_ne]
  omega

/-! ## Trimming -/

def trim (s : Text) : Text := (s.dropWhile isSpace).rdropWhile isSpace

theorem dropWhile_blank_append (h : Blank u) (s : Text) :
    (u ++ s).dropWhile isSpace = s.dropWhile isSpace :=
  List.dropWhile_append_of_pos h

/-- White space around a text, and the text between. -/
theorem exists_blank_trim (s : Text) : ∃ u v, Blank u ∧ Blank v ∧ s = u ++ (trim s ++ v) := by
  refine ⟨s.takeWhile isSpace, (s.dropWhile isSpace).rtakeWhile isSpace, ?_, ?_, ?_⟩
  · exact fun c hc => List.mem_takeWhile_imp hc
  · exact fun c hc => List.mem_rtakeWhile_imp hc
  · rw [trim, List.rdropWhile_append_rtakeWhile, List.takeWhile_append_dropWhile]

theorem blank_append : Blank (u ++ v) ↔ Blank u ∧ Blank v := List.forall_mem_append

theorem trim_eq_nil_iff : trim s = [] ↔ Blank s := by
  constructor
  · intro h
    obtain ⟨u, v, hu, hv, hs⟩ := exists_blank_trim s
    rw [h, List.nil_append] at hs
    rw [hs]
    exact blank_append.mpr ⟨hu, hv⟩
  · intro h
    rw [trim, List.dropWhile_eq_nil_iff.mpr h]
    rfl

/-- A text that begins and ends with something else than white space. -/
structure Solid (s : Text) : Prop where
  ne_nil : s ≠ []
  head : ∀ c ∈ s.head?, isSpace c = false
  last : ∀ c ∈ s.getLast?, isSpace c = false

theorem Solid.of_ends {a b : Char} (hhead : s.head? = some a) (hlast : s.getLast? = some b)
    (ha : isSpace a = false) (hb : isSpace b = false) : Solid s where
  ne_nil := by
    rintro rfl
    cases hhead
  head c hc := by
    rw [← Option.some.inj (hhead.symm.trans hc)]
    exact ha
  last c hc := by
    rw [← Option.some.inj (hlast.symm.trans hc)]
    exact hb

theorem solid_trim (h : trim s ≠ []) : Solid (trim s) := by
  constructor
  · exact h
  · intro c hc
    obtain ⟨t, ht⟩ := List.rdropWhile_prefix isSpace (s.dropWhile isSpace)
    have hhead : (s.dropWhile isSpace).head? = some c := by
      rw [← ht, List.head?_append]
      exact Option.or_eq_some_iff.mpr (Or.inl hc)
    have hne : s.dropWhile isSpace ≠ [] := fun hnil => by
      rw [hnil] at hhead
      cases hhead
    have hnot := List.head_dropWhile_not isSpace hne
    rwa [List.head_of_head?_eq_some hhead] at hnot
  · intro c hc
    have hlast := List.rdropWhile_last_not isSpace (s.dropWhile isSpace) h
    rw [List.getLast?_eq_some_getLast h] at hc
    rw [← Option.some.inj hc]
    exact Bool.not_eq_true _ ▸ hlast

theorem dropWhile_append_solid (ht : Solid t) (x y : Text) :
    (x ++ (t ++ y)).dropWhile isSpace = x.dropWhile isSpace ++ (t ++ y) := by
  obtain ⟨c, t, rfl⟩ := List.exists_cons_of_ne_nil ht.ne_nil
  have hc : ¬ isSpace c = true := Bool.eq_false_iff.mp (ht.head c rfl)
  induction x with
  | nil => exact List.dropWhile_cons_of_neg hc
  | cons b x ih =>
    by_cases hb : isSpace b = true
    · rw [List.cons_append, List.dropWhile_cons_of_pos hb, List.dropWhile_cons_of_pos hb, ih]
    · rw [List.cons_append, List.dropWhile_cons_of_neg hb, List.dropWhile_cons_of_neg hb]
      rfl

theorem rdropWhile_append_solid (ht : Solid t) (x y : Text) :
    (x ++ (t ++ y)).rdropWhile isSpace = x ++ (t ++ y.rdropWhile isSpace) := by
  induction y using List.reverseRecOn with
  | nil =>
    have hlast : ¬ isSpace (t.getLast ht.ne_nil) = true :=
      Bool.eq_false_iff.mp (ht.last _ (List.getLast?_eq_some_getLast ht.ne_nil))
    rw [List.rdropWhile_nil, List.append_nil, ← List.dropLast_append_getLast ht.ne_nil,
      ← List.append_assoc, List.rdropWhile_concat_neg _ _ _ hlast]
  | append_singleton y b ih =>
    by_cases hb : isSpace b = true
    · rw [← List.append_assoc, ← List.append_assoc, List.rdropWhile_concat_pos _ _ _ hb,
        List.rdropWhile_concat_pos _ _ _ hb, List.append_assoc, ih]
    · rw [← List.append_assoc, ← List.append_assoc, List.rdropWhile_concat_neg _ _ _ hb,
        List.rdropWhile_concat_neg _ _ _ hb, List.append_assoc, List.append_assoc]

/-- **What begins and ends with something else stays.** -/
theorem trim_around (ht : Solid t) (x y : Text) :
    trim (x ++ (t ++ y)) = x.dropWhile isSpace ++ (t ++ y.rdropWhile isSpace) := by
  rw [trim, dropWhile_append_solid ht, rdropWhile_append_solid ht]

theorem trim_solid (ht : Solid t) : trim t = t := by
  simpa only [List.dropWhile_nil, List.rdropWhile_nil, List.append_nil, List.nil_append] using
    trim_around ht [] []

theorem trim_blank_append (h : Blank u) (s : Text) : trim (u ++ s) = trim s := by
  rw [trim, dropWhile_blank_append h, trim]

theorem trim_append_blank (h : Blank u) (s : Text) : trim (s ++ u) = trim s := by
  by_cases hs : Blank s
  · rw [trim_eq_nil_iff.mpr hs, trim_eq_nil_iff.mpr (blank_append.mpr ⟨hs, h⟩)]
  · obtain ⟨x, y, hx, hy, hsplit⟩ := exists_blank_trim s
    have hsolid := solid_trim (mt trim_eq_nil_iff.mp hs)
    have hyu := List.rdropWhile_eq_nil_iff.mpr (blank_append.mpr ⟨hy, h⟩)
    nth_rewrite 1 [hsplit]
    rw [List.append_assoc, List.append_assoc, trim_around hsolid, hyu,
      List.dropWhile_eq_nil_iff.mpr hx, List.nil_append, List.append_nil]

/-- What is left of a part is found in what is left of the whole. -/
theorem trim_infix (s rest : Text) : trim s <:+: trim (s ++ rest) := by
  by_cases hs : trim s = []
  · rw [hs]
    exact List.nil_infix
  · obtain ⟨x, y, -, -, hsplit⟩ := exists_blank_trim s
    nth_rewrite 2 [hsplit]
    rw [List.append_assoc, List.append_assoc, trim_around (solid_trim hs)]
    exact List.infix_append' _ _ _

theorem Solid.append (hs : Solid s) (ht : Solid t) (x : Text) : Solid (s ++ (x ++ t)) := by
  constructor
  · exact fun h => hs.ne_nil (List.append_eq_nil_iff.mp h).1
  · obtain ⟨c, s, rfl⟩ := List.exists_cons_of_ne_nil hs.ne_nil
    exact hs.head
  · rw [← List.append_assoc, List.getLast?_append_of_ne_nil _ ht.ne_nil]
    exact ht.last

/-! ## Searching for a text -/

theorem prefix_append_blank (h : ' ' ∉ t) (x y : Text) : t <+: x ++ ' ' :: y ↔ t <+: x := by
  induction x generalizing t with
  | nil =>
    rcases t with - | ⟨c, t⟩
    · exact ⟨fun _ => List.nil_prefix, fun _ => List.nil_prefix⟩
    · constructor
      · intro hprefix
        exact absurd (List.cons_prefix_cons.mp hprefix).1
          (fun hc => h (hc ▸ List.mem_cons_self))
      · exact fun hprefix => absurd (List.prefix_nil.mp hprefix) (List.cons_ne_nil _ _)
  | cons b x ih =>
    rcases t with - | ⟨c, t⟩
    · exact ⟨fun _ => List.nil_prefix, fun _ => List.nil_prefix⟩
    · have ht : ' ' ∉ t := fun hm => h (List.mem_cons_of_mem _ hm)
      rw [List.cons_append, List.cons_prefix_cons, List.cons_prefix_cons, ih ht]

/-- **A text without a blank is found on one side of a blank.** -/
theorem infix_append_blank (h : ' ' ∉ t) (ht : t ≠ []) (x y : Text) :
    t <:+: x ++ ' ' :: y ↔ t <:+: x ∨ t <:+: y := by
  induction x with
  | nil =>
    have hblank : ¬ t <+: ' ' :: y := by
      intro hprefix
      have hnil := (prefix_append_blank h [] y).mp hprefix
      exact ht (List.prefix_nil.mp hnil)
    rw [List.nil_append, List.infix_cons_iff, List.infix_nil]
    exact ⟨fun hin => Or.inr (hin.resolve_left hblank), fun hin => Or.inr (hin.resolve_left ht)⟩
  | cons c x ih =>
    rw [List.cons_append, List.infix_cons_iff, List.infix_cons_iff, ih, ← List.cons_append,
      prefix_append_blank h, or_assoc]

/-! ## Global replacement -/

/-- Every occurrence of a token becomes a blank, from left to right; the number is
what is left to skip of the token being replaced. -/
def blankTokens (tokens : List Text) : Nat → Text → Text
  | _, [] => []
  | skip + 1, _ :: s => blankTokens tokens skip s
  | 0, c :: s =>
    match tokens.find? fun t => t.isPrefixOf (c :: s) with
    | some t => ' ' :: blankTokens tokens (t.length - 1) s
    | none => c :: blankTokens tokens 0 s

/-- Every run of the characters becomes one blank; the flag says whether one is
being read. -/
def blankRuns (p : Char → Bool) : Bool → Text → Text
  | _, [] => []
  | inside, c :: s =>
    if p c then if inside then blankRuns p true s else ' ' :: blankRuns p true s
    else c :: blankRuns p false s

theorem blankTokens_append_blank_skip {tokens : List Text} (htokens : ∀ t ∈ tokens, t ≠ [] ∧ ' ' ∉ t)
    (x y : Text) {skip : Nat} (hskip : skip ≤ x.length) :
    blankTokens tokens skip (x ++ ' ' :: y) =
      blankTokens tokens skip x ++ ' ' :: blankTokens tokens 0 y := by
  induction x generalizing skip with
  | nil =>
    obtain rfl : skip = 0 := Nat.le_zero.mp hskip
    -- no token begins with the blank
    have hnone : (tokens.find? fun t => t.isPrefixOf (' ' :: y)) = none := by
      rw [List.find?_eq_none]
      intro t ht hprefix
      have hnil := (prefix_append_blank (htokens t ht).2 [] y).mp (List.isPrefixOf_iff_prefix.mp hprefix)
      exact (htokens t ht).1 (List.prefix_nil.mp hnil)
    have hblank : blankTokens tokens 0 (' ' :: y) = ' ' :: blankTokens tokens 0 y := by
      rw [blankTokens, hnone]
    rw [List.nil_append, hblank]
    rfl
  | cons c x ih =>
    cases skip with
    | succ skip => exact ih (Nat.le_of_succ_le_succ hskip)
    | zero =>
      -- no token reaches over it either
      have hfind : (tokens.find? fun t => t.isPrefixOf (c :: (x ++ ' ' :: y))) =
          tokens.find? fun t => t.isPrefixOf (c :: x) := by
        apply List.find?_congr
        intro t ht
        rw [Bool.eq_iff_iff, List.isPrefixOf_iff_prefix, List.isPrefixOf_iff_prefix]
        exact prefix_append_blank (htokens t ht).2 (c :: x) y
      rw [List.cons_append, blankTokens, hfind, blankTokens]
      cases hfound : tokens.find? fun t => t.isPrefixOf (c :: x) with
      | none => exact congrArg (c :: ·) (ih (Nat.zero_le _))
      | some t =>
        have hprefix := List.find?_some hfound
        have hlen := (List.isPrefixOf_iff_prefix.mp hprefix).length_le
        rw [List.length_cons] at hlen
        exact congrArg (' ' :: ·) (ih (Nat.sub_le_of_le_add hlen))

/-- **Replacing tokens stops at a blank.** -/
theorem blankTokens_append_blank {tokens : List Text} (htokens : ∀ t ∈ tokens, t ≠ [] ∧ ' ' ∉ t)
    (x y : Text) : blankTokens tokens 0 (x ++ ' ' :: y) =
      blankTokens tokens 0 x ++ ' ' :: blankTokens tokens 0 y :=
  blankTokens_append_blank_skip htokens x y (Nat.zero_le _)

/-- **So does replacing runs.** -/
theorem blankRuns_append_blank {p : Char → Bool} (hp : p ' ' = false) (inside : Bool)
    (x y : Text) : blankRuns p inside (x ++ ' ' :: y) =
      blankRuns p inside x ++ ' ' :: blankRuns p false y := by
  induction x generalizing inside with
  | nil =>
    have hblank : blankRuns p inside (' ' :: y) = ' ' :: blankRuns p false y :=
      if_neg (Bool.eq_false_iff.mp hp)
    rw [List.nil_append, hblank]
    rfl
  | cons c x ih =>
    rw [List.cons_append, blankRuns, blankRuns]
    split
    · cases inside
      · exact congrArg (' ' :: ·) (ih true)
      · exact ih true
    · exact congrArg (c :: ·) (ih false)

/-- A text in which no token begins stays. -/
theorem blankTokens_self {tokens : List Text}
    (h : ∀ c ∈ s, ∀ t ∈ tokens, t ≠ [] ∧ t.head? ≠ some c) : blankTokens tokens 0 s = s := by
  induction s with
  | nil => rfl
  | cons c s ih =>
    obtain ⟨hc, hs⟩ := List.forall_mem_cons.mp h
    have hnone : (tokens.find? fun t => t.isPrefixOf (c :: s)) = none := by
      rw [List.find?_eq_none]
      intro t ht hprefix
      obtain ⟨hne, hhead⟩ := hc t ht
      obtain ⟨b, t, rfl⟩ := List.exists_cons_of_ne_nil hne
      have heq := (List.cons_prefix_cons.mp (List.isPrefixOf_iff_prefix.mp hprefix)).1
      exact hhead (congrArg some heq)
    rw [blankTokens, hnone, ih hs]

/-- Of a run only blanks are left. -/
theorem blank_blankRuns {p : Char → Bool} (h : ∀ c ∈ s, p c = true) (inside : Bool) :
    Blank (blankRuns p inside s) := by
  induction s generalizing inside with
  | nil =>
    intro c hc
    cases hc
  | cons c s ih =>
    obtain ⟨hc, hs⟩ := List.forall_mem_cons.mp h
    rw [blankRuns, if_pos hc]
    cases inside
    · exact List.forall_mem_cons.mpr ⟨rfl, ih hs true⟩
    · exact ih hs true

/-! ## Matching an assignment -/

/-- What follows a literal. -/
def after : Text → Text → Option Text
  | [], s => some s
  | _ :: _, [] => none
  | c :: t, d :: s => if c = d then after t s else none

theorem after_eq_some_iff : after t s = some rest ↔ s = t ++ rest := by
  induction t generalizing s with
  | nil => exact ⟨fun h => Option.some.inj h, fun h => congrArg some h⟩
  | cons c t ih =>
    rcases s with - | ⟨d, s⟩
    · constructor <;> intro h <;> cases h
    · rw [after, List.cons_append, List.cons.injEq]
      split <;> rename_i hcd
      · rw [ih]
        exact ⟨fun h => ⟨hcd.symm, h⟩, And.right⟩
      · constructor
        · intro h
          cases h
        · exact fun h => absurd h.1.symm hcd

/-- The regular expression `key\s*==\s*(value+)`, or `key\s*==\s*"?(value+)"?`. -/
structure Assignment where
  key : Text
  isValue : Char → Bool
  quoted : Bool
  key_ne_nil : key ≠ []
  key_isWord : IsWord key

namespace Assignment
variable (r : Assignment)

/-- The longest value, behind an optional quote. -/
def valueAt (s : Text) : Option Text :=
  let s := if r.quoted ∧ s.head? = some '"' then s.tail else s
  if s.takeWhile r.isValue = [] then none else some (s.takeWhile r.isValue)

/-- The value of a match that begins here. -/
def matchAt (s : Text) : Option Text :=
  (after r.key s).bind fun s =>
    (after ['=', '='] (s.dropWhile isSpace)).bind fun s => r.valueAt (s.dropWhile isSpace)

/-- The value of the first match. -/
def find : Text → Option Text
  | [] => none
  | c :: s => (r.matchAt (c :: s)).or (find s)

variable {r : Assignment}

/-- Behind white space, `==` follows. -/
def Continues (s : Text) : Prop := ∃ u rest, Blank u ∧ s = u ++ '=' :: '=' :: rest

theorem not_continues_cons (hc : isSpace c = false) (heq : c ≠ '=') (s : Text) :
    ¬ Continues (c :: s) := by
  rintro ⟨u, rest, hu, hs⟩
  rcases u with - | ⟨d, u⟩
  · exact heq (List.cons.inj hs).1
  · have hd := hu d List.mem_cons_self
    rw [← (List.cons.inj hs).1, hc] at hd
    cases hd

theorem not_continues_blank (h : ¬ Continues s) : ¬ Continues (' ' :: s) := by
  rintro ⟨u, rest, hu, hs⟩
  rcases u with - | ⟨d, u⟩
  · cases (List.cons.inj hs).1
  · exact h ⟨u, rest, fun c hc => hu c (List.mem_cons_of_mem _ hc), (List.cons.inj hs).2⟩

/-- The shape of a match. -/
theorem matchAt_shape (h : r.matchAt s = some v) : ∃ rest, Continues rest ∧ s = r.key ++ rest := by
  obtain ⟨rest, hkey, h⟩ := Option.bind_eq_some_iff.mp h
  obtain ⟨tail, heq, -⟩ := Option.bind_eq_some_iff.mp h
  refine ⟨rest, ⟨rest.takeWhile isSpace, tail, ?_, ?_⟩, after_eq_some_iff.mp hkey⟩
  · exact fun c hc => List.mem_takeWhile_imp hc
  · have hsplit : rest.takeWhile isSpace ++ rest.dropWhile isSpace = rest :=
      List.takeWhile_append_dropWhile
    rw [after_eq_some_iff.mp heq] at hsplit
    exact hsplit.symm

theorem matchAt_eq_none (h : ∀ rest, Continues rest → s ≠ r.key ++ rest) : r.matchAt s = none := by
  apply Option.eq_none_iff_forall_ne_some.mpr
  intro v hv
  obtain ⟨rest, hrest, hs⟩ := matchAt_shape hv
  exact h rest hrest hs

/-- No match begins in a word that is not the key, or that `==` does not follow. -/
theorem matchAt_word (hu : IsWord u) (hkey : u ≠ r.key ∨ ¬ Continues s) :
    r.matchAt (u ++ ' ' :: s) = none := by
  have hmiss : ∀ rest, Continues rest → u = r.key → ' ' :: s = rest → False := by
    rintro rest hrest rfl rfl
    rcases hkey with h | h
    · exact h rfl
    · exact not_continues_blank h hrest
  apply matchAt_eq_none
  intro rest hrest hs
  rcases List.append_eq_append_iff.mp hs with ⟨a, hkeyEq, htail⟩ | ⟨a, huEq, htail⟩
  · rcases a with - | ⟨d, a⟩
    · exact hmiss rest hrest (by rw [hkeyEq, List.append_nil]) htail
    · obtain ⟨rfl, -⟩ := List.cons.inj htail
      have hblank := (r.key_isWord ' ' (by rw [hkeyEq]; simp)).1
      cases hblank
  · rcases a with - | ⟨d, a⟩
    · exact hmiss rest hrest (by rw [huEq, List.append_nil]) htail.symm
    · obtain ⟨hd, heq⟩ := hu d (by rw [huEq]; simp)
      rw [htail] at hrest
      exact not_continues_cons hd heq _ hrest

theorem find_cons (h : r.matchAt (c :: s) = none) : r.find (c :: s) = r.find s := by
  rw [find, h, Option.none_or]

/-- A character the key does not begin with is skipped. -/
theorem find_skip (h : r.key.head? ≠ some c) (s : Text) : r.find (c :: s) = r.find s := by
  apply find_cons
  apply matchAt_eq_none
  intro rest _ hs
  obtain ⟨d, key, hkey⟩ := List.exists_cons_of_ne_nil r.key_ne_nil
  rw [hkey, List.cons_append] at hs
  exact h (by rw [hkey, (List.cons.inj hs).1]; rfl)

theorem head_key_ne (hc : isSpace c = true ∨ c = '=') : r.key.head? ≠ some c := by
  intro h
  obtain ⟨hspace, heq⟩ := r.key_isWord c (List.mem_of_mem_head? h)
  rcases hc with hc | hc
  · rw [hspace] at hc
    cases hc
  · exact heq hc

/-- **A word is skipped** if the key is not its end, or `==` does not follow. -/
theorem find_word (ht : IsWord t) (hkey : ¬ r.key <:+ t ∨ ¬ Continues s) :
    r.find (t ++ ' ' :: s) = r.find s := by
  induction t with
  | nil => exact find_skip (head_key_ne (Or.inl rfl)) s
  | cons c t ih =>
    have htail : IsWord t := fun d hd => ht d (List.mem_cons_of_mem _ hd)
    have hstart : (c :: t) ≠ r.key ∨ ¬ Continues s := by
      rcases hkey with h | h
      · exact Or.inl fun heq => h (by rw [heq])
      · exact Or.inr h
    have hrest : ¬ r.key <:+ t ∨ ¬ Continues s := by
      rcases hkey with h | h
      · exact Or.inl fun hs => h (hs.trans (List.suffix_cons c t))
      · exact Or.inr h
    have hnone : r.matchAt (c :: (t ++ ' ' :: s)) = none := matchAt_word ht hstart
    rw [List.cons_append, find_cons hnone, ih htail hrest]

/-- A word at the end holds no match. -/
theorem find_last (ht : IsWord t) : r.find t = none := by
  induction t with
  | nil => rfl
  | cons c t ih =>
    have htail : IsWord t := fun d hd => ht d (List.mem_cons_of_mem _ hd)
    rw [find_cons, ih htail]
    apply matchAt_eq_none
    rintro rest ⟨u, tail, -, rfl⟩ hs
    exact (ht '=' (by rw [hs]; simp)).2 rfl

/-- The `==` of another assignment is skipped. -/
theorem find_equals (s : Text) : r.find ('=' :: '=' :: ' ' :: s) = r.find s := by
  rw [find_skip (head_key_ne (Or.inr rfl)), find_skip (head_key_ne (Or.inr rfl)),
    find_skip (head_key_ne (Or.inl rfl))]

/-- Where a value ends. -/
def Ends (r : Assignment) (s : Text) : Prop := ∀ c ∈ s.head?, r.isValue c = false

/-- **An assignment is found.** -/
theorem find_assignment (hv : v ≠ []) (hvalue : ∀ c ∈ v, r.isValue c = true ∧ isSpace c = false)
    (hquote : r.isValue '"' = false) (hs : r.Ends s) :
    r.find (r.key ++ ' ' :: '=' :: '=' :: ' ' :: (v ++ s)) = some v := by
  obtain ⟨b, v, rfl⟩ := List.exists_cons_of_ne_nil hv
  obtain ⟨hb, hbspace⟩ := hvalue b List.mem_cons_self
  have hnoquote : (b :: v ++ s).head? ≠ some '"' := by
    intro h
    rw [Option.some.inj h, hquote] at hb
    cases hb
  have htake : (b :: v ++ s).takeWhile r.isValue = b :: v := by
    rw [List.takeWhile_append_of_pos fun c hc => (hvalue c hc).1]
    cases s with
    | nil => exact List.append_nil _
    | cons c s => rw [List.takeWhile_cons_of_neg (Bool.eq_false_iff.mp (hs c rfl)), List.append_nil]
  have hmatch : r.matchAt (r.key ++ ' ' :: '=' :: '=' :: ' ' :: (b :: v ++ s)) = some (b :: v) := by
    have hkey := after_eq_some_iff.mpr (rfl : r.key ++ ' ' :: '=' :: '=' :: ' ' :: (b :: v ++ s) = _)
    have hdrop : (b :: v ++ s).dropWhile isSpace = b :: v ++ s :=
      List.dropWhile_cons_of_neg (Bool.eq_false_iff.mp hbspace)
    rw [matchAt, hkey]
    show r.valueAt ((b :: v ++ s).dropWhile isSpace) = _
    have hunquoted : ¬ (r.quoted = true ∧ (b :: v ++ s).head? = some '"') := fun h => hnoquote h.2
    simp only [hdrop, valueAt, if_neg hunquoted, htake]
    exact if_neg (List.cons_ne_nil _ _)
  obtain ⟨c, key, hcons⟩ := List.exists_cons_of_ne_nil r.key_ne_nil
  rw [hcons, List.cons_append] at hmatch ⊢
  rw [find, hmatch, Option.some_or]

end Assignment

end TextScan
