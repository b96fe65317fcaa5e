import Ebaf.DisplayFilter

/-! # What display filters mean

A comparison alone is read as it is written, and its words are looked for.  Two
comparisons with an operator are read as their conjunction whatever the operator
is, except that the second comparison of a field is not looked at; the words of
both are looked for as one text, seven blanks apart.
-/
namespace Ebaf
open TextScan

variable {Num : Type} {js : Runtime Num} {packet : ShownPacket Num}
  {infoText : Text} {field field' : FilterField} {c c' : Comparison} {a b : WrittenComparison}
  {op s t : Text}

/-! ## Characters -/

namespace FilterField

/-- Values are written in small letters, digits and three more characters. -/
theorem toNat_of_isValue {ch : Char} (h : field.isValue ch = true) :
    (97 ≤ ch.toNat ∧ ch.toNat ≤ 122) ∨ (48 ≤ ch.toNat ∧ ch.toNat ≤ 57) ∨ ch.toNat = 46 ∨
      ch.toNat = 95 ∨ ch.toNat = 45 := by
  have hdigit : ch.isDigit = true → 48 ≤ ch.toNat ∧ ch.toNat ≤ 57 := fun hd => by
    rw [Char.isDigit, Bool.and_eq_true, decide_eq_true_eq, decide_eq_true_eq] at hd
    exact hd
  cases field with
  | port => exact Or.inr (Or.inl (hdigit h))
  | src | dst =>
    rcases Bool.or_eq_true_iff.mp h with hd | hdot
    · exact Or.inr (Or.inl (hdigit hd))
    · rw [beq_iff_eq.mp hdot]
      decide
  | action | algo =>
    simp only [isValue, Bool.or_eq_true, Bool.and_eq_true, decide_eq_true_eq, beq_iff_eq] at h
    rcases h with ((⟨hlo, hhi⟩ | hd) | hunderscore) | hminus
    · exact Or.inl ⟨hlo, hhi⟩
    · exact Or.inr (Or.inl (hdigit hd))
    · rw [hunderscore]
      decide
    · rw [hminus]
      decide

theorem visible_of_isValue {ch : Char} (h : field.isValue ch = true) :
    isSpace ch = false ∧ ch ≠ '=' ∧ ch.toNat < 128 := by
  have hch := toNat_of_isValue h
  refine ⟨isSpace_of_visible (by omega) (by omega), ?_, by omega⟩
  rintro rfl
  have heq : '='.toNat = 61 := rfl
  omega

theorem isWord_value (v : field.Value) : IsWord v.1 :=
  fun ch hch => ⟨(visible_of_isValue (v.2.2 ch hch)).1, (visible_of_isValue (v.2.2 ch hch)).2.1⟩

theorem isWord_key (field : FilterField) : IsWord field.key := by
  cases field <;> decide

/-- No key is the end of another one. -/
theorem key_suffix (h : field ≠ field') : ¬ field.key <:+ field'.key := by
  cases field <;> cases field' <;> first | exact absurd rfl h | decide

end FilterField

theorem toNat_of_upper {ch : Char} (h : ch.val ≥ 'A'.val ∧ ch.val ≤ 'Z'.val) :
    65 ≤ ch.toNat ∧ ch.toNat ≤ 90 :=
  ⟨UInt32.le_iff_toNat_le.mp h.1, UInt32.le_iff_toNat_le.mp h.2⟩

theorem toLower_of_not_upper {ch : Char} (h : ¬ (ch.val ≥ 'A'.val ∧ ch.val ≤ 'Z'.val)) :
    ch.toLower = ch :=
  dif_neg h

/-- A letter is not white space. -/
theorem toLower_of_isSpace {ch : Char} (h : isSpace ch = true) : ch.toLower = ch := by
  apply toLower_of_not_upper
  intro hupper
  obtain ⟨hlo, hhi⟩ := toNat_of_upper hupper
  rw [isSpace_of_visible (by omega) (by omega)] at h
  cases h

theorem ascii_of_toLower {ch : Char} (h : ch.toLower.toNat < 128) : ch.toNat < 128 := by
  by_cases hupper : ch.val ≥ 'A'.val ∧ ch.val ≤ 'Z'.val
  · obtain ⟨-, hhi⟩ := toNat_of_upper hupper
    omega
  · rwa [toLower_of_not_upper hupper] at h

/-- White space at an end of a text is white space at that end in lower case. -/
theorem solid_of_map (h : Solid (s.map Char.toLower)) : Solid s := by
  have hkeep : ∀ ch, isSpace ch.toLower = false → isSpace ch = false := by
    intro ch hch
    by_contra hspace
    have htrue : isSpace ch = true := Bool.not_eq_false _ ▸ hspace
    rw [toLower_of_isSpace htrue, htrue] at hch
    cases hch
  constructor
  · intro hs
    exact h.ne_nil (by rw [hs]; rfl)
  · intro ch hch
    exact hkeep ch (h.head _ (by rw [List.head?_map, Option.mem_def.mp hch]; rfl))
  · intro ch hch
    exact hkeep ch (h.last _ (by rw [List.getLast?_map, Option.mem_def.mp hch]; rfl))

/-! ## The filter text -/

theorem Comparison.solid_text (c : Comparison) : Solid c.text := by
  cases c with
  | crypto => exact .of_ends rfl rfl rfl rfl
  | test field v =>
    have hkey : Solid field.key := by cases field <;> exact .of_ends rfl rfl rfl rfl
    have hvalue : Solid v.1 := by
      have hword := FilterField.isWord_value v
      exact ⟨v.2.1, fun ch hch => (hword ch (List.mem_of_mem_head? hch)).1,
        fun ch hch => (hword ch (List.mem_of_getLast? hch)).1⟩
    exact hkey.append hvalue [' ', '=', '=', ' ']

/-- A text whose characters are seen to be ASCII. -/
theorem ascii_of_all (h : (s.all fun ch => ch.toNat < 128) = true) : ∀ ch ∈ s, ch.toNat < 128 :=
  fun ch hch => of_decide_eq_true (List.all_eq_true.mp h ch hch)

theorem Comparison.ascii_text (c : Comparison) : ∀ ch ∈ c.text, ch.toNat < 128 := by
  cases c with
  | crypto => exact ascii_of_all rfl
  | test field v =>
    have hkey : ∀ ch ∈ field.key, ch.toNat < 128 := by cases field <;> exact ascii_of_all rfl
    have hequals : ∀ ch ∈ [' ', '=', '=', ' '], ch.toNat < 128 := ascii_of_all rfl
    intro ch hch
    rcases List.mem_append.mp hch with h | h
    · exact hkey ch h
    rcases List.mem_append.mp (show ch ∈ [' ', '=', '=', ' '] ++ v.1 from h) with h | h
    · exact hequals ch h
    · exact (FilterField.visible_of_isValue (v.2.2 ch h)).2.2

theorem WrittenComparison.ascii (a : WrittenComparison) : ∀ ch ∈ a.text, ch.toNat < 128 := by
  intro ch hch
  apply ascii_of_toLower
  apply a.meaning.ascii_text
  rw [← a.spelled]
  exact List.mem_map_of_mem hch

theorem WrittenComparison.solid (a : WrittenComparison) : Solid a.text :=
  solid_of_map (by rw [a.spelled]; exact a.meaning.solid_text)

/-- The operators. -/
def IsOperator (op : Text) : Prop := op = "&&".toList ∨ op = "||".toList

/-- What `matchesFilter` works on, for one comparison. -/
theorem lower_trim (js : Runtime Num) (a : WrittenComparison) :
    js.toLowerCase (trim a.text) = a.meaning.text := by
  rw [trim_solid a.solid, js.lower_ascii _ a.ascii, a.spelled]

/-- What it works on, for two. -/
theorem lower_trim_combine (js : Runtime Num) (hop : IsOperator op) (a b : WrittenComparison) :
    js.toLowerCase (trim (combine op a.text b.text)) =
      combine op a.meaning.text b.meaning.text := by
  have hsolid : Solid (combine op a.text b.text) := by
    have h := a.solid.append b.solid (' ' :: (op ++ [' ']))
    rwa [List.cons_append, List.append_assoc] at h
  have hopLower : op.map Char.toLower = op ∧ ∀ ch ∈ op, ch.toNat < 128 := by
    rcases hop with rfl | rfl <;> exact ⟨rfl, ascii_of_all rfl⟩
  have hascii : ∀ ch ∈ combine op a.text b.text, ch.toNat < 128 := by
    intro ch hch
    simp only [combine, List.mem_append, List.mem_cons] at hch
    rcases hch with h | rfl | h | rfl | h
    · exact a.ascii ch h
    · decide
    · exact hopLower.2 ch h
    · decide
    · exact b.ascii ch h
  rw [trim_solid hsolid, js.lower_ascii _ hascii, combine, combine, List.map_append,
    List.map_cons, List.map_append, List.map_cons, a.spelled, b.spelled, hopLower.1]
  rfl

/-! ## Comparisons are found -/

theorem isWord_operator (hop : IsOperator op) : IsWord op := by
  rcases hop with rfl | rfl <;> decide

/-- No key is the end of an operator or of `ebaf.crypto`. -/
theorem key_not_suffix (field : FilterField) :
    ¬ field.key <:+ "&&".toList ∧ ¬ field.key <:+ "||".toList ∧
      ¬ field.key <:+ "ebaf.crypto".toList := by
  cases field <;> decide

theorem isWord_crypto : IsWord Comparison.crypto.text := by
  have h : IsWord "ebaf.crypto".toList := by decide
  exact h

/-- The value of a comparison ends at the end of the text or at a blank. -/
theorem find_test (field : FilterField) (v : field.Value) (hs : field.regex.Ends s) :
    field.regex.find (field.key ++ ' ' :: '=' :: '=' :: ' ' :: (v.1 ++ s)) = some v.1 := by
  have hquote : field.regex.isValue '"' = false := by cases field <;> rfl
  have hvalue : ∀ ch ∈ v.1, field.regex.isValue ch = true ∧ isSpace ch = false :=
    fun ch hch => ⟨v.2.2 ch hch, (FilterField.isWord_value v ch hch).1⟩
  exact Assignment.find_assignment v.2.1 hvalue hquote hs

/-- A comparison of another field is skipped up to its value. -/
theorem find_other (h : field' ≠ field) (s : Text) :
    field.regex.find (field'.key ++ ' ' :: '=' :: '=' :: ' ' :: s) = field.regex.find s := by
  have hkey : ¬ field.regex.key <:+ field'.key := FilterField.key_suffix (Ne.symm h)
  rw [Assignment.find_word (FilterField.isWord_key field') (Or.inl hkey), Assignment.find_equals]

/-- A comparison by itself. -/
theorem find_text (field : FilterField) (c : Comparison) :
    field.regex.find c.text = c.valueOf field := by
  cases c with
  | crypto => exact Assignment.find_last isWord_crypto
  | test field' v =>
    by_cases h : field' = field
    · subst h
      have hend : field'.regex.Ends [] := by rintro _ ⟨⟩
      have hfound := find_test field' v hend
      rw [List.append_nil] at hfound
      rw [Comparison.valueOf, if_pos rfl]
      exact hfound
    · rw [Comparison.valueOf, if_neg h]
      exact (find_other h v.1).trans (Assignment.find_last (FilterField.isWord_value v))

/-- A comparison with something behind it. -/
theorem find_text_append (field : FilterField) (c : Comparison) (hs : ¬ Assignment.Continues s) :
    field.regex.find (c.text ++ ' ' :: s) = (c.valueOf field).or (field.regex.find s) := by
  cases c with
  | crypto =>
    rw [Comparison.valueOf, Option.none_or]
    exact Assignment.find_word isWord_crypto (Or.inl (key_not_suffix field).2.2)
  | test field' v =>
    have htext : (Comparison.test field' v).text ++ ' ' :: s =
        field'.key ++ ' ' :: '=' :: '=' :: ' ' :: (v.1 ++ ' ' :: s) :=
      List.append_assoc field'.key (' ' :: '=' :: '=' :: ' ' :: v.1) (' ' :: s)
    rw [htext]
    by_cases h : field' = field
    · subst h
      have hends : field'.regex.Ends (' ' :: s) := by
        rintro _ ⟨⟩
        cases field' <;> rfl
      rw [Comparison.valueOf, if_pos rfl, Option.some_or]
      exact find_test field' v hends
    · rw [Comparison.valueOf, if_neg h, Option.none_or]
      exact (find_other h _).trans (Assignment.find_word (FilterField.isWord_value v) (Or.inr hs))

/-- **The first comparison of a field is found**, whatever the operator is. -/
theorem find_combine (field : FilterField) (hop : IsOperator op) (c c' : Comparison) :
    field.regex.find (combine op c.text c'.text) = (c.valueOf field).or (c'.valueOf field) := by
  have hs : ¬ Assignment.Continues (op ++ ' ' :: c'.text) := by
    rcases hop with rfl | rfl <;> exact Assignment.not_continues_cons (by decide) (by decide) _
  have hop' : ¬ field.key <:+ op := by
    rcases hop with rfl | rfl
    · exact (key_not_suffix field).1
    · exact (key_not_suffix field).2.1
  rw [combine, find_text_append field c hs,
    Assignment.find_word (isWord_operator hop) (Or.inl hop'), find_text]

/-- `ebaf.crypto` is found in itself only. -/
theorem crypto_infix_text (c : Comparison) : "ebaf.crypto".toList <:+: c.text ↔ c = .crypto := by
  cases c with
  | crypto => exact ⟨fun _ => rfl, fun _ => List.infix_rfl⟩
  | test field v =>
    have hblank : ' ' ∉ "ebaf.crypto".toList := by decide
    have hne : "ebaf.crypto".toList ≠ [] := by decide
    have hkey : ¬ "ebaf.crypto".toList <:+: field.key := by cases field <;> decide
    have hequals : ¬ "ebaf.crypto".toList <:+: ['=', '='] := by decide
    have hvalue : ¬ "ebaf.crypto".toList <:+: v.1 := by
      intro h
      have hletter := v.2.2 'e' (h.subset (by decide))
      have hdot := v.2.2 '.' (h.subset (by decide))
      cases field <;> first | exact absurd hletter (by decide) | exact absurd hdot (by decide)
    have hnot : ¬ "ebaf.crypto".toList <:+: field.key ++ ' ' :: (['=', '='] ++ ' ' :: v.1) := by
      rw [infix_append_blank hblank hne, infix_append_blank hblank hne]
      rintro (h | h | h)
      · exact hkey h
      · exact hequals h
      · exact hvalue h
    constructor
    · exact fun h => absurd h hnot
    · intro h
      cases h

theorem crypto_infix_combine (hop : IsOperator op) (c c' : Comparison) :
    "ebaf.crypto".toList <:+: combine op c.text c'.text ↔ c = .crypto ∨ c' = .crypto := by
  have hblank : ' ' ∉ "ebaf.crypto".toList := by decide
  have hne : "ebaf.crypto".toList ≠ [] := by decide
  have hnot : ¬ "ebaf.crypto".toList <:+: op := by rcases hop with rfl | rfl <;> decide
  rw [combine, infix_append_blank hblank hne, infix_append_blank hblank hne, crypto_infix_text,
    crypto_infix_text]
  constructor
  · rintro (h | h | h)
    · exact Or.inl h
    · exact absurd h hnot
    · exact Or.inr h
  · rintro (h | h)
    · exact Or.inl h
    · exact Or.inr (Or.inr h)

/-! ## What is left of the filter -/

/-- The known tokens have no blank. -/
theorem knownTokens_noBlank : ∀ t ∈ knownTokens, t ≠ [] ∧ ' ' ∉ t := by
  decide

theorem blanked_append_blank (s t : Text) :
    blanked (s ++ ' ' :: t) = blanked s ++ ' ' :: blanked t := by
  rw [blanked, blankTokens_append_blank knownTokens_noBlank, blankRuns_append_blank (by decide),
    blanked, blanked]

/-- Numbers and addresses are blanked. -/
theorem blank_blanked_number (h : ∀ ch ∈ s, ch.isDigit = true ∨ ch = '.') : Blank (blanked s) := by
  have hstay : blankTokens knownTokens 0 s = s := by
    apply blankTokens_self
    have htokens : ∀ t ∈ knownTokens, t ≠ [] ∧
        t.head?.all (fun ch => !ch.isDigit && ch != '.') = true := by decide
    intro ch hch t ht
    obtain ⟨hne, hhead⟩ := htokens t ht
    refine ⟨hne, fun heq => ?_⟩
    rw [heq, Option.all_some, Bool.and_eq_true, Bool.not_eq_true', bne_iff_ne] at hhead
    obtain ⟨hdigit, hdot⟩ := hhead
    rcases h ch hch with hd | hd
    · rw [hdigit] at hd
      cases hd
    · exact hdot hd
  rw [blanked, hstay]
  apply blank_blankRuns
  intro ch hch
  rw [Bool.or_eq_true, beq_iff_eq]
  exact h ch hch

/-- **What is left of a comparison**: blanks, four in front of a word, and the word. -/
theorem blanked_text (c : Comparison) : ∃ u, Blank u ∧ blanked c.text = u ++ c.words ∧
    (c.words = [] ∨ u = List.replicate 4 ' ') := by
  have htest : ∀ (key v : Text), blanked (key ++ ' ' :: '=' :: '=' :: ' ' :: v) =
      (blanked key ++ ' ' :: (blanked ['=', '='] ++ [' '])) ++ blanked v := fun key v => by
    rw [blanked_append_blank]
    show blanked key ++ ' ' :: blanked (['=', '='] ++ ' ' :: v) = _
    rw [blanked_append_blank]
    simp
  have hkey : ∀ field : FilterField,
      Blank (blanked field.key ++ ' ' :: (blanked ['=', '='] ++ [' '])) := by
    intro field
    cases field <;> decide
  cases c with
  | crypto => exact ⟨blanked "ebaf.crypto".toList, by decide, (List.append_nil _).symm, Or.inl rfl⟩
  | test field v =>
    cases field with
    | action => exact ⟨_, hkey .action, htest _ v.1, Or.inr (by decide)⟩
    | algo => exact ⟨_, hkey .algo, htest _ v.1, Or.inr (by decide)⟩
    | port =>
      have hv : Blank (blanked v.1) := blank_blanked_number fun ch hch => Or.inl (v.2.2 ch hch)
      exact ⟨_, blank_append.mpr ⟨hkey .port, hv⟩, (htest _ v.1).trans (List.append_nil _).symm,
        Or.inl rfl⟩
    | src | dst =>
      have hv : Blank (blanked v.1) := by
        apply blank_blanked_number
        intro ch hch
        have hch := Bool.or_eq_true_iff.mp (v.2.2 ch hch)
        exact hch.imp id beq_iff_eq.mp
      exact ⟨_, blank_append.mpr ⟨hkey _, hv⟩, (htest _ v.1).trans (List.append_nil _).symm,
        Or.inl rfl⟩

/-- What is left of one comparison. -/
theorem trim_blanked (c : Comparison) : trim (blanked c.text) = trim c.words := by
  obtain ⟨u, hu, hc, -⟩ := blanked_text c
  rw [hc, trim_blank_append hu]

/-- The words of two comparisons as one text. -/
def joinedWords (c c' : Comparison) : Text :=
  trim (c.words ++ (List.replicate 7 ' ' ++ c'.words))

/-- **What is left of two**: their words, seven blanks apart. -/
theorem trim_blanked_combine (hop : IsOperator op) (c c' : Comparison) :
    trim (blanked (combine op c.text c'.text)) = joinedWords c c' := by
  obtain ⟨u, hu, hc, -⟩ := blanked_text c
  obtain ⟨u', hu', hc', hword⟩ := blanked_text c'
  have hopBlanked : blanked op = [' '] := by rcases hop with rfl | rfl <;> decide
  have hblanked : blanked (combine op c.text c'.text) =
      u ++ (c.words ++ (List.replicate 3 ' ' ++ u' ++ c'.words)) := by
    rw [combine, blanked_append_blank, blanked_append_blank, hopBlanked, hc, hc']
    simp [List.replicate]
  rw [hblanked, trim_blank_append hu, joinedWords]
  rcases hword with hnone | hfour
  · have hthree : Blank (List.replicate 3 ' ' ++ u') := blank_append.mpr ⟨by decide, hu'⟩
    have hseven : Blank (List.replicate 7 ' ') := by decide
    rw [hnone, List.append_nil, List.append_nil, trim_append_blank hthree,
      trim_append_blank hseven]
  · rw [hfour]
    rfl

/-! ## Reading filters -/

variable [DecidableEq Num]

/-- The tests of `matchesFilter` on a text. -/
def Passes (js : Runtime Num) (packet : ShownPacket Num) (f : Text) : Prop :=
  ("ebaf.crypto".toList <:+: f → packet.HasCrypto) ∧
    ∀ (field : FilterField) (value : Text), field.regex.find f = some value →
      field.agrees js packet value = true

theorem mem_filterFields (field : FilterField) :
    field ∈ [FilterField.port, .src, .dst, .action, .algo] := by
  cases field <;> decide

/-- **What `matchesFilter` answers**, from its tests and the words it looks for. -/
theorem matchesFilter_iff {filter f : Text} (hf : js.toLowerCase (trim filter) = f)
    (hne : f ≠ []) (hall : f ≠ "all".toList) :
    matchesFilter js packet infoText filter = true ↔
      Passes js packet f ∧
        (trim (blanked f) = [] ∨ trim (blanked f) <:+: packetText js packet infoText) := by
  rw [matchesFilter, hf]
  dsimp only
  rw [if_neg (not_or.mpr ⟨hne, hall⟩)]
  -- the answers in the order of the script: first the tests, each of which refuses
  by_cases hcrypto : "ebaf.crypto".toList <:+: f ∧ ¬ packet.HasCrypto
  · rw [if_pos hcrypto]
    constructor
    · intro h
      cases h
    · exact fun h => absurd (h.1.1 hcrypto.1) hcrypto.2
  rw [if_neg hcrypto]
  by_cases hany : ([FilterField.port, .src, .dst, .action, .algo].any fun field =>
      (field.regex.find f).any fun value => !field.agrees js packet value) = true
  · rw [if_pos hany]
    obtain ⟨field, -, hfield⟩ := List.any_eq_true.mp hany
    obtain ⟨value, hvalue, hfails⟩ := (Option.any_eq_true _ _).mp hfield
    constructor
    · intro h
      cases h
    · intro h
      rw [h.1.2 field value hvalue] at hfails
      cases hfails
  rw [if_neg hany]
  have hpasses : Passes js packet f := by
    constructor
    · exact fun h => not_not.mp fun hnot => hcrypto ⟨h, hnot⟩
    · intro field value hvalue
      by_contra hfails
      apply hany
      refine List.any_eq_true.mpr ⟨field, mem_filterFields field, ?_⟩
      refine (Option.any_eq_true _ _).mpr ⟨value, hvalue, ?_⟩
      rw [Bool.eq_false_iff.mpr hfails]
      rfl
  -- then the words that are left
  by_cases hleft : trim (blanked f) = []
  · rw [if_pos hleft]
    exact ⟨fun _ => ⟨hpasses, Or.inl hleft⟩, fun _ => rfl⟩
  · rw [if_neg hleft, decide_eq_true_iff]
    exact ⟨fun h => ⟨hpasses, Or.inr h⟩, fun h => h.2.resolve_left hleft⟩

/-- A text with an equals sign or a dot is neither empty nor `all`. -/
theorem text_ne_all (c : Comparison) : c.text ≠ [] ∧ c.text ≠ "all".toList := by
  refine ⟨c.solid_text.ne_nil, fun h => ?_⟩
  have hmem : '=' ∈ c.text ∨ '.' ∈ c.text := by
    cases c with
    | crypto => exact Or.inr (by decide)
    | test field v => exact Or.inl (List.mem_append_right _ (by simp))
  rw [h] at hmem
  exact absurd hmem (by decide)

theorem combine_ne_all (op : Text) (c c' : Comparison) :
    combine op c.text c'.text ≠ [] ∧ combine op c.text c'.text ≠ "all".toList := by
  have hmem : ' ' ∈ combine op c.text c'.text :=
    List.mem_append_right _ List.mem_cons_self
  constructor
  · intro h
    rw [h] at hmem
    cases hmem
  · intro h
    rw [h] at hmem
    exact absurd hmem (by decide)

/-- The tests of one comparison. -/
theorem passes_text (c : Comparison) : Passes js packet c.text ↔ c.Holds js packet := by
  rw [Passes, crypto_infix_text]
  simp only [find_text]
  cases c with
  | crypto =>
    constructor
    · exact fun h => h.1 rfl
    · intro h
      refine ⟨fun _ => h, fun field value hvalue => ?_⟩
      cases hvalue
  | test field v =>
    constructor
    · exact fun h => h.2 field v.1 (if_pos rfl)
    · intro h
      refine ⟨fun hcrypto => ?_, fun field' value hvalue => ?_⟩
      · cases hcrypto
      · rw [Comparison.valueOf] at hvalue
        split at hvalue
        · rename_i hfield
          subst hfield
          cases hvalue
          exact h
        · cases hvalue

/-- The tests of two comparisons: at least those of the first one. -/
theorem holds_of_passes (hop : IsOperator op)
    (h : Passes js packet (combine op c.text c'.text)) : c.Holds js packet := by
  rw [Passes, crypto_infix_combine hop] at h
  simp only [find_combine _ hop] at h
  cases c with
  | crypto => exact h.1 (Or.inl rfl)
  | test field v => exact h.2 field v.1 (by rw [Comparison.valueOf, if_pos rfl, Option.some_or])

/-- At most those of both. -/
theorem passes_of_holds (hop : IsOperator op) (hc : c.Holds js packet)
    (hc' : c'.Holds js packet) : Passes js packet (combine op c.text c'.text) := by
  have hfirst := (passes_text c).mpr hc
  have hsecond := (passes_text c').mpr hc'
  rw [Passes, crypto_infix_text] at hfirst hsecond
  simp only [find_text] at hfirst hsecond
  rw [Passes, crypto_infix_combine hop]
  simp only [find_combine _ hop]
  constructor
  · rintro (h | h)
    · exact hfirst.1 h
    · exact hsecond.1 h
  · intro field value hvalue
    rcases Option.or_eq_some_iff.mp hvalue with h | ⟨-, h⟩
    · exact hfirst.2 field value h
    · exact hsecond.2 field value h

/-! ## The meaning -/

/-- **One comparison** is read as it is written. -/
theorem matchesFilter_text (a : WrittenComparison) :
    matchesFilter js packet infoText a.text = true ↔ a.meaning.Reads js packet infoText := by
  obtain ⟨hne, hall⟩ := text_ne_all a.meaning
  rw [matchesFilter_iff (lower_trim js a) hne hall, passes_text, trim_blanked, Comparison.Reads]

/-- **Two comparisons** pass the same test with either operator. -/
theorem matchesFilter_combine (hop : IsOperator op) (a b : WrittenComparison) :
    matchesFilter js packet infoText (combine op a.text b.text) = true ↔
      Passes js packet (combine op a.meaning.text b.meaning.text) ∧
        (joinedWords a.meaning b.meaning = [] ∨
          joinedWords a.meaning b.meaning <:+: packetText js packet infoText) := by
  obtain ⟨hne, hall⟩ := combine_ne_all op a.meaning b.meaning
  rw [matchesFilter_iff (lower_trim_combine js hop a b) hne hall, trim_blanked_combine hop]

/-- **The operators are alike.** -/
theorem operators_alike {op' : Text} (hop : IsOperator op) (hop' : IsOperator op') :
    matchesFilter js packet infoText (combine op a.text b.text) = true ↔
      matchesFilter js packet infoText (combine op' a.text b.text) = true := by
  rw [matchesFilter_combine hop, matchesFilter_combine hop', Passes, Passes,
    crypto_infix_combine hop, crypto_infix_combine hop']
  simp only [find_combine _ hop, find_combine _ hop']

/-- **The first comparison is always asked for.** -/
theorem reads_of_matchesFilter (hop : IsOperator op)
    (h : matchesFilter js packet infoText (combine op a.text b.text) = true) :
    a.meaning.Reads js packet infoText := by
  obtain ⟨hpasses, hwords⟩ := (matchesFilter_combine hop a b).mp h
  refine ⟨holds_of_passes hop hpasses, ?_⟩
  have hpart : trim a.meaning.words <:+: joinedWords a.meaning b.meaning := trim_infix _ _
  rcases hwords with hnone | hfound
  · rw [hnone] at hpart
    exact Or.inl (List.infix_nil.mp hpart)
  · exact Or.inr (hpart.trans hfound)

/-- The comparisons both leave a word, and the words are not found as one text. -/
def WordsMissed (js : Runtime Num) (packet : ShownPacket Num) (infoText : Text)
    (c c' : Comparison) : Prop :=
  trim c.words ≠ [] ∧ trim c'.words ≠ [] ∧
    ¬ joinedWords c c' <:+: packetText js packet infoText

/-- **When both comparisons hold** only their words can fail the filter. -/
theorem matchesFilter_of_reads (hop : IsOperator op) (ha : a.meaning.Reads js packet infoText)
    (hb : b.meaning.Reads js packet infoText) :
    matchesFilter js packet infoText (combine op a.text b.text) = true ↔
      ¬ WordsMissed js packet infoText a.meaning b.meaning := by
  have hgap : Blank (List.replicate 7 ' ') := by decide
  have hpasses := passes_of_holds hop ha.1 hb.1
  rw [matchesFilter_combine hop]
  by_cases hfirst : trim a.meaning.words = []
  · have hjoined : joinedWords a.meaning b.meaning = trim b.meaning.words := by
      rw [joinedWords, ← List.append_assoc,
        trim_blank_append (blank_append.mpr ⟨trim_eq_nil_iff.mp hfirst, hgap⟩)]
    rw [hjoined]
    exact ⟨fun _ h => h.1 hfirst, fun _ => ⟨hpasses, hb.2⟩⟩
  by_cases hsecond : trim b.meaning.words = []
  · have hjoined : joinedWords a.meaning b.meaning = trim a.meaning.words := by
      rw [joinedWords,
        trim_append_blank (blank_append.mpr ⟨hgap, trim_eq_nil_iff.mp hsecond⟩)]
    rw [hjoined]
    exact ⟨fun _ h => h.2.1 hsecond, fun _ => ⟨hpasses, ha.2⟩⟩
  · have hjoined : joinedWords a.meaning b.meaning ≠ [] := by
      intro h
      have hpart : trim a.meaning.words <:+: joinedWords a.meaning b.meaning := trim_infix _ _
      rw [h] at hpart
      exact hfirst (List.infix_nil.mp hpart)
    constructor
    · exact fun h hmissed => hmissed.2.2 (h.2.resolve_left hjoined)
    · exact fun h => ⟨hpasses, Or.inr (not_not.mp fun hnot => h ⟨hfirst, hsecond, hnot⟩)⟩

/-- The operators have their Boolean meaning for two comparisons. -/
def MeansBoolean (js : Runtime Num) (packet : ShownPacket Num) (infoText : Text)
    (a b : WrittenComparison) : Prop :=
  (matchesFilter js packet infoText (combine "&&".toList a.text b.text) = true ↔
    matchesFilter js packet infoText a.text = true ∧
      matchesFilter js packet infoText b.text = true) ∧
  (matchesFilter js packet infoText (combine "||".toList a.text b.text) = true ↔
    matchesFilter js packet infoText a.text = true ∨
      matchesFilter js packet infoText b.text = true)

/-- **The operators have their Boolean meaning exactly when** the packet has what both
comparisons ask for or what neither asks for, and in the first case their words are
not missed. -/
theorem filters_meanBoolean_iff (js : Runtime Num) (packet : ShownPacket Num) (infoText : Text)
    (a b : WrittenComparison) : MeansBoolean js packet infoText a b ↔
      (a.meaning.Reads js packet infoText ↔ b.meaning.Reads js packet infoText) ∧
        ¬ (a.meaning.Reads js packet infoText ∧
          WordsMissed js packet infoText a.meaning b.meaning) := by
  have hand : IsOperator "&&".toList := Or.inl rfl
  have hor : IsOperator "||".toList := Or.inr rfl
  rw [MeansBoolean, matchesFilter_text, matchesFilter_text]
  by_cases ha : a.meaning.Reads js packet infoText
  · by_cases hb : b.meaning.Reads js packet infoText
    · rw [matchesFilter_of_reads hand ha hb, matchesFilter_of_reads hor ha hb]
      constructor
      · exact fun h => ⟨⟨fun _ => hb, fun _ => ha⟩, fun hmissed => h.1.mpr ⟨ha, hb⟩ hmissed.2⟩
      · rintro ⟨-, h⟩
        have hfound : ¬ WordsMissed js packet infoText a.meaning b.meaning := fun hmissed =>
          h ⟨ha, hmissed⟩
        exact ⟨⟨fun _ => ⟨ha, hb⟩, fun _ => hfound⟩, ⟨fun _ => Or.inl ha, fun _ => hfound⟩⟩
    · constructor
      · rintro ⟨hconj, hdisj⟩
        have hmatches := (operators_alike hor hand).mp (hdisj.mpr (Or.inl ha))
        exact absurd (hconj.mp hmatches).2 hb
      · exact fun h => absurd (h.1.mp ha) hb
  · have hfails : ∀ {op}, IsOperator op →
        ¬ matchesFilter js packet infoText (combine op a.text b.text) = true :=
      fun hop h => ha (reads_of_matchesFilter hop h)
    constructor
    · rintro ⟨-, hdisj⟩
      have hb : ¬ b.meaning.Reads js packet infoText := fun hb =>
        hfails hor (hdisj.mpr (Or.inr hb))
      exact ⟨⟨fun h => absurd h ha, fun h => absurd h hb⟩, fun h => ha h.1⟩
    · rintro ⟨hsame, -⟩
      have hb : ¬ b.meaning.Reads js packet infoText := fun hb => ha (hsame.mpr hb)
      refine ⟨⟨fun h => absurd h (hfails hand), fun h => absurd h.1 ha⟩,
        ⟨fun h => absurd h (hfails hor), ?_⟩⟩
      rintro (h | h)
      · exact absurd h ha
      · exact absurd h hb

/-! ## A filter that finds nothing -/

theorem map_toLower_value (v : field.Value) : v.1.map Char.toLower = v.1 := by
  have hkeep : ∀ ch ∈ v.1, ch.toLower = ch := by
    intro ch hch
    have hvalue := FilterField.toNat_of_isValue (v.2.2 ch hch)
    apply toLower_of_not_upper
    intro hupper
    have hrange := toNat_of_upper hupper
    omega
  exact (List.map_congr_left hkeep).trans (List.map_id' _)

/-- A comparison in small letters. -/
def Comparison.written (c : Comparison) : WrittenComparison where
  text := c.text
  meaning := c
  spelled := by
    cases c with
    | crypto => decide
    | test field v =>
      have hkey : field.key.map Char.toLower = field.key := by cases field <;> decide
      have hequals : [' ', '=', '=', ' '].map Char.toLower = [' ', '=', '=', ' '] := by decide
      have hrest : ([' ', '=', '=', ' '] ++ v.1).map Char.toLower = [' ', '=', '=', ' '] ++ v.1 :=
        List.map_append.trans (congrArg₂ (· ++ ·) hequals (map_toLower_value v))
      exact List.map_append.trans (congrArg₂ (· ++ ·) hkey hrest)

/-- A runtime for text in ASCII. -/
def asciiRuntime : Runtime Nat where
  toLowerCase := List.map Char.toLower
  lower_ascii := fun _ _ => rfl
  number := fun digits => digits.foldl (fun n c => n * 10 + (c.toNat - 48)) 0
  numberText := fun n => n.repr.toList

/-- A packet encrypted with `cbc-aes`. -/
def encryptedPacket : ShownPacket Nat where
  src := none
  dst := none
  srcPort := none
  dstPort := some 7777
  action := some "encrypt".toList
  algo := some "cbc-aes".toList
  cipherHex := none

/-- `action == encrypt` -/
def actionFilter : WrittenComparison :=
  (Comparison.test .action ⟨"encrypt".toList, by decide, List.all_eq_true.mp rfl⟩).written

/-- `algo == cbc-aes` -/
def algoFilter : WrittenComparison :=
  (Comparison.test .algo ⟨"cbc-aes".toList, by decide, List.all_eq_true.mp rfl⟩).written

/-- `action == encrypt && algo == cbc-aes` does not match it. -/
theorem filters_not_meanBoolean : ¬ ∀ (packet : ShownPacket Nat) (infoText : Text)
    (a b : WrittenComparison), MeansBoolean asciiRuntime packet infoText a b := by
  intro h
  have haction : FilterField.action.agrees asciiRuntime encryptedPacket "encrypt".toList = true := by
    decide
  have halgo : FilterField.algo.agrees asciiRuntime encryptedPacket "cbc-aes".toList = true := by
    decide
  have ha : actionFilter.meaning.Reads asciiRuntime encryptedPacket [] :=
    ⟨haction, Or.inr (by decide)⟩
  have hb : algoFilter.meaning.Reads asciiRuntime encryptedPacket [] :=
    ⟨halgo, Or.inr (by decide)⟩
  have hmissed : WordsMissed asciiRuntime encryptedPacket [] actionFilter.meaning
      algoFilter.meaning := by
    refine ⟨?_, ?_, ?_⟩
    · decide
    · decide
    · decide
  have hconj := (h encryptedPacket [] actionFilter algoFilter).1.mpr
    ⟨(matchesFilter_text actionFilter).mpr ha, (matchesFilter_text algoFilter).mpr hb⟩
  exact (matchesFilter_of_reads (Or.inl rfl) ha hb).mp hconj hmissed

end Ebaf
