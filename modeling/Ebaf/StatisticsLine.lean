import Ebaf.Dashboard
import Ebaf.PacketStatistics

/-! # The statistics line

`ebaf_bpf_print_stats` writes the totals on one line, `update_stats_from_line`
splits the line into words and reads the ones of the form `key=value`.  Every
counter is read as it was written.
-/
namespace Ebaf
open CStrings

/-! ## Words -/

variable {s rest word : CString} {b : UInt8}

theorem splitWords_space (hb : pySpace b = true) :
    splitWords word (b :: s) = splitWords word [] ++ splitWords [] s := by
  simp only [splitWords, if_pos hb]
  split <;> rfl

theorem splitWords_letter (hb : ¬ pySpace b = true) :
    splitWords word (b :: s) = splitWords (word ++ [b]) s := by
  rw [splitWords, if_neg hb]

theorem plain_of_all (h : (s.all fun b => !pySpace b) = true) : ∀ b ∈ s, pySpace b = false :=
  fun b hb => Bool.not_eq_true' _ ▸ List.all_eq_true.mp h b hb

/-- A word goes on as long as there is no space. -/
theorem splitWords_append (h : ∀ b ∈ s, pySpace b = false) :
    splitWords word (s ++ rest) = splitWords (word ++ s) rest := by
  induction s generalizing word with
  | nil => rw [List.nil_append, List.append_nil]
  | cons b s ih =>
    have hb : ¬ pySpace b = true := by
      rw [h b (List.mem_cons_self ..)]
      exact Bool.false_ne_true
    rw [List.cons_append, splitWords_letter hb, ih fun c hc => h c (List.mem_cons_of_mem _ hc),
      List.append_assoc, List.singleton_append]

theorem splitWords_spaces (h : ∀ b ∈ s, pySpace b = true) :
    splitWords word s = splitWords word [] := by
  induction s generalizing word with
  | nil => rfl
  | cons b s ih =>
    rw [splitWords_space (h b (List.mem_cons_self ..)),
      ih fun c hc => h c (List.mem_cons_of_mem _ hc)]
    exact List.append_nil _

/-- Spaces behind a text make no words. -/
theorem splitWords_append_spaces (h : ∀ b ∈ rest, pySpace b = true) :
    splitWords word (s ++ rest) = splitWords word s := by
  induction s generalizing word with
  | nil => exact splitWords_spaces h
  | cons b s ih =>
    by_cases hb : pySpace b = true
    · rw [List.cons_append, splitWords_space hb, splitWords_space hb, ih]
    · rw [List.cons_append, splitWords_letter hb, splitWords_letter hb, ih]

theorem splitWords_lstrip (s : CString) : splitWords [] (lstrip s) = splitWords [] s := by
  induction s with
  | nil => rfl
  | cons b s ih =>
    rw [lstrip, List.dropWhile_cons]
    split
    · rename_i hb
      rw [splitWords_space hb]
      exact ih
    · rfl

/-- **The words of a text are those of the text without the spaces around it.** -/
theorem splitWords_strip (s : CString) : splitWords [] (strip s) = splitWords [] s := by
  have hsplit : lstrip s = strip s ++ ((lstrip s).reverse.takeWhile pySpace).reverse := by
    rw [strip, ← List.reverse_append, List.takeWhile_append_dropWhile, List.reverse_reverse]
  have hspaces : ∀ b ∈ ((lstrip s).reverse.takeWhile pySpace).reverse, pySpace b = true :=
    fun b hb => List.mem_takeWhile_imp (List.mem_reverse.mp hb)
  rw [← splitWords_lstrip s, hsplit, splitWords_append_spaces hspaces]

/-! ## Values -/

/-- A word that assigns a number to a key. -/
def assignment (key : CString) (n : Nat) : CString := key ++ (lit "=" ++ decimal n)

theorem keyValue_assignment {key : CString} (h : 61 ∉ key) (n : Nat) :
    keyValue (assignment key n) = some (key, n) := by
  have hkey : ∀ b ∈ key, decide (b ≠ 61) = true :=
    fun b hb => decide_eq_true fun heq => h (heq ▸ hb)
  have hdrop : (assignment key n).dropWhile (· ≠ 61) = 61 :: decimal n := by
    rw [assignment, List.dropWhile_append_of_pos hkey]
    rfl
  have htake : (assignment key n).takeWhile (· ≠ 61) = key := by
    rw [assignment, List.takeWhile_append_of_pos hkey]
    exact List.append_nil key
  have hmem : 61 ∈ assignment key n := List.mem_append_right _ (List.mem_cons_self ..)
  have hdigits : ((decimal n).all fun b => IsDigit b) = true :=
    List.all_eq_true.mpr fun b hb => decide_eq_true (isDigit_decimal n b hb)
  rw [keyValue, hdrop, htake, List.drop_one, List.tail_cons,
    if_pos ⟨hmem, decimal_ne_nil n, hdigits⟩, digitsValue_decimal]

/-- What the words do to the dictionary. -/
def addWord (parts : StatsDict) (word : CString) : StatsDict :=
  match keyValue word with
  | some (key, value) => Function.update parts key (some value)
  | none => parts

theorem lineParts_eq (line : CString) :
    lineParts line = (splitWords [] line).foldl addWord fun _ => none := by
  rw [← splitWords_strip]
  rfl

/-- Words that assign to other keys leave a key alone. -/
theorem foldl_addWord_of_not_mem {entries : List (CString × Nat)} {parts : StatsDict}
    {key : CString} (hequals : ∀ entry ∈ entries, 61 ∉ entry.1)
    (h : ∀ entry ∈ entries, entry.1 ≠ key) :
    ((entries.map fun entry => assignment entry.1 entry.2).foldl addWord parts) key = parts key := by
  induction entries generalizing parts with
  | nil => rfl
  | cons entry entries ih =>
    rw [List.map_cons, List.foldl_cons, ih (fun e he => hequals e (List.mem_cons_of_mem _ he))
      fun e he => h e (List.mem_cons_of_mem _ he)]
    rw [addWord, keyValue_assignment (hequals entry (List.mem_cons_self ..))]
    exact Function.update_of_ne (h entry (List.mem_cons_self ..)).symm _ _

/-- **Of different keys each gets its value.** -/
theorem foldl_addWord_of_mem {entries : List (CString × Nat)} {parts : StatsDict}
    {entry : CString × Nat} (hequals : ∀ entry ∈ entries, 61 ∉ entry.1)
    (hnodup : (entries.map Prod.fst).Nodup) (h : entry ∈ entries) :
    ((entries.map fun entry => assignment entry.1 entry.2).foldl addWord parts) entry.1 =
      some entry.2 := by
  induction entries generalizing parts with
  | nil => cases h
  | cons first entries ih =>
    have hrest : ∀ e ∈ entries, 61 ∉ e.1 := fun e he => hequals e (List.mem_cons_of_mem _ he)
    rw [List.map_cons, List.nodup_cons] at hnodup
    rw [List.map_cons, List.foldl_cons]
    rcases List.mem_cons.mp h with rfl | h
    · have hothers : ∀ e ∈ entries, e.1 ≠ entry.1 := by
        intro e he heq
        exact hnodup.1 (heq ▸ List.mem_map_of_mem he)
      rw [foldl_addWord_of_not_mem hrest hothers, addWord,
        keyValue_assignment (hequals entry (List.mem_cons_self ..))]
      exact Function.update_self ..
    · exact ih hrest hnodup.2 h

/-! ## The line -/

/-- The key of a counter on the line. -/
def Counter.key : Counter → CString
  | .packetsSeen => lit "seen"
  | .packetsPassed => lit "passed"
  | .packetsCryptoOk => lit "crypto_ok"
  | .packetsCryptoFail => lit "crypto_fail"
  | .packetsMalformed => lit "malformed"
  | .packetsBadEth => lit "bad_eth"
  | .packetsBadIp => lit "bad_ip"
  | .packetsBadUdp => lit "bad_udp"
  | .packetsBadMagic => lit "bad_magic"
  | .packetsBadLength => lit "bad_length"
  | .packetsBadAlignment => lit "bad_alignment"
  | .packetsNoCryptoCtx => lit "no_crypto_ctx"

/-- The counters behind `seen`, in the order they are printed. -/
def Counter.others : List Counter :=
  [.packetsPassed, .packetsCryptoOk, .packetsCryptoFail, .packetsMalformed, .packetsBadEth,
    .packetsBadIp, .packetsBadUdp, .packetsBadMagic, .packetsBadLength, .packetsBadAlignment,
    .packetsNoCryptoCtx]

/-- What `ebaf_bpf_print_stats` prints of the totals. -/
def statsLine (total : EbafCryptoStats) : CString :=
  printf (lit "seen=%llu passed=%llu crypto_ok=%llu crypto_fail=%llu malformed=%llu " ++
      (lit "bad_eth=%llu bad_ip=%llu bad_udp=%llu bad_magic=%llu bad_length=%llu " ++
        lit "bad_alignment=%llu no_crypto_ctx=%llu\n"))
    ((.packetsSeen :: Counter.others).map fun c => decimal (total c).toNat)

theorem not_pySpace_of_isDigit (h : IsDigit b) : pySpace b = false := by
  have hge : 48 ≤ b.toNat := UInt8.le_iff_toNat_le.mp h.1
  have hle : ∀ k : UInt8, k.toNat < 48 → decide (b ≤ k) = false := by
    intro k hk
    refine decide_eq_false fun hb => ?_
    have hb' := UInt8.le_iff_toNat_le.mp hb
    omega
  rw [pySpace, hle 13 (by decide), hle 32 (by decide), Bool.and_false, Bool.and_false]
  rfl

/-- The words of assignments printed one behind the other. -/
theorem splitWords_fill {entries : List (CString × Nat)} {n : Nat}
    (h : ∀ entry ∈ entries, ∀ b ∈ entry.1, pySpace b = false) :
    splitWords word (fill (entries.map (fun entry => lit " " ++ (entry.1 ++ lit "=")) ++ [lit "\n"])
        (decimal n :: entries.map fun entry => decimal entry.2)) =
      (word ++ decimal n) :: entries.map fun entry => assignment entry.1 entry.2 := by
  have hdigits : ∀ n, ∀ b ∈ decimal n, pySpace b = false :=
    fun n b hb => not_pySpace_of_isDigit (isDigit_decimal n b hb)
  have hend : ∀ word n, splitWords (word ++ decimal n) [] = [word ++ decimal n] :=
    fun word n => if_neg fun hnil => decimal_ne_nil n (List.append_eq_nil_iff.mp hnil).2
  -- the word in front is the key of the value that is printed first
  induction entries generalizing word n with
  | nil =>
    show splitWords word (decimal n ++ (10 :: [])) = _
    rw [splitWords_append (hdigits n), splitWords_space rfl, hend]
    rfl
  | cons entry entries ih =>
    have hkey : ∀ b ∈ entry.1 ++ lit "=", pySpace b = false := by
      intro b hb
      rcases List.mem_append.mp hb with hb | hb
      · exact h entry (List.mem_cons_self ..) b hb
      · rw [List.mem_singleton.mp hb]
        rfl
    show splitWords word (decimal n ++ (32 :: ((entry.1 ++ lit "=") ++ fill _ _))) = _
    rw [splitWords_append (hdigits n), splitWords_space rfl, hend, splitWords_append hkey,
      List.nil_append]
    refine congrArg ([word ++ decimal n] ++ ·) ?_
    refine (ih fun e he => h e (List.mem_cons_of_mem _ he)).trans ?_
    rw [List.append_assoc]
    rfl

/-- A key has no space and no equals sign. -/
theorem Counter.key_plain (c : Counter) : (∀ b ∈ c.key, pySpace b = false) ∧ 61 ∉ c.key := by
  have hall : (c.key.all fun b => !pySpace b && b != 61) = true := by
    cases c <;> rfl
  have hplain : ∀ b ∈ c.key, pySpace b = false ∧ b ≠ 61 := by
    intro b hb
    have hb' := List.all_eq_true.mp hall b hb
    rwa [Bool.and_eq_true, Bool.not_eq_true', bne_iff_ne] at hb'
  exact ⟨fun b hb => (hplain b hb).1, fun hmem => (hplain 61 hmem).2 rfl⟩

theorem Counter.key_injective : Function.Injective Counter.key := by
  intro c c' h
  cases c <;> cases c' <;> first | rfl | (revert h; decide)

/-- The entries of the line. -/
def statsEntries (total : EbafCryptoStats) : List (CString × Nat) :=
  (.packetsSeen :: Counter.others).map fun c => (c.key, (total c).toNat)

theorem statsLine_eq (total : EbafCryptoStats) :
    statsLine total = lit "seen=" ++
      fill ((statsEntries total).tail.map (fun entry => lit " " ++ (entry.1 ++ lit "=")) ++
          [lit "\n"])
        (decimal (total .packetsSeen).toNat ::
          (statsEntries total).tail.map fun entry => decimal entry.2) := by
  rfl

/-- **The words of the line.** -/
theorem splitWords_statsLine (total : EbafCryptoStats) : splitWords [] (statsLine total) =
    (statsEntries total).map fun entry => assignment entry.1 entry.2 := by
  have hkeys : ∀ entry ∈ (statsEntries total).tail, ∀ b ∈ entry.1, pySpace b = false := by
    intro entry hentry
    obtain ⟨c, -, rfl⟩ := List.mem_map.mp (List.mem_of_mem_tail hentry)
    exact c.key_plain.1
  rw [statsLine_eq, splitWords_append (plain_of_all rfl), splitWords_fill hkeys]
  rfl

theorem handedOn_statsLine (r : Reader) (total : EbafCryptoStats) :
    r.handedOn (statsLine total) = r.label ++ (lit ": " ++ statsLine total) := by
  have hhead : (lstrip (statsLine total)).head? = some 115 := by
    rw [statsLine_eq]
    rfl
  rw [Reader.handedOn, hhead]
  exact if_neg (by decide)

/-- **What a process prints is what the dashboard reads**, whichever reader hands the
line on. -/
theorem lineParts_statsLine (r : Reader) (total : EbafCryptoStats) (c : Counter) :
    lineParts (r.handedOn (statsLine total)) c.key = some (total c).toNat := by
  have hhanded : r.handedOn (statsLine total) = (r.label ++ lit ":") ++ (32 :: statsLine total) :=
    (handedOn_statsLine r total).trans (List.append_assoc r.label (lit ":") _).symm
  have hplain : ∀ b ∈ r.label ++ lit ":", pySpace b = false := by
    cases r <;> exact plain_of_all rfl
  have hlabel : splitWords (r.label ++ lit ":") [] = [r.label ++ lit ":"] := by
    cases r <;> rfl
  have hequals : ∀ entry ∈ statsEntries total, 61 ∉ entry.1 := by
    intro entry hentry
    obtain ⟨c, -, rfl⟩ := List.mem_map.mp hentry
    exact c.key_plain.2
  have hnodup : ((statsEntries total).map Prod.fst).Nodup := by
    rw [statsEntries, List.map_map]
    exact (List.Nodup.map Counter.key_injective (by decide))
  have hmem : (c.key, (total c).toNat) ∈ statsEntries total := by
    refine List.mem_map_of_mem ?_
    cases c <;> decide
  rw [lineParts_eq, hhanded, splitWords_append hplain, splitWords_space rfl,
    List.nil_append, hlabel, splitWords_statsLine, List.singleton_append, List.foldl_cons]
  exact foldl_addWord_of_mem hequals hnodup hmem

/-- Stripping keeps a first letter. -/
theorem head?_strip (hb : ¬ pySpace b = true) : (strip (b :: s)).head? = some b := by
  have hlast : ∃ front, (s.reverse ++ [b]).dropWhile pySpace = front ++ [b] := by
    rw [List.dropWhile_append]
    split
    · exact ⟨[], List.dropWhile_cons_of_neg hb⟩
    · exact ⟨_, rfl⟩
  obtain ⟨front, hfront⟩ := hlast
  rw [strip, lstrip, List.dropWhile_cons_of_neg hb, List.reverse_cons, hfront,
    List.reverse_append]
  rfl

/-- A statistics line is no event. -/
theorem lineEvent_statsLine (loads : CString → Option TcEvent) (r : Reader)
    (total : EbafCryptoStats) : lineEvent loads (r.handedOn (statsLine total)) = none := by
  rw [handedOn_statsLine, lineEvent]
  refine if_neg ?_
  cases r with
  | encrypt =>
    show ¬ (strip (101 :: _)).head? = some 123
    rw [head?_strip (by decide)]
    decide
  | decrypt =>
    show ¬ (strip (100 :: _)).head? = some 123
    rw [head?_strip (by decide)]
    decide

end Ebaf
