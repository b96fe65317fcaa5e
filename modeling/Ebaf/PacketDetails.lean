import Ebaf.Columns
import Ebaf.PageSelection
import Ebaf.Pipeline

/-! # The panes below the packet table

`renderSelected` shows the sample of the selected packet twice, as hexadecimal numbers with
their offsets and as characters.  The page has cut the sample out of the text it got, which
the dashboard has made of another text; what can be read in the pane are still the bytes
that the cipher call left.
-/
namespace Ebaf
open CStrings EarlyExit Runs JsonText TextScan Columns

/-! ## The script -/

namespace Page

/-- `match(/.{1,2}/g)`, where no line ends. -/
def pairsOf : Text → List Text
  | [] => []
  | [a] => [[a]]
  | a :: b :: s => [a, b] :: pairsOf s

/-- `splitBytes` -/
def splitBytes (hexText : Text) : List Text :=
  pairsOf (hexText.filter fun c => !TextScan.isSpace c)

/-- `i.toString(16).padStart(4, "0")` -/
def offsetText (i : Nat) : Text := (Nat.toDigits 16 i).leftpad 4 '0'

/-- The line of `groupedHex` from byte `i` on. -/
def dumpLine (bytes : List Text) (i : Nat) : Text :=
  let chunk := ((bytes.drop i).take 16).map fun b => ' ' :: (b ++ [' '])
  let left := (chunk.take 8).flatten
  let right := (chunk.drop 8).flatten
  offsetText i ++ "  ".toList ++ left.rightpad 32 ' ' ++ ' ' :: right

/-- `groupedHex` -/
def groupedHex (cipherHex : Text) : Text :=
  let bytes := splitBytes cipherHex
  ['\n'].intercalate ((steps 16 bytes.length).map (dumpLine bytes))

/-- The value of a digit of either case. -/
def digitOf (c : Char) : Option Nat :=
  if '0' ≤ c ∧ c ≤ '9' then some (c.toNat - 48)
  else if 'a' ≤ c ∧ c ≤ 'f' then some (c.toNat - 87)
  else if 'A' ≤ c ∧ c ≤ 'F' then some (c.toNat - 55)
  else none

/-- `parseInt(b, 16)` of a text without white space: a sign, `0x`, and the digits up to the
first character that is none. -/
def parseInt16 (b : Text) : Option Int :=
  let unsigned := if b.head? = some '-' ∨ b.head? = some '+' then b.tail else b
  let rest :=
    if unsigned.take 2 = ['0', 'x'] ∨ unsigned.take 2 = ['0', 'X'] then unsigned.drop 2 else unsigned
  let digits := rest.takeWhile fun c => (digitOf c).isSome
  let n := digits.foldl (fun n c => n * 16 + (digitOf c).getD 0) 0
  if digits = [] then none else if b.head? = some '-' then some (-n) else some n

/-- A pair as a character. -/
def charOf (b : Text) : Char :=
  match parseInt16 b with
  | some n => if 32 ≤ n ∧ n ≤ 126 then Char.ofNat n.toNat else '.'
  | none => '.'

/-- `asciiFromHex` -/
def asciiFromHex (hexText : Text) : Text :=
  let chars := (splitBytes hexText).map charOf
  ['\n'].intercalate ((steps 16 chars.length).map fun i => (chars.drop i).take 16)

/-- What the second pane says of a packet. -/
def asciiText (js : Runtime Rat) (packet : Value) : Text :=
  let text name := (memberText packet name).getD []
  let number name := js.numberText (orNumber (memberNumber packet name) 0)
  ['\n'].intercalate
    ["Cipher sample as ASCII:".toList,
      orText (memberText packet (lit "cipher_ascii")) (asciiFromHex (text (lit "cipher_hex"))),
      [],
      "JSON fields:".toList,
      "src=".toList ++ text (lit "src"),
      "dst=".toList ++ text (lit "dst"),
      "src_port=".toList ++ number (lit "src_port"),
      "dst_port=".toList ++ number (lit "dst_port"),
      "payload_len=".toList ++ number (lit "payload_len"),
      "data_len=".toList ++ number (lit "length"),
      "ts_ns=".toList ++ number (lit "ts_ns")]

/-- `hexPane` after `renderSelected` -/
def hexPane (p : Page) : Text :=
  match p.selected with
  | some row => groupedHex ((memberText row.packet (lit "cipher_hex")).getD [])
  | none => []

/-- `asciiPane` after `renderSelected` -/
def asciiPane (js : Runtime Rat) (p : Page) : Text :=
  match p.selected with
  | some row => asciiText js row.packet
  | none => []

/-! ## Pairs of digits -/

/-- A byte as it stands in a pane. -/
def pairText (b : UInt8) : Text := textOfBytes (hexPair b)

theorem exists_pairText (b : UInt8) : ∃ hi < 16, ∃ lo < 16, b.toNat = hi * 16 + lo ∧
    pairText b = [Char.ofNat (hexDigit hi).toNat, Char.ofNat (hexDigit lo).toNat] := by
  have hb := b.toNat_lt
  refine ⟨(b >>> 4).toNat, ?_, (b &&& 0x0f).toNat, ?_, ?_, rfl⟩
  · rw [toNat_high]
    omega
  · rw [toNat_low]
    omega
  · rw [toNat_high, toNat_low]
    omega

theorem digit_plain : ∀ d < 16, TextScan.isSpace (Char.ofNat (hexDigit d).toNat) = false ∧
    Char.ofNat (hexDigit d).toNat ≠ ' ' ∧ Char.ofNat (hexDigit d).toNat ≠ '\n' := by
  decide

theorem parseInt16_digits : ∀ hi < 16, ∀ lo < 16,
    parseInt16 [Char.ofNat (hexDigit hi).toNat, Char.ofNat (hexDigit lo).toNat] =
      some ((hi * 16 + lo : Nat) : Int) := by
  decide +kernel

theorem pairText_plain (b : UInt8) : ' ' ∉ pairText b ∧ '\n' ∉ pairText b ∧ pairText b ≠ [] := by
  obtain ⟨hi, hhi, lo, hlo, -, htext⟩ := exists_pairText b
  obtain ⟨-, hspace, hline⟩ := digit_plain hi hhi
  obtain ⟨-, hspace', hline'⟩ := digit_plain lo hlo
  rw [htext]
  simp only [List.mem_cons, List.not_mem_nil, or_false, not_or]
  exact ⟨⟨hspace.symm, hspace'.symm⟩, ⟨hline.symm, hline'.symm⟩, List.cons_ne_nil _ _⟩

/-- **The number of a pair is the byte.** -/
theorem parseInt16_pairText (b : UInt8) : parseInt16 (pairText b) = some (b.toNat : Int) := by
  obtain ⟨hi, hhi, lo, hlo, hvalue, htext⟩ := exists_pairText b
  rw [htext, parseInt16_digits hi hhi lo hlo, hvalue]

/-- Both scripts show a byte as the same character. -/
theorem charOf_pairText (b : UInt8) : charOf (pairText b) = Char.ofNat (shownByte b).toNat := by
  rw [charOf, parseInt16_pairText]
  by_cases h : 32 ≤ b.toNat ∧ b.toNat ≤ 126
  · have hint : (32 : Int) ≤ b.toNat ∧ (b.toNat : Int) ≤ 126 := by omega
    rw [shownByte, if_pos h]
    dsimp only
    rw [if_pos hint]
    rfl
  · have hint : ¬ ((32 : Int) ≤ b.toNat ∧ (b.toNat : Int) ≤ 126) := by omega
    rw [shownByte, if_neg h]
    dsimp only
    rw [if_neg hint]
    rfl

theorem pairsOf_hexText (bytes : List UInt8) :
    pairsOf (textOfBytes (hexText bytes)) = bytes.map pairText := by
  induction bytes with
  | nil => rfl
  | cons b bytes ih =>
    rw [List.map_cons, ← ih]
    rfl

/-- Without its spaces the text is that of the digits. -/
theorem filter_spaced (bytes : List UInt8) :
    (textOfBytes ([32].intercalate (bytes.map hexPair))).filter (fun c => !TextScan.isSpace c) =
      textOfBytes (hexText bytes) := by
  have hpair : ∀ b, (textOfBytes (hexPair b)).filter (fun c => !TextScan.isSpace c) =
      textOfBytes (hexPair b) := by
    intro b
    obtain ⟨hi, hhi, lo, hlo, -, htext⟩ := exists_pairText b
    rw [← pairText, htext]
    simp only [List.filter_cons, (digit_plain hi hhi).1, (digit_plain lo hlo).1, Bool.not_false,
      if_true, List.filter_nil]
  have happend : ∀ s t : CString, textOfBytes (s ++ t) = textOfBytes s ++ textOfBytes t :=
    fun s t => List.map_append
  induction bytes with
  | nil => rfl
  | cons b bytes ih =>
    have htext : textOfBytes (hexText (b :: bytes)) =
        textOfBytes (hexPair b) ++ textOfBytes (hexText bytes) := rfl
    cases bytes with
    | nil =>
      rw [List.map_singleton, List.intercalate_singleton, hpair, htext]
      exact (List.append_nil _).symm
    | cons b' bytes =>
      rw [List.map_cons] at ih
      rw [List.map_cons, List.map_cons, List.intercalate_cons_cons, happend, happend,
        List.filter_append, List.filter_append, hpair, ih, htext]
      rfl

theorem splitBytes_spaced (bytes : List UInt8) :
    splitBytes (textOfBytes ([32].intercalate (bytes.map hexPair))) = bytes.map pairText := by
  rw [splitBytes, filter_spaced, pairsOf_hexText]

/-! ## Reading the panes -/

theorem offsetText_plain (i : Nat) : ' ' ∉ offsetText i ∧ '\n' ∉ offsetText i ∧ offsetText i ≠ [] := by
  have hdigit : ∀ d < 16, Nat.digitChar d ≠ ' ' ∧ Nat.digitChar d ≠ '\n' := by decide
  have hdigits : ∀ c ∈ Nat.toDigits 16 i, c ≠ ' ' ∧ c ≠ '\n' := by
    induction i using Nat.strongRecOn with
    | ind i ih =>
      rcases Nat.lt_or_ge i 16 with hlt | hge
      · rw [Nat.toDigits_of_lt_base hlt]
        exact List.forall_mem_singleton.mpr (hdigit i hlt)
      · rw [Nat.toDigits_of_base_le (by decide) hge]
        refine List.forall_mem_append.mpr ⟨ih (i / 16) (Nat.div_lt_self (by omega) (by decide)), ?_⟩
        exact List.forall_mem_singleton.mpr (hdigit _ (Nat.mod_lt _ (by decide)))
  have hall : ∀ c ∈ offsetText i, c ≠ ' ' ∧ c ≠ '\n' := by
    intro c hc
    rcases List.mem_append.mp hc with hc | hc
    · obtain rfl := List.eq_of_mem_replicate hc
      decide
    · exact hdigits c hc
  refine ⟨fun h => (hall _ h).1 rfl, fun h => (hall _ h).2 rfl, fun h => ?_⟩
  have hlength := congrArg List.length h
  rw [offsetText, List.length_leftpad, List.length_nil] at hlength
  omega

/-- The two halves of a line, the first one filled up. -/
theorem dumpLine_eq (words : List Text) (i : Nat) (bytes : List Text)
    (hwords : (bytes.drop i).take 16 = words) :
    dumpLine bytes i = offsetText i ++ ' ' :: ' ' ::
      (((words.take 8).map fun b => ' ' :: (b ++ [' '])).flatten ++
        (List.replicate (32 - ((words.take 8).map fun b => ' ' :: (b ++ [' '])).flatten.length) ' ' ++
          ' ' :: ((words.drop 8).map fun b => ' ' :: (b ++ [' '])).flatten)) := by
  subst hwords
  simp only [dumpLine, List.rightpad, List.map_take, List.map_drop, List.append_assoc]
  rfl

/-- A line is its offset and up to sixteen bytes. -/
theorem fields_dumpLine (bytes : List UInt8) (i : Nat) :
    fields ' ' (dumpLine (bytes.map pairText) i) =
      offsetText i :: ((bytes.drop i).take 16).map pairText := by
  obtain ⟨hspace, -, hne⟩ := offsetText_plain i
  let words := ((bytes.drop i).take 16).map pairText
  have hwords : ∀ w ∈ words, ' ' ∉ w ∧ w ≠ [] := by
    intro w hw
    obtain ⟨b, -, rfl⟩ := List.mem_map.mp hw
    exact ⟨(pairText_plain b).1, (pairText_plain b).2.2⟩
  have hright := fields_cells (fun w hw => hwords w (List.mem_of_mem_drop (i := 8) hw)) []
  rw [List.append_nil, fields_nil, List.append_nil] at hright
  rw [dumpLine_eq words i _ (by rw [← List.map_drop, ← List.map_take]), fields_append,
    fields_word hspace hne, fields_cons, fields_cells fun w hw => hwords w (List.mem_of_mem_take hw),
    fields_replicate, fields_cons, hright, List.take_append_drop]
  rfl

theorem newline_not_mem_dumpLine (bytes : List UInt8) (i : Nat) :
    '\n' ∉ dumpLine (bytes.map pairText) i := by
  have hcells : ∀ ws : List Text, (∀ w ∈ ws, '\n' ∉ w) →
      '\n' ∉ (ws.map fun b => ' ' :: (b ++ [' '])).flatten := by
    intro ws hws h
    obtain ⟨cell, hcell, hmem⟩ := List.mem_flatten.mp h
    obtain ⟨w, hw, rfl⟩ := List.mem_map.mp hcell
    rcases List.mem_cons.mp hmem with h | h
    · exact absurd h (by decide)
    · rcases List.mem_append.mp h with h | h
      · exact hws w hw h
      · exact absurd h (by decide)
  let words := ((bytes.drop i).take 16).map pairText
  have hwords : ∀ w ∈ words, '\n' ∉ w := by
    intro w hw
    obtain ⟨b, -, rfl⟩ := List.mem_map.mp hw
    exact (pairText_plain b).2.1
  rw [dumpLine_eq words i _ (by rw [← List.map_drop, ← List.map_take])]
  simp only [List.mem_append, List.mem_cons, not_or]
  refine ⟨(offsetText_plain i).2.1, by decide, by decide, ?_, ?_, by decide, ?_⟩
  · exact hcells _ fun w hw => hwords w (List.mem_of_mem_take hw)
  · exact fun h => absurd (List.eq_of_mem_replicate h) (by decide)
  · exact hcells _ fun w hw => hwords w (List.mem_of_mem_drop hw)

/-- **The lines of the pane**, word by word. -/
theorem fields_groupedHex (bytes : List UInt8) :
    (fields '\n' (groupedHex (textOfBytes ([32].intercalate (bytes.map hexPair))))).map (fields ' ') =
      (steps 16 bytes.length).map fun i =>
        offsetText i :: ((bytes.drop i).take 16).map pairText := by
  have hlines : ∀ line ∈ (steps 16 bytes.length).map (dumpLine (bytes.map pairText)),
      '\n' ∉ line ∧ line ≠ [] := by
    intro line hline
    obtain ⟨i, -, rfl⟩ := List.mem_map.mp hline
    refine ⟨newline_not_mem_dumpLine bytes i, fun h => ?_⟩
    have hwords := fields_dumpLine bytes i
    rw [h, fields_nil] at hwords
    cases hwords
  rw [groupedHex, splitBytes_spaced, List.length_map, fields_intercalate hlines, List.map_map]
  exact List.map_congr_left fun i _ => fields_dumpLine bytes i

/-- **The characters of the pane**, sixteen on a line. -/
theorem flatten_asciiFromHex (bytes : List UInt8) :
    (fields '\n' (asciiFromHex (textOfBytes ([32].intercalate (bytes.map hexPair))))).flatten =
      textOfBytes (bytes.map shownByte) := by
  have hchars : (bytes.map pairText).map charOf = textOfBytes (bytes.map shownByte) := by
    rw [textOfBytes, List.map_map, List.map_map]
    exact List.map_congr_left fun b _ => charOf_pairText b
  have hshown : ∀ n < 256, Char.ofNat (shownByte (UInt8.ofNat n)).toNat ≠ '\n' := by
    decide +kernel
  have hline : '\n' ∉ textOfBytes (bytes.map shownByte) := by
    intro h
    obtain ⟨c, hc, hnewline⟩ := List.mem_map.mp h
    obtain ⟨b, -, rfl⟩ := List.mem_map.mp hc
    have hb := hshown b.toNat b.toNat_lt
    rw [UInt8.ofNat_toNat] at hb
    exact hb hnewline
  rw [asciiFromHex, splitBytes_spaced, hchars]
  generalize textOfBytes (bytes.map shownByte) = chars at hline
  have hlines : ∀ line ∈ (steps 16 chars.length).map fun i => (chars.drop i).take 16,
      '\n' ∉ line ∧ line ≠ [] := by
    intro line hmem
    obtain ⟨i, hi, rfl⟩ := List.mem_map.mp hmem
    have hlt := lt_of_mem_steps (by decide) hi
    refine ⟨fun h => hline (List.mem_of_mem_drop (List.mem_of_mem_take h)), fun h => ?_⟩
    have hlength := congrArg List.length h
    rw [List.length_take, List.length_drop, List.length_nil] at hlength
    omega
  rw [fields_intercalate hlines, ← List.flatMap_def, flatMap_steps (by decide)]

/-! ## The panes of a packet -/

/-- **The panes show these bytes**, and what else the packet says. -/
structure ShowsPanes (js : Runtime Rat) (bytes : List UInt8) (packet : DemoPacket) (p : Page) :
    Prop where
  /-- Sixteen bytes on a line, behind their offset. -/
  lines : (fields '\n' p.hexPane).map (fields ' ') =
    (steps 16 bytes.length).map fun i => offsetText i :: ((bytes.drop i).take 16).map pairText
  /-- The numbers behind the offsets are the bytes. -/
  numbers : ((fields '\n' p.hexPane).flatMap fun line => (fields ' ' line).tail.map parseInt16) =
    bytes.map fun b => some (b.toNat : Int)
  /-- The other pane has them as characters. -/
  ascii : p.asciiPane js = ['\n'].intercalate
    ["Cipher sample as ASCII:".toList,
      textOfBytes (bytes.map shownByte),
      [],
      "JSON fields:".toList,
      "src=".toList ++ textOfBytes packet.src,
      "dst=".toList ++ textOfBytes packet.dst,
      "src_port=".toList ++ js.numberText (packet.srcPort : Int),
      "dst_port=".toList ++ js.numberText (packet.dstPort : Int),
      "payload_len=".toList ++ js.numberText (packet.payloadLen : Int),
      "data_len=".toList ++ js.numberText (packet.length : Int),
      "ts_ns=".toList ++ js.numberText (packet.tsNs : Int)]
  /-- Of a packet without characters the page would show the same ones. -/
  fallback : (fields '\n' (asciiFromHex (textOfBytes packet.cipherHex))).flatten =
    textOfBytes (bytes.map shownByte)

theorem memberText_of {packet : Value} {name s : CString} (h : packet.member name = some (.str s)) :
    memberText packet name = some (textOfBytes s) := by
  rw [memberText, h]

theorem memberNumber_of {packet : Value} {name : CString} {n : Int}
    (h : packet.member name = some (.int n)) : memberNumber packet name = some (n : Rat) := by
  rw [memberNumber, h]

theorem orNumber_zero (q : Rat) : orNumber (some q) 0 = q := by
  rw [orNumber, Option.getD_some]
  split
  · rename_i h
    exact h.symm
  · rfl

theorem showsPanes {js : Runtime Rat} {bytes : List UInt8} {packet : DemoPacket} {p : Page} {row : Row}
    (hselected : p.selected = some row) (hvalue : row.packet = packet.value)
    (hhex : packet.cipherHex = [32].intercalate (bytes.map hexPair))
    (hascii : packet.cipherAscii = bytes.map shownByte) : ShowsPanes js bytes packet p := by
  have hcipher : memberText packet.value (lit "cipher_hex") = some (textOfBytes packet.cipherHex) :=
    memberText_of rfl
  have hpane : p.hexPane = groupedHex (textOfBytes ([32].intercalate (bytes.map hexPair))) := by
    rw [hexPane, hselected, ← hhex]
    dsimp only
    rw [hvalue, hcipher, Option.getD_some]
  have hlines := fields_groupedHex bytes
  rw [← hpane] at hlines
  refine ⟨hlines, ?_, ?_, ?_⟩
  · -- the bytes are taken line by line, as they are shown
    have hflat : ((fields '\n' p.hexPane).flatMap fun line => (fields ' ' line).tail.map parseInt16) =
        ((fields '\n' p.hexPane).map (fields ' ')).flatMap fun words => words.tail.map parseInt16 := by
      rw [List.flatMap_map]
    have hbytes : (bytes.map fun b => some (b.toNat : Int)) =
        ((steps 16 bytes.length).flatMap fun i => (bytes.drop i).take 16).map
          fun b => some (b.toNat : Int) := by
      rw [flatMap_steps (by decide)]
    rw [hflat, hlines, List.flatMap_map, hbytes, List.map_flatMap]
    refine congrArg List.flatten (List.map_congr_left fun i _ => ?_)
    rw [List.tail_cons, List.map_map]
    exact List.map_congr_left fun b _ => parseInt16_pairText b
  · -- the page makes characters of its own only if there are none, and then none
    have hchars : orText (memberText packet.value (lit "cipher_ascii"))
        (asciiFromHex (textOfBytes packet.cipherHex)) = textOfBytes (bytes.map shownByte) := by
      have hmember : memberText packet.value (lit "cipher_ascii") =
          some (textOfBytes packet.cipherAscii) := memberText_of rfl
      rw [hmember, orText, Option.getD_some, hascii]
      split
      · rename_i hempty
        obtain rfl : bytes = [] := List.map_eq_nil_iff.mp (List.map_eq_nil_iff.mp hempty)
        rw [hhex]
        rfl
      · rfl
    have htext : ∀ name s, packet.value.member name = some (.str s) →
        (memberText packet.value name).getD [] = textOfBytes s := fun name s h => by
      rw [memberText_of h, Option.getD_some]
    have hnumber : ∀ name (n : Int), packet.value.member name = some (.int n) →
        orNumber (memberNumber packet.value name) 0 = n := fun name n h => by
      rw [memberNumber_of h, orNumber_zero]
    rw [asciiPane, hselected]
    simp only [hvalue, asciiText]
    rw [htext (lit "cipher_hex") packet.cipherHex rfl, hchars, htext (lit "src") packet.src rfl,
      htext (lit "dst") packet.dst rfl, hnumber (lit "src_port") packet.srcPort rfl,
      hnumber (lit "dst_port") packet.dstPort rfl, hnumber (lit "payload_len") packet.payloadLen rfl,
      hnumber (lit "length") packet.length rfl, hnumber (lit "ts_ns") packet.tsNs rfl]
  · rw [hhex]
    exact flatten_asciiFromHex bytes

/-- Where there are no rows the panes are empty. -/
theorem panes_of_no_rows (js : Runtime Rat) {p : Page} (h : p.rows = []) :
    p.hexPane = [] ∧ p.asciiPane js = [] := by
  have hselected : p.selected = none := by
    rw [selected, h]
    rfl
  rw [hexPane, asciiPane, hselected]
  exact ⟨rfl, rfl⟩

end Page

/-! ## The whole way -/

namespace WatchedDemo
variable {loads : CString → Option TcEvent} {js : Runtime Rat} {s s' : WatchedDemo} {a : WatchAct}

/-- The steps of the readers and the sender. -/
def boardAct : WatchAct → Option DashboardAct
  | .live (.board a) => some a
  | _ => none

/-- Whatever is done, a reader has made a packet of every event among its lines, and no
packet is lost. -/
theorem madeBy_step {acts : List WatchAct} {r : Reader} {trafficSource : CString}
    (hkept : s.live.board.Kept)
    (hs : s.live.board.Follows loads r trafficSource (acts.filterMap boardAct))
    (h : step loads js s a = some s') : s'.live.board.Kept ∧
      s'.live.board.Follows loads r trafficSource ((acts ++ [a]).filterMap boardAct) := by
  have hother (ha : boardAct a = none) :
      (acts ++ [a]).filterMap boardAct = acts.filterMap boardAct := by
    rw [List.filterMap_append, List.filterMap_cons_none ha]
    exact List.append_nil _
  -- what the page and the user do leaves the dashboard as it is
  have hsame (ha : boardAct a = none) (hlive : s'.live = s.live) : s'.live.board.Kept ∧
      s'.live.board.Follows loads r trafficSource ((acts ++ [a]).filterMap boardAct) := by
    rw [hother ha, hlive]
    exact ⟨hkept, hs⟩
  cases step_cases h with
  | live a live hlive =>
    refine ⟨LiveDemo.kept_step hkept hlive, ?_⟩
    cases a with
    | board a =>
      obtain ⟨board, hboard, rfl⟩ := Option.map_eq_some_iff.mp hlive
      rw [List.filterMap_append]
      exact hs.step hboard
    | receiver line =>
      obtain rfl := Option.some.inj hlive
      rw [hother rfl]
      exact ⟨hs.1, hs.2⟩
    | ffmpeg line =>
      obtain rfl := Option.some.inj hlive
      rw [hother rfl]
      exact ⟨hs.1, hs.2⟩
  | timer =>
    refine hsame rfl ?_
    rw [WatchedDemo.refresh]
    split <;> rfl
  | load => exact hsame rfl rfl
  | start => exact hsame rfl rfl
  | serve info keys => exact hsame rfl rfl
  | fail => exact hsame rfl rfl
  | arrive i body hbody => exact hsame rfl rfl
  | lose i => exact hsame rfl rfl
  | user u page huser => exact hsame rfl rfl

theorem madeBy_run {acts : List WatchAct} {r : Reader} {started : Rat} {trafficSource : CString}
    (h : run (step loads js) (init started trafficSource) acts = some s) : s.live.board.Kept ∧
      s.live.board.Follows loads r trafficSource (acts.filterMap boardAct) := by
  have hinit : (init started trafficSource).live.board.Kept ∧
      (init started trafficSource).live.board.Follows loads r trafficSource
        (([] : List WatchAct).filterMap boardAct) :=
    ⟨Dashboard.kept_init started trafficSource, rfl, .nil⟩
  exact run_history (J := fun acts s => s.live.board.Kept ∧
    s.live.board.Follows loads r trafficSource (acts.filterMap boardAct))
    (fun _ _ _ _ hm hstep => madeBy_step hm.1 hm.2 hstep) hinit h

/-- A snapshot is asked for, taken and shown. -/
theorem run_snapshot (loads : CString → Option TcEvent) (js : Runtime Rat) (s : WatchedDemo)
    (info : DemoInfo) (keys : List CString) (hasked : s.asked = 1) (hanswers : s.answers = [])
    (hshown : s.live.board.Shown) : ∃ w,
    run (step loads js) s [.serve info keys, .arrive 0] = some w ∧ w.live = s.live ∧
      w.page.rows.map Row.packet =
        ((newestPackets s.live.board.stored).filter (showsPacket js s.page.filterInput)).take 160 := by
  obtain ⟨data, hparse, hpackets⟩ := parse_answer info keys hshown
  let body := (sendJson (s.live.snapshot info keys)).body
  have hserve : step loads js s (.serve info keys) =
      some { s with asked := 0, answers := [body] } := by
    rw [step, if_pos (by omega), doGet, if_pos (Or.inl rfl), Option.map_some, hasked, hanswers]
    rfl
  have harrive : step loads js { s with asked := 0, answers := [body] } (.arrive 0) =
      some { s with page := s.page.receive js body, asked := 0, answers := [] } := rfl
  have hreceive : s.page.receive js body =
      Page.renderRows js { s.page with allPackets := Page.packetsOf data } := by
    rw [Page.receive, hparse]
  refine ⟨{ s with page := s.page.receive js body, asked := 0, answers := [] }, ?_, rfl, ?_⟩
  · rw [run_cons hserve, run_cons harrive]
    rfl
  · rw [hreceive, ← hpackets]
    exact Page.map_packet_rowsOf ..

end WatchedDemo

/-- **From the packet to the panes.**  However the steps of a run of `main`, started with
`--jsonl`, those of the dashboard and of a page that watches it fall, as long as a reader
gets the lines of that process: the panes are empty if there is no row, else they show the
selected row.  If its packet was made by that reader, it is of an event a program has
submitted for a packet, and the numbers in the first pane are the start of the body as the
cipher call left it, as long as the sample of the event, sixteen on a line behind their
offset; the second pane has the same bytes as characters, with the addresses, ports and
lengths of the frame.  The sample is full unless it could not be read. -/
theorem panes_show_packet {Other Ctx : Type} (e : MainEnv Ctx) (o : Others Other)
    (argv : List CString) (cfg : EbafUserConfig) (s₀ : LoaderState Other Ctx)
    (hstart : startMain e o argv = .started cfg s₀) (hjson : cfg.outputJsonl = true)
    (K : CryptoKernel Ctx) (cpus : Nat) (startTime : Int) (acts : List (MainAct Ctx cpus))
    (s : MainState Ctx cpus)
    (hrun : run (MainState.step K s₀.kernel cfg) (.init startTime) acts = some s) (r : Reader)
    (js : Runtime Rat) (started : Rat) (trafficSource : CString) (watchActs : List WatchAct)
    (w : WatchedDemo)
    (hwatch : run (WatchedDemo.step loadsEvent js) (.init started trafficSource) watchActs = some w)
    (hpipe : linesRead r (watchActs.filterMap WatchedDemo.boardAct) <+:
      readLines [] (s.printed.map fun out => out.item.text cfg).flatten) :
    (w.page.rows = [] ∧ w.page.hexPane = [] ∧ w.page.asciiPane js = []) ∨
    ∃ row record, w.page.selected = some row ∧ record ∈ w.live.board.stored ∧
      row.packet = record.packet.value ∧
      (record.reader = r → ∃ x ∈ s.crossed, ∃ ev ∈ (x.result K).events, ∃ call,
        (x.result K).cipherCalls = [call] ∧ call.ok = true ∧
        ev.sampleLen.toNat ≤ min ebafEventSampleBytes call.body.length ∧
        ((x.program = .transparent → SampleLoadsOk x.env) → FullSample call ev) ∧
        Shows K x.frame cfg.crypto call ev.sampleLen.toNat record.packet ∧
        Page.ShowsPanes js ((call.result K).take ev.sampleLen.toNat) record.packet w.page) := by
  have hdisplays := (WatchedDemo.follows_run hwatch).displays
  rcases hdisplays.selected with hnone | ⟨row, hselected, -⟩
  · exact Or.inl ⟨hnone, Page.panes_of_no_rows js hnone⟩
  · have hrow : row ∈ w.page.rows := List.mem_of_getElem? hselected
    obtain ⟨record, hrecord, hvalue, -⟩ := hdisplays.numbers row hrow
    refine Or.inr ⟨row, record, hselected, hrecord, hvalue, fun hreader => ?_⟩
    -- the packet is one of those the reader has made
    obtain ⟨hkept, hfollows⟩ := WatchedDemo.madeBy_run (r := r) hwatch
    have hmem : record ∈ w.live.board.madeBy r :=
      List.mem_filter.mpr ⟨hkept.mem_iff.mpr (List.mem_append_left _ hrecord),
        decide_eq_true hreader⟩
    have hmade := forall₂_madeBy hstart hjson hrun hfollows hpipe
    obtain ⟨i, hi, rfl⟩ := List.getElem_of_mem hmem
    obtain ⟨x, hx, hev, call, hcall, hreports, hfull, hshows⟩ :=
      hmade.get (hmade.length_eq ▸ hi) hi
    exact ⟨x, hx, _, hev, call, hcall, hreports.ok, hreports.sampleFits, hfull, hshows,
      Page.showsPanes hselected hvalue hshows.cipherHex hshows.cipherAscii⟩

/-! ## One packet shown -/

/-- The packet of the block. -/
def blockRecord : Record :=
  (Dashboard.init 0 []).recordOf .encrypt [] 0 crossingEvent.tcEvent

/-- The dashboard with this packet stored. -/
def blockStored : Dashboard := (blockDashboard.count .encrypt blockRecord).insert .encrypt blockRecord

def blockStores : List DashboardAct := blockReads ++ [.count .encrypt, .insert .encrypt]

def shownInfo : DemoInfo := ⟨lit "running", [], lit "ebafdh1", 3, some 7, []⟩

/-- The packet is stored, the page is loaded, its filter is cleared, and a snapshot arrives. -/
def shownActs : List WatchAct :=
  blockStores.map (fun a => .live (.board a)) ++
    [.load, .user (.typed []), .serve shownInfo [], .arrive 0]

theorem run_shownActs : ∃ w,
    run (WatchedDemo.step loadsEvent WatchedDemo.rationalRuntime) (.init 0 []) shownActs = some w ∧
    w.live.board = blockStored ∧ w.page.rows ≠ [] := by
  let js := WatchedDemo.rationalRuntime
  let put (d : Dashboard) : WatchedDemo :=
    { WatchedDemo.init 0 [] with live := { LiveDemo.init 0 [] with board := d } }
  have hboard : run (Dashboard.step loadsEvent) (.init 0 []) blockStores = some blockStored := by
    rw [blockStores, run_append run_blockReads]
    rfl
  have hlive : run (WatchedDemo.step loadsEvent js) (.init 0 [])
      (blockStores.map fun a => .live (.board a)) = some (put blockStored) := by
    refine run_map put _ (fun d a d' hstep => ?_) hboard
    show (((put d).live.step loadsEvent (.board a)).map _) = _
    rw [LiveDemo.step, hstep]
    rfl
  let s₁ : WatchedDemo := { put blockStored with asked := 1 }
  let s₂ : WatchedDemo := { s₁ with page := { Page.init with filterInput := [] } }
  have hload : WatchedDemo.step loadsEvent js (put blockStored) .load = some s₁ := rfl
  have htyped : WatchedDemo.step loadsEvent js s₁ (.user (.typed [])) = some s₂ := rfl
  obtain ⟨w, hrun, hkept, hrows⟩ := WatchedDemo.run_snapshot loadsEvent js s₂ shownInfo [] rfl rfl rfl
  refine ⟨w, ?_, ?_, fun hnone => ?_⟩
  · rw [shownActs, run_append hlive, run_cons hload, run_cons htyped]
    exact hrun
  · rw [hkept]
  · have hshows : ∀ packet, showsPacket js [] packet = true := by
      intro packet
      rw [showsPacket, matchesFilter]
      exact if_pos (Or.inl rfl)
    have hall : ((WatchedDemo.newestPackets s₂.live.board.stored).filter
        (showsPacket js s₂.page.filterInput)).take 160 = [blockRecord.packet.value] := by
      rw [List.filter_eq_self.mpr fun packet _ => hshows packet]
      rfl
    rw [hall, hnone] at hrows
    cases hrows

theorem panes_show_packet_of_block : ∃ s₀ s w row, ∃ record : Record,
    startMain ⟨.smooth, none, fun _ => []⟩ (.nobody Unit) jsonlArgv = .started jsonlConfig s₀ ∧
    run (MainState.step (knownKernel _) s₀.kernel jsonlConfig) (.init 100) blockActs = some s ∧
    run (WatchedDemo.step loadsEvent WatchedDemo.rationalRuntime) (.init 0 []) shownActs = some w ∧
    w.page.selected = some row ∧ row.packet = record.packet.value ∧
    ∃ x ∈ s.crossed, ∃ call, (x.result (knownKernel _)).cipherCalls = [call] ∧ call.ok = true ∧
      Shows (knownKernel _) x.frame jsonlConfig.crypto call
        (min ebafEventSampleBytes call.body.length) record.packet ∧
      Page.ShowsPanes WatchedDemo.rationalRuntime
        ((call.result (knownKernel _)).take (min ebafEventSampleBytes call.body.length))
        record.packet w.page := by
  obtain ⟨w, hwatch, hstored, hrows⟩ := run_shownActs
  have hreads : linesRead .encrypt (shownActs.filterMap WatchedDemo.boardAct) =
      linesRead .encrypt blockReads := rfl
  rcases panes_show_packet (⟨.smooth, none, fun _ => []⟩ : MainEnv _) (.nobody Unit) jsonlArgv
    jsonlConfig _ startMain_jsonl rfl (knownKernel _) 1 100 blockActs _ run_blockActs .encrypt
    WatchedDemo.rationalRuntime 0 [] shownActs w hwatch
    (by rw [hreads, linesRead_blockReads]) with
    ⟨hnone, -⟩ | ⟨row, record, hselected, hmem, hvalue, hshows⟩
  · exact absurd hnone hrows
  · rw [hstored] at hmem
    obtain rfl : record = blockRecord := List.mem_singleton.mp hmem
    obtain ⟨x, hx, ev, -, call, hcall, hok, -, hfull, hpacket, hpanes⟩ := hshows rfl
    have hframed : x.program ≠ .transparent := by
      obtain rfl := List.mem_singleton.mp (show x ∈ [blockCrossing] from hx)
      exact PacketProgram.noConfusion
    have hsample : ev.sampleLen.toNat = min ebafEventSampleBytes call.body.length :=
      hfull fun h => absurd h hframed
    rw [hsample] at hpacket hpanes
    exact ⟨_, _, w, row, _, startMain_jsonl, run_blockActs, hwatch, hselected, hvalue, x, hx, call,
      hcall, hok, hpacket, hpanes⟩

end Ebaf
