import Mathlib.Data.List.Forall2
import Ebaf.NumberText

/-! # Formatted output

A format is text around conversions.  `printf` puts the arguments, given as the
texts they are converted to, in the places of the conversions; `snprintf` keeps
what fits.  When every argument ends where the text behind it begins, the output
determines the arguments.
-/
namespace CStrings

/-- The text in front of the first conversion of a format, and the texts behind
each one.  A conversion is `%`, digits and `l`s, and a letter; the flag says
whether one is being read. -/
def pieces : Bool → CString → CString × List CString
  | _, [] => ([], [])
  | true, b :: s => if b = 108 ∨ IsDigit b then pieces true s else pieces false s
  | false, b :: s =>
    if b = 37 then ([], (pieces true s).1 :: (pieces true s).2)
    else (b :: (pieces false s).1, (pieces false s).2)

/-- Every argument with the text behind it. -/
def fill : List CString → List CString → CString
  | tail :: tails, arg :: args => arg ++ (tail ++ fill tails args)
  | _, _ => []

/-- `printf`: the text it writes. -/
def printf (format : CString) (args : List CString) : CString :=
  (pieces false format).1 ++ fill (pieces false format).2 args

/-- `snprintf(out, size, …)`: the length of the whole text is returned, what fits
in front of the NUL is written. -/
def snprintf (size : Nat) (text : CString) : Nat × CString := (text.length, text.take (size - 1))

/-- **What fits is written whole.** -/
theorem snprintf_of_lt {size : Nat} {text : CString} (h : text.length < size) :
    (snprintf size text).2 = text :=
  List.take_of_length_le (Nat.le_sub_one_of_lt h)

/-- A text is written into a buffer whole, or refused with -1. -/
def formatInto (text out : CString) (size : Nat) : Int × CString :=
  if size = 0 then (-1, out)
  else
    let (written, out) := snprintf size text
    if size ≤ written then (-1, out) else (written, out)

theorem formatInto_of_lt {size : Nat} {text : CString} (h : text.length < size) (out : CString) :
    formatInto text out size = ((text.length : Int), text) := by
  rw [formatInto, if_neg (by omega)]
  dsimp only [snprintf]
  rw [if_neg (Nat.not_le.mpr h)]
  exact congrArg (Prod.mk _) (snprintf_of_lt h)

theorem formatInto_of_le {size : Nat} {text : CString} (h : size ≤ text.length) (out : CString) :
    (formatInto text out size).1 = -1 := by
  rw [formatInto]
  split
  · rfl
  · dsimp only [snprintf]
    rw [if_pos h]

/-- **A text is written exactly if the buffer has room for it.** -/
theorem formatInto_nonneg_iff {size : Nat} {text out : CString} :
    0 ≤ (formatInto text out size).1 ↔ text.length < size := by
  rcases Nat.lt_or_ge text.length size with hlt | hge
  · rw [formatInto_of_lt hlt]
    exact ⟨fun _ => hlt, fun _ => Int.natCast_nonneg _⟩
  · rw [formatInto_of_le hge]
    exact ⟨fun h => absurd h (by decide), fun h => absurd h (Nat.not_lt.mpr hge)⟩

variable {tails args args' : List CString} {tail arg arg' rest rest' : CString} {d : UInt8}

theorem length_fill (h : tails.length = args.length) :
    (fill tails args).length = (tails.map List.length).sum + (args.map List.length).sum := by
  induction tails generalizing args with
  | nil =>
    rw [List.length_eq_zero_iff.mp h.symm]
    rfl
  | cons tail tails ih =>
    rcases args with - | ⟨arg, args⟩
    · cases h
    · rw [fill, List.length_append, List.length_append, ih (Nat.succ.inj h), List.map_cons,
        List.map_cons, List.sum_cons, List.sum_cons]
      omega

/-- A character of the output is one of the format or of an argument. -/
theorem forall_mem_fill {P : UInt8 → Prop} (htails : ∀ tail ∈ tails, ∀ b ∈ tail, P b)
    (hargs : ∀ arg ∈ args, ∀ b ∈ arg, P b) : ∀ b ∈ fill tails args, P b := by
  induction tails generalizing args with
  | nil => exact List.forall_mem_nil _
  | cons tail tails ih =>
    cases args with
    | nil => exact List.forall_mem_nil _
    | cons arg args =>
      obtain ⟨htail, htails⟩ := List.forall_mem_cons.mp htails
      obtain ⟨harg, hargs⟩ := List.forall_mem_cons.mp hargs
      rw [fill]
      exact List.forall_mem_append.mpr
        ⟨harg, List.forall_mem_append.mpr ⟨htail, ih htails hargs⟩⟩

theorem not_mem_fill (htails : ∀ tail ∈ tails, d ∉ tail) (hargs : ∀ arg ∈ args, d ∉ arg) :
    d ∉ fill tails args := by
  intro hd
  refine forall_mem_fill (P := fun b => b ≠ d) ?_ ?_ d hd rfl
  · rintro tail htail b hb rfl
    exact htails tail htail hb
  · rintro arg harg b hb rfl
    exact hargs arg harg hb

/-- An argument ends where the text behind it begins. -/
def EndsBefore (tail arg : CString) : Prop := ∃ d ∈ tail.head?, d ∉ arg

/-- A delimiter that two texts do not contain is found at the same place. -/
theorem append_delimiter_inj (h : d ∉ arg) (h' : d ∉ arg')
    (heq : arg ++ d :: rest = arg' ++ d :: rest') : arg = arg' ∧ rest = rest' := by
  induction arg generalizing arg' with
  | nil =>
    rcases arg' with - | ⟨b, arg'⟩
    · exact ⟨rfl, (List.cons.inj heq).2⟩
    · exact absurd ((List.cons.inj heq).1 ▸ List.mem_cons_self) h'
  | cons b arg ih =>
    rcases arg' with - | ⟨b', arg'⟩
    · exact absurd ((List.cons.inj heq).1 ▸ List.mem_cons_self) h
    · obtain ⟨rfl, htail⟩ := List.cons.inj heq
      obtain ⟨rfl, hrest⟩ := ih (fun hd => h (List.mem_cons_of_mem _ hd))
        (fun hd => h' (List.mem_cons_of_mem _ hd)) htail
      exact ⟨rfl, hrest⟩

theorem EndsBefore.inj (h : EndsBefore tail arg) (h' : EndsBefore tail arg')
    (heq : arg ++ (tail ++ rest) = arg' ++ (tail ++ rest')) : arg = arg' ∧ rest = rest' := by
  obtain ⟨d, hd, harg⟩ := h
  obtain ⟨d', hd', harg'⟩ := h'
  rcases tail with - | ⟨b, tail⟩
  · cases hd
  · cases hd
    cases hd'
    obtain ⟨rfl, hrest⟩ := append_delimiter_inj harg harg' heq
    exact ⟨rfl, List.append_cancel_left hrest⟩

/-- **The arguments can be read off.** -/
theorem fill_injective (h : List.Forall₂ EndsBefore tails args)
    (h' : List.Forall₂ EndsBefore tails args') (heq : fill tails args = fill tails args') :
    args = args' := by
  induction h generalizing args' with
  | nil =>
    cases h'
    rfl
  | cons harg _ ih =>
    cases h' with
    | cons harg' hargs' =>
      obtain ⟨rfl, hrest⟩ := harg.inj harg' heq
      rw [ih hargs' hrest]

theorem not_mem_decimal (h : ¬ IsDigit d) (n : Nat) : d ∉ decimal n :=
  fun hd => h (isDigit_decimal n d hd)

end CStrings
