import Mathlib.Logic.Equiv.Basic
import Mathlib.Data.List.Count

/-! # Tokens that are each in one place

Resources that are created, handed around and disposed of are tokens, and a
ledger says where each of them is.  A ledger is a function, so a token is in one
place, if it exists at all.  A program has no ledger: it has variables that hold
a token or nothing, and it has made and disposed of tokens.  `Cell`, `Pile` and
`Known` say that these agree with a ledger, and the lemmas say what remains of
that when a token is put somewhere and when two variables exchange what they
hold.
-/
namespace Custody

variable {Token Place : Type}

/-- Where each token is, once it exists. -/
abbrev Ledger (Token Place : Type) : Type := Token → Option Place

/-- A variable holds what the ledger has in its place. -/
def Cell (κ : Ledger Token Place) (x : Place) (o : Option Token) : Prop :=
  ∀ t, o = some t ↔ κ t = some x

section Lists
variable [DecidableEq Token] [DecidableEq Place]

/-- A list holds what the ledger has in its place, each token once. -/
def Pile (κ : Ledger Token Place) (x : Place) (l : List Token) : Prop :=
  ∀ t, l.count t = if κ t = some x then 1 else 0

omit [DecidableEq Place] in
/-- A list holds the tokens that exist, each once. -/
def Known (κ : Ledger Token Place) (l : List Token) : Prop :=
  ∀ t, l.count t = if (κ t).isSome then 1 else 0

/-- A token is put into a place. -/
def put (κ : Ledger Token Place) (t : Token) (x : Place) : Ledger Token Place :=
  Function.update κ t (some x)

/-- What is in two places is exchanged. -/
def exchange (κ : Ledger Token Place) (x y : Place) : Ledger Token Place :=
  fun t => (κ t).map (Equiv.swap x y)

variable {κ : Ledger Token Place} {t u : Token} {x y z : Place} {o : Option Token} {l : List Token}

/-! ## The ledger -/

omit [DecidableEq Place] in
@[simp] theorem put_self : put κ t x t = some x := Function.update_self ..

omit [DecidableEq Place] in
theorem put_of_ne (h : u ≠ t) : put κ t x u = κ u := Function.update_of_ne h ..

omit [DecidableEq Token] in
theorem exchange_eq_some_iff : exchange κ x y t = some z ↔ κ t = some (Equiv.swap x y z) := by
  rw [exchange, Option.map_eq_some_iff]
  constructor
  · rintro ⟨w, hw, rfl⟩
    rw [hw, Equiv.swap_apply_self]
  · intro h
    exact ⟨_, h, Equiv.swap_apply_self ..⟩

/-! ## Putting a token somewhere -/

omit [DecidableEq Place] in
/-- Into an empty variable. -/
theorem Cell.put_into (h : Cell κ x none) : Cell (put κ t x) x (some t) := by
  intro u
  by_cases hu : u = t
  · subst hu
    simp
  · rw [put_of_ne hu, ← h u]
    simp [Ne.symm hu]

omit [DecidableEq Place] in
/-- Out of the variable that held it. -/
theorem Cell.put_away (h : Cell κ x (some t)) (hxy : x ≠ y) : Cell (put κ t y) x none := by
  intro u
  by_cases hu : u = t
  · subst hu
    simp [Ne.symm hxy]
  · rw [put_of_ne hu, ← h u]
    simp [Ne.symm hu]

omit [DecidableEq Place] in
/-- Past another variable. -/
theorem Cell.put_past (h : Cell κ x o) (ho : o ≠ some t) (hxy : x ≠ y) : Cell (put κ t y) x o := by
  intro u
  by_cases hu : u = t
  · subst hu
    simp [ho, Ne.symm hxy]
  · rw [put_of_ne hu, h u]

theorem Pile.put_onto (h : Pile κ x l) (ht : κ t ≠ some x) : Pile (put κ t x) x (l ++ [t]) := by
  intro u
  rw [List.count_append, h u]
  by_cases hu : u = t
  · subst hu
    simp [ht]
  · rw [put_of_ne hu]
    simp [Ne.symm hu]

theorem Pile.put_past (h : Pile κ x l) (ht : κ t ≠ some x) (hxy : x ≠ y) :
    Pile (put κ t y) x l := by
  intro u
  rw [h u]
  by_cases hu : u = t
  · subst hu
    simp [ht, Ne.symm hxy]
  · rw [put_of_ne hu]

omit [DecidableEq Place] in
/-- A new token. -/
theorem Known.put_new (h : Known κ l) (ht : κ t = none) : Known (put κ t x) (l ++ [t]) := by
  intro u
  rw [List.count_append, h u]
  by_cases hu : u = t
  · subst hu
    simp [ht]
  · rw [put_of_ne hu]
    simp [Ne.symm hu]

omit [DecidableEq Place] in
/-- One that exists. -/
theorem Known.put_old (h : Known κ l) (ht : (κ t).isSome) : Known (put κ t x) l := by
  intro u
  rw [h u]
  by_cases hu : u = t
  · subst hu
    simp [ht]
  · rw [put_of_ne hu]

/-! ## Exchanging two variables -/

omit [DecidableEq Token] in
theorem Cell.exchange_left (h : Cell κ x o) : Cell (exchange κ x y) y o := by
  intro u
  rw [h u, exchange_eq_some_iff, Equiv.swap_apply_right]

omit [DecidableEq Token] in
theorem Cell.exchange_right (h : Cell κ y o) : Cell (exchange κ x y) x o := by
  intro u
  rw [h u, exchange_eq_some_iff, Equiv.swap_apply_left]

omit [DecidableEq Token] in
theorem Cell.exchange_past (h : Cell κ z o) (hx : z ≠ x) (hy : z ≠ y) :
    Cell (exchange κ x y) z o := by
  intro u
  rw [h u, exchange_eq_some_iff, Equiv.swap_apply_of_ne_of_ne hx hy]

theorem Pile.exchange_past (h : Pile κ z l) (hx : z ≠ x) (hy : z ≠ y) :
    Pile (exchange κ x y) z l := by
  intro u
  simp only [h u, exchange_eq_some_iff, Equiv.swap_apply_of_ne_of_ne hx hy]

theorem Known.exchange (h : Known κ l) : Known (exchange κ x y) l := by
  intro u
  rw [h u, Custody.exchange, Option.isSome_map]

/-! ## What a ledger says -/

omit [DecidableEq Place] in
theorem Known.mem_iff (h : Known κ l) : t ∈ l ↔ (κ t).isSome := by
  rw [← List.count_pos_iff, h t]
  split <;> simp_all

theorem Pile.mem_iff (h : Pile κ x l) : t ∈ l ↔ κ t = some x := by
  rw [← List.count_pos_iff, h t]
  split <;> simp_all

end Lists
end Custody
