import Mathlib.Data.List.Nodup

/-! # The selected row of a table

A table whose rows are replaced from time to time remembers the place of its selected
row and the key of that row.  The first of the new rows with that key becomes the
selected one.  If there is none, the place is kept as far as there are rows, and the
row there is selected.
-/
namespace Selection
variable {α K : Type} [DecidableEq K] {key : α → K} {rows : List α} {k : K} {i : Nat}

/-- The place of the selected row, and the key remembered. -/
structure Cursor (K : Type) where
  index : Nat
  key : Option K

/-- Another place, with the key of the row there if there is one. -/
def Cursor.clamp (key : α → K) (rows : List α) (c : Cursor K) : Cursor K :=
  let index := min c.index (rows.length - 1)
  { index := index
    key := (rows[index]?.map key).or c.key }

/-- The cursor once the rows have been replaced. -/
def Cursor.keep (key : α → K) (rows : List α) (c : Cursor K) : Cursor K :=
  match c.key.bind fun k => rows.findIdx? fun row => key row = k with
  | some i => { c with index := i }
  | none => c.clamp key rows

/-- The key remembered is that of the selected row, if there are rows. -/
def Cursor.On (key : α → K) (rows : List α) (c : Cursor K) : Prop :=
  rows = [] ∨ ∃ row, rows[c.index]? = some row ∧ c.key = some (key row)

/-- A row with this key is selected, and the key is remembered. -/
def Cursor.Selects (key : α → K) (rows : List α) (k : K) (c : Cursor K) : Prop :=
  c.key = some k ∧ ∃ row, rows[c.index]? = some row ∧ key row = k

namespace Cursor
variable {c : Cursor K}

theorem keep_found {i : Nat} (hkey : c.key = some k)
    (h : rows.findIdx? (fun row => key row = k) = some i) : c.keep key rows = { c with index := i } := by
  rw [keep, hkey, Option.bind_some, h]

theorem exists_found {row : α} (hrow : row ∈ rows) (hk : key row = k) :
    ∃ i, rows.findIdx? (fun row => key row = k) = some i := by
  rw [← Option.isSome_iff_exists, List.findIdx?_isSome, List.any_eq_true]
  exact ⟨row, hrow, decide_eq_true hk⟩

omit [DecidableEq K] in
theorem on_clamp (c : Cursor K) : (c.clamp key rows).On key rows := by
  by_cases hrows : rows = []
  · exact Or.inl hrows
  · have hpos := List.length_pos_iff.mpr hrows
    have hlt : min c.index (rows.length - 1) < rows.length := by omega
    refine Or.inr ⟨rows[min c.index (rows.length - 1)], List.getElem?_eq_getElem hlt, ?_⟩
    rw [clamp, List.getElem?_eq_getElem hlt]
    rfl

/-- **Some row is selected**, whatever was before. -/
theorem on_keep (key : α → K) (rows : List α) (c : Cursor K) : (c.keep key rows).On key rows := by
  cases hkey : c.key with
  | none =>
    rw [keep, hkey]
    exact c.on_clamp
  | some k =>
    cases hfind : rows.findIdx? fun row => key row = k with
    | none =>
      rw [keep, hkey, Option.bind_some, hfind]
      exact c.on_clamp
    | some i =>
      obtain ⟨hlt, hi, -⟩ := List.findIdx?_eq_some_iff_getElem.mp hfind
      rw [keep_found hkey hfind]
      refine Or.inr ⟨rows[i], List.getElem?_eq_getElem hlt, ?_⟩
      rw [hkey, of_decide_eq_true hi]

omit [DecidableEq K] in
theorem On.selects (h : c.On key rows) {row : α} (hrow : rows[c.index]? = some row) :
    c.Selects key rows (key row) := by
  rcases h with rfl | ⟨row', hrow', hkey⟩
  · cases hrow
  · obtain rfl := Option.some.inj (hrow.symm.trans hrow')
    exact ⟨hkey, row, hrow, rfl⟩

/-- **The key stays selected exactly if one of the new rows has it.** -/
theorem selects_keep_iff (hkey : c.key = some k) :
    (c.keep key rows).Selects key rows k ↔ ∃ row ∈ rows, key row = k := by
  constructor
  · rintro ⟨-, row, hrow, hk⟩
    exact ⟨row, List.mem_of_getElem? hrow, hk⟩
  · rintro ⟨row, hrow, hk⟩
    obtain ⟨i, hfind⟩ := exists_found hrow hk
    obtain ⟨hlt, hi, -⟩ := List.findIdx?_eq_some_iff_getElem.mp hfind
    rw [keep_found hkey hfind]
    exact ⟨hkey, rows[i], List.getElem?_eq_getElem hlt, of_decide_eq_true hi⟩

/-- The cursor on a row that was chosen. -/
def choose (key : α → K) (rows : List α) (i : Nat) : Cursor K where
  index := i
  key := rows[i]?.map key

/-- **The row chosen is the one selected unless a row above it has its key.** -/
theorem index_keep_choose_iff (h : i < rows.length) :
    ((choose key rows i).keep key rows).index = i ↔
      ∀ j (hj : j < i), key (rows.get ⟨j, Nat.lt_trans hj h⟩) ≠ key rows[i] := by
  have hkey : (choose key rows i).key = some (key rows[i]) := by
    rw [choose, List.getElem?_eq_getElem h]
    rfl
  obtain ⟨first, hfind⟩ := exists_found (List.getElem_mem h) (rfl : key rows[i] = key rows[i])
  obtain ⟨hlt, hfirst, habove⟩ := List.findIdx?_eq_some_iff_getElem.mp hfind
  rw [keep_found hkey hfind]
  constructor
  · intro heq j hj
    have hj' : j < first := Nat.lt_of_lt_of_eq hj heq.symm
    exact fun hsame => habove j hj' (decide_eq_true hsame)
  · intro hall
    rcases Nat.lt_trichotomy first i with hless | heq | hgreater
    · exact absurd (of_decide_eq_true hfirst) (hall first hless)
    · exact heq
    · exact absurd (decide_eq_true rfl) (habove i hgreater)

end Cursor
end Selection
