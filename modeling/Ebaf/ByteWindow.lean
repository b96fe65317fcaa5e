import Mathlib.Data.List.Basic

/-! # Windows of a byte string

A packet is a string of bytes; code reads and writes *windows* of it, named by
an offset and a length.  Everything is decided byte by byte: `byteAt` of a store
or of a resize is the only fact about it that is proved from its definition, and
the laws between windows follow by extensionality (`ext_byteAt`).

Reads are total: a byte past the end reads as zero.  The code that reads is the
place where bounds are checked.
-/
namespace ByteWindow

/-- The byte at an offset. -/
def byteAt (f : List UInt8) (i : Nat) : UInt8 := f.getD i 0

/-- The `n` bytes from `off` on. -/
def load (f : List UInt8) (off n : Nat) : List UInt8 :=
  (List.range n).map fun i => byteAt f (off + i)

/-- The string with the window from `off` on overwritten by `bs`; its length
never changes. -/
def store (f : List UInt8) (off : Nat) (bs : List UInt8) : List UInt8 :=
  f.mapIdx fun i b => if off ≤ i ∧ i < off + bs.length then byteAt bs (i - off) else b

/-- The string cut to, or filled with zeros up to, `n` bytes. -/
def resize (f : List UInt8) (n : Nat) : List UInt8 :=
  f.take n ++ List.replicate (n - f.length) 0

/-- The big-endian 16-bit number at an offset. -/
def be16 (f : List UInt8) (off : Nat) : Nat :=
  (byteAt f off).toNat * 256 + (byteAt f (off + 1)).toNat

/-- The big-endian 32-bit number at an offset. -/
def be32 (f : List UInt8) (off : Nat) : Nat :=
  be16 f off * 65536 + be16 f (off + 2)

/-- The two bytes of a 16-bit number, most significant first. -/
def be16Bytes (n : Nat) : List UInt8 := [UInt8.ofNat (n / 256), UInt8.ofNat n]

variable {f g bs cs : List UInt8} {i j n m off : Nat}

/-! ## Bytes and lengths -/

@[simp] theorem length_load : (load f off n).length = n := by simp [load]

@[simp] theorem length_store : (store f off bs).length = f.length := by simp [store]

@[simp] theorem length_resize : (resize f n).length = n := by
  simp only [resize, List.length_append, List.length_take, List.length_replicate]
  omega

@[simp] theorem length_be16Bytes : (be16Bytes n).length = 2 := rfl

theorem byteAt_of_lt (h : i < f.length) : byteAt f i = f[i] := by
  rw [byteAt, List.getD_eq_getElem?_getD, List.getElem?_eq_getElem h, Option.getD_some]

theorem byteAt_of_ge (h : f.length ≤ i) : byteAt f i = 0 := by
  rw [byteAt, List.getD_eq_getElem?_getD, List.getElem?_eq_none h, Option.getD_none]

/-- Byte strings are equal when their lengths and their bytes are. -/
theorem ext_byteAt (hlen : f.length = g.length)
    (h : ∀ i, i < f.length → byteAt f i = byteAt g i) : f = g := by
  refine List.ext_getElem hlen fun i hf hg => ?_
  rw [← byteAt_of_lt hf, ← byteAt_of_lt hg]
  exact h i hf

theorem byteAt_load (h : i < n) : byteAt (load f off n) i = byteAt f (off + i) := by
  rw [byteAt_of_lt (by simpa using h)]
  simp [load]

theorem byteAt_store_in (hlo : off ≤ i) (hhi : i < off + bs.length) (hi : i < f.length) :
    byteAt (store f off bs) i = byteAt bs (i - off) := by
  rw [byteAt_of_lt (by simpa using hi)]
  simp [store, hlo, hhi]

theorem byteAt_store_out (h : i < off ∨ off + bs.length ≤ i) :
    byteAt (store f off bs) i = byteAt f i := by
  by_cases hi : i < f.length
  · rw [byteAt_of_lt (by simpa using hi), byteAt_of_lt hi]
    simp only [store, List.getElem_mapIdx]
    rw [if_neg (by omega)]
  · rw [byteAt_of_ge (by simpa using hi), byteAt_of_ge (by omega)]

theorem byteAt_resize : byteAt (resize f n) i = if i < n then byteAt f i else 0 := by
  split
  · rename_i hi
    by_cases hf : i < f.length
    · rw [byteAt_of_lt (by simpa using hi), byteAt_of_lt hf]
      simp only [resize]
      rw [List.getElem_append_left (by simp only [List.length_take]; omega), List.getElem_take]
    · rw [byteAt_of_lt (by simpa using hi), byteAt_of_ge (by omega)]
      simp only [resize]
      rw [List.getElem_append_right (by simp; omega), List.getElem_replicate]
  · exact byteAt_of_ge (by simp; omega)

theorem byteAt_append :
    byteAt (bs ++ cs) i = if i < bs.length then byteAt bs i else byteAt cs (i - bs.length) := by
  split
  · rename_i h
    rw [byteAt, byteAt, List.getD_eq_getElem?_getD, List.getElem?_append_left h,
      List.getD_eq_getElem?_getD]
  · rename_i h
    rw [byteAt, byteAt, List.getD_eq_getElem?_getD, List.getElem?_append_right (Nat.not_lt.mp h),
      List.getD_eq_getElem?_getD]

theorem byteAt_replicate {b : UInt8} (h : i < n) : byteAt (List.replicate n b) i = b := by
  rw [byteAt_of_lt (by simpa using h), List.getElem_replicate]

/-! ## Laws of windows -/

/-- Two windows agree when their bytes do. -/
theorem load_congr {off' : Nat} (h : ∀ i, i < n → byteAt f (off + i) = byteAt g (off' + i)) :
    load f off n = load g off' n :=
  List.map_congr_left fun i hi => h i (List.mem_range.mp hi)

/-- Reading back a window just written. -/
theorem load_store_self (h : off + bs.length ≤ f.length) :
    load (store f off bs) off bs.length = bs := by
  refine ext_byteAt length_load fun i hi => ?_
  rw [length_load] at hi
  rw [byteAt_load hi, byteAt_store_in (by omega) (by omega) (by omega)]
  congr 1
  omega

/-- A store leaves every window disjoint from its own alone. -/
theorem load_store_disjoint (h : off + n ≤ m ∨ m + bs.length ≤ off) :
    load (store f m bs) off n = load f off n :=
  load_congr fun i hi => byteAt_store_out (by omega)

/-- The first bytes as a window. -/
theorem load_zero (h : n ≤ f.length) : load f 0 n = f.take n := by
  refine ext_byteAt (by rw [length_load, List.length_take, Nat.min_eq_left h]) fun i hi => ?_
  rw [length_load] at hi
  rw [byteAt_load hi, Nat.zero_add, byteAt_of_lt (by omega),
    byteAt_of_lt (by rw [List.length_take]; omega), List.getElem_take]

theorem load_full : load f 0 f.length = f :=
  ext_byteAt length_load fun i hi => by
    rw [length_load] at hi
    rw [byteAt_load hi, Nat.zero_add]

/-- Writing back what is there changes nothing. -/
theorem store_load_self : store f off (load f off n) = f := by
  refine ext_byteAt length_store fun i hi => ?_
  rw [length_store] at hi
  by_cases hw : off ≤ i ∧ i < off + n
  · rw [byteAt_store_in hw.1 (by simpa using hw.2) hi, byteAt_load (by omega)]
    congr 1
    omega
  · exact byteAt_store_out (by simp only [length_load]; omega)

/-- The second of two stores to one window hides the first. -/
theorem store_store_same (h : bs.length = cs.length) :
    store (store f off bs) off cs = store f off cs := by
  refine ext_byteAt (by simp) fun i hi => ?_
  simp only [length_store] at hi
  by_cases hw : off ≤ i ∧ i < off + cs.length
  · rw [byteAt_store_in hw.1 hw.2 (by simpa using hi), byteAt_store_in hw.1 hw.2 hi]
  · rw [byteAt_store_out (by omega), byteAt_store_out (by omega), byteAt_store_out (by omega)]

/-- Two stores to adjacent windows are one store. -/
theorem store_store_append :
    store (store f off bs) (off + bs.length) cs = store f off (bs ++ cs) := by
  refine ext_byteAt (by simp) fun i hi => ?_
  simp only [length_store] at hi
  by_cases hw : off ≤ i ∧ i < off + bs.length + cs.length
  · rw [byteAt_store_in (f := f) hw.1 (by rw [List.length_append]; omega) hi, byteAt_append]
    split
    · rw [byteAt_store_out (by omega), byteAt_store_in hw.1 (by omega) hi]
    · rw [byteAt_store_in (by omega) hw.2 (by simpa using hi), Nat.sub_sub]
  · rw [byteAt_store_out (by omega), byteAt_store_out (by omega),
      byteAt_store_out (by rw [List.length_append]; omega)]

theorem store_nil : store f off [] = f :=
  ext_byteAt length_store fun i _ => byteAt_store_out (by simp only [List.length_nil]; omega)

/-- Stores to disjoint windows commute. -/
theorem store_comm (h : off + bs.length ≤ m ∨ m + cs.length ≤ off) :
    store (store f off bs) m cs = store (store f m cs) off bs := by
  refine ext_byteAt (by simp) fun i hi => ?_
  simp only [length_store] at hi
  by_cases hb : off ≤ i ∧ i < off + bs.length
  · rw [byteAt_store_out (by omega), byteAt_store_in hb.1 hb.2 hi,
      byteAt_store_in hb.1 hb.2 (by simpa using hi)]
  · rw [byteAt_store_out (f := store f m cs) (by omega)]
    by_cases hc : m ≤ i ∧ i < m + cs.length
    · rw [byteAt_store_in hc.1 hc.2 (by simpa using hi), byteAt_store_in hc.1 hc.2 hi]
    · rw [byteAt_store_out (by omega), byteAt_store_out (by omega), byteAt_store_out (by omega)]

/-- A window is its two halves. -/
theorem load_add : load f off (n + m) = load f off n ++ load f (off + n) m := by
  refine ext_byteAt (by simp) fun i hi => ?_
  rw [length_load] at hi
  rw [byteAt_load hi, byteAt_append, length_load]
  split
  · rename_i h
    rw [byteAt_load h]
  · rw [byteAt_load (by omega)]
    congr 1
    omega

/-- The first half of what was written. -/
theorem load_store_left (h : off + bs.length ≤ f.length) :
    load (store f off (bs ++ cs)) off bs.length = bs := by
  rw [← store_store_append, load_store_disjoint (Or.inl (Nat.le_refl _)), load_store_self h]

theorem load_resize (h : off + n ≤ m) : load (resize f m) off n = load f off n :=
  load_congr fun i hi => by rw [byteAt_resize, if_pos (by omega)]

/-! ## Big-endian numbers -/

theorem be16_lt : be16 f off < 65536 := by
  have h0 := (byteAt f off).toNat_lt
  have h1 := (byteAt f (off + 1)).toNat_lt
  unfold be16
  omega

theorem be16_congr (h0 : byteAt f off = byteAt g m) (h1 : byteAt f (off + 1) = byteAt g (m + 1)) :
    be16 f off = be16 g m := by
  rw [be16, be16, h0, h1]

/-- Equal numbers have equal bytes. -/
theorem byteAt_of_be16 (h : be16 f off = be16 g m) (hj : j < 2) :
    byteAt f (off + j) = byteAt g (m + j) := by
  have h0 := (byteAt f off).toNat_lt
  have h1 := (byteAt f (off + 1)).toNat_lt
  have h0' := (byteAt g m).toNat_lt
  have h1' := (byteAt g (m + 1)).toNat_lt
  rw [be16, be16] at h
  have hj' : j = 0 ∨ j = 1 := by omega
  rcases hj' with rfl | rfl
  · exact UInt8.toNat_inj.mp (by rw [Nat.add_zero, Nat.add_zero]; omega)
  · exact UInt8.toNat_inj.mp (by omega)

theorem be16_store_out (h : off + 2 ≤ m ∨ m + bs.length ≤ off) :
    be16 (store f m bs) off = be16 f off :=
  be16_congr (byteAt_store_out (by omega)) (byteAt_store_out (by omega))

theorem be32_lt : be32 f off < 4294967296 := by
  have hhi : be16 f off < 65536 := be16_lt
  have hlo : be16 f (off + 2) < 65536 := be16_lt
  unfold be32
  omega

theorem be32_congr (h : ∀ i, i < 4 → byteAt f (off + i) = byteAt g (m + i)) :
    be32 f off = be32 g m := by
  have hhi : be16 f off = be16 g m := be16_congr (h 0 (by omega)) (h 1 (by omega))
  have hlo : be16 f (off + 2) = be16 g (m + 2) := be16_congr (h 2 (by omega)) (h 3 (by omega))
  rw [be32, be32, hhi, hlo]

theorem byteAt_be16Bytes_zero : byteAt (be16Bytes n) 0 = UInt8.ofNat (n / 256) := rfl

theorem byteAt_be16Bytes_one : byteAt (be16Bytes n) 1 = UInt8.ofNat n := rfl

/-- A number written big-endian reads back. -/
theorem be16_be16Bytes (h : n < 65536) : be16 (be16Bytes n) 0 = n := by
  rw [be16, byteAt_be16Bytes_zero, byteAt_be16Bytes_one, UInt8.toNat_ofNat', UInt8.toNat_ofNat']
  omega

theorem be16_store_in (hlo : m ≤ off) (hhi : off + 2 ≤ m + bs.length) (h : m + bs.length ≤ f.length) :
    be16 (store f m bs) off = be16 bs (off - m) :=
  be16_congr (byteAt_store_in (by omega) (by omega) (by omega))
    ((byteAt_store_in (by omega) (by omega) (by omega)).trans (by congr 1; omega))

theorem be16_store_be16Bytes (h : off + 2 ≤ f.length) (hn : n < 65536) :
    be16 (store f off (be16Bytes n)) off = n := by
  rw [be16_store_in (Nat.le_refl _) (by simp) (by simpa using h), Nat.sub_self, be16_be16Bytes hn]

end ByteWindow
