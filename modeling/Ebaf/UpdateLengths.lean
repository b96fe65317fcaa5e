import Ebaf.SkbHelpers

/-! # Updating the length fields

`update_lengths` adds to or subtracts from the IP total length and the UDP
length, updates the IP checksum for the change and clears the UDP checksum.
`relength` is its effect when all goes well.  It writes step by step and does
not undo what it has written when a later step fails: `Halfway` is all that can
be said then, unless only the last step has failed (`refield`).
-/
namespace Ebaf
open ByteWindow EarlyExit

variable {Ctx : Type}

/-- A 16-bit length field after `+= (__u16)delta` or `-= (__u16)delta`. -/
def lengthAfter (add : Bool) (old delta : Nat) : Nat :=
  if add then (old + delta % 65536) % 65536 else old - delta % 65536

theorem lengthAfter_add {old delta : Nat} (h : delta < 65536) :
    lengthAfter true old delta = (old + delta) % 65536 := by
  rw [lengthAfter, if_pos rfl, Nat.mod_eq_of_lt h]

theorem lengthAfter_sub {old delta : Nat} (h : delta < 65536) :
    lengthAfter false old delta = old - delta := by
  rw [lengthAfter, if_neg (by simp), Nat.mod_eq_of_lt h]

theorem lengthAfter_lt {add : Bool} {old delta : Nat} (h : old < 65536) :
    lengthAfter add old delta < 65536 := by
  rw [lengthAfter]
  split <;> omega

/-- `update_lengths`: an exit is a return of -1, with whatever has been written
so far. -/
def updateLengths (e : Env Ctx) (ip udp delta : Nat) (add : Bool) : Prog Frame Unit := do
  let f ← Prog.get
  let oldIpLen ← Prog.orExit (bpfSkbLoadBytes e .ipLenLoad f (ip + 2) 2) (pure ())
  let oldUdpLen ← Prog.orExit (bpfSkbLoadBytes e .udpLenLoad f (udp + 4) 2) (pure ())
  Prog.exitIf (add = false ∧ (be16 oldIpLen 0 < delta ∨ be16 oldUdpLen 0 < delta)) (pure ())
  -- growing is not checked: the 16-bit additions wrap
  let newIpLen := lengthAfter add (be16 oldIpLen 0) delta
  let newUdpLen := lengthAfter add (be16 oldUdpLen 0) delta
  Prog.tryModify (bpfL3CsumReplace e (ip + 10) (be16 oldIpLen 0) newIpLen) (pure ())
  Prog.tryModify (bpfSkbStoreBytes e .ipLenStore (ip + 2) (be16Bytes newIpLen)) (pure ())
  Prog.tryModify (bpfSkbStoreBytes e .udpLenStore (udp + 4) (be16Bytes newUdpLen)) (pure ())
  Prog.tryModify (bpfSkbStoreBytes e .udpCheckStore (udp + 6) [0, 0]) (pure ())

/-! ## The effect -/

/-- A frame with new length fields and the IP checksum updated for them. -/
def refield (ip udp delta : Nat) (add : Bool) (f : Frame) : Frame :=
  let newIpLen := lengthAfter add (be16 f (ip + 2)) delta
  store (store (store f (ip + 10)
    (be16Bytes (OnesComplement.replace 65535 (be16 f (ip + 10)) (be16 f (ip + 2)) newIpLen)))
    (ip + 2) (be16Bytes newIpLen))
    (udp + 4) (be16Bytes (lengthAfter add (be16 f (udp + 4)) delta))

/-- **What `update_lengths` makes of a frame**: the UDP checksum is cleared, too. -/
def relength (ip udp delta : Nat) (add : Bool) (f : Frame) : Frame :=
  store (refield ip udp delta add f) (udp + 6) [0, 0]

section Fields
variable {ip udp delta i off n : Nat} {add : Bool} {f : Frame}

@[simp] theorem length_refield : (refield ip udp delta add f).length = f.length := by
  simp [refield]

@[simp] theorem length_relength : (relength ip udp delta add f).length = f.length := by
  simp [relength]

/-- What `refield` does not write. -/
theorem byteAt_refield_out (hip : i < ip + 2 ∨ ip + 4 ≤ i) (hcheck : i < ip + 10 ∨ ip + 12 ≤ i)
    (hudp : i < udp + 4 ∨ udp + 6 ≤ i) : byteAt (refield ip udp delta add f) i = byteAt f i := by
  rw [refield, byteAt_store_out (by rw [length_be16Bytes]; omega),
    byteAt_store_out (by rw [length_be16Bytes]; omega),
    byteAt_store_out (by rw [length_be16Bytes]; omega)]

/-- What `relength` does not write. -/
theorem byteAt_relength_out (hip : i < ip + 2 ∨ ip + 4 ≤ i) (hcheck : i < ip + 10 ∨ ip + 12 ≤ i)
    (hudp : i < udp + 4 ∨ udp + 8 ≤ i) : byteAt (relength ip udp delta add f) i = byteAt f i := by
  rw [relength, byteAt_store_out (by simp only [List.length_cons, List.length_nil]; omega),
    byteAt_refield_out hip hcheck (by omega)]

/-- Neither of them writes behind the UDP header. -/
theorem load_refield (hip : ip + 12 ≤ off) (hudp : udp + 8 ≤ off) :
    load (refield ip udp delta add f) off n = load f off n :=
  load_congr fun _ _ => byteAt_refield_out (by omega) (by omega) (by omega)

theorem load_relength (hip : ip + 12 ≤ off) (hudp : udp + 8 ≤ off) :
    load (relength ip udp delta add f) off n = load f off n :=
  load_congr fun _ _ => byteAt_relength_out (by omega) (by omega) (by omega)

variable (hsep : ip + 12 ≤ udp) (hlen : udp + 8 ≤ f.length)
include hsep hlen

theorem ipLen_refield : be16 (refield ip udp delta add f) (ip + 2) =
    lengthAfter add (be16 f (ip + 2)) delta := by
  rw [refield, be16_store_out (by omega),
    be16_store_be16Bytes (by rw [length_store]; omega) (lengthAfter_lt be16_lt)]

omit hsep in
theorem udpLen_refield : be16 (refield ip udp delta add f) (udp + 4) =
    lengthAfter add (be16 f (udp + 4)) delta := by
  rw [refield, be16_store_be16Bytes (by rw [length_store, length_store]; omega)
    (lengthAfter_lt be16_lt)]

theorem ipCheck_refield : be16 (refield ip udp delta add f) (ip + 10) =
    OnesComplement.replace 65535 (be16 f (ip + 10)) (be16 f (ip + 2))
      (lengthAfter add (be16 f (ip + 2)) delta) := by
  have hsum : OnesComplement.replace 65535 (be16 f (ip + 10)) (be16 f (ip + 2))
      (lengthAfter add (be16 f (ip + 2)) delta) ≤ 65535 := OnesComplement.replace_le
  rw [refield, be16_store_out (by omega), be16_store_out (by rw [length_be16Bytes]; omega),
    be16_store_be16Bytes (by omega) (by omega)]

theorem ipLen_relength : be16 (relength ip udp delta add f) (ip + 2) =
    lengthAfter add (be16 f (ip + 2)) delta := by
  rw [relength, be16_store_out (by omega), ipLen_refield hsep hlen]

omit hsep in
theorem udpLen_relength : be16 (relength ip udp delta add f) (udp + 4) =
    lengthAfter add (be16 f (udp + 4)) delta := by
  rw [relength, be16_store_out (by omega), udpLen_refield hlen]

theorem ipCheck_relength : be16 (relength ip udp delta add f) (ip + 10) =
    OnesComplement.replace 65535 (be16 f (ip + 10)) (be16 f (ip + 2))
      (lengthAfter add (be16 f (ip + 2)) delta) := by
  rw [relength, be16_store_out (by omega), ipCheck_refield hsep hlen]

omit hsep in
theorem udpCheck_relength : be16 (relength ip udp delta add f) (udp + 6) = 0 :=
  be16_store_be16Bytes (n := 0) (by rw [length_refield]; omega) (by omega)

end Fields

/-! ## The specification -/

/-- The calls that update the length fields succeed. -/
def FieldCallsOk (e : Env Ctx) : Prop :=
  e.fails .ipLenLoad = false ∧ e.fails .udpLenLoad = false ∧ e.fails .csumReplace = false ∧
    e.fails .ipLenStore = false ∧ e.fails .udpLenStore = false

instance (e : Env Ctx) : Decidable (FieldCallsOk e) := inferInstanceAs (Decidable (_ ∧ _))

/-- The fields are updated: the calls succeed, and what is subtracted is not more
than what is there. -/
def FieldsOk (e : Env Ctx) (ip udp delta : Nat) (add : Bool) (f : Frame) : Prop :=
  FieldCallsOk e ∧ (add = false → delta ≤ be16 f (ip + 2) ∧ delta ≤ be16 f (udp + 4))

/-- A frame `g` in which at least one of the two length fields is still what it
was in `f`. -/
structure Halfway (ip udp : Nat) (f g : Frame) : Prop where
  length : g.length = f.length
  start : byteAt g ip = byteAt f ip
  field : be16 g (ip + 2) = be16 f (ip + 2) ∨ be16 g (udp + 4) = be16 f (udp + 4)

theorem Halfway.refl {ip udp : Nat} (f : Frame) : Halfway ip udp f f := ⟨rfl, rfl, Or.inl rfl⟩

theorem be16_load {f : Frame} {off : Nat} : be16 (load f off 2) 0 = be16 f off :=
  be16_congr (byteAt_load (by omega)) (byteAt_load (by omega))

/-- **`update_lengths` relengths the frame, or stops on the way.** -/
theorem updateLengths_spec (e : Env Ctx) (ip udp delta : Nat) (add : Bool) {f : Frame}
    (hsep : ip + 12 ≤ udp) (hlen : udp + 8 ≤ f.length) :
    (updateLengths e ip udp delta add).Ensures f
      (fun _ g => (FieldsOk e ip udp delta add f ∧ e.fails .udpCheckStore = false) ∧
        g = relength ip udp delta add f)
      (fun g => (¬ FieldsOk e ip udp delta add f ∧ Halfway ip udp f g) ∨
        (FieldsOk e ip udp delta add f ∧ e.fails .udpCheckStore = true ∧
          g = refield ip udp delta add f)) := by
  have failed : ∀ {call} {g : Frame}, (FieldCallsOk e → e.fails call = false) →
      e.fails call = true → Halfway ip udp f g →
        (¬ FieldsOk e ip udp delta add f ∧ Halfway ip udp f g) ∨
          (FieldsOk e ip udp delta add f ∧ e.fails .udpCheckStore = true ∧
            g = refield ip udp delta add f) :=
    fun hcall hf hg => .inl ⟨fun h => by simp [hcall h.1] at hf, hg⟩
  refine Prog.ensures_bind.mpr (Prog.ensures_get.mpr ?_)
  refine .pointer (fun h => ?_) fun oldIp h1 => ?_
  · exact failed (fun hc => hc.1) ((bpfSkbLoadBytes_eq_none (by omega)).mp h) (.refl f)
  obtain ⟨k1, rfl⟩ := bpfSkbLoadBytes_eq_some h1
  refine .pointer (fun h => ?_) fun oldUdp h2 => ?_
  · exact failed (fun hc => hc.2.1) ((bpfSkbLoadBytes_eq_none (by omega)).mp h) (.refl f)
  obtain ⟨k2, rfl⟩ := bpfSkbLoadBytes_eq_some h2
  rw [be16_load, be16_load]
  refine .check (fun h => ?_) fun hfit => ?_
  · refine .inl ⟨fun hok => ?_, .refl f⟩
    have := hok.2 h.1
    omega
  refine .call (fun h => ?_) fun g h3 => ?_
  · exact failed (fun hc => hc.2.2.1) ((bpfL3CsumReplace_eq_none (by omega)).mp h) (.refl f)
  obtain ⟨k3, rfl⟩ := bpfL3CsumReplace_eq_some h3
  refine .call (fun h => ?_) fun g h4 => ?_
  · refine failed (fun hc => hc.2.2.2.1) ((bpfSkbStoreBytes_eq_none ?_).mp h)
      ⟨length_store, byteAt_store_out (Or.inl (by omega)), .inl (be16_store_out (by omega))⟩
    simp only [length_store, length_be16Bytes]
    omega
  obtain ⟨k4, rfl⟩ := bpfSkbStoreBytes_eq_some h4
  refine .call (fun h => ?_) fun g h5 => ?_
  · refine failed (fun hc => hc.2.2.2.2) ((bpfSkbStoreBytes_eq_none ?_).mp h) ⟨by simp, ?_, .inr ?_⟩
    · simp only [length_store, length_be16Bytes]
      omega
    · rw [byteAt_store_out (Or.inl (by omega)), byteAt_store_out (Or.inl (by omega))]
    · rw [be16_store_out (by rw [length_be16Bytes]; omega),
        be16_store_out (by rw [length_be16Bytes]; omega)]
  obtain ⟨k5, rfl⟩ := bpfSkbStoreBytes_eq_some h5
  have fields : FieldsOk e ip udp delta add f := by
    refine ⟨⟨k1, k2, k3, k4, k5⟩, fun hadd => ?_⟩
    have := not_and.mp hfit hadd
    omega
  refine .lastCall (fun h => ?_) fun g h6 => ?_
  · refine .inr ⟨fields, (bpfSkbStoreBytes_eq_none ?_).mp h, rfl⟩
    simp only [length_store, List.length_cons, List.length_nil]
    omega
  obtain ⟨k6, rfl⟩ := bpfSkbStoreBytes_eq_some h6
  exact ⟨⟨fields, k6⟩, rfl⟩

/-- **Wherever it stops, `update_lengths` leaves what is behind the UDP header.** -/
theorem updateLengths_keeps (e : Env Ctx) (ip udp delta : Nat) (add : Bool) {f : Frame} {off n : Nat}
    (hip : ip + 12 ≤ off) (hudp : udp + 8 ≤ off) :
    (updateLengths e ip udp delta add).Ensures f (fun _ g => load g off n = load f off n)
      (fun g => load g off n = load f off n) := by
  have kept : ∀ {g : Frame} {i : Nat} (bs : List UInt8), load g off n = load f off n →
      i + bs.length ≤ off → load (store g i bs) off n = load f off n := by
    intro g i bs hg hi
    rw [load_store_disjoint (Or.inr hi), hg]
  refine Prog.ensures_bind.mpr (Prog.ensures_get.mpr ?_)
  refine .pointer (fun _ => rfl) fun oldIp _ => ?_
  refine .pointer (fun _ => rfl) fun oldUdp _ => ?_
  refine .check (fun _ => rfl) fun _ => ?_
  refine .call (fun _ => rfl) fun g₁ h₁ => ?_
  obtain ⟨-, rfl⟩ := bpfL3CsumReplace_eq_some h₁
  have k₁ := kept (be16Bytes (OnesComplement.replace 65535 (be16 f (ip + 10)) (be16 oldIp 0)
    (lengthAfter add (be16 oldIp 0) delta))) rfl (show ip + 10 + 2 ≤ off by omega)
  refine .call (fun _ => k₁) fun g₂ h₂ => ?_
  obtain ⟨-, rfl⟩ := bpfSkbStoreBytes_eq_some h₂
  have k₂ := kept (be16Bytes (lengthAfter add (be16 oldIp 0) delta)) k₁
    (show ip + 2 + 2 ≤ off by omega)
  refine .call (fun _ => k₂) fun g₃ h₃ => ?_
  obtain ⟨-, rfl⟩ := bpfSkbStoreBytes_eq_some h₃
  have k₃ := kept (be16Bytes (lengthAfter add (be16 oldUdp 0) delta)) k₂
    (show udp + 4 + 2 ≤ off by omega)
  refine .lastCall (fun _ => k₃) fun g₄ h₄ => ?_
  obtain ⟨-, rfl⟩ := bpfSkbStoreBytes_eq_some h₄
  exact kept [0, 0] k₃ (show udp + 6 + 2 ≤ off by omega)

end Ebaf
