import Ebaf.Kernel
import Ebaf.OnesComplement

/-! # The socket-buffer helpers

`tc_transparent` changes its packet through helpers.  Each of them acts on the
window it names or fails, and then leaves the frame alone: it fails when the run
says so and when the window does not lie in the frame.
-/
namespace Ebaf
open ByteWindow EarlyExit

variable {Ctx : Type}

/-- `bpf_skb_load_bytes` -/
def bpfSkbLoadBytes (e : Env Ctx) (call : HelperCall) (f : Frame) (off n : Nat) :
    Option (List UInt8) :=
  if e.fails call ∨ f.length < off + n then none else some (load f off n)

/-- `bpf_skb_store_bytes` -/
def bpfSkbStoreBytes (e : Env Ctx) (call : HelperCall) (off : Nat) (bs : List UInt8) (f : Frame) :
    Option Frame :=
  if e.fails call ∨ f.length < off + bs.length then none else some (store f off bs)

/-- `bpf_skb_change_tail`: the frame is cut, or grows and is filled with zeros. -/
def bpfSkbChangeTail (e : Env Ctx) (f : Frame) (len : Nat) : Option Frame :=
  if e.fails .changeTail then none else some (resize f len)

/-- `bpf_l3_csum_replace` for a two-byte field.  The kernel adds the bytes as
they stand in memory; one's-complement sums of 16-bit words do not depend on
the byte order. -/
def bpfL3CsumReplace (e : Env Ctx) (off old new : Nat) (f : Frame) : Option Frame :=
  if e.fails .csumReplace ∨ f.length < off + 2 then none
  else some (store f off (be16Bytes (OnesComplement.replace 65535 (be16 f off) old new)))

section Helpers
variable {e : Env Ctx} {call : HelperCall} {f g : Frame} {off n : Nat} {bs : List UInt8}

theorem bpfSkbLoadBytes_eq_none (h : off + n ≤ f.length) :
    bpfSkbLoadBytes e call f off n = none ↔ e.fails call = true := by
  rw [bpfSkbLoadBytes]
  simp [Nat.not_lt.mpr h]

theorem bpfSkbLoadBytes_eq_some (h : bpfSkbLoadBytes e call f off n = some bs) :
    e.fails call = false ∧ bs = load f off n := by
  rw [bpfSkbLoadBytes] at h
  split at h
  · cases h
  · rename_i hn
    exact ⟨by simpa using fun hf => hn (Or.inl hf), (Option.some.inj h).symm⟩

theorem bpfSkbStoreBytes_eq_none (h : off + bs.length ≤ f.length) :
    bpfSkbStoreBytes e call off bs f = none ↔ e.fails call = true := by
  rw [bpfSkbStoreBytes]
  simp [Nat.not_lt.mpr h]

theorem bpfSkbStoreBytes_eq_some (h : bpfSkbStoreBytes e call off bs f = some g) :
    e.fails call = false ∧ g = store f off bs := by
  rw [bpfSkbStoreBytes] at h
  split at h
  · cases h
  · rename_i hn
    exact ⟨by simpa using fun hf => hn (Or.inl hf), (Option.some.inj h).symm⟩

theorem bpfSkbChangeTail_eq_none : bpfSkbChangeTail e f n = none ↔ e.fails .changeTail = true := by
  rw [bpfSkbChangeTail]
  simp

theorem bpfSkbChangeTail_eq_some (h : bpfSkbChangeTail e f n = some g) :
    e.fails .changeTail = false ∧ g = resize f n := by
  rw [bpfSkbChangeTail] at h
  split at h
  · cases h
  · rename_i hn
    exact ⟨by simpa using hn, (Option.some.inj h).symm⟩

theorem bpfL3CsumReplace_eq_none {old new : Nat} (h : off + 2 ≤ f.length) :
    bpfL3CsumReplace e off old new f = none ↔ e.fails .csumReplace = true := by
  rw [bpfL3CsumReplace]
  simp [Nat.not_lt.mpr h]

theorem bpfL3CsumReplace_eq_some {old new : Nat} (h : bpfL3CsumReplace e off old new f = some g) :
    e.fails .csumReplace = false ∧
      g = store f off (be16Bytes (OnesComplement.replace 65535 (be16 f off) old new)) := by
  rw [bpfL3CsumReplace] at h
  split at h
  · cases h
  · rename_i hn
    exact ⟨by simpa using fun hf => hn (Or.inl hf), (Option.some.inj h).symm⟩

end Helpers

end Ebaf
