import Ebaf.ByteWindow

/-! # Padding to whole blocks

A message is padded with `p` bytes that all have the value `p`, where `p` is at
least one and at most the block size: the last byte tells how much to cut off.
`Padded k body msg` is the relation a padding function and an unpadding function
have to respect.  A body determines its message (`padded_iff`), and every message
has a padding that fills its last block (`padded_pad`).
-/
namespace BlockPadding
open ByteWindow

/-- A padding of `p` bytes. -/
def tail (p : Nat) : List UInt8 := List.replicate p (UInt8.ofNat p)

/-- The message with the padding that fills its last block, or a block of its own. -/
def pad (k : Nat) (msg : List UInt8) : List UInt8 := msg ++ tail (k - msg.length % k)

/-- The body is the message and a padding behind it. -/
def Padded (k : Nat) (body msg : List UInt8) : Prop :=
  ∃ p, 1 ≤ p ∧ p ≤ k ∧ body = msg ++ tail p

/-- The number the last byte gives. -/
def lastByte (body : List UInt8) : Nat := (byteAt body (body.length - 1)).toNat

variable {k p : Nat} {body msg : List UInt8}

@[simp] theorem length_tail : (tail p).length = p := List.length_replicate

/-- The last byte of a padded body is the length of the padding. -/
theorem lastByte_append_tail (hpos : 1 ≤ p) (hp : p < 256) : lastByte (msg ++ tail p) = p := by
  rw [lastByte, List.length_append, length_tail, byteAt_append, if_neg (by omega), tail,
    byteAt_replicate (by omega), UInt8.toNat_ofNat']
  omega

/-- The last bytes of a body, as many as the last byte says, all have its value. -/
def EndsInPadding (body : List UInt8) : Prop :=
  body.drop (body.length - lastByte body) = tail (lastByte body)

instance : Decidable (EndsInPadding body) := inferInstanceAs (Decidable (_ = _))

/-- **What is padded, and with which message**, is decided from the last byte on. -/
theorem padded_iff (hk : k < 256) :
    Padded k body msg ↔ (1 ≤ lastByte body ∧ lastByte body ≤ k ∧ lastByte body ≤ body.length ∧
      EndsInPadding body) ∧ msg = body.take (body.length - lastByte body) := by
  constructor
  · rintro ⟨p, hpos, hp, rfl⟩
    have hlast : lastByte (msg ++ tail p) = p := lastByte_append_tail hpos (by omega)
    have hlen : (msg ++ tail p).length = msg.length + p := by
      rw [List.length_append, length_tail]
    rw [EndsInPadding, hlast, hlen, Nat.add_sub_cancel, List.drop_left' rfl, List.take_left' rfl]
    exact ⟨⟨hpos, hp, Nat.le_add_left _ _, rfl⟩, rfl⟩
  · rintro ⟨⟨hpos, hp, -, hends⟩, rfl⟩
    refine ⟨lastByte body, hpos, hp, ?_⟩
    rw [← hends, List.take_append_drop]

/-- **Every message can be padded.** -/
theorem padded_pad (hk : 0 < k) (msg : List UInt8) : Padded k (pad k msg) msg := by
  have hmod : msg.length % k < k := Nat.mod_lt _ hk
  exact ⟨k - msg.length % k, by omega, Nat.sub_le .., rfl⟩

/-- A padded message consists of whole blocks. -/
theorem pad_aligned (hk : 0 < k) (msg : List UInt8) : (pad k msg).length % k = 0 := by
  have hmod : msg.length % k < k := Nat.mod_lt _ hk
  have hdiv := Nat.div_add_mod msg.length k
  have hlen : (pad k msg).length = k * (msg.length / k + 1) := by
    rw [pad, List.length_append, length_tail, Nat.mul_add]
    omega
  rw [hlen, Nat.mul_mod_right]

end BlockPadding
