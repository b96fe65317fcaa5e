import Ebaf.XdpCrypto
import Ebaf.TcCrypto
import Ebaf.FramedPayload

/-! # The two framed programs agree

`tc_crypto` makes three checks `xdp_crypto` does not: for fragments, for the
configured action and algorithm, and for the header's action byte.  Where these
pass, the two programs make the same checks in the same order, so that they
leave the same state: the same frame, counters and events.
-/
namespace Ebaf
open ByteWindow EarlyExit

variable {Ctx : Type}

/-- An IPv4 packet that is a fragment of a larger one. -/
structure IsIpv4Fragment (f : Frame) : Prop where
  proto : ethProto f = ethPIp
  ihl : 5 ≤ ipIhl f
  header : udpOff f ≤ f.length
  fragment : isFragment f

/-- There is an EBAF header of the known version at the place where the framed
programs look for one. -/
structure HasEbafHeader (f : Frame) : Prop where
  inside : payloadOff f + EbafCryptoHeader.size ≤ f.length
  magic : (framedHeader f).magic = ebafCryptoMagic
  version : (framedHeader f).version = ebafCryptoVersion

/-- For an action `tc_crypto` supports, both programs call the same kfunc. -/
theorem xdpDirection_eq_tcDirection {config : EbafCryptoConfig}
    (h : config.action = ebafActionEncrypt ∨ config.action = ebafActionDecrypt) :
    xdpDirection config = tcDirection config := by
  unfold xdpDirection tcDirection
  rcases h with h | h
  · rw [if_pos h, if_pos h]
  · rw [if_neg (by rw [h]; decide), if_pos h, if_neg (by rw [h]; decide)]

/-- **XDP and TC framed paths agree**: on every frame that is no IPv4 fragment
and whose EBAF header, if it has one, carries action byte 1, under every AES-CBC
configuration for either direction, and whatever the kernel answers, the two
programs leave the same frame, counters and events. -/
theorem xdpCrypto_agrees_tcCrypto (K : CryptoKernel Ctx) (e : Env Ctx) (s : PacketState Ctx)
    (hconfig : ∀ config, e.config = some config → config.algo = ebafAlgoCbcAes ∧
      (config.action = ebafActionEncrypt ∨ config.action = ebafActionDecrypt))
    (hwhole : ¬ IsIpv4Fragment s.frame)
    (hmarked : HasEbafHeader s.frame → (framedHeader s.frame).action = 1) :
    (xdpCrypto K e).exec s = (tcCrypto K e).exec s := by
  unfold xdpCrypto tcCrypto
  refine exec_start.trans (Eq.trans ?_ exec_start.symm)
  refine Prog.exec_check_congr Iff.rfl fun _ => ?_
  refine Prog.exec_check_congr Iff.rfl fun proto => ?_
  refine Prog.exec_check_congr Iff.rfl fun ip => ?_
  refine Prog.exec_check_congr Iff.rfl fun options => ?_
  have whole : ¬ isFragment s.frame := fun h =>
    hwhole ⟨not_not.mp proto, by omega, Nat.not_lt.mp options, h⟩
  refine Eq.trans ?_ (Prog.exec_check_skip whole).symm
  refine Prog.exec_check_congr Iff.rfl fun _ => ?_
  refine Prog.exec_check_congr Iff.rfl fun _ => ?_
  refine Prog.exec_pointer_congr fun config hc => ?_
  obtain ⟨halgo, haction⟩ := hconfig config hc
  have supported : ¬ ((config.action ≠ ebafActionEncrypt ∧ config.action ≠ ebafActionDecrypt) ∨
      config.algo ≠ ebafAlgoCbcAes) := by
    rintro (⟨henc, hdec⟩ | h)
    · exact haction.elim henc hdec
    · exact h halgo
  refine Eq.trans ?_ (Prog.exec_check_skip supported).symm
  refine Prog.exec_check_congr Iff.rfl fun _ => ?_
  refine Prog.exec_check_congr Iff.rfl fun _ => ?_
  refine Prog.exec_check_congr Iff.rfl fun _ => ?_
  refine Prog.exec_check_congr Iff.rfl fun _ => ?_
  refine Prog.exec_check_congr Iff.rfl fun inside => ?_
  -- the marker check: the action byte is 1 once magic and version are right
  refine Prog.exec_check_congr ⟨fun h => ?_, fun h => ?_⟩ fun _ => ?_
  · exact h.elim Or.inl fun hv => Or.inr (Or.inl hv)
  · by_contra hn
    obtain ⟨hm, hv⟩ := not_or.mp hn
    have := hmarked ⟨Nat.not_lt.mp inside, not_not.mp hm, not_not.mp hv⟩
    exact h.elim hm fun h => h.elim hv fun ha => ha this
  refine Prog.exec_check_congr Iff.rfl fun _ => ?_
  refine Prog.exec_check_congr Iff.rfl fun _ => ?_
  refine Prog.exec_check_congr ⟨And.right, fun h => ⟨halgo, h⟩⟩ fun _ => ?_
  rw [xdpDirection_eq_tcDirection haction]

/-- They agree on a block to be encrypted. -/
theorem framed_programs_agree_on_block :
    (xdpCrypto (knownKernel _) knownSender).exec plainBlock =
      (tcCrypto (knownKernel _) knownSender).exec plainBlock := by
  refine xdpCrypto_agrees_tcCrypto _ _ _ (fun config h => ?_) (fun h => ?_) fun _ => ?_
  · obtain rfl := Option.some.inj h
    exact ⟨rfl, Or.inl rfl⟩
  · exact not_isFragment_datagram h.fragment
  · exact congrArg EbafCryptoHeader.action (framedHeader_datagram rfl)

end Ebaf
