import Ebaf.TcTransparent

/-! # Datagrams in transparent mode

`IsTransparent` is what `tc_transparent` requires of every frame, in either
direction: an unfragmented IPv4/UDP datagram to the configured port, without IP
options, that lies in the frame.  The changes the program makes keep its
pointers where they are (`SamePointers`), so the checks it repeats after every
change pass (`ensures_reparse`).
-/
namespace Ebaf
open ByteWindow EarlyExit

variable {Ctx : Type} {f g : Frame} {port : UInt16}

/-- What `tc_transparent` requires of a frame in either direction. -/
structure IsTransparent (port : UInt16) (f : Frame) : Prop where
  proto : ethProto f = ethPIp
  ihl : ipIhl f = 5
  whole : ¬ isFragment f
  udp : ipProtocol f = ipprotoUdp
  port : udpDest f = port.toNat
  udpLen : 8 ≤ udpLen f
  inside : payloadOff f + payloadLen f ≤ f.length

/-- What it requires of the frame and of the configuration. -/
structure TransparentAccepts (f : Frame) (config : EbafCryptoConfig) : Prop where
  datagram : IsTransparent config.udpPort f
  algo : config.algo = ebafAlgoCbcAes
  action : config.action = ebafActionEncrypt ∨ config.action = ebafActionDecrypt

namespace IsTransparent

theorem udpOff (h : IsTransparent port f) : udpOff f = 34 := by
  rw [Ebaf.udpOff, h.ihl, ipOff]

theorem payloadOff (h : IsTransparent port f) : payloadOff f = 42 := by
  rw [Ebaf.payloadOff, h.udpOff]

theorem length_ge (h : IsTransparent port f) : 42 + payloadLen f ≤ f.length := by
  have := h.inside
  rwa [h.payloadOff] at this

theorem udpLen_eq (h : IsTransparent port f) : Ebaf.udpLen f = payloadLen f + 8 :=
  (Nat.sub_add_cancel h.udpLen).symm

end IsTransparent

/-- **`transparentParse` accepts exactly such frames**, and refuses the others. -/
theorem transparentParse_spec (e : Env Ctx) (s : PacketState Ctx) :
    (transparentParse e).Ensures s
      (fun r s' => s' = s.seen ∧ r.2 = s.frame ∧ e.config = some r.1 ∧
        TransparentAccepts s.frame r.1)
      (fun s' => (∀ config, e.config = some config → ¬ TransparentAccepts s.frame config) ∧
        s.Refused s') := by
  have notDatagram : (∀ port, ¬ IsTransparent port s.frame) →
      ∀ config, e.config = some config → ¬ TransparentAccepts s.frame config :=
    fun hn _ _ h => hn _ h.datagram
  refine ensures_start.mpr ?_
  refine .check (fun h => refuse_malformed rfl (notDatagram fun _ hd => ?_)) fun eth => ?_
  · exact absurd hd.length_ge (by omega)
  refine .check (fun h => refuse_passed (notDatagram fun _ hd => h hd.proto)) fun proto => ?_
  refine .check (fun h => refuse_malformed rfl (notDatagram fun _ hd => ?_)) fun ip => ?_
  · exact h.elim (fun hlen => absurd hd.length_ge (by rw [ipOff] at hlen; omega)) fun hi => hi hd.ihl
  refine .check (fun h => refuse_malformed rfl (notDatagram fun _ hd => ?_)) fun _ => ?_
  · have := hd.length_ge
    rw [hd.ihl, ipOff] at h
    omega
  refine .check (fun h => refuse_malformed rfl (notDatagram fun _ hd => hd.whole h)) fun whole => ?_
  refine .check (fun h => refuse_passed (notDatagram fun _ hd => h hd.udp)) fun udp => ?_
  refine .check (fun h => refuse_malformed rfl (notDatagram fun _ hd => ?_)) fun _ => ?_
  · have := hd.length_ge
    rw [hd.udpOff] at h
    omega
  refine .pointer (fun hc => refuse_cryptoFail fun _ h => ?_) fun config hconfig => ?_
  · cases h.symm.trans hc
  -- from here on the configuration is known, so a failed check speaks about it
  have notAccepted : ¬ TransparentAccepts s.frame config →
      ∀ config', e.config = some config' → ¬ TransparentAccepts s.frame config' := by
    intro hn config' h
    rwa [← Option.some.inj (hconfig.symm.trans h)]
  refine .check (fun h => refuse_passed (notAccepted fun ha => ?_)) fun supported => ?_
  · rcases h with h | h
    · exact h ha.algo
    · exact ha.action.elim h.1 h.2
  refine .check (fun h => refuse_passed (notAccepted fun ha => h ha.datagram.port)) fun port => ?_
  refine .check (fun h => refuse_malformed rfl (notDatagram fun _ hd => ?_)) fun udpLen => ?_
  · exact absurd hd.udpLen (Nat.not_le.mpr h)
  refine .check (fun h => refuse_malformed rfl (notDatagram fun _ hd => ?_)) fun inside => ?_
  · exact absurd hd.inside (Nat.not_le.mpr h)
  refine ⟨rfl, rfl, hconfig, ⟨?_, ?_, ?_⟩⟩
  · exact
      { proto := not_not.mp proto
        ihl := not_not.mp fun h => ip (Or.inr h)
        whole := whole
        udp := not_not.mp udp
        port := not_not.mp port
        udpLen := Nat.not_lt.mp udpLen
        inside := Nat.not_lt.mp inside }
  · exact not_not.mp fun h => supported (Or.inl h)
  · by_contra h
    exact supported (Or.inr (not_or.mp h))

/-! ## Pointers after a change -/

/-- The two frames have the same IHL nibble, from which all pointers are
computed. -/
def SamePointers (f g : Frame) : Prop := byteAt g ipOff = byteAt f ipOff

namespace SamePointers

theorem udpOff (h : SamePointers f g) : udpOff g = udpOff f := by
  rw [Ebaf.udpOff, Ebaf.udpOff, ipIhl, ipIhl, h]

theorem payloadOff (h : SamePointers f g) : payloadOff g = payloadOff f := by
  rw [Ebaf.payloadOff, Ebaf.payloadOff, h.udpOff]

theorem store (h : SamePointers f g) {off : Nat} {bs : List UInt8} (hoff : ipOff < off) :
    SamePointers f (store g off bs) :=
  (byteAt_store_out (Or.inl hoff)).trans h

theorem resize (h : SamePointers f g) {n : Nat} (hn : ipOff < n) : SamePointers f (resize g n) :=
  (byteAt_resize.trans (if_pos hn)).trans h

theorem refield (h : SamePointers f g) {ip udp delta : Nat} {add : Bool} (hip : ipOff ≤ ip)
    (hudp : ipOff ≤ udp) : SamePointers f (refield ip udp delta add g) :=
  ((h.store (by omega)).store (by omega)).store (by omega)

theorem relength (h : SamePointers f g) {ip udp delta : Nat} {add : Bool} (hip : ipOff ≤ ip)
    (hudp : ipOff ≤ udp) : SamePointers f (relength ip udp delta add g) :=
  (h.refield hip hudp).store (by omega)

end SamePointers

/-- The repeated checks pass in every frame that is long enough. -/
theorem ensures_reparse {α : Type} {badEth badIp badUdp : PacketProg Ctx Unit}
    {k : Frame → PacketProg Ctx α} {s : PacketState Ctx} {Q : α → PacketState Ctx → Prop}
    {E : PacketState Ctx → Prop} (hf : IsTransparent port f) (hp : SamePointers f s.frame)
    (hlen : 42 ≤ s.frame.length) :
    (reparse badEth badIp badUdp >>= k).Ensures s Q E ↔ (k s.frame).Ensures s Q E := by
  have hudp : udpOff s.frame = 34 := hp.udpOff.trans hf.udpOff
  have heth : ¬ s.frame.length < 14 := by omega
  have hip : ¬ s.frame.length < ipOff + 20 := by rw [ipOff]; omega
  have hudp : ¬ s.frame.length < udpOff s.frame + 8 := by rw [hudp]; omega
  rw [reparse, bind_assoc, Prog.ensures_bind, ensures_packet, Prog.exitIf_of_not heth,
    Prog.exitIf_of_not hip, Prog.exitIf_of_not hudp, pure_bind, pure_bind, pure_bind, pure_bind]

/-- So does the check of the payload that follows them. -/
theorem ensures_recheck {α : Type} {badEth badIp badUdp badLength : PacketProg Ctx Unit}
    {k : PacketProg Ctx α} {s : PacketState Ctx} {n m : Nat}
    {Q : α → PacketState Ctx → Prop} {E : PacketState Ctx → Prop} (hf : IsTransparent port f)
    (hp : SamePointers f s.frame) (hlen : payloadOff f + n + m ≤ s.frame.length) :
    (reparse badEth badIp badUdp >>= fun g =>
      Prog.exitIf (g.length < payloadOff g + n + m) badLength >>= fun _ => k).Ensures s Q E ↔
        k.Ensures s Q E := by
  have hpay : payloadOff f = 42 := hf.payloadOff
  have hin : ¬ s.frame.length < payloadOff s.frame + n + m := by
    rw [hp.payloadOff]
    exact Nat.not_lt.mpr hlen
  rw [ensures_reparse hf hp (by omega), Prog.exitIf_of_not hin, pure_bind]

/-- A helper's two outcomes. -/
theorem ensures_onSkb {α : Type} {h : Frame → Option Frame} {x : PacketProg Ctx Unit}
    {k : Unit → PacketProg Ctx α} {s : PacketState Ctx} {Q : α → PacketState Ctx → Prop}
    {E : PacketState Ctx → Prop} (hexit : h s.frame = none → x.Ensures s (fun _ => E) E)
    (hgo : ∀ g, h s.frame = some g → (k ()).Ensures { s with frame := g } Q E) :
    (onSkb h x >>= k).Ensures s Q E := by
  refine .call (fun hn => hexit (Option.map_eq_none_iff.mp hn)) fun s' hs => ?_
  obtain ⟨g, hg, rfl⟩ := Option.map_eq_some_iff.mp hs
  exact hgo g hg

/-- The same on a function's last line. -/
theorem ensures_onSkb_last {h : Frame → Option Frame} {x : PacketProg Ctx Unit}
    {s : PacketState Ctx} {Q : Unit → PacketState Ctx → Prop} {E : PacketState Ctx → Prop}
    (hexit : h s.frame = none → x.Ensures s (fun _ => E) E)
    (hgo : ∀ g, h s.frame = some g → Q () { s with frame := g }) : (onSkb h x).Ensures s Q E := by
  rw [← bind_pure (onSkb h x)]
  exact ensures_onSkb hexit hgo

end Ebaf
