import Ebaf.Headers
import Ebaf.Kernel
import Ebaf.OnesComplement

/-! # Building datagrams

A frame around a UDP payload: an Ethernet header, an IPv4 header without options
and with a valid checksum, and a UDP header to a given port.
-/
namespace Ebaf
open ByteWindow

/-- The checksum of the IPv4 header of `datagram`: the complement of the sum of
its other words. -/
def ipChecksum (totLen : Nat) : Nat :=
  OnesComplement.neg 65535 (OnesComplement.add 65535 55572 totLen)

def ethHeader : List UInt8 := [2, 0, 0, 0, 0, 2, 2, 0, 0, 0, 0, 1, 8, 0]

/-- An unfragmented packet from 10.0.0.1 to 10.0.0.2. -/
def ipHeader (totLen : Nat) : List UInt8 :=
  [0x45, 0] ++ be16Bytes totLen ++ [0, 0, 0x40, 0, 64, 17] ++ be16Bytes (ipChecksum totLen) ++
    [10, 0, 0, 1, 10, 0, 0, 2]

def udpHeader (port : UInt16) (len : Nat) : List UInt8 :=
  be16Bytes 40000 ++ be16Bytes port.toNat ++ be16Bytes len ++ [0, 0]

def datagramHeaders (port : UInt16) (n : Nat) : List UInt8 :=
  ethHeader ++ ipHeader (28 + n) ++ udpHeader port (8 + n)

/-- The datagram with a payload. -/
def datagram (port : UInt16) (payload : List UInt8) : Frame :=
  datagramHeaders port payload.length ++ payload

/-- A payload whose UDP length fits its field. -/
def Fits (payload : List UInt8) : Prop := 8 + payload.length < 65536

instance (payload : List UInt8) : Decidable (Fits payload) := inferInstanceAs (Decidable (_ < _))

section Datagram
variable {port : UInt16} {payload : List UInt8}

@[simp] theorem length_datagramHeaders {n : Nat} : (datagramHeaders port n).length = 42 := rfl

@[simp] theorem length_datagram : (datagram port payload).length = 42 + payload.length := by
  simp [datagram]

theorem length_ethHeader : ethHeader.length = 14 := rfl

theorem length_ipHeader {n : Nat} : (ipHeader n).length = 20 := rfl

/-! The three headers of a datagram, one behind the other. -/

theorem byteAt_datagram_eth {i : Nat} (hi : i < 14) :
    byteAt (datagram port payload) i = byteAt ethHeader i := by
  rw [datagram, byteAt_append, if_pos (by rw [length_datagramHeaders]; omega), datagramHeaders,
    List.append_assoc, byteAt_append, length_ethHeader, if_pos hi]

theorem byteAt_datagram_ip {i : Nat} (hi : i < 20) :
    byteAt (datagram port payload) (ipOff + i) = byteAt (ipHeader (28 + payload.length)) i := by
  rw [datagram, byteAt_append, if_pos (by rw [length_datagramHeaders, ipOff]; omega),
    datagramHeaders, List.append_assoc, byteAt_append, length_ethHeader,
    if_neg (by rw [ipOff]; omega), byteAt_append, length_ipHeader, ipOff, Nat.add_sub_cancel_left,
    if_pos hi]

theorem byteAt_datagram_udp {i : Nat} (hi : i < 8) :
    byteAt (datagram port payload) (34 + i) = byteAt (udpHeader port (8 + payload.length)) i := by
  rw [datagram, byteAt_append, if_pos (by rw [length_datagramHeaders]; omega), datagramHeaders,
    byteAt_append, List.length_append, length_ethHeader, length_ipHeader, if_neg (by omega),
    Nat.add_sub_cancel_left]

theorem ethProto_datagram : ethProto (datagram port payload) = ethPIp := by
  have h : ethProto (datagram port payload) = be16 ethHeader 12 :=
    be16_congr (byteAt_datagram_eth (by decide)) (byteAt_datagram_eth (by decide))
  rw [h]
  decide

theorem ipIhl_datagram : ipIhl (datagram port payload) = 5 := by
  have h : byteAt (datagram port payload) ipOff = 0x45 := byteAt_datagram_ip (i := 0) (by decide)
  rw [ipIhl, h]
  decide

theorem udpOff_datagram : udpOff (datagram port payload) = 34 := by
  rw [udpOff, ipIhl_datagram, ipOff]

theorem payloadOff_datagram : payloadOff (datagram port payload) = 42 := by
  rw [payloadOff, udpOff_datagram]

theorem not_isFragment_datagram : ¬ isFragment (datagram port payload) := by
  have h : ipFragOff (datagram port payload) = be16 (ipHeader (28 + payload.length)) 6 :=
    be16_congr (byteAt_datagram_ip (i := 6) (by decide)) (byteAt_datagram_ip (i := 7) (by decide))
  have h6 : byteAt (ipHeader (28 + payload.length)) 6 = 0x40 := rfl
  have h7 : byteAt (ipHeader (28 + payload.length)) 7 = 0 := rfl
  rw [isFragment, h, be16, h6, h7]
  decide

theorem ipProtocol_datagram : ipProtocol (datagram port payload) = ipprotoUdp := by
  have h : byteAt (datagram port payload) (ipOff + 9) = 17 :=
    byteAt_datagram_ip (i := 9) (by decide)
  rw [ipProtocol, h]
  decide

theorem udpDest_datagram : udpDest (datagram port payload) = port.toNat := by
  have h : be16 (datagram port payload) 36 = be16 (be16Bytes port.toNat) 0 :=
    be16_congr (byteAt_datagram_udp (i := 2) (by decide)) (byteAt_datagram_udp (i := 3) (by decide))
  rw [udpDest, udpOff_datagram, h, be16_be16Bytes port.toNat_lt]

theorem udpLen_datagram (h : Fits payload) :
    udpLen (datagram port payload) = 8 + payload.length := by
  have heq : be16 (datagram port payload) 38 = be16 (be16Bytes (8 + payload.length)) 0 :=
    be16_congr (byteAt_datagram_udp (i := 4) (by decide)) (byteAt_datagram_udp (i := 5) (by decide))
  rw [udpLen, udpOff_datagram, heq, be16_be16Bytes h]

theorem payloadLen_datagram (h : Fits payload) :
    payloadLen (datagram port payload) = payload.length := by
  rw [payloadLen, udpLen_datagram h, Nat.add_sub_cancel_left]

/-- A window of the payload. -/
theorem load_datagram {i n : Nat} : load (datagram port payload) (42 + i) n = load payload i n :=
  load_congr fun j _ => by
    rw [datagram, byteAt_append, if_neg (by rw [length_datagramHeaders]; omega)]
    congr 1
    rw [length_datagramHeaders]
    omega

theorem read_datagram {i : Nat} :
    EbafCryptoHeader.read (datagram port payload) (42 + i) = EbafCryptoHeader.read payload i :=
  EbafCryptoHeader.read_congr fun j _ => by
    rw [datagram, byteAt_append, if_neg (by rw [length_datagramHeaders]; omega)]
    congr 1
    rw [length_datagramHeaders]
    omega

end Datagram

end Ebaf
