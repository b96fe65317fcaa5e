import Ebaf.CryptoCommon

/-! # Ethernet, IPv4 and UDP fields

The header fields the packet programs read, at the offsets their pointers
compute: the Ethernet header takes 14 bytes, the IPv4 header `ihl * 4`, the UDP
header 8.  The pointers are re-derived from the frame at hand each time, as the
programs do after every call that may move the packet.
-/
namespace Ebaf
open ByteWindow

def ethPIp : Nat := 0x0800
def ipprotoUdp : Nat := 17
def ipMf : Nat := 0x2000
def ipOffset : Nat := 0x1fff

variable (f : List UInt8)

/-- `eth->h_proto` -/
def ethProto : Nat := be16 f 12

/-- `(void *)ip - data` -/
def ipOff : Nat := 14

/-- `ip->ihl` -/
def ipIhl : Nat := (byteAt f ipOff).toNat % 16

/-- `ip->tot_len` -/
def ipTotLen : Nat := be16 f (ipOff + 2)

/-- `ip->frag_off` -/
def ipFragOff : Nat := be16 f (ipOff + 6)

/-- `ip->protocol` -/
def ipProtocol : Nat := (byteAt f (ipOff + 9)).toNat

/-- `ip->check` -/
def ipCheck : Nat := be16 f (ipOff + 10)

/-- `ip->saddr` -/
def ipSaddr : Nat := be32 f (ipOff + 12)

/-- `ip->daddr` -/
def ipDaddr : Nat := be32 f (ipOff + 16)

/-- `(void *)udp - data` -/
def udpOff : Nat := ipOff + ipIhl f * 4

/-- `udp->dest` -/
def udpDest : Nat := be16 f (udpOff f + 2)

/-- `udp->len` -/
def udpLen : Nat := be16 f (udpOff f + 4)

/-- `udp->check` -/
def udpCheck : Nat := be16 f (udpOff f + 6)

/-- `payload - data` -/
def payloadOff : Nat := udpOff f + 8

/-- `bpf_ntohs(udp->len) - sizeof(*udp)` -/
def payloadLen : Nat := udpLen f - 8

/-- The more-fragments bit or a fragment offset is set. -/
def isFragment : Prop := ipFragOff f &&& (ipMf ||| ipOffset) ≠ 0

instance : Decidable (isFragment f) := inferInstanceAs (Decidable (_ ≠ _))

end Ebaf
