import Mathlib.Data.BitVec
import UAFlow.Ddos.Model

/-!
# Packet memory

The forwarding code reads packets through pointers into the buffer of an mbuf.
A pointer is its distance from `rte_pktmbuf_mtod`, which is never null, and a
header field is a fixed distance from the pointer to its header.  The packet
owns the first `dataLen` bytes; what lies behind them is whatever the buffer
held before.
-/

namespace UAFlow.Forward

structure RteMbuf where
  byte : Nat → UInt8
  dataLen : Nat
  olFlags : UInt64

namespace RteMbuf

/-- A `uint16_t` in network order, through `rte_be_to_cpu_16`. -/
def rteBeToCpu16 (mbuf : RteMbuf) (offset : Nat) : Nat :=
  (mbuf.byte offset).toNat * 256 + (mbuf.byte (offset + 1)).toNat

/-- A `uint16_t` as the little-endian host loads it. -/
def load16 (mbuf : RteMbuf) (offset : Nat) : UInt16 :=
  (mbuf.byte offset).toUInt16 ||| (mbuf.byte (offset + 1)).toUInt16 <<< 8

def load32 (mbuf : RteMbuf) (offset : Nat) : UInt32 :=
  (mbuf.load16 offset).toUInt32 ||| (mbuf.load16 (offset + 2)).toUInt32 <<< 16

/-- The last twelve bytes of an IPv6 address. -/
def load96 (mbuf : RteMbuf) (offset : Nat) : BitVec 96 :=
  (mbuf.load32 (offset + 8)).toBitVec ++ (mbuf.load32 (offset + 4)).toBitVec ++
    (mbuf.load32 offset).toBitVec

end RteMbuf

/-- The two packets have the same bytes below `bound`. -/
def Agree (first second : RteMbuf) (bound : Nat) : Prop :=
  ∀ offset < bound, first.byte offset = second.byte offset

namespace Agree

variable {first second : RteMbuf} {bound offset : Nat}

theorem symm (agree : Agree first second bound) : Agree second first bound :=
  fun offset below => (agree offset below).symm

theorem rteBeToCpu16 (agree : Agree first second bound) (below : offset + 1 < bound) :
    first.rteBeToCpu16 offset = second.rteBeToCpu16 offset := by
  unfold RteMbuf.rteBeToCpu16
  rw [agree offset (by omega), agree (offset + 1) below]

theorem load16 (agree : Agree first second bound) (below : offset + 1 < bound) :
    first.load16 offset = second.load16 offset := by
  unfold RteMbuf.load16
  rw [agree offset (by omega), agree (offset + 1) below]

theorem load32 (agree : Agree first second bound) (below : offset + 3 < bound) :
    first.load32 offset = second.load32 offset := by
  unfold RteMbuf.load32
  rw [agree.load16 (by omega), agree.load16 (by omega)]

theorem load96 (agree : Agree first second bound) (below : offset + 11 < bound) :
    first.load96 offset = second.load96 offset := by
  unfold RteMbuf.load96
  rw [agree.load32 (by omega), agree.load32 (by omega), agree.load32 (by omega)]

end Agree

/-! ## The headers -/

def sizeofEtherHdr : Nat := 14
def sizeofIpv6Hdr : Nat := 40
def sizeofTcpHdr : Nat := 20
def etherTypeIPv4 : Nat := 0x0800
def etherTypeIPv6 : Nat := 0x86DD
def flowIpprotoTcp : UInt8 := 6
def ipv4HdrIhlMask : UInt8 := 0x0f

/-- Bits of `ol_flags` the receive path sets. -/
def pktRxIpv4Hdr : UInt32 := (1 : UInt32) <<< 5
def pktRxIpv6Hdr : UInt32 := (1 : UInt32) <<< 7

namespace RteMbuf

def etherType (mbuf : RteMbuf) (ethHdr : Nat) : Nat := mbuf.rteBeToCpu16 (ethHdr + 12)

def versionIhl (mbuf : RteMbuf) (ipv4Hdr : Nat) : UInt8 := mbuf.byte ipv4Hdr

def totalLength (mbuf : RteMbuf) (ipv4Hdr : Nat) : Nat := mbuf.rteBeToCpu16 (ipv4Hdr + 2)

def nextProtoId (mbuf : RteMbuf) (ipv4Hdr : Nat) : UInt8 := mbuf.byte (ipv4Hdr + 9)

def ipv4SrcAddr (mbuf : RteMbuf) (ipv4Hdr : Nat) : UInt32 := mbuf.load32 (ipv4Hdr + 12)

def payloadLen (mbuf : RteMbuf) (ipv6Hdr : Nat) : Nat := mbuf.rteBeToCpu16 (ipv6Hdr + 4)

def proto (mbuf : RteMbuf) (ipv6Hdr : Nat) : UInt8 := mbuf.byte (ipv6Hdr + 6)

def ipv6SrcAddr (mbuf : RteMbuf) (ipv6Hdr : Nat) : Ddos.FlowDdosAddr :=
  ⟨mbuf.load32 (ipv6Hdr + 8), mbuf.load96 (ipv6Hdr + 12)⟩

def srcPort (mbuf : RteMbuf) (tcpHdr : Nat) : UInt16 := mbuf.load16 tcpHdr

def dataOff (mbuf : RteMbuf) (tcpHdr : Nat) : UInt8 := mbuf.byte (tcpHdr + 12)

def tcpFlags (mbuf : RteMbuf) (tcpHdr : Nat) : UInt8 := mbuf.byte (tcpHdr + 13)

/-- `(version_ihl & IPV4_HDR_IHL_MASK) << 2`. -/
def ipv4Headerlen (mbuf : RteMbuf) (ipv4Hdr : Nat) : Nat :=
  (mbuf.versionIhl ipv4Hdr &&& ipv4HdrIhlMask).toNat <<< 2

end RteMbuf

end UAFlow.Forward
