import UAFlow.Ddos.Eviction
import UAFlow.Forward.Dispatch

/-!
# What the payload can tell the scan detector

Two frames that differ in their payload only should look the same to the
detector.  The dispatch steps over the TCP header before it reads the flags and
the source port, so both come from the bytes behind the fixed header: options
when there are any, else the payload, else what the buffer held before.
-/

namespace UAFlow.Forward

open Ddos

/-- A well-formed TCP/IPv4 frame with a payload. -/
structure TcpIpv4Frame where
  mbuf : RteMbuf
  etherType : mbuf.etherType 0 = etherTypeIPv4
  version : mbuf.versionIhl sizeofEtherHdr >>> 4 = 4
  nextProtoId : mbuf.nextProtoId sizeofEtherHdr = flowIpprotoTcp
  ipHeader : 20 ≤ mbuf.ipv4Headerlen sizeofEtherHdr
  tcpHeader : sizeofTcpHdr ≤
    (mbuf.dataOff (sizeofEtherHdr + mbuf.ipv4Headerlen sizeofEtherHdr) >>> 4).toNat * 4
  payload : mbuf.ipv4Headerlen sizeofEtherHdr +
      (mbuf.dataOff (sizeofEtherHdr + mbuf.ipv4Headerlen sizeofEtherHdr) >>> 4).toNat * 4 <
    mbuf.totalLength sizeofEtherHdr
  held : sizeofEtherHdr + mbuf.totalLength sizeofEtherHdr ≤ mbuf.dataLen

/-- A well-formed TCP/IPv6 frame with a payload and no extension header. -/
structure TcpIpv6Frame where
  mbuf : RteMbuf
  etherType : mbuf.etherType 0 = etherTypeIPv6
  version : mbuf.byte sizeofEtherHdr >>> 4 = 6
  proto : mbuf.proto sizeofEtherHdr = flowIpprotoTcp
  tcpHeader : sizeofTcpHdr ≤ (mbuf.dataOff (sizeofEtherHdr + sizeofIpv6Hdr) >>> 4).toNat * 4
  payload : (mbuf.dataOff (sizeofEtherHdr + sizeofIpv6Hdr) >>> 4).toNat * 4 <
    mbuf.payloadLen sizeofEtherHdr
  held : sizeofEtherHdr + sizeofIpv6Hdr + mbuf.payloadLen sizeofEtherHdr ≤ mbuf.dataLen

namespace TcpIpv4Frame

def tcpHdr (frame : TcpIpv4Frame) : Nat :=
  sizeofEtherHdr + frame.mbuf.ipv4Headerlen sizeofEtherHdr

def payloadStart (frame : TcpIpv4Frame) : Nat :=
  frame.tcpHdr + (frame.mbuf.dataOff frame.tcpHdr >>> 4).toNat * 4

def payloadEnd (frame : TcpIpv4Frame) : Nat :=
  sizeofEtherHdr + frame.mbuf.totalLength sizeofEtherHdr

end TcpIpv4Frame

namespace TcpIpv6Frame

def tcpHdr (_ : TcpIpv6Frame) : Nat := sizeofEtherHdr + sizeofIpv6Hdr

def payloadStart (frame : TcpIpv6Frame) : Nat :=
  frame.tcpHdr + (frame.mbuf.dataOff frame.tcpHdr >>> 4).toNat * 4

def payloadEnd (frame : TcpIpv6Frame) : Nat :=
  frame.tcpHdr + frame.mbuf.payloadLen sizeofEtherHdr

end TcpIpv6Frame

/-- Two frames that differ in nothing but their payload. -/
structure Ipv4Twins where
  first : TcpIpv4Frame
  second : TcpIpv4Frame
  sameLength : first.mbuf.dataLen = second.mbuf.dataLen
  sameHeaders : Agree first.mbuf second.mbuf first.payloadStart
  sameTrailer : ∀ offset, first.payloadEnd ≤ offset → offset < first.mbuf.dataLen →
    first.mbuf.byte offset = second.mbuf.byte offset

structure Ipv6Twins where
  first : TcpIpv6Frame
  second : TcpIpv6Frame
  sameLength : first.mbuf.dataLen = second.mbuf.dataLen
  sameHeaders : Agree first.mbuf second.mbuf first.payloadStart
  sameTrailer : ∀ offset, first.payloadEnd ≤ offset → offset < first.mbuf.dataLen →
    first.mbuf.byte offset = second.mbuf.byte offset

/-! ## What a call records -/

section Recording

variable (config : FlowDdosConfig) (fuel : Nat) (state : FlowDdosState)

/-- The call writes its port into this entry of this node. -/
def Stores (call : Call) (item index : Nat) : Prop :=
  ∃ middle, arrive config fuel state call = .ok (some (middle, item)) ∧
    let node := refresh config (middle.node item) call.clock
    recorded node call.source call.srcPort = false ∧ index = node.nPackets.toNat ∧
      index < flowDdosEverynodeEntryMaxSz

/-- The call finds its port among the entries that count. -/
def Knows (call : Call) : Prop :=
  ∃ middle item, arrive config fuel state call = .ok (some (middle, item)) ∧
    recorded (refresh config (middle.node item) call.clock) call.source call.srcPort = true

/-- Where the detection stores a new entry, the state afterwards has the port there. -/
def RecordsPort (handled : Handled) (port : UInt16) : Prop :=
  ∀ call ∈ handled.asked, ∀ item index, Stores config fuel state call item index →
    ∃ after verdict, handled.outcome = .ok (after, some verdict) ∧
      ((after.node item).entry index).port = port

/-- Two packets handled alike as far as the detector is concerned, given the
source ports in their TCP headers. -/
structure TreatedAlike (first second : Handled) (firstPort secondPort : UInt16) : Prop where
  invoked : first.asked.isSome = second.asked.isSome
  firstPort : RecordsPort config fuel state first firstPort
  secondPort : RecordsPort config fuel state second secondPort
  outcome : first.outcome = second.outcome

/-- Neither call stores an entry, and either both know their port or none does. -/
structure StoreNothing (one other : Call) : Prop where
  first : ∀ item index, ¬ Stores config fuel state one item index
  second : ∀ item index, ¬ Stores config fuel state other item index
  known : Knows config fuel state one ↔ Knows config fuel state other

end Recording

/-! ## What the two paths read -/

/-- The flags test of the IPv4 path at the pointer it uses. -/
def flagsPass (mbuf : RteMbuf) (tcpHdr : Nat) : Prop :=
  mbuf.tcpFlags (tcpHdr + sizeofTcpHdr) &&& 0xa = 0

instance (mbuf : RteMbuf) (tcpHdr : Nat) : Decidable (flagsPass mbuf tcpHdr) :=
  inferInstanceAs (Decidable (_ = _))

def PortRepeats (mbuf : RteMbuf) (tcpHdr : Nat) : Prop :=
  mbuf.srcPort (tcpHdr + sizeofTcpHdr) = mbuf.srcPort tcpHdr

def TcpIpv4Frame.call (frame : TcpIpv4Frame) (around : Surroundings) : Call :=
  ask frame.mbuf (.v4 (frame.mbuf.ipv4SrcAddr sizeofEtherHdr)) (frame.tcpHdr + sizeofTcpHdr) around

def TcpIpv4Frame.route (frame : TcpIpv4Frame) : Route :=
  .httphandle (frame.tcpHdr + sizeofTcpHdr)
    ((frame.mbuf.totalLength sizeofEtherHdr : Int) - frame.mbuf.ipv4Headerlen sizeofEtherHdr -
      sizeofTcpHdr)

def TcpIpv6Frame.call (frame : TcpIpv6Frame) (around : Surroundings) : Call :=
  ask frame.mbuf (.v6 (frame.mbuf.ipv6SrcAddr sizeofEtherHdr)) (frame.tcpHdr + sizeofTcpHdr) around

def TcpIpv6Frame.route (frame : TcpIpv6Frame) : Route :=
  .httphandle (frame.tcpHdr + sizeofTcpHdr)
    ((frame.mbuf.payloadLen sizeofEtherHdr : Int) - sizeofIpv6Hdr - sizeofTcpHdr)

variable (config : FlowDdosConfig) (fuel : Nat) (state : FlowDdosState) (around : Surroundings)

theorem TcpIpv4Frame.handled (frame : TcpIpv4Frame) :
    flowForwardModuleInsideIpv4FwdPkts config fuel state around frame.mbuf =
      if flagsPass frame.mbuf frame.tcpHdr then
        .detected config fuel state (frame.call around) frame.route
      else
        .passedBy state frame.route := by
  have long : ¬ (sizeofTcpHdr : Int) ≥ (frame.mbuf.totalLength sizeofEtherHdr : Int) -
      frame.mbuf.ipv4Headerlen sizeofEtherHdr := by
    have header := frame.tcpHeader
    have payload := frame.payload
    omega
  simp only [flowForwardModuleInsideIpv4FwdPkts, frame.etherType, frame.nextProtoId,
    ne_eq, not_true_eq_false, if_false, if_neg long]
  rfl

/-- The IPv6 path does without a test on the flags and takes frames with more
than forty bytes behind the fixed TCP header. -/
theorem TcpIpv6Frame.handled (frame : TcpIpv6Frame) :
    flowForwardModuleInsideIpv6FwdPkts config fuel state around frame.mbuf =
      if sizeofIpv6Hdr + sizeofTcpHdr < frame.mbuf.payloadLen sizeofEtherHdr then
        .detected config fuel state (frame.call around) frame.route
      else
        .passedBy state .sendPktDefault := by
  simp only [flowForwardModuleInsideIpv6FwdPkts, frame.etherType, frame.proto,
    ne_eq, not_true_eq_false, if_false]
  by_cases long : sizeofIpv6Hdr + sizeofTcpHdr < frame.mbuf.payloadLen sizeofEtherHdr
  · rw [if_neg (by omega), if_pos long]
    rfl
  · rw [if_pos (by omega), if_neg long]

/-! ## Headers shared by twins -/

namespace Ipv4Twins

variable (twins : Ipv4Twins)

end Ipv4Twins

namespace Ipv6Twins

variable (twins : Ipv6Twins)

end Ipv6Twins

/-! ## When twins are treated alike -/

section Alike

variable {config : FlowDdosConfig} {fuel : Nat} {state : FlowDdosState}

end Alike

/-- The two frames pass the flags test together, and if they do, both repeat their
source port behind the fixed TCP header, or the detector stores nothing. -/
def Ipv4Twins.Agrees (twins : Ipv4Twins) (config : FlowDdosConfig) (fuel : Nat)
    (state : FlowDdosState) (around : Surroundings) : Prop :=
  (flagsPass twins.first.mbuf twins.first.tcpHdr ↔
      flagsPass twins.second.mbuf twins.second.tcpHdr) ∧
    (flagsPass twins.first.mbuf twins.first.tcpHdr →
      PortRepeats twins.first.mbuf twins.first.tcpHdr ∧
          PortRepeats twins.second.mbuf twins.second.tcpHdr ∨
        StoreNothing config fuel state (twins.first.call around) (twins.second.call around))

/-- Both frames are too short for the IPv6 path, or both repeat their source port
behind the fixed TCP header, or the detector stores nothing. -/
def Ipv6Twins.Agrees (twins : Ipv6Twins) (config : FlowDdosConfig) (fuel : Nat)
    (state : FlowDdosState) (around : Surroundings) : Prop :=
  sizeofIpv6Hdr + sizeofTcpHdr < twins.first.mbuf.payloadLen sizeofEtherHdr →
    PortRepeats twins.first.mbuf twins.first.tcpHdr ∧
        PortRepeats twins.second.mbuf twins.second.tcpHdr ∨
      StoreNothing config fuel state (twins.first.call around) (twins.second.call around)

def Ipv4Twins.Alike (twins : Ipv4Twins) (config : FlowDdosConfig) (fuel : Nat)
    (state : FlowDdosState) (around : Surroundings) : Prop :=
  TreatedAlike config fuel state
    (flowForwardModuleInsideIpv4FwdPkts config fuel state around twins.first.mbuf)
    (flowForwardModuleInsideIpv4FwdPkts config fuel state around twins.second.mbuf)
    (twins.first.mbuf.srcPort twins.first.tcpHdr) (twins.second.mbuf.srcPort twins.second.tcpHdr)

def Ipv6Twins.Alike (twins : Ipv6Twins) (config : FlowDdosConfig) (fuel : Nat)
    (state : FlowDdosState) (around : Surroundings) : Prop :=
  TreatedAlike config fuel state
    (flowForwardModuleInsideIpv6FwdPkts config fuel state around twins.first.mbuf)
    (flowForwardModuleInsideIpv6FwdPkts config fuel state around twins.second.mbuf)
    (twins.first.mbuf.srcPort twins.first.tcpHdr) (twins.second.mbuf.srcPort twins.second.tcpHdr)

end UAFlow.Forward
