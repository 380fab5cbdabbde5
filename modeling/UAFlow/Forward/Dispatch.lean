import UAFlow.Forward.Packet

/-!
# Dispatching a received packet

`flow_forward.c` looks at the Ethernet, IP and TCP headers of a packet, gives
it to the scan detector, and then either to the default sender or to the HTTP
handler.
-/

namespace UAFlow.Forward

open Ddos

/-- What a detection depends on besides the packet and the detector's state. -/
structure Surroundings where
  core : Fin flowLcoreMaxSlot
  clock : Clock
  granted : Bool

/-- Where a packet goes from the forwarding code. -/
inductive Route where
  | sendPktDefault
  | httphandle (data : Nat) (length : Int)
  deriving DecidableEq

/-- What handling one packet does: the detection it asks for, the detector's
state with the verdict of that detection, and the route of the packet. -/
structure Handled where
  asked : Option Call
  outcome : Except Fault (FlowDdosState × Option Int)
  route : Route

def ask (mbuf : RteMbuf) (source : Source) (tcpHdr : Nat) (around : Surroundings) : Call :=
  ⟨source, around.core, mbuf.srcPort tcpHdr, around.clock, around.granted⟩

/-- A packet that leaves through the label `def` without reaching a detector. -/
def Handled.passedBy (state : FlowDdosState) (route : Route) : Handled :=
  ⟨none, .ok (state, none), route⟩

def Handled.detected (config : FlowDdosConfig) (fuel : Nat) (state : FlowDdosState)
    (call : Call) (route : Route) : Handled where
  asked := some call
  outcome :=
    match detect config fuel state call with
    | .error fault => .error fault
    | .ok (after, verdict) => .ok (after, some verdict)
  route := route

def flowForwardModuleInsideIpv4FwdPkts (config : FlowDdosConfig) (fuel : Nat)
    (state : FlowDdosState) (around : Surroundings) (mbuf : RteMbuf) : Handled :=
  let ethHdr := 0
  if mbuf.etherType ethHdr ≠ etherTypeIPv4 then
    .passedBy state .sendPktDefault
  else
    let ipv4Hdr := sizeofEtherHdr
    if mbuf.nextProtoId ipv4Hdr ≠ flowIpprotoTcp then
      .passedBy state .sendPktDefault
    else
      let ipv4Headerlen := mbuf.ipv4Headerlen ipv4Hdr
      let tcpTotlen : Int := mbuf.totalLength ipv4Hdr - ipv4Headerlen
      let tcpHdr := sizeofEtherHdr + ipv4Headerlen
      if (sizeofTcpHdr : Int) ≥ tcpTotlen then
        .passedBy state .sendPktDefault
      else
        -- `tcp_hdr += 1` comes before the flags and the port are read
        let tcpHdr := tcpHdr + sizeofTcpHdr
        let route := .httphandle tcpHdr (tcpTotlen - sizeofTcpHdr)
        if mbuf.tcpFlags tcpHdr &&& 0xa = 0 then
          .detected config fuel state
            (ask mbuf (.v4 (mbuf.ipv4SrcAddr ipv4Hdr)) tcpHdr around) route
        else
          .passedBy state route

/-- Unlike the IPv4 path this has no test on `tcp_flags`, and it subtracts the
fixed header from `payload_len`, which does not count it. -/
def flowForwardModuleInsideIpv6FwdPkts (config : FlowDdosConfig) (fuel : Nat)
    (state : FlowDdosState) (around : Surroundings) (mbuf : RteMbuf) : Handled :=
  let ethHdr := 0
  if mbuf.etherType ethHdr ≠ etherTypeIPv6 then
    .passedBy state .sendPktDefault
  else
    let ipv6Hdr := sizeofEtherHdr
    if mbuf.proto ipv6Hdr ≠ flowIpprotoTcp then
      .passedBy state .sendPktDefault
    else
      let tcpTotlen : Int := mbuf.payloadLen ipv6Hdr - sizeofIpv6Hdr
      let tcpHdr := sizeofEtherHdr + sizeofIpv6Hdr
      if (sizeofTcpHdr : Int) ≥ tcpTotlen then
        .passedBy state .sendPktDefault
      else
        let tcpHdr := tcpHdr + sizeofTcpHdr
        .detected config fuel state
          (ask mbuf (.v6 (mbuf.ipv6SrcAddr ipv6Hdr)) tcpHdr around)
          (.httphandle tcpHdr (tcpTotlen - sizeofTcpHdr))

def flowForwardModuleInsideForward (config : FlowDdosConfig) (fuel : Nat)
    (state : FlowDdosState) (around : Surroundings) (mbuf : RteMbuf) : Handled :=
  let olFlag := mbuf.olFlags.toUInt32
  if olFlag &&& pktRxIpv4Hdr ≠ 0 then
    flowForwardModuleInsideIpv4FwdPkts config fuel state around mbuf
  else if olFlag &&& pktRxIpv6Hdr ≠ 0 then
    flowForwardModuleInsideIpv6FwdPkts config fuel state around mbuf
  else
    .passedBy state .sendPktDefault

end UAFlow.Forward
