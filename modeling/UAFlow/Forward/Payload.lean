import UAFlow.Ddos.Eviction
import UAFlow.Forward.Dispatch

/-!
# Which bytes the HTTP handler is given

Both paths take the TCP header to be twenty bytes long.  The IPv4 path reads the
length of the IP header from the packet, but not the data offset; the IPv6 path
takes forty bytes off a length field that does not count them.
-/

namespace UAFlow.Forward

open Ddos

def Handled.Goes (handled : Handled) (route : Route) : Prop :=
  (∃ result, handled.outcome = .ok result) ∧ handled.route = route

/-! ## The routes -/

def ipv4Route (mbuf : RteMbuf) : Route :=
  if mbuf.etherType 0 = etherTypeIPv4 ∧ mbuf.nextProtoId sizeofEtherHdr = flowIpprotoTcp ∧
      mbuf.ipv4Headerlen sizeofEtherHdr + sizeofTcpHdr < mbuf.totalLength sizeofEtherHdr then
    .httphandle (sizeofEtherHdr + mbuf.ipv4Headerlen sizeofEtherHdr + sizeofTcpHdr)
      ((mbuf.totalLength sizeofEtherHdr : Int) - mbuf.ipv4Headerlen sizeofEtherHdr - sizeofTcpHdr)
  else
    .sendPktDefault

def ipv6Route (mbuf : RteMbuf) : Route :=
  if mbuf.etherType 0 = etherTypeIPv6 ∧ mbuf.proto sizeofEtherHdr = flowIpprotoTcp ∧
      sizeofIpv6Hdr + sizeofTcpHdr < mbuf.payloadLen sizeofEtherHdr then
    .httphandle (sizeofEtherHdr + sizeofIpv6Hdr + sizeofTcpHdr)
      ((mbuf.payloadLen sizeofEtherHdr : Int) - sizeofIpv6Hdr - sizeofTcpHdr)
  else
    .sendPktDefault

variable (config : FlowDdosConfig) (fuel : Nat) (state : FlowDdosState) (around : Surroundings)
  (mbuf : RteMbuf)

theorem ipv4Fwd_route :
    (flowForwardModuleInsideIpv4FwdPkts config fuel state around mbuf).route = ipv4Route mbuf := by
  unfold flowForwardModuleInsideIpv4FwdPkts ipv4Route
  by_cases ethernet : mbuf.etherType 0 = etherTypeIPv4
  · by_cases tcp : mbuf.nextProtoId sizeofEtherHdr = flowIpprotoTcp
    · simp only [ethernet, tcp, ne_eq, not_true_eq_false, if_false, true_and]
      by_cases long : mbuf.ipv4Headerlen sizeofEtherHdr + sizeofTcpHdr <
          mbuf.totalLength sizeofEtherHdr
      · rw [if_neg (by omega), if_pos long]
        split <;> rfl
      · rw [if_pos (by omega), if_neg long]
        rfl
    · simp [ethernet, tcp, Handled.passedBy]
  · simp [ethernet, Handled.passedBy]

theorem ipv6Fwd_route :
    (flowForwardModuleInsideIpv6FwdPkts config fuel state around mbuf).route = ipv6Route mbuf := by
  unfold flowForwardModuleInsideIpv6FwdPkts ipv6Route
  by_cases ethernet : mbuf.etherType 0 = etherTypeIPv6
  · by_cases tcp : mbuf.proto sizeofEtherHdr = flowIpprotoTcp
    · simp only [ethernet, tcp, ne_eq, not_true_eq_false, if_false, true_and]
      by_cases long : sizeofIpv6Hdr + sizeofTcpHdr < mbuf.payloadLen sizeofEtherHdr
      · rw [if_neg (by omega), if_pos long]
        rfl
      · rw [if_pos (by omega), if_neg long]
        rfl
    · simp [ethernet, tcp, Handled.passedBy]
  · simp [ethernet, Handled.passedBy]

/-! ## Detections that return -/

theorem detect_refused (memory : Nat → FlowDdosNode) {call : Call} (refused : call.granted = false) :
    detect config 1 (flowDdosModuleInit memory) call = .ok (flowDdosModuleInit memory, 0) := by
  have scanned : flowDdosScan (flowDdosModuleInit memory) (call.bucket config) call.source 1 =
      .ok (none, Scan.start) := scanBucket_head _ _ _ _ _
  have room : Scan.start.cnt ≠ 10 := by decide
  rw [detect_arrive, arrive, scanned]
  simp only [if_neg room, refused, Bool.false_eq_true, if_false, depart]

theorem ipv4_goes (refused : around.granted = false) :
    (flowForwardModuleInsideIpv4FwdPkts config 1 (flowDdosModuleInit blankMemory) around
      mbuf).Goes (ipv4Route mbuf) := by
  refine ⟨?_, ipv4Fwd_route _ _ _ _ _⟩
  unfold flowForwardModuleInsideIpv4FwdPkts
  dsimp only
  split_ifs
  · exact ⟨_, rfl⟩
  · exact ⟨_, rfl⟩
  · exact ⟨_, rfl⟩
  · rw [Handled.detected, detect_refused _ _ refused]
    exact ⟨_, rfl⟩
  · exact ⟨_, rfl⟩

theorem ipv6_goes (refused : around.granted = false) :
    (flowForwardModuleInsideIpv6FwdPkts config 1 (flowDdosModuleInit blankMemory) around
      mbuf).Goes (ipv6Route mbuf) := by
  refine ⟨?_, ipv6Fwd_route _ _ _ _ _⟩
  unfold flowForwardModuleInsideIpv6FwdPkts
  dsimp only
  split_ifs
  · exact ⟨_, rfl⟩
  · exact ⟨_, rfl⟩
  · exact ⟨_, rfl⟩
  · rw [Handled.detected, detect_refused _ _ refused]
    exact ⟨_, rfl⟩

/-! ## A TCP segment in an IPv4 frame -/

/-- A well-formed Ethernet/IPv4/TCP frame, with or without options and payload. -/
structure Ipv4Segment where
  mbuf : RteMbuf
  etherType : mbuf.etherType 0 = etherTypeIPv4
  version : mbuf.versionIhl sizeofEtherHdr >>> 4 = 4
  nextProtoId : mbuf.nextProtoId sizeofEtherHdr = flowIpprotoTcp
  ipHeader : 20 ≤ mbuf.ipv4Headerlen sizeofEtherHdr
  tcpHeader : 5 ≤ (mbuf.dataOff (sizeofEtherHdr + mbuf.ipv4Headerlen sizeofEtherHdr) >>> 4).toNat
  headers : mbuf.ipv4Headerlen sizeofEtherHdr +
      (mbuf.dataOff (sizeofEtherHdr + mbuf.ipv4Headerlen sizeofEtherHdr) >>> 4).toNat * 4 ≤
    mbuf.totalLength sizeofEtherHdr
  held : sizeofEtherHdr + mbuf.totalLength sizeofEtherHdr ≤ mbuf.dataLen

namespace Ipv4Segment

variable (segment : Ipv4Segment)

def tcpHdr : Nat := sizeofEtherHdr + segment.mbuf.ipv4Headerlen sizeofEtherHdr

def dataOffset : Nat := (segment.mbuf.dataOff segment.tcpHdr >>> 4).toNat

def payloadStart : Nat := segment.tcpHdr + segment.dataOffset * 4

def payloadEnd : Nat := sizeofEtherHdr + segment.mbuf.totalLength sizeofEtherHdr

/-- The handler is given exactly the payload, and an empty payload to nobody. -/
def payloadRoute : Route :=
  if segment.payloadStart < segment.payloadEnd then
    .httphandle segment.payloadStart ((segment.payloadEnd : Int) - segment.payloadStart)
  else
    .sendPktDefault

def PassesPayload : Prop :=
  ∀ config fuel state around route,
    (flowForwardModuleInsideIpv4FwdPkts config fuel state around segment.mbuf).Goes route →
      route = segment.payloadRoute

theorem passesPayload_iff_route :
    segment.PassesPayload ↔ ipv4Route segment.mbuf = segment.payloadRoute := by
  constructor
  · intro passes
    exact passes collidingConfig 1 _ ⟨0, Clock.still 0, false⟩ _ (ipv4_goes _ _ _ rfl)
  · rintro same config fuel state around route ⟨_, rfl⟩
    rw [ipv4Fwd_route, same]

theorem ipv4Route_eq :
    ipv4Route segment.mbuf =
      if segment.tcpHdr + sizeofTcpHdr < segment.payloadEnd then
        .httphandle (segment.tcpHdr + sizeofTcpHdr)
          ((segment.payloadEnd : Int) - (segment.tcpHdr + sizeofTcpHdr : Nat))
      else
        .sendPktDefault := by
  have long : segment.tcpHdr + sizeofTcpHdr < segment.payloadEnd ↔
      segment.mbuf.ipv4Headerlen sizeofEtherHdr + sizeofTcpHdr <
        segment.mbuf.totalLength sizeofEtherHdr := by
    unfold tcpHdr payloadEnd
    omega
  have length : (segment.payloadEnd : Int) - (segment.tcpHdr + sizeofTcpHdr : Nat) =
      (segment.mbuf.totalLength sizeofEtherHdr : Int) -
        segment.mbuf.ipv4Headerlen sizeofEtherHdr - sizeofTcpHdr := by
    unfold tcpHdr payloadEnd
    omega
  simp only [ipv4Route, segment.etherType, segment.nextProtoId, true_and, long, length]
  rfl

/-- The handler is given the payload of a segment exactly when its TCP header has
no options. -/
theorem passes_payload_iff_no_options : segment.PassesPayload ↔ segment.dataOffset = 5 := by
  rw [passesPayload_iff_route, ipv4Route_eq]
  have atLeast : 5 ≤ segment.dataOffset := segment.tcpHeader
  have inside : segment.payloadStart ≤ segment.payloadEnd := by
    have headers : segment.mbuf.ipv4Headerlen sizeofEtherHdr + segment.dataOffset * 4 ≤
        segment.mbuf.totalLength sizeofEtherHdr := segment.headers
    unfold payloadStart payloadEnd tcpHdr
    omega
  have start : segment.payloadStart = segment.tcpHdr + segment.dataOffset * 4 := rfl
  unfold payloadRoute sizeofTcpHdr
  constructor
  · intro same
    by_contra options
    have longer : segment.tcpHdr + 20 < segment.payloadStart := by omega
    rw [if_pos (Nat.lt_of_lt_of_le longer inside)] at same
    split at same
    next nonempty =>
      have starts := (Route.httphandle.inj same).1
      exact Nat.ne_of_lt longer starts
    next empty => cases same
  · intro none
    have same : segment.payloadStart = segment.tcpHdr + 20 := by rw [start, none]
    rw [same]

end Ipv4Segment

/-- One option word in the TCP header, and three bytes of payload. -/
def optionBytes : List UInt8 :=
  [0, 0, 0, 0, 0, 0, 0, 0, 0, 0, 0, 0, 0x08, 0x00,
    0x45, 0, 0, 47, 0, 0, 0, 0, 64, 6, 0, 0, 10, 0, 0, 1, 10, 0, 0, 2,
    0x1f, 0x90, 0, 80, 0, 0, 0, 0, 0, 0, 0, 0, 0x60, 0x18, 0, 0, 0, 0, 0, 0,
    1, 1, 1, 0, 71, 69, 84]

def optionMbuf : RteMbuf where
  byte offset := optionBytes.getD offset 0
  dataLen := 61
  olFlags := 32

def optionSegment : Ipv4Segment where
  mbuf := optionMbuf
  etherType := by decide
  version := by decide
  nextProtoId := by decide
  ipHeader := by decide
  tcpHeader := by decide
  headers := by decide
  held := by decide

/-- Its options are handed over as payload. -/
theorem options_passed_as_payload : ¬ ∀ segment : Ipv4Segment, segment.PassesPayload := by
  intro passes
  have same := optionSegment.passesPayload_iff_route.mp (passes optionSegment)
  revert same
  decide

/-! ## The same segment in both kinds of packet -/

/-- A TCP segment of `length` bytes in an IPv4 packet without options and in an
IPv6 packet without extension headers. -/
structure CarriedTwice where
  v4 : RteMbuf
  v6 : RteMbuf
  length : Nat
  v4EtherType : v4.etherType 0 = etherTypeIPv4
  v4Version : v4.versionIhl sizeofEtherHdr >>> 4 = 4
  v4Proto : v4.nextProtoId sizeofEtherHdr = flowIpprotoTcp
  v4Header : v4.ipv4Headerlen sizeofEtherHdr = 20
  v4Length : v4.totalLength sizeofEtherHdr = 20 + length
  v4Held : sizeofEtherHdr + 20 + length ≤ v4.dataLen
  v6EtherType : v6.etherType 0 = etherTypeIPv6
  v6Version : v6.byte sizeofEtherHdr >>> 4 = 6
  v6Proto : v6.proto sizeofEtherHdr = flowIpprotoTcp
  v6Length : v6.payloadLen sizeofEtherHdr = length
  v6Held : sizeofEtherHdr + sizeofIpv6Hdr + length ≤ v6.dataLen
  same : ∀ i < length, v6.byte (sizeofEtherHdr + sizeofIpv6Hdr + i) =
    v4.byte (sizeofEtherHdr + 20 + i)
  tcpHeader : 5 ≤ (v4.dataOff (sizeofEtherHdr + 20) >>> 4).toNat
  headers : (v4.dataOff (sizeofEtherHdr + 20) >>> 4).toNat * 4 ≤ length

/-- Both packets go to the default sender, or the handler is given the same
bytes of both. -/
def SameDelivery (first second : RteMbuf) : Route → Route → Prop
  | .sendPktDefault, .sendPktDefault => True
  | .httphandle data length, .httphandle otherData otherLength =>
      otherLength = length ∧
        ∀ i : Nat, (i : Int) < length → second.byte (otherData + i) = first.byte (data + i)
  | _, _ => False

namespace CarriedTwice

variable (carried : CarriedTwice)

def Agree : Prop :=
  ∀ config fuel state around route otherConfig otherFuel otherState otherAround otherRoute,
    (flowForwardModuleInsideIpv4FwdPkts config fuel state around carried.v4).Goes route →
      (flowForwardModuleInsideIpv6FwdPkts otherConfig otherFuel otherState otherAround
        carried.v6).Goes otherRoute →
        SameDelivery carried.v4 carried.v6 route otherRoute

theorem agree_iff_routes :
    carried.Agree ↔
      SameDelivery carried.v4 carried.v6 (ipv4Route carried.v4) (ipv6Route carried.v6) := by
  constructor
  · intro agree
    exact agree collidingConfig 1 _ ⟨0, Clock.still 0, false⟩ _ collidingConfig 1 _
      ⟨0, Clock.still 0, false⟩ _ (ipv4_goes _ _ _ rfl) (ipv6_goes _ _ _ rfl)
  · rintro same config fuel state around route otherConfig otherFuel otherState otherAround
      otherRoute ⟨_, rfl⟩ ⟨_, rfl⟩
    rw [ipv4Fwd_route, ipv6Fwd_route]
    exact same

theorem ipv4Route_eq :
    ipv4Route carried.v4 =
      if 20 < carried.length then .httphandle 54 ((carried.length : Int) - 20)
      else .sendPktDefault := by
  have long : 20 + sizeofTcpHdr < 20 + carried.length ↔ 20 < carried.length := by
    unfold sizeofTcpHdr
    omega
  have length : ((20 + carried.length : Nat) : Int) - (20 : Nat) - sizeofTcpHdr =
      (carried.length : Int) - 20 := by
    unfold sizeofTcpHdr
    omega
  simp only [ipv4Route, carried.v4EtherType, carried.v4Proto, carried.v4Header, carried.v4Length,
    true_and, long, length]
  rfl

theorem ipv6Route_eq :
    ipv6Route carried.v6 =
      if 60 < carried.length then .httphandle 74 ((carried.length : Int) - 60)
      else .sendPktDefault := by
  have length : (carried.length : Int) - sizeofIpv6Hdr - sizeofTcpHdr =
      (carried.length : Int) - 60 := by
    unfold sizeofIpv6Hdr sizeofTcpHdr
    omega
  simp only [ipv6Route, carried.v6EtherType, carried.v6Proto, carried.v6Length, true_and, length]
  rfl

/-- The two paths agree on a segment exactly when it is a bare TCP header. -/
theorem agree_iff_bare : carried.Agree ↔ carried.length = 20 := by
  have bare : 20 ≤ carried.length := by
    have offset := carried.tcpHeader
    have headers := carried.headers
    omega
  rw [agree_iff_routes, ipv4Route_eq, ipv6Route_eq]
  constructor
  · intro same
    by_contra longer
    rw [if_pos (by omega)] at same
    split at same
    next long =>
      have lengths := same.1
      omega
    next short => exact same
  · intro same
    rw [if_neg (by omega), if_neg (by omega)]
    trivial

end CarriedTwice

def oneByteSegment : List UInt8 :=
  [0x1f, 0x90, 0, 80, 0, 0, 0, 0, 0, 0, 0, 0, 0x50, 0x18, 0, 0, 0, 0, 0, 0, 71]

def oneByteIpv4 : RteMbuf where
  byte offset := ([0, 0, 0, 0, 0, 0, 0, 0, 0, 0, 0, 0, 0x08, 0x00,
    0x45, 0, 0, 41, 0, 0, 0, 0, 64, 6, 0, 0, 10, 0, 0, 1, 10, 0, 0, 2] ++
      oneByteSegment).getD offset 0
  dataLen := 55
  olFlags := 32

def oneByteIpv6 : RteMbuf where
  byte offset := ([0, 0, 0, 0, 0, 0, 0, 0, 0, 0, 0, 0, 0x86, 0xDD,
    0x60, 0, 0, 0, 0, 21, 6, 64, 0, 0, 0, 0, 0, 0, 0, 0, 0, 0, 0, 0, 0, 0, 0, 1,
    0, 0, 0, 0, 0, 0, 0, 0, 0, 0, 0, 0, 0, 0, 0, 2] ++ oneByteSegment).getD offset 0
  dataLen := 75
  olFlags := 128

def oneByteCarried : CarriedTwice where
  v4 := oneByteIpv4
  v6 := oneByteIpv6
  length := 21
  v4EtherType := by decide
  v4Version := by decide
  v4Proto := by decide
  v4Header := by decide
  v4Length := by decide
  v4Held := by decide
  v6EtherType := by decide
  v6Version := by decide
  v6Proto := by decide
  v6Length := by decide
  v6Held := by decide
  same := by decide
  tcpHeader := by decide
  headers := by decide

/-- The IPv4 packet is parsed, the IPv6 packet is not. -/
theorem one_byte_parsed_once : ¬ ∀ carried : CarriedTwice, carried.Agree := by
  intro agree
  have same := oneByteCarried.agree_iff_routes.mp (agree oneByteCarried)
  rw [oneByteCarried.ipv4Route_eq, oneByteCarried.ipv6Route_eq, if_pos (by decide),
    if_neg (by decide)] at same
  exact same

end UAFlow.Forward
