import UAFlow.Forward.Payload

/-!
# Reading outside the frame

Where the handler starts to read and how far follows from header fields alone;
no path compares them with the length of the frame.  The flags and the source
port are read behind the fixed TCP header, so even a consistent frame with a
short payload is read past its end.
-/

namespace UAFlow.Forward

open Ddos

/-- The detection comes to a node, and so to the source port. -/
def ReadsPort (config : FlowDdosConfig) (fuel : Nat) (state : FlowDdosState) (call : Call) : Prop :=
  ∃ middle item, arrive config fuel state call = .ok (some (middle, item))

/-- The offsets read through `tcp_hdr` before the handler is called, when
`tcp_hdr` is at `data` by then. -/
def ReadsTcpHdr (config : FlowDdosConfig) (fuel : Nat) (state : FlowDdosState)
    (around : Surroundings) (mbuf : RteMbuf) (data offset : Nat) : Prop :=
  (mbuf.olFlags.toUInt32 &&& pktRxIpv4Hdr ≠ 0 ∧ offset = data + 13) ∨
    ∃ call ∈ (flowForwardModuleInsideForward config fuel state around mbuf).asked,
      ReadsPort config fuel state call ∧ (offset = data ∨ offset = data + 1)

/-- A packet given to the handler is read inside the frame only, before and by
the handler; otherwise it goes to the default sender. -/
def StaysInside (mbuf : RteMbuf) : Prop :=
  ∀ config fuel state around route,
    (flowForwardModuleInsideForward config fuel state around mbuf).Goes route →
      route = .sendPktDefault ∨
        ∃ data length, route = .httphandle data length ∧ 0 ≤ length ∧
          data + length ≤ mbuf.dataLen ∧
          ∀ offset, ReadsTcpHdr config fuel state around mbuf data offset → offset < mbuf.dataLen

def TakenAsIpv4 (mbuf : RteMbuf) : Prop :=
  mbuf.olFlags.toUInt32 &&& pktRxIpv4Hdr ≠ 0 ∧ mbuf.etherType 0 = etherTypeIPv4 ∧
    mbuf.nextProtoId sizeofEtherHdr = flowIpprotoTcp ∧
    mbuf.ipv4Headerlen sizeofEtherHdr + sizeofTcpHdr < mbuf.totalLength sizeofEtherHdr

def TakenAsIpv6 (mbuf : RteMbuf) : Prop :=
  mbuf.olFlags.toUInt32 &&& pktRxIpv4Hdr = 0 ∧ mbuf.olFlags.toUInt32 &&& pktRxIpv6Hdr ≠ 0 ∧
    mbuf.etherType 0 = etherTypeIPv6 ∧ mbuf.proto sizeofEtherHdr = flowIpprotoTcp ∧
    sizeofIpv6Hdr + sizeofTcpHdr < mbuf.payloadLen sizeofEtherHdr

/-- The frame is as long as its length field says, and long enough for the bytes
read behind the fixed TCP header. -/
def LongEnough (mbuf : RteMbuf) : Prop :=
  (TakenAsIpv4 mbuf → 14 + mbuf.totalLength sizeofEtherHdr ≤ mbuf.dataLen ∧
    48 + mbuf.ipv4Headerlen sizeofEtherHdr ≤ mbuf.dataLen) ∧
  (TakenAsIpv6 mbuf → 14 + mbuf.payloadLen sizeofEtherHdr ≤ mbuf.dataLen ∧ 76 ≤ mbuf.dataLen)

section Paths

variable (config : FlowDdosConfig) (fuel : Nat) (state : FlowDdosState) (around : Surroundings)
  {mbuf : RteMbuf}

theorem inside_ipv4 (ipv4 : mbuf.olFlags.toUInt32 &&& pktRxIpv4Hdr ≠ 0) :
    flowForwardModuleInsideForward config fuel state around mbuf =
      flowForwardModuleInsideIpv4FwdPkts config fuel state around mbuf := by
  simp only [flowForwardModuleInsideForward, if_pos ipv4]

theorem inside_ipv6 (notIpv4 : mbuf.olFlags.toUInt32 &&& pktRxIpv4Hdr = 0)
    (ipv6 : mbuf.olFlags.toUInt32 &&& pktRxIpv6Hdr ≠ 0) :
    flowForwardModuleInsideForward config fuel state around mbuf =
      flowForwardModuleInsideIpv6FwdPkts config fuel state around mbuf := by
  simp only [flowForwardModuleInsideForward, notIpv4, ne_eq, not_true_eq_false, if_false,
    if_pos ipv6]

theorem taken_ipv4_route (taken : TakenAsIpv4 mbuf) :
    ipv4Route mbuf = .httphandle (34 + mbuf.ipv4Headerlen sizeofEtherHdr)
      ((mbuf.totalLength sizeofEtherHdr : Int) - mbuf.ipv4Headerlen sizeofEtherHdr - 20) := by
  have start : sizeofEtherHdr + mbuf.ipv4Headerlen sizeofEtherHdr + sizeofTcpHdr =
      34 + mbuf.ipv4Headerlen sizeofEtherHdr := by
    unfold sizeofEtherHdr sizeofTcpHdr
    omega
  rw [ipv4Route, if_pos taken.2, start]
  rfl

theorem taken_ipv6_detected (taken : TakenAsIpv6 mbuf) :
    flowForwardModuleInsideForward config fuel state around mbuf =
      .detected config fuel state
        (ask mbuf (.v6 (mbuf.ipv6SrcAddr sizeofEtherHdr)) 74 around)
        (.httphandle 74 ((mbuf.payloadLen sizeofEtherHdr : Int) - 40 - 20)) := by
  obtain ⟨notIpv4, ipv6, ethernet, tcp, long⟩ := taken
  have longer : ¬ (sizeofTcpHdr : Int) ≥
      (mbuf.payloadLen sizeofEtherHdr : Int) - sizeofIpv6Hdr := by
    omega
  rw [inside_ipv6 config fuel state around notIpv4 ipv6]
  simp only [flowForwardModuleInsideIpv6FwdPkts, ethernet, tcp, ne_eq, not_true_eq_false,
    if_false, if_neg longer]
  rfl

theorem route_cases (mbuf : RteMbuf) :
    (flowForwardModuleInsideForward config fuel state around mbuf).route = .sendPktDefault ∨
      (TakenAsIpv4 mbuf ∧
        (flowForwardModuleInsideForward config fuel state around mbuf).route =
          .httphandle (34 + mbuf.ipv4Headerlen sizeofEtherHdr)
            ((mbuf.totalLength sizeofEtherHdr : Int) - mbuf.ipv4Headerlen sizeofEtherHdr - 20)) ∨
      (TakenAsIpv6 mbuf ∧
        (flowForwardModuleInsideForward config fuel state around mbuf).route =
          .httphandle 74 ((mbuf.payloadLen sizeofEtherHdr : Int) - 40 - 20)) := by
  by_cases ipv4 : mbuf.olFlags.toUInt32 &&& pktRxIpv4Hdr = 0
  · by_cases ipv6 : mbuf.olFlags.toUInt32 &&& pktRxIpv6Hdr = 0
    · refine .inl ?_
      simp only [flowForwardModuleInsideForward, ipv4, ipv6, ne_eq, not_true_eq_false, if_false]
      rfl
    · rw [inside_ipv6 config fuel state around ipv4 ipv6, ipv6Fwd_route, ipv6Route]
      split_ifs with taken
      · exact .inr (.inr ⟨⟨ipv4, ipv6, taken⟩, rfl⟩)
      · exact .inl rfl
  · rw [inside_ipv4 config fuel state around ipv4, ipv4Fwd_route]
    by_cases taken : TakenAsIpv4 mbuf
    · exact .inr (.inl ⟨taken, taken_ipv4_route taken⟩)
    · exact .inl (if_neg fun given => taken ⟨ipv4, given⟩)

theorem detect_granted (call : Call) (granted : call.granted = true) :
    ReadsPort config 1 (flowDdosModuleInit blankMemory) call ∧
      ∃ after verdict, detect config 1 (flowDdosModuleInit blankMemory) call =
        .ok (after, verdict) := by
  have scanned : flowDdosScan (flowDdosModuleInit blankMemory) (call.bucket config) call.source
      1 = .ok (none, Scan.start) := scanBucket_head _ _ _ _ _
  have arrived := arrive_added scanned (by decide) granted
  refine ⟨⟨_, _, arrived⟩, ?_⟩
  rw [detect_arrive, arrived, depart]
  exact flowDdosRecord_empty config _ call _ (insertOf_enlisted config _ call _).empty

end Paths

/-! ## Frames that are long enough -/

theorem StaysInside.ipv4 {mbuf : RteMbuf} (stays : StaysInside mbuf) (taken : TakenAsIpv4 mbuf) :
    14 + mbuf.totalLength sizeofEtherHdr ≤ mbuf.dataLen ∧
      48 + mbuf.ipv4Headerlen sizeofEtherHdr ≤ mbuf.dataLen := by
  have goes := ipv4_goes collidingConfig ⟨0, Clock.still 0, false⟩ mbuf rfl
  rw [← inside_ipv4 _ _ _ _ taken.1, taken_ipv4_route taken] at goes
  cases stays _ _ _ _ _ goes with
  | inl defaulted => cases defaulted
  | inr given =>
      obtain ⟨data, length, handled, _, inside, reads⟩ := given
      obtain ⟨rfl, rfl⟩ := Route.httphandle.inj handled
      have flags := reads _ (.inl ⟨taken.1, rfl⟩)
      omega

theorem StaysInside.ipv6 {mbuf : RteMbuf} (stays : StaysInside mbuf) (taken : TakenAsIpv6 mbuf) :
    14 + mbuf.payloadLen sizeofEtherHdr ≤ mbuf.dataLen ∧ 76 ≤ mbuf.dataLen := by
  let around : Surroundings := ⟨0, Clock.still 0, true⟩
  let call := ask mbuf (.v6 (mbuf.ipv6SrcAddr sizeofEtherHdr)) 74 around
  obtain ⟨port, after, verdict, returned⟩ := detect_granted collidingConfig call rfl
  have detected := taken_ipv6_detected collidingConfig 1 (flowDdosModuleInit blankMemory) around
    taken
  have goes : (flowForwardModuleInsideForward collidingConfig 1 (flowDdosModuleInit blankMemory)
      around mbuf).Goes (.httphandle 74 ((mbuf.payloadLen sizeofEtherHdr : Int) - 40 - 20)) := by
    rw [detected]
    exact ⟨⟨_, by rw [Handled.detected, returned]⟩, rfl⟩
  have asked : call ∈ (flowForwardModuleInsideForward collidingConfig 1
      (flowDdosModuleInit blankMemory) around mbuf).asked := by
    rw [detected]
    rfl
  cases stays _ _ _ _ _ goes with
  | inl defaulted => cases defaulted
  | inr given =>
      obtain ⟨data, length, handled, _, inside, reads⟩ := given
      obtain ⟨rfl, rfl⟩ := Route.httphandle.inj handled
      have second := reads 75 (.inr ⟨call, asked, port, .inr rfl⟩)
      omega

/-- Reads stay inside exactly the frames that are long enough. -/
theorem stays_inside_iff_long_enough (mbuf : RteMbuf) : StaysInside mbuf ↔ LongEnough mbuf := by
  constructor
  · exact fun stays => ⟨stays.ipv4, stays.ipv6⟩
  · rintro ⟨ipv4, ipv6⟩ config fuel state around route ⟨_, rfl⟩
    obtain defaulted | ⟨taken, route⟩ | ⟨taken, route⟩ :=
      route_cases config fuel state around mbuf
    · exact .inl defaulted
    · have long := ipv4 taken
      have positive := taken.2.2.2
      unfold sizeofTcpHdr at positive
      refine .inr ⟨_, _, route, by omega, by omega, ?_⟩
      rintro offset (⟨_, rfl⟩ | ⟨_, _, _, rfl | rfl⟩)
      · omega
      · omega
      · omega
    · have long := ipv6 taken
      have positive := taken.2.2.2.2
      unfold sizeofIpv6Hdr sizeofTcpHdr at positive
      refine .inr ⟨_, _, route, by omega, by omega, ?_⟩
      rintro offset (⟨marked, _⟩ | ⟨_, _, _, rfl | rfl⟩)
      · exact absurd taken.1 marked
      · omega
      · omega

/-- The same bytes with a total length of 1500. -/
def oversizedIpv4 : RteMbuf :=
  { oneByteIpv4 with
    byte := Function.update (Function.update oneByteIpv4.byte 16 5) 17 220 }

/-- The well-formed frame with one byte of payload is read behind its end before
the handler is called, and so is the frame that claims to be longer by it. -/
theorem not_stays_inside : ¬ StaysInside oneByteIpv4 ∧ ¬ StaysInside oversizedIpv4 := by
  refine ⟨fun stays => ?_, fun stays => ?_⟩
  · exact absurd (stays.ipv4 ⟨by decide, by decide, by decide, by decide⟩) (by decide)
  · exact absurd (stays.ipv4 ⟨by decide, by decide, by decide, by decide⟩) (by decide)

end UAFlow.Forward
