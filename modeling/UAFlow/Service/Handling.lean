import UAFlow.Forward.Payload
import UAFlow.Service.Model

/-!
# The handling of one packet

Whatever was handled before, a packet goes where its own bytes send it, unless the
detector does not return; and the service does nothing that the threads could not do
with some detector, some parser and some search.
-/

namespace UAFlow.Service

open Library AhoCorasick Ddos Forward UserAgent Config

/-! ## Where a packet goes -/

/-- Which of the three paths the receive flags select, and where it sends the packet. -/
def routeOf (mbuf : RteMbuf) : Route :=
  if mbuf.olFlags.toUInt32 &&& pktRxIpv4Hdr ≠ 0 then ipv4Route mbuf
  else if mbuf.olFlags.toUInt32 &&& pktRxIpv6Hdr ≠ 0 then ipv6Route mbuf
  else .sendPktDefault

theorem insideForward_route (config : FlowDdosConfig) (fuel : Nat) (state : FlowDdosState)
    (around : Surroundings) (mbuf : RteMbuf) :
    (flowForwardModuleInsideForward config fuel state around mbuf).route = routeOf mbuf := by
  unfold flowForwardModuleInsideForward routeOf
  dsimp only
  split_ifs
  · exact ipv4Fwd_route _ _ _ _ _
  · exact ipv6Fwd_route _ _ _ _ _
  · rfl

/-- The text a packet makes its lcore search for. -/
def searchedFor (mbuf : RteMbuf) : Option (List UInt8) :=
  match routeOf mbuf with
  | .sendPktDefault => none
  | .httphandle data length => capturedText embedded (mbuf.payload data length 0).text

/-- Where a packet of these bytes goes with this dictionary in the tries. -/
def destination (entry : List UInt8 → Option AcPattern) (mbuf : RteMbuf) : Sender :=
  senderTo (portFound entry (searchedFor mbuf))

/-- Where a packet of these bytes is to go under a configuration: to the device of the
key that is found in the text it makes its lcore search for. -/
inductive Destined (configured : Configured) (mbuf : RteMbuf) : Sender → Prop where
  | silent (nothing : searchedFor mbuf = none) : Destined configured mbuf .push
  | searched {text : List UInt8} {portid : Int} (searches : searchedFor mbuf = some text)
      (reported : Reported configured.attach configured.root text portid) :
      Destined configured mbuf (senderTo portid)

theorem destined_destination {configured : Configured} {entry : List UInt8 → Option AcPattern}
    (answers : ∀ str, Reported configured.attach configured.root str
      (reportedDevice (reports entry [] str 0))) (mbuf : RteMbuf) :
    Destined configured mbuf (destination entry mbuf) := by
  unfold destination
  cases searches : searchedFor mbuf with
  | none => exact .silent searches
  | some text => exact .searched searches (answers text)

def errandTo (lcore : Lcore) (packet : Forward.Packet) : Sender → Errand
  | .push => .push packet
  | .send portid => .send packet portid (lcore - 1)

theorem errandTo_packet (lcore : Lcore) (packet : Forward.Packet) (sender : Sender) :
    (errandTo lcore packet sender).packet = packet := by
  cases sender <;> rfl

/-! ## The handling -/

section Handling

variable {service : Installation} {machine : Machine} {lcore : Lcore} {handling : Handling}
  {packet : Forward.Packet}

/-- The detection that the handling of a packet asks for, if it asks for one. -/
def Installation.detection (service : Installation) (machine : Machine) (lcore : Lcore)
    (handling : Handling) (packet : Forward.Packet) :
    Except Ddos.Fault (FlowDdosState × Option Int) :=
  (flowForwardModuleInsideForward service.flowDdosConfig handling.fuel machine.detector
    ⟨lcore, handling.clock, handling.granted⟩ packet.mbuf).outcome

/-- With the tries ready nothing but the detector can keep a packet from its destination,
and the tries stay ready. -/
theorem insideForward_eq (service : Installation) {path : Nat → List UInt8}
    {entry : List UInt8 → Option AcPattern}
    (ready : Ready path entry machine.handler.config) (lcore : Lcore) (handling : Handling)
    (packet : Forward.Packet) :
    (∃ fault, service.detection machine lcore handling packet = .error fault ∧
        service.insideForward machine lcore handling packet = .error (.detector fault)) ∨
      ∃ detector verdict handler,
        service.detection machine lcore handling packet = .ok (detector, verdict) ∧
        Ready path entry handler.config ∧
        service.insideForward machine lcore handling packet =
          .ok (detector, handler, errandTo lcore packet (destination entry packet.mbuf)) := by
  have route := insideForward_route service.flowDdosConfig handling.fuel machine.detector
    ⟨lcore, handling.clock, handling.granted⟩ packet.mbuf
  unfold Installation.detection Installation.insideForward destination searchedFor
  dsimp only
  rw [route]
  cases (flowForwardModuleInsideForward service.flowDdosConfig handling.fuel machine.detector
      ⟨lcore, handling.clock, handling.granted⟩ packet.mbuf).outcome with
  | error fault => exact .inl ⟨fault, rfl, rfl⟩
  | ok result =>
      obtain ⟨detector, verdict⟩ := result
      right
      cases routeOf packet.mbuf with
      | sendPktDefault => exact ⟨detector, verdict, machine.handler, rfl, ready, rfl⟩
      | httphandle data length =>
          obtain ⟨handler, kept, handled⟩ := httphandle_eq embedded ready lcore
            (packet.mbuf.payload data length handling.node)
          refine ⟨detector, verdict, handler, rfl, kept, ?_⟩
          dsimp only
          rw [handled]
          dsimp only [decided, RteMbuf.payload]
          cases senderTo (portFound entry (capturedText embedded
            ((List.range length.toNat).map fun offset => packet.mbuf.byte (data + offset)))) with
          | push => rfl
          | send portid => rfl

/-! ## The threads -/

/-- What the threads are to see of the handling of a packet. -/
def Installation.circumstances (service : Installation) (entry : List UInt8 → Option AcPattern)
    (machine : Machine) (lcore : Lcore) (handling : Handling) (packet : Forward.Packet) :
    Circumstances where
  config := service.flowDdosConfig
  fuel := handling.fuel
  detector := machine.detector
  around := ⟨lcore, handling.clock, handling.granted⟩
  callbacks :=
    match routeOf packet.mbuf with
    | .sendPktDefault => []
    | .httphandle data length =>
        (callbacksOf embedded (packet.mbuf.payload data length handling.node).text).map
          (UserAgent.Event.callback (packet.mbuf.payload data length handling.node).memory)
  search text := reportedDevice (reports entry [] text 0)

theorem insideForward_circumstances (entry : List UInt8 → Option AcPattern) :
    Forward.insideForward lcore (service.circumstances entry machine lcore handling packet) packet =
      errandTo lcore packet (destination entry packet.mbuf) := by
  unfold Forward.insideForward
  dsimp only [Installation.circumstances]
  rw [insideForward_route]
  unfold destination searchedFor
  cases routeOf packet.mbuf with
  | sendPktDefault => rfl
  | httphandle data length =>
      dsimp only
      rw [← decided_sender embedded entry lcore]
      dsimp only [decided, RteMbuf.payload]
      cases senderTo (portFound entry (capturedText embedded
        ((List.range length.toNat).map fun offset => packet.mbuf.byte (data + offset)))) with
      | push => rfl
      | send portid => rfl

/-- The two loops enter their bodies for the same packets, or leave alike. -/
theorem test_eq_next (burst : Burst) (lcoreId : Nat) (circumstances : Circumstances) :
    burst.test lcoreId circumstances =
      match burst.next with
      | none => burst.leave
      | some packet => .forwarding { burst with
          errand := some (Forward.insideForward lcoreId circumstances packet) } := by
  unfold Forward.Burst.test Forward.Burst.next Forward.Burst.leave
  cases burst.loop with
  | prefetched =>
      dsimp only
      split_ifs with inside
      · rw [List.getElem?_eq_getElem (by omega)]
      · rfl
  | remaining =>
      dsimp only
      split_ifs with inside
      · rw [List.getElem?_eq_getElem inside]
      · rw [List.getElem?_eq_none (Nat.le_of_not_lt inside)]

end Handling

end UAFlow.Service
