import UAFlow.Dpdk.Model
import UAFlow.Forward.Workers
import UAFlow.UserAgent.Parsing

/-!
# The running service

`main` loads and builds the configuration, starts the detector with what the
configuration says, and then lets the workers and the default sender run.  Here
they run on the statics of the program: the detector's lists, the parser and the
trie of each lcore.  An lcore shares nothing of these with the others but the pool
of the detector, so that it handles a packet in one step up to the call that takes
the packet.
-/

namespace UAFlow.Forward

/-- The packet for which the body of the current loop is entered. -/
def Burst.next (burst : Burst) : Option Forward.Packet :=
  match burst.loop with
  | .prefetched =>
      if (burst.j : Int) < burst.pktsBurst.length - prefetchOffset then burst.pktsBurst[burst.j]?
      else none
  | .remaining => burst.pktsBurst[burst.j]?

def Burst.leave (burst : Burst) : Worker :=
  match burst.loop with
  | .prefetched => .forwarding { burst with loop := .remaining }
  | .remaining => .polling (burst.i + 1)

/-- What the pointer `data` and a length give the handler. -/
def RteMbuf.payload (mbuf : RteMbuf) (data : Nat) (length : Int) (node : Nat) :
    UserAgent.Payload where
  text := (List.range length.toNat).map fun offset => mbuf.byte (data + offset)
  behind offset := mbuf.byte (data + offset)
  node := node

end UAFlow.Forward

namespace UAFlow.Service

open Library Ddos Forward UserAgent Config

abbrev Lcore : Type := Fin 32

/-- What `main` starts: a configuration with a receiving and a sending item, the
hash functions of `rte_jhash.h`, the number from `rte_rand`, what the memory of the
detector's pool holds, and the number of transmit queues. -/
structure Installation where
  configured : Configured
  receives : configured.built.rxIdxList ≠ []
  ptxidx : FlowConfigIdx
  sends : configured.built.txIdxList.head? = some ptxidx
  jhash1word : UInt32 → UInt32 → UInt32
  jhash : FlowDdosAddr → UInt32 → UInt32
  initval : UInt32
  memory : Nat → FlowDdosNode
  txQueueNum : Nat

namespace Installation

variable (service : Installation)

def flowDdosConfig : FlowDdosConfig where
  jhash1word := service.jhash1word
  jhash := service.jhash
  initval _ := service.initval
  scanNumber := service.configured.built.scanNumber
  scanMillisecond := service.configured.built.scanMillisecond

def setup : Setup Lcore where
  lcoreId lcore := lcore
  rxsize := service.configured.built.rxIdxList.length
  defaultidx := service.ptxidx.idx
  mask := Dpdk.flowDpdkModuleGetaliq Dpdk.rteIsPowerOf2.test service.txQueueNum

end Installation

structure Transmission where
  packet : Forward.Packet
  portid : Int
  queueid : Int

/-- The threads with the statics they work on.  The last two fields only record what
has happened: the lcore each packet was received on, and what the devices took. -/
structure Machine where
  system : System Lcore
  detector : FlowDdosState
  handler : HandlerState
  receivers : List Lcore
  transmissions : List Transmission

def Installation.start (service : Installation) : Machine where
  system := System.start Lcore
  detector := flowDdosModuleInit service.memory
  handler := ⟨fun _ => HttpParser.zero, service.configured.built⟩
  receivers := []
  transmissions := []

/-- What the handling of a packet depends on besides the packet and the statics: how
long the detector may walk, what it is told by the clock and the pool, and where the
handler's node lies. -/
structure Handling where
  fuel : Nat
  clock : Clock
  granted : Bool
  node : Nat

inductive Fault where
  | detector (fault : Ddos.Fault)
  | search (fault : AhoCorasick.Fault)

/-- `flow_forward_module_inside_forward` up to the call that takes the packet. -/
def Installation.insideForward (service : Installation) (machine : Machine) (lcore : Lcore)
    (handling : Handling) (packet : Forward.Packet) :
    Except Fault (FlowDdosState × HandlerState × Errand) :=
  let handled := flowForwardModuleInsideForward service.flowDdosConfig handling.fuel
    machine.detector ⟨lcore, handling.clock, handling.granted⟩ packet.mbuf
  match handled.outcome with
  | .error fault => .error (.detector fault)
  | .ok (detector, _) =>
      match handled.route with
      | .sendPktDefault => .ok (detector, machine.handler, .push packet)
      | .httphandle data length =>
          match machine.handler.httphandle embedded lcore
              (packet.mbuf.payload data length handling.node) with
          | .error fault => .error (.search fault)
          | .ok (handler, decision) =>
              match decision.sender with
              | .push => .ok (detector, handler, .push packet)
              | .send portid => .ok (detector, handler, .send packet portid decision.queueid)

/-- The events of the threads; nothing but what the program gets from outside is left
open. -/
inductive Event where
  | forward (lcore : Lcore)
  | rxBurst (lcore : Lcore) (mbufs : List RteMbuf)
  | finish (lcore : Lcore)
  | test (lcore : Lcore) (handling : Handling)
  | perform (lcore : Lcore) (accepted : Bool)
  | pop
  | defsendPerform (accepted : Bool)

def taken (errand : Option Errand) (accepted : Bool) : List Transmission :=
  match errand, accepted with
  | some (.send packet portid queueid), true => [⟨packet, portid, queueid⟩]
  | _, _ => []

def Machine.errand (machine : Machine) (lcore : Lcore) : Option Errand :=
  match machine.system.worker lcore with
  | .forwarding burst => burst.errand
  | _ => none

/-- A test of the loop conditions, with the body where one holds. -/
def Installation.test (service : Installation) (machine : Machine) (lcore : Lcore) (handling : Handling) :
    Option Machine :=
  match machine.system.worker lcore with
  | .forwarding burst =>
      match burst.errand, burst.next with
      | some _, _ => none
      | none, none => some { machine with system := machine.system.setWorker lcore burst.leave }
      | none, some packet =>
          match service.insideForward machine lcore handling packet with
          | .error _ => none
          | .ok (detector, handler, errand) =>
              some { machine with
                system := machine.system.setWorker lcore
                  (.forwarding { burst with errand := some errand })
                detector := detector
                handler := handler }
  | _ => none

def Installation.step (service : Installation) (machine : Machine) : Event → Option Machine
  | .forward lcore =>
      match Forward.step service.setup machine.system (.forward lcore) with
      | none => none
      | some system => some { machine with system := system }
  | .rxBurst lcore mbufs =>
      match Forward.step service.setup machine.system (.rxBurst lcore mbufs) with
      | none => none
      | some system => some { machine with
          system := system
          receivers := machine.receivers ++ List.replicate mbufs.length lcore }
  | .finish lcore =>
      match Forward.step service.setup machine.system (.finish lcore) with
      | none => none
      | some system => some { machine with system := system }
  | .test lcore handling => service.test machine lcore handling
  | .perform lcore accepted =>
      match Forward.step service.setup machine.system (.perform lcore accepted) with
      | none => none
      | some system => some { machine with
          system := system
          transmissions := machine.transmissions ++ taken (machine.errand lcore) accepted }
  | .pop =>
      match Forward.step service.setup machine.system .pop with
      | none => none
      | some system => some { machine with system := system }
  | .defsendPerform accepted =>
      match Forward.step service.setup machine.system (.defsendPerform accepted) with
      | none => none
      | some system => some { machine with
          system := system
          transmissions := machine.transmissions ++ taken machine.system.defsend accepted }

/-- A state of the service after some events. -/
structure Reached (service : Installation) where
  events : List Event
  machine : Machine
  run : Run (fun before event after => service.step before event = some after)
    service.start events machine

end UAFlow.Service
