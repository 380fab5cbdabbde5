import UAFlow.Forward.Dispatch
import UAFlow.UserAgent.Model
import UAFlow.Library.Runs

/-!
# Workers and the default sender

Any number of lcores run `flow_forward_module_forward` while the loop of
`flow_forward_defsend.c` empties the ring they push to.  A step takes one of them
up to its next call of the driver, the ring or the pool, or through that call.
-/

namespace UAFlow.Forward

open Ddos UserAgent

def maxPktBurst : Nat := 32
def prefetchOffset : Nat := 3

/-- A buffer that is received again counts as a new packet. -/
structure Packet where
  serial : Nat
  mbuf : RteMbuf

/-- What is fixed while packets are forwarded. -/
structure Setup (Lcore : Type) where
  lcoreId : Lcore → Nat
  rxsize : Nat
  defaultidx : UInt8
  mask : Int32

/-- The call a thread is about to make for a packet: `rte_ring_enqueue` in
`flow_forward_defsend_module_push`, `rte_eth_tx_burst` in
`flow_forward_module_send`, or `rte_pktmbuf_free`. -/
inductive Errand where
  | push (packet : Packet)
  | send (packet : Packet) (portid queueid : Int)
  | free (packet : Packet)

def Errand.packet : Errand → Packet
  | push packet => packet
  | send packet _ _ => packet
  | free packet => packet

/-- What the threads share, and where packets have gone for good. -/
structure Shared where
  ring : List Packet
  transmitted : List Packet
  freed : List Packet

/-- One call and what its result leads to.  The ring and the driver may refuse a
packet: a result below 0 of `push` and 0 of `rte_eth_tx_burst` make the caller
free it. -/
def Errand.perform (shared : Shared) (accepted : Bool) : Errand → Shared × Option Errand
  | push packet =>
      if accepted then ({ shared with ring := shared.ring ++ [packet] }, none)
      else (shared, some (free packet))
  | send packet _ _ =>
      if accepted then ({ shared with transmitted := shared.transmitted ++ [packet] }, none)
      else (shared, some (free packet))
  | free packet => ({ shared with freed := shared.freed ++ [packet] }, none)

/-! ## A worker -/

/-- What the handling of one packet depends on besides the packet. -/
structure Circumstances where
  config : FlowDdosConfig
  fuel : Nat
  detector : FlowDdosState
  around : Surroundings
  callbacks : List Callback
  search : List UInt8 → Int

/-- `flow_forward_module_inside_forward` up to the call that takes the packet. -/
def insideForward (lcoreId : Nat) (circumstances : Circumstances) (packet : Packet) : Errand :=
  let handled := flowForwardModuleInsideForward circumstances.config circumstances.fuel
    circumstances.detector circumstances.around packet.mbuf
  match handled.route with
  | .sendPktDefault => .push packet
  | .httphandle _ _ =>
      match flowUaCommonModuleHttphandle circumstances.search circumstances.callbacks with
      | .push => .push packet
      | .send portid => .send packet portid (lcoreId - 1)

inductive BurstLoop where
  | prefetched
  | remaining

/-- A worker in the body of the loop over the devices. -/
structure Burst where
  i : Nat
  pktsBurst : List Packet
  j : Nat
  loop : BurstLoop
  errand : Option Errand

inductive Worker where
  | returned
  | polling (i : Nat)
  | forwarding (burst : Burst)

/-- The condition of the loop and, where it holds, the loop's body. -/
def Burst.test (burst : Burst) (lcoreId : Nat) (circumstances : Circumstances) : Worker :=
  match burst.loop with
  | .prefetched =>
      if inside : (burst.j : Int) < burst.pktsBurst.length - prefetchOffset then
        have bound : burst.j < burst.pktsBurst.length := by omega
        .forwarding { burst with
          errand := some (insideForward lcoreId circumstances burst.pktsBurst[burst.j]) }
      else
        .forwarding { burst with loop := .remaining }
  | .remaining =>
      if inside : burst.j < burst.pktsBurst.length then
        .forwarding { burst with
          errand := some (insideForward lcoreId circumstances burst.pktsBurst[burst.j]) }
      else
        .polling (burst.i + 1)

/-- The burst behind a call for its current packet. -/
def Burst.resume (burst : Burst) (errand : Option Errand) : Burst :=
  match errand with
  | some errand => { burst with errand := some errand }
  | none => { burst with j := burst.j + 1, errand := none }

/-! ## The system -/

/-- `defsend` is the call the default sender is about to make for the packet it
popped. -/
structure System (Lcore : Type) where
  received : Nat
  worker : Lcore → Worker
  shared : Shared
  defsend : Option Errand

def System.start (Lcore : Type) : System Lcore where
  received := 0
  worker := fun _ => .returned
  shared := ⟨[], [], []⟩
  defsend := none

/-- `rxBurst` has the packets the driver gives, `test` what decides the way of
the packet when the loop goes on, `perform` and `defsendPerform` whether the ring
or the driver accepts it. -/
inductive Event (Lcore : Type) where
  | forward (lcore : Lcore)
  | rxBurst (lcore : Lcore) (mbufs : List RteMbuf)
  | finish (lcore : Lcore)
  | test (lcore : Lcore) (circumstances : Circumstances)
  | perform (lcore : Lcore) (accepted : Bool)
  | pop
  | defsendPerform (accepted : Bool)

section Step

variable {Lcore : Type} [DecidableEq Lcore]

def System.setWorker (system : System Lcore) (lcore : Lcore) (worker : Worker) : System Lcore :=
  { system with worker := Function.update system.worker lcore worker }

def packetsFrom (received : Nat) (mbufs : List RteMbuf) : List Packet :=
  (mbufs.zipIdx received).map fun numbered => ⟨numbered.2, numbered.1⟩

def rxBurst (system : System Lcore) (lcore : Lcore) (i : Nat) (mbufs : List RteMbuf) :
    System Lcore :=
  let after := { system with received := system.received + mbufs.length }
  if mbufs.length = 0 then
    after.setWorker lcore (.polling (i + 1))
  else
    after.setWorker lcore
      (.forwarding ⟨i, packetsFrom system.received mbufs, 0, .prefetched, none⟩)

/-- `queueid = *(mtod + 17) & mask`. -/
def defsendQueueid (mask : Int32) (mbuf : RteMbuf) : Int :=
  ((mbuf.byte 17).toUInt32.toInt32 &&& mask).toInt

def step (setup : Setup Lcore) (system : System Lcore) : Event Lcore → Option (System Lcore)
  | .forward lcore =>
      match system.worker lcore with
      | .returned => some (system.setWorker lcore (.polling 0))
      | _ => none
  | .rxBurst lcore mbufs =>
      match system.worker lcore with
      | .polling i =>
          if i < setup.rxsize ∧ mbufs.length ≤ maxPktBurst then
            some (rxBurst system lcore i mbufs)
          else
            none
      | _ => none
  | .finish lcore =>
      match system.worker lcore with
      | .polling i =>
          if i < setup.rxsize then none else some (system.setWorker lcore .returned)
      | _ => none
  | .test lcore circumstances =>
      match system.worker lcore with
      | .forwarding burst =>
          match burst.errand with
          | none => some (system.setWorker lcore
              (burst.test (setup.lcoreId lcore) circumstances))
          | some _ => none
      | _ => none
  | .perform lcore accepted =>
      match system.worker lcore with
      | .forwarding burst =>
          match burst.errand with
          | some errand =>
              let (shared, next) := errand.perform system.shared accepted
              some ({ system with shared := shared }.setWorker lcore
                (.forwarding (burst.resume next)))
          | none => none
      | _ => none
  | .pop =>
      match system.defsend, system.shared.ring with
      | none, packet :: ring =>
          some { system with
            shared := { system.shared with ring := ring }
            defsend := some
              (.send packet setup.defaultidx.toNat (defsendQueueid setup.mask packet.mbuf)) }
      | none, [] => some system
      | some _, _ => none
  | .defsendPerform accepted =>
      match system.defsend with
      | some errand =>
          let (shared, next) := errand.perform system.shared accepted
          some { system with shared := shared, defsend := next }
      | none => none

end Step

structure Reached {Lcore : Type} [DecidableEq Lcore] (setup : Setup Lcore) where
  events : List (Event Lcore)
  system : System Lcore
  run : Library.Run (fun before event after => step setup before event = some after)
    (System.start Lcore) events system

end UAFlow.Forward
