import UAFlow.Config.Model
import UAFlow.Forward.Workers

/-!
# One round of a worker

`flow_forward_module_forward` reads the device to poll from the first entry of the
list before it asks how long the list is, and never reads another one.  What the
prefetching loops do with a burst is in order.
-/

namespace UAFlow.Forward

open Config

/-- `rte_eth_rx_burst` of a queue: it hands over waiting packets, no more than it
is asked for. -/
structure RxDriver (Net : Type) where
  rxBurst : Net → UInt8 → Int → Net × List Packet
  few : ∀ net port queueid, (rxBurst net port queueid).2.length ≤ maxPktBurst

/-- What a round does, call by call. -/
inductive RoundCall where
  | rxBurst (port : UInt8) (queueid : Int) (received : List Packet)
  | prefetch (packet : Packet)
  | insideForward (packet : Packet)

/-- The entry of a list without entries is a null pointer. -/
inductive RoundFault where
  | nullEntry

/-- The three loops over a burst; an array element that was not received is what
an earlier burst left. -/
def forwardBurst (pktsBurst : Nat → Packet) (nbRx : Nat) : List RoundCall :=
  let ahead := ((nbRx : Int) - prefetchOffset).toNat
  (List.range (min prefetchOffset nbRx)).map (fun j => .prefetch (pktsBurst j)) ++
    (List.range ahead).flatMap
      (fun j => [.prefetch (pktsBurst (j + prefetchOffset)), .insideForward (pktsBurst j)]) ++
    (List.range' ahead (nbRx - ahead)).map fun j => .insideForward (pktsBurst j)

/-- The loop over the devices with so many rounds to go. -/
def forwardLoop {Net : Type} (driver : RxDriver Net) (idx : UInt8) (queueid : Int) :
    Nat → Net → (Nat → Packet) → Net × List RoundCall
  | 0, net, _ => (net, [])
  | rounds + 1, net, pktsBurst =>
      let (net, received) := driver.rxBurst net idx queueid
      let pktsBurst := fun j => received.getD j (pktsBurst j)
      let (net, calls) := forwardLoop driver idx queueid rounds net pktsBurst
      if received.length = 0 then
        (net, .rxBurst idx queueid received :: calls)
      else
        (net, .rxBurst idx queueid received :: forwardBurst pktsBurst received.length ++ calls)

/-- `prxidx[0]->idx` is read first; `pktsBurst` is the array as the stack has it. -/
def flowForwardModuleForward {Net : Type} (driver : RxDriver Net) (prxidx : List FlowConfigIdx)
    (queueid : Int) (net : Net) (pktsBurst : Nat → Packet) :
    Except RoundFault (Net × List RoundCall) :=
  match prxidx with
  | [] => .error .nullEntry
  | first :: _ => .ok (forwardLoop driver first.idx queueid prxidx.length net pktsBurst)

namespace RoundCall

/-- A prefetch has no effect but on the cache. -/
def Counts : RoundCall → Bool
  | prefetch _ => false
  | rxBurst _ _ _ => true
  | insideForward _ => true

def port : RoundCall → Option UInt8
  | rxBurst port _ _ => some port
  | prefetch _ => none
  | insideForward _ => none

/-- A device is polled, and every packet received is forwarded in turn. -/
def handOver (port : UInt8) (queueid : Int) (received : List Packet) : List RoundCall :=
  .rxBurst port queueid received :: received.map .insideForward

end RoundCall

/-- Polling each device once, in order, and forwarding what the driver hands over at
that moment, in the order received. -/
def pollDevices {Net : Type} (driver : RxDriver Net) (queueid : Int) :
    List UInt8 → Net → Net × List RoundCall
  | [], net => (net, [])
  | port :: ports, net =>
      let (net, received) := driver.rxBurst net port queueid
      let (net, calls) := pollDevices driver queueid ports net
      (net, RoundCall.handOver port queueid received ++ calls)

/-- A round polls every device of the list once, in the order of the list, and forwards
every packet received once, in the order received. -/
def PollsAll {Net : Type} (driver : RxDriver Net) (entries : List FlowConfigIdx) (queueid : Int)
    (net : Net) (outcome : Except RoundFault (Net × List RoundCall)) : Prop :=
  ∃ (after : Net) (calls : List RoundCall), outcome = .ok (after, calls) ∧
    (after, calls.filter RoundCall.Counts) =
      pollDevices driver queueid (entries.map FlowConfigIdx.idx) net

/-! ## A burst -/

theorem filter_prefetched (pktsBurst : Nat → Packet) (ahead : Nat) :
    ((List.range ahead).flatMap fun j =>
        [RoundCall.prefetch (pktsBurst (j + prefetchOffset)), .insideForward (pktsBurst j)]).filter
          RoundCall.Counts =
      (List.range ahead).map fun j => .insideForward (pktsBurst j) := by
  induction ahead with
  | zero => rfl
  | succ ahead inductionHypothesis =>
      rw [List.range_succ, List.flatMap_append, List.filter_append, inductionHypothesis,
        List.map_append]
      rfl

theorem filter_forwardBurst (pktsBurst : Nat → Packet) (nbRx : Nat) :
    (forwardBurst pktsBurst nbRx).filter RoundCall.Counts =
      (List.range nbRx).map fun j => .insideForward (pktsBurst j) := by
  have prefetches : ((List.range (min prefetchOffset nbRx)).map fun j =>
      RoundCall.prefetch (pktsBurst j)).filter RoundCall.Counts = [] := by
    rw [List.filter_eq_nil_iff]
    intro call membership
    obtain ⟨j, _, rfl⟩ := List.mem_map.mp membership
    exact Bool.false_ne_true
  have ahead : ((nbRx : Int) - prefetchOffset).toNat ≤ nbRx := by
    omega
  unfold forwardBurst
  dsimp only
  generalize ((nbRx : Int) - prefetchOffset).toNat = first at ahead ⊢
  have remaining : ((List.range' first (nbRx - first)).map fun j =>
      RoundCall.insideForward (pktsBurst j)).filter RoundCall.Counts =
        (List.range' first (nbRx - first)).map fun j => .insideForward (pktsBurst j) := by
    rw [List.filter_eq_self]
    intro call membership
    obtain ⟨j, _, rfl⟩ := List.mem_map.mp membership
    rfl
  have split : List.range nbRx = List.range first ++ List.range' first (nbRx - first) := by
    have all := List.range'_append_1 (s := 0) (m := first) (n := nbRx - first)
    rw [Nat.zero_add, Nat.add_sub_cancel' ahead] at all
    rw [List.range_eq_range', List.range_eq_range', all]
  rw [List.filter_append, List.filter_append, prefetches, filter_prefetched, remaining,
    List.nil_append, split, List.map_append]

theorem filter_forwardBurst_received (received : List Packet) (stale : Nat → Packet) :
    (forwardBurst (fun j => received.getD j (stale j)) received.length).filter RoundCall.Counts =
      received.map .insideForward := by
  rw [filter_forwardBurst]
  apply List.ext_getElem
  · simp
  · intro j inside below
    have bound : j < received.length := by simpa using below
    simp [bound]

/-! ## The loop over the devices -/

/-- The loop polls the one device again and again, and forwards what it gets. -/
theorem forwardLoop_pollDevices {Net : Type} (driver : RxDriver Net) (idx : UInt8) (queueid : Int)
    (rounds : Nat) (net : Net) (pktsBurst : Nat → Packet) :
    ((forwardLoop driver idx queueid rounds net pktsBurst).1,
        (forwardLoop driver idx queueid rounds net pktsBurst).2.filter RoundCall.Counts) =
      pollDevices driver queueid (List.replicate rounds idx) net := by
  induction rounds generalizing net pktsBurst with
  | zero => rfl
  | succ rounds inductionHypothesis =>
      rcases polled : driver.rxBurst net idx queueid with ⟨next, received⟩
      have later := inductionHypothesis next fun j => received.getD j (pktsBurst j)
      have burst := filter_forwardBurst_received received pktsBurst
      simp only [forwardLoop, polled, List.replicate_succ, pollDevices, ← later]
      split
      next empty =>
        obtain rfl := List.eq_nil_of_length_eq_zero empty
        rfl
      next nonempty =>
        rw [List.cons_append, List.filter_cons_of_pos rfl, List.filter_append, burst]
        rfl

theorem ports_handOver (port : UInt8) (queueid : Int) (received : List Packet) :
    (RoundCall.handOver port queueid received).filterMap RoundCall.port = [port] := by
  have silent : (received.map RoundCall.insideForward).filterMap RoundCall.port = [] := by
    rw [List.filterMap_eq_nil_iff]
    intro call membership
    obtain ⟨packet, _, rfl⟩ := List.mem_map.mp membership
    rfl
  exact congrArg (port :: ·) silent

theorem ports_pollDevices {Net : Type} (driver : RxDriver Net) (queueid : Int)
    (ports : List UInt8) (net : Net) :
    (pollDevices driver queueid ports net).2.filterMap RoundCall.port = ports := by
  induction ports generalizing net with
  | nil => rfl
  | cons port ports inductionHypothesis =>
      simp only [pollDevices, List.filterMap_append, ports_handOver, inductionHypothesis,
        List.singleton_append]

/-! ## The devices a round covers -/

section Covers

variable {Net : Type} (driver : RxDriver Net) (queueid : Int) (net : Net)
  (pktsBurst : Nat → Packet)

theorem not_pollsAll_nil :
    ¬ PollsAll driver [] queueid net
      (flowForwardModuleForward driver [] queueid net pktsBurst) := by
  rintro ⟨_, _, outcome, _⟩
  cases outcome

theorem pollsAll_cons_iff (first : FlowConfigIdx) (rest : List FlowConfigIdx) :
    PollsAll driver (first :: rest) queueid net
        (flowForwardModuleForward driver (first :: rest) queueid net pktsBurst) ↔
      ∀ entry ∈ first :: rest, entry.idx = first.idx := by
  have round := forwardLoop_pollDevices driver first.idx queueid (first :: rest).length net
    pktsBurst
  have once : (first :: rest).map (fun _ => first.idx) =
      List.replicate (first :: rest).length first.idx := List.map_const' ..
  rw [← once] at round
  constructor
  · rintro ⟨after, calls, outcome, covered⟩
    rw [Except.ok.inj outcome, covered] at round
    have devices := congrArg (fun polled => polled.2.filterMap RoundCall.port) round
    simp only [ports_pollDevices] at devices
    exact List.map_inj_left.mp devices
  · intro same
    refine ⟨_, _, rfl, round.trans ?_⟩
    rw [List.map_congr_left fun entry membership => (same entry membership).symm]

/-- A round covers its list exactly when the list has an entry and all its entries
are of one device. -/
theorem pollsAll_iff_one_device (entries : List FlowConfigIdx) :
    PollsAll driver entries queueid net
        (flowForwardModuleForward driver entries queueid net pktsBurst) ↔
      entries ≠ [] ∧ ∃ idx, ∀ entry ∈ entries, entry.idx = idx := by
  cases entries with
  | nil =>
      constructor
      · exact fun covers => absurd covers (not_pollsAll_nil driver queueid net pktsBurst)
      · exact fun single => absurd rfl single.1
  | cons first rest =>
      rw [pollsAll_cons_iff]
      constructor
      · exact fun same => ⟨List.cons_ne_nil first rest, first.idx, same⟩
      · rintro ⟨_, idx, same⟩ entry membership
        rw [same entry membership, same first List.mem_cons_self]

end Covers

def RxDriver.idle : RxDriver Unit where
  rxBurst net _ _ := (net, [])
  few _ _ _ := Nat.zero_le maxPktBurst

/-- Of two entries bound to devices 0 and 1 the second is never polled, and without
an entry there is none to read a device from. -/
theorem not_pollsAll_two_devices :
    (¬ PollsAll RxDriver.idle [⟨true, 0, 1⟩, ⟨true, 1, 2⟩] 0 ()
      (flowForwardModuleForward RxDriver.idle [⟨true, 0, 1⟩, ⟨true, 1, 2⟩] 0 ()
        fun _ => ⟨0, ⟨fun _ => 0, 0, 0⟩⟩)) ∧
      ¬ PollsAll RxDriver.idle [] 0 ()
        (flowForwardModuleForward RxDriver.idle [] 0 () fun _ => ⟨0, ⟨fun _ => 0, 0, 0⟩⟩) := by
  constructor
  · intro covers
    have second := (pollsAll_cons_iff ..).mp covers ⟨true, 1, 2⟩ (by simp)
    exact absurd second (by decide)
  · exact not_pollsAll_nil RxDriver.idle 0 () _

end UAFlow.Forward
