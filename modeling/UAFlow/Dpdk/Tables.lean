import UAFlow.Config.Load
import UAFlow.Dpdk.Model

/-!
# Tables indexed by counters

Five tables of fixed sizes are indexed by the number of an item, of a port or of a
queue.  The masks are as long as there are lcores, and the lists as there are
ports; the pools, one for each port, are as many as there are sockets.
-/

namespace UAFlow.Dpdk

open Config

def flowDpdkNbSockets : Nat := 8

inductive Table where
  | flowPktmbufPool
  | flowDpdkRxQueueMask
  | flowDpdkTxQueueMask

def Table.size : Table → Nat
  | flowPktmbufPool => flowDpdkNbSockets
  | flowDpdkRxQueueMask => flowLcoreMaxSlot
  | flowDpdkTxQueueMask => flowLcoreMaxSlot

structure Access where
  table : Table
  index : Nat

/-- The accesses a part of the code makes, and whether it gets to its end: a call
that fails leads to `rte_exit`. -/
structure Part where
  accesses : List Access
  returned : Bool

namespace Part

def done : Part := ⟨[], true⟩

def access (table : Table) (index : Nat) : Part := ⟨[⟨table, index⟩], true⟩

def call (succeeds : Bool) : Part := ⟨[], succeeds⟩

def andThen (first second : Part) : Part :=
  if first.returned then ⟨first.accesses ++ second.accesses, second.returned⟩ else first

def Within (part : Part) : Prop := ∀ access ∈ part.accesses, access.index < access.table.size

end Part

/-- What `rte_eth_dev_info_get` says of a port, and how the calls for it turn out. -/
structure PortCalls where
  maxRxQueues : UInt16
  maxTxQueues : UInt16
  configure : Bool
  rxQueueSetup : Nat → Bool
  txQueueSetup : Nat → Bool
  start : Bool

namespace PortCalls

def nbRxQueue (nbLcores : Nat) (port : PortCalls) : Nat := queueCount nbLcores port.maxRxQueues

def nbTxQueue (nbLcores : Nat) (port : PortCalls) : Nat := queueCount nbLcores port.maxTxQueues

def succeeds (nbLcores : Nat) (port : PortCalls) : Bool :=
  port.configure && (List.range (port.nbRxQueue nbLcores)).all port.rxQueueSetup &&
    (List.range (port.nbTxQueue nbLcores)).all port.txQueueSetup && port.start

def devInfo (nbLcores : Nat) (port : PortCalls) : RteEthDevInfo :=
  ⟨port.maxRxQueues, port.maxTxQueues, port.succeeds nbLcores⟩

end PortCalls

def setupLoop (read : Part) (queueMask : Table) (queueSetup : Nat → Bool) : List Nat → Part
  | [] => .done
  | queueid :: queues =>
      (read.andThen (.call (queueSetup queueid))).andThen
        ((Part.access queueMask queueid).andThen (setupLoop read queueMask queueSetup queues))

def setconfPortTables (nbLcores i : Nat) (port : PortCalls) : Part :=
  let pool := Part.access .flowPktmbufPool i
  let rxSetup := setupLoop pool .flowDpdkRxQueueMask port.rxQueueSetup
    (List.range (port.nbRxQueue nbLcores))
  let txSetup := setupLoop .done .flowDpdkTxQueueMask port.txQueueSetup
    (List.range (port.nbTxQueue nbLcores))
  pool.andThen ((Part.call port.configure).andThen
    (rxSetup.andThen (txSetup.andThen (.call port.start))))

def setconfLoopTables (nbLcores : Nat) : Nat → List PortCalls → Part
  | _, [] => .done
  | i, port :: ports =>
      (setconfPortTables nbLcores i port).andThen (setconfLoopTables nbLcores (i + 1) ports)

def setconfTables (nbLcores : Nat) (ports : List PortCalls) : Part :=
  setconfLoopTables nbLcores 0 (ports.take rteMaxEthports)

/-- Loading the document and setting up the ports stays inside the tables. -/
structure StaysInTables (attach : List UInt8 → UInt8) (root : XmlNode) (nbLcores : Nat)
    (ports : List PortCalls) : Prop where
  load : flowConfigModuleLoadInsideParse attach flowConfigModuleInit root ≠
    .error .idxListOverflow
  setconf : (setconfTables nbLcores ports).Within

/-! ## Parts -/

namespace Part

theorem returned_andThen (first second : Part) :
    (first.andThen second).returned = (first.returned && second.returned) := by
  unfold andThen
  cases returned : first.returned with
  | true => simp
  | false => simp [returned]

theorem within_andThen (first second : Part) :
    (first.andThen second).Within ↔
      first.Within ∧ (first.returned = true → second.Within) := by
  unfold andThen
  cases returned : first.returned with
  | true => simp [Within, or_imp, forall_and]
  | false => simp

theorem within_done : done.Within := fun _ membership => absurd membership List.not_mem_nil

theorem within_call (succeeds : Bool) : (call succeeds).Within := within_done

theorem within_access (table : Table) (index : Nat) :
    (access table index).Within ↔ index < table.size := by
  simp [Within, access]

end Part

/-! ## One port -/

theorem returned_setupLoop {read : Part} (reads : read.returned = true) (queueMask : Table)
    (queueSetup : Nat → Bool) (queues : List Nat) :
    (setupLoop read queueMask queueSetup queues).returned = queues.all queueSetup := by
  induction queues with
  | nil => rfl
  | cons queueid queues inductionHypothesis =>
      simp [setupLoop, Part.returned_andThen, reads, inductionHypothesis, Part.call, Part.access]

theorem within_setupLoop {read : Part} (inside : read.Within) {queueMask : Table}
    (queueSetup : Nat → Bool) {queues : List Nat}
    (below : ∀ queueid ∈ queues, queueid < queueMask.size) :
    (setupLoop read queueMask queueSetup queues).Within := by
  induction queues with
  | nil => exact Part.within_done
  | cons queueid queues inductionHypothesis =>
      obtain ⟨first, others⟩ := List.forall_mem_cons.mp below
      simp only [setupLoop, Part.within_andThen, Part.within_access]
      exact ⟨⟨inside, fun _ => Part.within_call _⟩,
        fun _ => ⟨first, fun _ => inductionHypothesis others⟩⟩

theorem returned_setconfPortTables (nbLcores i : Nat) (port : PortCalls) :
    (setconfPortTables nbLcores i port).returned = port.succeeds nbLcores := by
  have pool : (Part.access .flowPktmbufPool i).returned = true := rfl
  have none : Part.done.returned = true := rfl
  simp only [setconfPortTables, Part.returned_andThen, returned_setupLoop pool,
    returned_setupLoop none, pool, Part.call, PortCalls.succeeds, Bool.true_and, Bool.and_assoc]

/-- The number of a port is the only index of it that can be too large. -/
theorem within_setconfPortTables {nbLcores : Nat} (few : nbLcores ≤ flowLcoreMaxSlot) (i : Nat)
    (port : PortCalls) :
    (setconfPortTables nbLcores i port).Within ↔ i < flowDpdkNbSockets := by
  have masks : ∀ max : UInt16, ∀ queueid ∈ List.range (queueCount nbLcores max),
      queueid < flowLcoreMaxSlot := by
    intro max queueid membership
    have below := List.mem_range.mp membership
    unfold queueCount at below
    split at below <;> omega
  simp only [setconfPortTables, Part.within_andThen, Part.within_access]
  constructor
  · exact fun within => within.1
  · intro inside
    refine ⟨inside, fun _ => ⟨Part.within_call _, fun _ => ⟨?_, fun _ => ⟨?_, fun _ =>
      Part.within_call _⟩⟩⟩⟩
    · exact within_setupLoop ((Part.within_access _ _).mpr inside) _ (masks port.maxRxQueues)
    · exact within_setupLoop Part.within_done _ (masks port.maxTxQueues)

/-! ## All ports -/

theorem returned_setconfTables (nbLcores : Nat) (ports : List PortCalls) :
    (setconfTables nbLcores ports).returned =
      (flowDpdkModuleSetconf nbLcores (ports.map (PortCalls.devInfo nbLcores))).isSome := by
  have loop : ∀ (i : Nat) (ports : List PortCalls) (state : FlowDpdkState),
      (setconfLoopTables nbLcores i ports).returned =
        (setconfLoop nbLcores i (ports.map (PortCalls.devInfo nbLcores)) state).isSome := by
    intro i ports
    induction ports generalizing i with
    | nil => exact fun _ => rfl
    | cons port ports inductionHypothesis =>
        intro state
        rw [setconfLoopTables, Part.returned_andThen, returned_setconfPortTables, List.map_cons,
          setconfLoop, PortCalls.devInfo]
        cases succeeds : port.succeeds nbLcores with
        | true => exact (Bool.true_and _).trans (inductionHypothesis (i + 1) _)
        | false => rfl
  rw [setconfTables, flowDpdkModuleSetconf, ← List.map_take]
  exact loop 0 _ FlowDpdkState.zero

theorem within_setconfLoopTables {nbLcores : Nat} (few : nbLcores ≤ flowLcoreMaxSlot) (i : Nat)
    (ports : List PortCalls) :
    (setconfLoopTables nbLcores i ports).Within ↔
      ∀ k < ports.length, (∀ port ∈ ports.take k, port.succeeds nbLcores = true) →
        i + k < flowDpdkNbSockets := by
  induction ports generalizing i with
  | nil => exact ⟨fun _ k below => absurd below (Nat.not_lt_zero k), fun _ => Part.within_done⟩
  | cons port ports inductionHypothesis =>
      rw [setconfLoopTables, Part.within_andThen, within_setconfPortTables few,
        returned_setconfPortTables, inductionHypothesis]
      constructor
      · rintro ⟨first, others⟩ k below reached
        cases k with
        | zero => exact first
        | succ k =>
            obtain ⟨here, behind⟩ := List.forall_mem_cons.mp reached
            have next := others here k (Nat.lt_of_succ_lt_succ below) behind
            rwa [Nat.add_right_comm] at next
      · intro all
        refine ⟨all 0 (Nat.zero_lt_succ _) (by simp), fun here k below reached => ?_⟩
        have next := all (k + 1) (Nat.succ_lt_succ below) (List.forall_mem_cons.mpr ⟨here, reached⟩)
        rwa [Nat.add_right_comm]

theorem within_setconfTables {nbLcores : Nat} (fewLcores : nbLcores ≤ flowLcoreMaxSlot)
    {ports : List PortCalls} (fewPorts : ports.length ≤ rteMaxEthports) :
    (setconfTables nbLcores ports).Within ↔ ports.length ≤ flowDpdkNbSockets ∨
      ∃ port ∈ ports.take flowDpdkNbSockets, port.succeeds nbLcores = false := by
  rw [setconfTables, List.take_of_length_le fewPorts, within_setconfLoopTables fewLcores]
  simp only [Nat.zero_add]
  constructor
  · intro all
    by_contra none
    push Not at none
    obtain ⟨many, succeed⟩ := none
    have reached : ∀ port ∈ ports.take flowDpdkNbSockets, port.succeeds nbLcores = true :=
      fun port membership => Bool.ne_false_iff.mp (succeed port membership)
    exact Nat.lt_irrefl _ (all flowDpdkNbSockets many reached)
  · rintro few k below reached
    by_contra beyond
    have covers : flowDpdkNbSockets ≤ k := Nat.le_of_not_lt beyond
    rcases few with few | ⟨port, membership, fails⟩
    · exact Nat.not_le_of_lt (covers.trans_lt below) few
    · have earlier := reached port ((List.take_sublist_take_left covers).mem membership)
      rw [fails] at earlier
      cases earlier

theorem load_ne_overflow_iff (attach : List UInt8 → UInt8) (root : XmlNode) :
    flowConfigModuleLoadInsideParse attach flowConfigModuleInit root ≠ .error .idxListOverflow ↔
      Fits (items root) := by
  constructor
  · intro inside
    by_contra many
    exact inside (load_overflow attach many)
  · intro fits
    by_cases keyless : items root = [] → keys root = []
    · rw [load_placed attach fits keyless]
      exact nofun
    · obtain ⟨bare, someKey⟩ := Classical.not_imp.mp keyless
      rw [load_nullItem attach bare someKey]
      exact nofun

/-- The tables are enough exactly when no type has more items than there are places
and no ninth port is reached. -/
theorem staysInTables_iff_few (attach : List UInt8 → UInt8) (root : XmlNode) {nbLcores : Nat}
    (fewLcores : nbLcores ≤ flowLcoreMaxSlot) {ports : List PortCalls}
    (fewPorts : ports.length ≤ rteMaxEthports) :
    StaysInTables attach root nbLcores ports ↔
      Fits (items root) ∧ (ports.length ≤ flowDpdkNbSockets ∨
        ∃ port ∈ ports.take flowDpdkNbSockets, port.succeeds nbLcores = false) := by
  rw [← load_ne_overflow_iff attach, ← within_setconfTables fewLcores fewPorts]
  exact ⟨fun stays => ⟨stays.load, stays.setconf⟩, fun stays => ⟨stays.1, stays.2⟩⟩

def simplePort : PortCalls := ⟨1, 1, true, fun _ => true, fun _ => true, true⟩

theorem staysInTables_iff_few_eight :
    StaysInTables (fun _ => 0) (.mk "UAFlow" [] []) 4 (List.replicate 8 simplePort) ↔
      Fits (items (.mk "UAFlow" [] [])) ∧
        ((List.replicate 8 simplePort).length ≤ flowDpdkNbSockets ∨
          ∃ port ∈ (List.replicate 8 simplePort).take flowDpdkNbSockets,
            port.succeeds 4 = false) :=
  staysInTables_iff_few (fun _ => 0) (.mk "UAFlow" [] []) (by decide) (by decide)

/-- The pool of a ninth port is written behind the pools. -/
theorem not_staysInTables_nine :
    ¬ StaysInTables (fun _ => 0) (.mk "UAFlow" [] []) 4 (List.replicate 9 simplePort) := by
  intro stays
  have within := (within_setconfTables (by decide) (by decide)).mp stays.setconf
  exact absurd within (by decide)

end UAFlow.Dpdk
