import UAFlow.Ddos.Population
import UAFlow.Service.Routing

/-!
# Packets that are never held up

Only the detector can keep a worker from a packet.  With a scan number below the size of
its arrays, and packets from sources of which no bucket is asked to hold more than ten, it
answers every time.
-/

namespace UAFlow.Forward

def spent : Option Errand → Nat
  | none => 0
  | some (.free _) => 2
  | some _ => 1

def BurstLoop.tests : BurstLoop → Nat
  | .prefetched => 2
  | .remaining => 1

/-- The turns a worker can still have in its burst: for each packet a test, a call, and
another one where that is refused. -/
def Burst.work (burst : Burst) : Nat :=
  3 * (Worker.forwarding burst).pending.length + burst.loop.tests - spent burst.errand

def Worker.work : Worker → Nat
  | .forwarding burst => burst.work
  | _ => 0

theorem spent_le (errand : Option Errand) : spent errand ≤ 2 := by
  unfold spent
  split <;> omega

end UAFlow.Forward

namespace UAFlow.Service

open Library AhoCorasick Ddos Forward UserAgent Config

def Expected (sources : Finset Source) (mbuf : RteMbuf) : Prop :=
  ∀ config fuel state around call,
    (flowForwardModuleInsideForward config fuel state around mbuf).asked = some call →
      call.source ∈ sources

/-- The sources do not fill a bucket, and the scan number does not exceed the arrays. -/
structure Bears (service : Installation) (sources : Finset Source) : Prop where
  roomy : Roomy service.flowDdosConfig sources
  small : service.flowDdosConfig.scanNumber.toNat < flowDdosEverynodeEntryMaxSz

/-! ## What the detector is asked -/

theorem handled_cases (config : FlowDdosConfig) (fuel : Nat) (state : FlowDdosState)
    (around : Surroundings) (mbuf : RteMbuf) :
    (∃ route, flowForwardModuleInsideForward config fuel state around mbuf =
        .passedBy state route) ∨
      ∃ call route, flowForwardModuleInsideForward config fuel state around mbuf =
        .detected config fuel state call route := by
  unfold flowForwardModuleInsideForward flowForwardModuleInsideIpv4FwdPkts
    flowForwardModuleInsideIpv6FwdPkts
  dsimp only
  split_ifs
  all_goals first
    | exact .inl ⟨_, rfl⟩
    | exact .inr ⟨_, _, rfl⟩

section Steps

variable {service : Installation} {path : Nat → List UInt8} {entry : List UInt8 → Option AcPattern}
  {machine after : Machine} {event : Event} {sources : Finset Source}

theorem Expected.detection {packet : Forward.Packet} (expected : Expected sources packet.mbuf)
    (service : Installation) (machine : Machine) (lcore : Lcore) (handling : Handling) :
    service.detection machine lcore handling packet = .ok (machine.detector, none) ∨
      ∃ call route, call.source ∈ sources ∧
        service.detection machine lcore handling packet =
          (Handled.detected service.flowDdosConfig handling.fuel machine.detector call
            route).outcome := by
  unfold Installation.detection
  obtain ⟨route, passes⟩ | ⟨call, route, asks⟩ := handled_cases service.flowDdosConfig
    handling.fuel machine.detector ⟨lcore, handling.clock, handling.granted⟩ packet.mbuf
  · rw [passes]
    exact .inl rfl
  · have among := expected _ _ _ _ call (congrArg Handled.asked asks)
    rw [asks]
    exact .inr ⟨call, route, among, rfl⟩

/-! ## What the detector has room for -/

def Event.Brings (sources : Finset Source) : Event → Prop
  | .rxBurst _ mbufs => ∀ mbuf ∈ mbufs, Expected sources mbuf
  | _ => True

/-- The detector has room for the sources, and the workers have packets of these only. -/
structure Populated (service : Installation) (sources : Finset Source) (machine : Machine) :
    Prop where
  housed : ∃ chain, Housed service.flowDdosConfig sources machine.detector chain
  counts : Counts service.flowDdosConfig.scanNumber.toNat machine.detector
  expected : ∀ lcore, ∀ packet ∈ (machine.system.worker lcore).pending,
    Expected sources packet.mbuf

theorem populated_start (service : Installation) (sources : Finset Source) :
    Populated service sources service.start where
  housed := ⟨_, housed_init _ _ _⟩
  counts := counts_init _
  expected _ _ present := absurd present List.not_mem_nil

theorem Populated.detects (populated : Populated service sources machine)
    (bears : Bears service sources) {packet : Forward.Packet}
    (expected : Expected sources packet.mbuf) (lcore : Lcore) {handling : Handling}
    (enough : 11 ≤ handling.fuel) :
    ∃ detector verdict,
      service.detection machine lcore handling packet = .ok (detector, verdict) := by
  obtain passes | ⟨call, route, among, asks⟩ := expected.detection service machine lcore handling
  · exact ⟨_, _, passes⟩
  · obtain ⟨chain, housed⟩ := populated.housed
    obtain ⟨detector, verdict, returned⟩ :=
      housed.returns bears.roomy among populated.counts bears.small enough
    rw [asks]
    dsimp only [Handled.detected]
    rw [returned]
    exact ⟨_, _, rfl⟩

theorem Populated.detected (populated : Populated service sources machine)
    (bears : Bears service sources) {packet : Forward.Packet}
    (expected : Expected sources packet.mbuf) {lcore : Lcore} {handling : Handling}
    {detector : FlowDdosState} {verdict : Option Int}
    (detects : service.detection machine lcore handling packet = .ok (detector, verdict)) :
    (∃ chain, Housed service.flowDdosConfig sources detector chain) ∧
      Counts service.flowDdosConfig.scanNumber.toNat detector := by
  obtain passes | ⟨call, route, among, asks⟩ := expected.detection service machine lcore handling
  · rw [passes] at detects
    cases detects
    exact ⟨populated.housed, populated.counts⟩
  · obtain ⟨chain, housed⟩ := populated.housed
    rw [asks] at detects
    dsimp only [Handled.detected] at detects
    cases returned : detect service.flowDdosConfig handling.fuel machine.detector call with
    | error fault => simp [returned] at detects
    | ok result =>
        obtain ⟨next, answer⟩ := result
        rw [returned] at detects
        cases detects
        have stepped : Step service.flowDdosConfig machine.detector call detector :=
          ⟨answer, handling.fuel, returned⟩
        exact ⟨housed.step bears.roomy among stepped,
          populated.counts.step (Nat.le_refl _) housed.chains stepped⟩

theorem next_pending {burst : Burst} {packet : Forward.Packet} (next : burst.next = some packet) :
    packet ∈ (Worker.forwarding burst).pending := by
  have here : burst.pktsBurst[burst.j]? = some packet := by
    unfold Burst.next at next
    cases looping : burst.loop with
    | prefetched =>
        rw [looping] at next
        dsimp only at next
        split_ifs at next
        exact next
    | remaining =>
        rw [looping] at next
        exact next
  show packet ∈ burst.pktsBurst.drop burst.j
  rw [List.drop_eq_getElem?_toList_append, here]
  exact List.mem_append_left _ (List.mem_singleton.mpr rfl)

theorem Moves.detector (moves : Moves service path entry machine after) :
    after.detector = machine.detector ∨
      ∃ lcore handling packet verdict, packet ∈ (machine.system.worker lcore).pending ∧
        service.detection machine lcore handling packet = .ok (after.detector, verdict) := by
  cases moves with
  | decides lcore handling burst packet detector verdict handler current next detects kept =>
      exact .inr ⟨lcore, handling, packet, verdict, current ▸ next_pending next, detects⟩
  | _ => exact .inl rfl

theorem receivers_of_step (other : ∀ lcore mbufs, event ≠ .rxBurst lcore mbufs)
    (stepped : service.step machine event = some after) :
    after.receivers = machine.receivers := by
  cases event with
  | rxBurst lcore mbufs => exact absurd rfl (other lcore mbufs)
  | test lcore handling =>
      simp only [Installation.step, Installation.test] at stepped
      split at stepped
      · split at stepped
        · cases stepped
        · cases stepped
          rfl
        · split at stepped
          · cases stepped
          · cases stepped
            rfl
      · cases stepped
  | _ =>
      simp only [Installation.step] at stepped
      split at stepped
      · cases stepped
      · cases stepped
        rfl

theorem mbuf_packetsFrom {received : Nat} {mbufs : List RteMbuf} {packet : Forward.Packet}
    (present : packet ∈ packetsFrom received mbufs) : packet.mbuf ∈ mbufs := by
  obtain ⟨numbered, among, rfl⟩ := List.mem_map.mp present
  exact List.fst_mem_of_mem_zipIdx among

theorem Populated.received (populated : Populated service sources machine) {lcore : Lcore} {i : Nat}
    (polls : machine.system.worker lcore = .polling i) {mbufs : List RteMbuf}
    (brings : ∀ mbuf ∈ mbufs, Expected sources mbuf) :
    Populated service sources (machine.received lcore i mbufs) where
  housed := populated.housed
  counts := populated.counts
  expected other packet present := by
    have among : packet ∈ ((rxBurst machine.system lcore i mbufs).worker other).pending := present
    rw [pending_rxBurst polls, List.mem_append] at among
    rcases among with old | new
    · exact populated.expected other packet old
    · split_ifs at new
      · exact brings _ (mbuf_packetsFrom new)
      · exact absurd new List.not_mem_nil

theorem Populated.step (populated : Populated service sources machine)
    (bears : Bears service sources) (sound : Sound path entry machine)
    (brings : event.Brings sources) (stepped : service.step machine event = some after) :
    Populated service sources after := by
  by_cases receives : ∃ lcore mbufs, event = .rxBurst lcore mbufs
  · obtain ⟨lcore, mbufs, rfl⟩ := receives
    obtain ⟨i, polls, rfl⟩ := step_rxBurst stepped
    exact populated.received polls brings
  · have moves := moves_of_step sound.ready stepped
    have log := receivers_of_step (fun lcore mbufs same => receives ⟨lcore, mbufs, same⟩) stepped
    obtain ⟨lcore, i, mbufs, polls, rfl⟩ | ⟨-, -, less⟩ := moves.pending sound.owned.inHand
    · -- without an entry in the log the burst was empty
      have empty : List.replicate mbufs.length lcore = [] := List.append_right_eq_self.mp log
      obtain rfl := List.length_eq_zero_iff.mp ((List.replicate_eq_nil_iff _).mp empty)
      exact populated.received polls fun mbuf among => absurd among List.not_mem_nil
    · have detector : (∃ chain, Housed service.flowDdosConfig sources after.detector chain) ∧
          Counts service.flowDdosConfig.scanNumber.toNat after.detector := by
        obtain same | ⟨lcore, handling, packet, verdict, present, detects⟩ := moves.detector
        · rw [same]
          exact ⟨populated.housed, populated.counts⟩
        · exact populated.detected bears (populated.expected lcore packet present) detects
      exact ⟨detector.1, detector.2, fun lcore packet present =>
        populated.expected lcore packet (less lcore present)⟩

end Steps

/-! ## The turns of a worker -/

def Machine.turn (machine : Machine) (lcore : Lcore) (handling : Handling) (accepted : Bool) :
    Event :=
  match machine.errand lcore with
  | none => .test lcore handling
  | some _ => .perform lcore accepted

/-- A worker takes its next turn, whatever it is told. -/
def Installation.TakesTurn (service : Installation) (lcore : Lcore) (handling : Machine → Handling)
    (accepted : Machine → Bool) (before : Machine) (event : Event) (after : Machine) : Prop :=
  event = before.turn lcore (handling before) (accepted before) ∧
    service.step before event = some after

def InBurst (i : Nat) (lcore : Lcore) (machine : Machine) : Prop :=
  machine.system.worker lcore = .polling (i + 1) ∨
    ∃ burst, machine.system.worker lcore = .forwarding burst ∧ burst.i = i

section Turns

variable {service : Installation} {path : Nat → List UInt8} {entry : List UInt8 → Option AcPattern}
  {machine : Machine} {sources : Finset Source} {lcore : Lcore} {burst : Burst}

theorem setWorker_self (system : System Lcore) (lcore : Lcore) (worker : Worker) :
    (system.setWorker lcore worker).worker lcore = worker :=
  Function.update_self ..

/-- A turn in a burst concerns no other thread; it brings the worker nearer to the end of the
burst and puts no more packets into the ring than it takes from the worker. -/
structure Turned (lcore : Lcore) (burst : Burst) (machine after : Machine) (worker : Worker)
    (shared : Shared) : Prop where
  system : after.system = { machine.system with shared := shared }.setWorker lcore worker
  within : worker = .polling (burst.i + 1) ∨
    ∃ next, worker = .forwarding next ∧ next.i = burst.i
  less : worker.work < burst.work
  packets : worker.pending.length + shared.ring.length ≤
    (Worker.forwarding burst).pending.length + machine.system.shared.ring.length

theorem Turned.here {after : Machine} {worker : Worker} {shared : Shared}
    (turned : Turned lcore burst machine after worker shared) :
    after.system.worker lcore = worker := by
  rw [turned.system]
  exact setWorker_self _ lcore worker

theorem work_between (between : burst.errand = none) :
    burst.work = 3 * (Worker.forwarding burst).pending.length + burst.loop.tests := by
  unfold Burst.work
  rw [between]
  rfl

theorem leave_turn (between : burst.errand = none) :
    (burst.leave = .polling (burst.i + 1) ∨
        ∃ next, burst.leave = .forwarding next ∧ next.i = burst.i) ∧
      burst.leave.work < burst.work := by
  rw [work_between between]
  unfold Burst.leave
  cases looping : burst.loop with
  | prefetched =>
      refine ⟨.inr ⟨_, rfl, rfl⟩, ?_⟩
      show 3 * (Worker.forwarding burst).pending.length + 1 - spent burst.errand <
        3 * (Worker.forwarding burst).pending.length + 2
      omega
  | remaining =>
      refine ⟨.inl rfl, ?_⟩
      show 0 < 3 * (Worker.forwarding burst).pending.length + 1
      omega

theorem test_turn (sound : Sound path entry machine) (bears : Bears service sources)
    (populated : Populated service sources machine)
    (current : machine.system.worker lcore = .forwarding burst) (between : burst.errand = none)
    {handling : Handling} (enough : 11 ≤ handling.fuel) :
    ∃ after worker shared, service.test machine lcore handling = some after ∧
      Turned lcore burst machine after worker shared := by
  obtain ⟨next, leaves⟩ | ⟨packet, next, ⟨fault, detects, -⟩ |
      ⟨detector, verdict, handler, -, -, tests⟩⟩ :=
    test_cases service sound.ready current between handling
  · obtain ⟨within, less⟩ := leave_turn between
    refine ⟨_, burst.leave, machine.system.shared, leaves, rfl, within, less, ?_⟩
    rw [(leave_spec burst next between).1]
  · obtain ⟨detector, verdict, returned⟩ := populated.detects bears
      (populated.expected lcore packet (current ▸ next_pending next)) lcore enough
    rw [returned] at detects
    cases detects
  · refine ⟨_, .forwarding { burst with
      errand := some (errandTo lcore packet (destination entry packet.mbuf)) },
      machine.system.shared, tests, rfl, .inr ⟨_, rfl, rfl⟩, ?_, Nat.le_refl _⟩
    have positive : 0 < (Worker.forwarding burst).pending.length :=
      List.length_pos_of_mem (next_pending next)
    have call : spent (some (errandTo lcore packet (destination entry packet.mbuf))) = 1 := by
      cases destination entry packet.mbuf <;> rfl
    rw [work_between between]
    show 3 * (Worker.forwarding burst).pending.length + burst.loop.tests -
      spent (some (errandTo lcore packet (destination entry packet.mbuf))) < _
    rw [call]
    omega

theorem spent_of_refused {shared : Shared} {accepted : Bool} {errand : Errand}
    (refused : errand.perform shared accepted = (shared, some (.free errand.packet))) :
    spent (some errand) = 1 := by
  cases errand with
  | free packet => cases congrArg Prod.snd refused
  | _ => rfl

theorem ring_length_put (shared : Shared) (errand : Errand) :
    (shared.put errand).ring.length ≤ shared.ring.length + 1 := by
  cases errand with
  | push packet =>
      show (shared.ring ++ [packet]).length ≤ _
      rw [List.length_append, List.length_singleton]
  | _ => exact Nat.le_succ _

/-- A call is refused once at most, and then frees the packet. -/
theorem perform_turn (sound : Sound path entry machine)
    (current : machine.system.worker lcore = .forwarding burst) {errand : Errand}
    (calls : burst.errand = some errand) (accepted : Bool) :
    ∃ after worker shared, service.step machine (.perform lcore accepted) = some after ∧
      Turned lcore burst machine after worker shared := by
  have inHand : (Worker.forwarding burst).InHand := current ▸ sound.owned.inHand lcore
  have onePending := congrArg List.length (inHand.pending_eq calls)
  rw [List.length_cons] at onePending
  have stepped : service.step machine (.perform lcore accepted) = some { machine with
      system := { machine.system with
        shared := (errand.perform machine.system.shared accepted).1 }.setWorker lcore
          (.forwarding (burst.resume (errand.perform machine.system.shared accepted).2))
      transmissions := machine.transmissions ++ taken (some errand) accepted } := by
    simp only [Installation.step, Forward.step, Machine.errand, current, calls]
  have whole : burst.work = 3 * (Worker.forwarding burst).pending.length + burst.loop.tests -
      spent (some errand) := calls ▸ rfl
  refine ⟨_, .forwarding (burst.resume (errand.perform machine.system.shared accepted).2),
    (errand.perform machine.system.shared accepted).1, stepped, ?_⟩
  obtain refused | takes := perform_cases machine.system.shared accepted errand
  · -- the packet stays the worker's until the next call frees it
    have first := spent_of_refused refused
    rw [refused]
    refine ⟨rfl, .inr ⟨_, rfl, rfl⟩, ?_, Nat.le_refl _⟩
    show 3 * (Worker.forwarding burst).pending.length + burst.loop.tests - 2 < _
    omega
  · have few := spent_le (some errand)
    have more := ring_length_put machine.system.shared errand
    rw [takes]
    refine ⟨rfl, .inr ⟨_, rfl, rfl⟩, ?_, ?_⟩
    · show 3 * (Worker.forwarding (burst.resume none)).pending.length + burst.loop.tests - 0 < _
      omega
    · dsimp only
      omega

theorem turn_of_forwarding (sound : Sound path entry machine) (bears : Bears service sources)
    (populated : Populated service sources machine)
    (current : machine.system.worker lcore = .forwarding burst) {handling : Handling}
    (enough : 11 ≤ handling.fuel) (accepted : Bool) :
    ∃ after worker shared,
      service.step machine (machine.turn lcore handling accepted) = some after ∧
        Turned lcore burst machine after worker shared := by
  unfold Machine.turn Machine.errand
  rw [current]
  dsimp only
  cases calls : burst.errand with
  | none => exact test_turn sound bears populated current calls enough
  | some errand => exact perform_turn sound current calls accepted

theorem turn_brings (machine : Machine) (lcore : Lcore) (handling : Handling) (accepted : Bool) :
    (machine.turn lcore handling accepted).Brings sources := by
  unfold Machine.turn
  split <;> trivial

structure Turning (service : Installation) (path : Nat → List UInt8)
    (entry : List UInt8 → Option AcPattern) (sources : Finset Source) (i : Nat) (lcore : Lcore)
    (machine : Machine) : Prop where
  sound : Sound path entry machine
  populated : Populated service sources machine
  within : InBurst i lcore machine

/-- A worker in its burst has a turn, and every turn brings it nearer to the end. -/
theorem Turning.turn {i : Nat} (turning : Turning service path entry sources i lcore machine)
    (bears : Bears service sources)
    (busy : machine.system.worker lcore ≠ .polling (i + 1)) {handling : Handling}
    (enough : 11 ≤ handling.fuel) (accepted : Bool) :
    ∃ after, service.step machine (machine.turn lcore handling accepted) = some after ∧
      Turning service path entry sources i lcore after ∧
        (after.system.worker lcore).work < (machine.system.worker lcore).work := by
  obtain polls | ⟨burst, current, rfl⟩ := turning.within
  · exact absurd polls busy
  · obtain ⟨after, worker, shared, stepped, turned⟩ :=
      turn_of_forwarding turning.sound bears turning.populated current enough accepted
    refine ⟨after, stepped, ⟨turning.sound.step stepped,
      turning.populated.step bears turning.sound (turn_brings _ _ _ _) stepped, ?_⟩, ?_⟩
    · unfold InBurst
      rw [turned.here]
      exact turned.within
    · rw [turned.here, current]
      exact turned.less

theorem Reached.populated (reached : Reached service) (sound : Sound path entry service.start)
    (bears : Bears service sources)
    (brings : ∀ lcore mbufs, .rxBurst lcore mbufs ∈ reached.events →
      ∀ mbuf ∈ mbufs, Expected sources mbuf) :
    Sound path entry reached.machine ∧ Populated service sources reached.machine := by
  apply Run.invariant_while
    (fun machine => Sound path entry machine ∧ Populated service sources machine)
    (fun _ event => event.Brings sources) _ reached.run ⟨sound, populated_start service sources⟩
  · intro before event _ among _
    have present : event ∈ reached.events :=
      among.subset (List.mem_append_right _ (List.mem_singleton.mpr rfl))
    cases event with
    | rxBurst lcore mbufs => exact brings lcore mbufs present
    | _ => trivial
  · rintro machine event after ⟨sound, populated⟩ allowed stepped
    exact ⟨sound.step stepped, populated.step bears sound allowed stepped⟩

end Turns

/-- Where the detector has room for the sources of the packets, a worker is never held up in
its burst: whatever the clock and the pool say and whether its calls are taken or refused, it
polls its next device after no more than three turns for each packet and two tests. -/
theorem burst_finishes (service : Installation) (sources : Finset Source)
    (bears : Bears service sources) (reached : Reached service)
    (brings : ∀ lcore mbufs, .rxBurst lcore mbufs ∈ reached.events →
      ∀ mbuf ∈ mbufs, Expected sources mbuf)
    (lcore : Lcore) (burst : Burst)
    (current : reached.machine.system.worker lcore = .forwarding burst)
    (handling : Machine → Handling) (enough : ∀ machine, 11 ≤ (handling machine).fuel)
    (accepted : Machine → Bool) :
    ∃ turns finish,
      Run (service.TakesTurn lcore handling accepted) reached.machine turns finish ∧
      finish.system.worker lcore = .polling (burst.i + 1) ∧
      turns.length ≤ 3 * (Worker.forwarding burst).pending.length + 2 := by
  obtain ⟨path, entry, initially, -⟩ := service.exists_sound
  obtain ⟨sound, populated⟩ := reached.populated initially bears brings
  have progress : ∀ machine, Turning service path entry sources burst.i lcore machine →
      ¬ machine.system.worker lcore = .polling (burst.i + 1) →
        ∃ event after, service.TakesTurn lcore handling accepted machine event after ∧
          Turning service path entry sources burst.i lcore after ∧
          (after.system.worker lcore).work < (machine.system.worker lcore).work := by
    intro machine turning busy
    obtain ⟨after, stepped, turningAfter, less⟩ :=
      turning.turn bears busy (enough machine) (accepted machine)
    exact ⟨_, after, ⟨rfl, stepped⟩, turningAfter, less⟩
  obtain ⟨turns, finish, run, polls, short⟩ := Run.exists_of_decreasing _ _ _ progress
    reached.machine ⟨sound, populated, .inr ⟨burst, current, rfl⟩⟩
  refine ⟨turns, finish, run, polls, short.trans ?_⟩
  rw [current]
  show 3 * (Worker.forwarding burst).pending.length + burst.loop.tests - spent burst.errand ≤ _
  have few : burst.loop.tests ≤ 2 := by
    cases burst.loop <;> decide
  omega

/-! ## One packet -/

theorem build_frame {loaded built : FlowConfigState}
    (builds : flowConfigModuleBuild loaded = .ok built) :
    ∃ actrie, built = { loaded with actrie := actrie } := by
  unfold flowConfigModuleBuild at builds
  dsimp only at builds
  cases finalized : (List.finRange Config.flowLcoreMaxSlot).foldlM finalizeSlot
      ((buildOrder loaded).foldl (buildKey loaded) (0, loaded.actrie)).2 with
  | error fault =>
      rw [finalized] at builds
      cases builds
  | ok actrie =>
      rw [finalized] at builds
      exact ⟨actrie, (Except.ok.inj builds).symm⟩

def twoDevices : XmlNode :=
  .mk "UAFlow" []
    [.mk "Capmode" []
      [.mk "Item" [("name", [48]), ("type", [114, 120]), ("ID", [49])] [],
        .mk "Item" [("name", [49]), ("type", [116, 120]), ("ID", [50])] []]]

theorem exists_service : ∃ service : Installation, service.flowDdosConfig.scanNumber = 0 := by
  have accepted := @load_placed (fun _ => 3) twoDevices
    (fun type => by cases type <;> decide) (fun bare => by revert bare; decide)
  obtain ⟨built, path, entry, builds, -⟩ := build_ready accepted
  obtain ⟨actrie, rfl⟩ := build_frame builds
  refine ⟨⟨⟨_, _, _, _, accepted, builds⟩, ?_, ⟨true, 3, 2⟩, ?_, fun _ _ => 0, fun _ _ => 0, 0,
    blankMemory, 1⟩, ?_⟩
  · show (ofType (items twoDevices) .rx).map (ItemDecl.bound fun _ => 3) ≠ []
    decide
  · rfl
  · rfl

theorem expected_oneByteIpv4 :
    Expected {.v4 (oneByteIpv4.ipv4SrcAddr sizeofEtherHdr)} oneByteIpv4 := by
  intro config fuel state around call asked
  have asks : (flowForwardModuleInsideForward config fuel state around oneByteIpv4).asked =
      some (ask oneByteIpv4 (.v4 (oneByteIpv4.ipv4SrcAddr sizeofEtherHdr)) 54 around) := rfl
  obtain rfl := Option.some.inj (asks.symm.trans asked)
  exact Finset.mem_singleton.mpr rfl

theorem exists_one_packet :
    ∃ (service : Installation) (sources : Finset Source) (reached : Reached service),
      Bears service sources ∧
      (∀ lcore mbufs, .rxBurst lcore mbufs ∈ reached.events →
        ∀ mbuf ∈ mbufs, Expected sources mbuf) ∧
      reached.machine.system.worker 1 =
        .forwarding ⟨0, [⟨0, oneByteIpv4⟩], 0, .prefetched, none⟩ ∧
      reached.machine.system.received = 1 := by
  obtain ⟨service, scanNumber⟩ := exists_service
  let polls : Machine :=
    { service.start with system := service.start.system.setWorker 1 (.polling 0) }
  let receives : Machine := polls.received 1 0 [oneByteIpv4]
  have device : 0 < service.setup.rxsize := List.length_pos_of_ne_nil service.receives
  have stepped : service.step polls (.rxBurst 1 [oneByteIpv4]) = some receives := by
    have polling : polls.system.worker 1 = .polling 0 := rfl
    simp only [Installation.step, Forward.step, polling]
    rw [if_pos ⟨device, by decide⟩]
    rfl
  let reached : Reached service :=
    ⟨[.forward 1, .rxBurst 1 [oneByteIpv4]], receives, polls, rfl, receives, stepped, rfl⟩
  have bears : Bears service {.v4 (oneByteIpv4.ipv4SrcAddr sizeofEtherHdr)} :=
    ⟨fun bucket => (Finset.card_filter_le _ _).trans (by decide), by rw [scanNumber]; decide⟩
  refine ⟨service, _, reached, bears, ?_, rfl, rfl⟩
  intro lcore mbufs among mbuf inside
  rcases List.mem_cons.mp among with first | second
  · cases first
  · cases List.mem_singleton.mp second
    obtain rfl := List.mem_singleton.mp inside
    exact expected_oneByteIpv4

theorem burst_finishes_one_packet :
    ∃ (service : Installation) (sources : Finset Source) (reached : Reached service) (burst : Burst),
      Bears service sources ∧ reached.machine.system.worker 1 = .forwarding burst ∧
        burst.pktsBurst = [⟨0, oneByteIpv4⟩] ∧
        ∀ (handling : Machine → Handling) (_ : ∀ machine, 11 ≤ (handling machine).fuel)
          (accepted : Machine → Bool), ∃ turns finish,
            Run (service.TakesTurn 1 handling accepted) reached.machine turns finish ∧
              finish.system.worker 1 = .polling 1 ∧ turns.length ≤ 5 := by
  obtain ⟨service, sources, reached, bears, brings, current, -⟩ := exists_one_packet
  refine ⟨service, sources, reached, _, bears, current, rfl, ?_⟩
  intro handling enough accepted
  exact burst_finishes service sources bears reached brings 1 _ current handling enough accepted

end UAFlow.Service
