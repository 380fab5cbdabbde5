import UAFlow.Forward.Ownership
import UAFlow.Service.Handling

/-!
# What a step of the service can do

As long as the tries are ready every step is one of a few moves, and the threads could
have made it too.
-/

namespace UAFlow.Service

open Library AhoCorasick Ddos Forward UserAgent Config

variable {service : Installation} {machine after : Machine} {event : Event}
  {path : Nat → List UInt8} {entry : List UInt8 → Option AcPattern}

def Machine.setErrand (machine : Machine) (lcore : Lcore) (burst : Burst) (errand : Errand) :
    Machine :=
  { machine with
    system := machine.system.setWorker lcore (.forwarding { burst with errand := some errand }) }

def given : Errand → List Transmission
  | .send packet portid queueid => [⟨packet, portid, queueid⟩]
  | _ => []

theorem perform_taken (shared : Shared) (accepted : Bool) (errand : Errand) :
    errand.perform shared accepted = (shared, some (.free errand.packet)) ∧
        taken (some errand) accepted = [] ∨
      errand.perform shared accepted = (shared.put errand, none) ∧
        taken (some errand) accepted = given errand := by
  cases errand with
  | push packet =>
      cases accepted with
      | true => exact .inr ⟨rfl, rfl⟩
      | false => exact .inl ⟨rfl, rfl⟩
  | send packet portid queueid =>
      cases accepted with
      | true => exact .inr ⟨rfl, rfl⟩
      | false => exact .inl ⟨rfl, rfl⟩
  | free packet => cases accepted <;> exact .inr ⟨rfl, rfl⟩

def Machine.handed (machine : Machine) (lcore : Lcore) (burst : Burst) (errand : Errand) :
    Machine :=
  { machine with
    system := { machine.system with shared := machine.system.shared.put errand }.setWorker lcore
      (.forwarding (burst.resume none))
    transmissions := machine.transmissions ++ given errand }

def Machine.setDefsend (machine : Machine) (errand : Errand) : Machine :=
  { machine with system := { machine.system with defsend := some errand } }

def Machine.defsent (machine : Machine) (errand : Errand) : Machine :=
  { machine with
    system := { machine.system with
      shared := machine.system.shared.put errand
      defsend := none }
    transmissions := machine.transmissions ++ given errand }

def Machine.popped (machine : Machine) (service : Installation) (packet : Forward.Packet)
    (ring : List Forward.Packet) : Machine :=
  { machine with
    system := { machine.system with
      shared := { machine.system.shared with ring := ring }
      defsend := some (.send packet service.ptxidx.idx.toNat
        (defsendQueueid service.setup.mask packet.mbuf)) } }

def Machine.received (machine : Machine) (lcore : Lcore) (i : Nat) (mbufs : List RteMbuf) :
    Machine :=
  { machine with
    system := rxBurst machine.system lcore i mbufs
    receivers := machine.receivers ++ List.replicate mbufs.length lcore }

/-- The moves: a worker goes on with its loops, receives packets, or learns where its
next packet goes; its call for the packet is refused or takes the packet; and the default
sender takes a packet from the ring, finds none, or has its call refused or not. -/
inductive Moves (service : Installation) (path : Nat → List UInt8)
    (entry : List UInt8 → Option AcPattern) (machine : Machine) : Machine → Prop where
  | walks (lcore : Lcore) (worker : Worker)
      (same : worker.pending = (machine.system.worker lcore).pending)
      (between : ∀ burst, worker = .forwarding burst → burst.errand = none) :
      Moves service path entry machine
        { machine with system := machine.system.setWorker lcore worker }
  | receives (lcore : Lcore) (i : Nat) (mbufs : List RteMbuf)
      (polls : machine.system.worker lcore = .polling i) :
      Moves service path entry machine (machine.received lcore i mbufs)
  | decides (lcore : Lcore) (handling : Handling) (burst : Burst) (packet : Forward.Packet)
      (detector : FlowDdosState) (verdict : Option Int) (handler : HandlerState)
      (current : machine.system.worker lcore = .forwarding burst)
      (next : burst.next = some packet)
      (detects : service.detection machine lcore handling packet = .ok (detector, verdict))
      (kept : Ready path entry handler.config) :
      Moves service path entry machine
        ({ machine with detector := detector, handler := handler }.setErrand lcore burst
          (errandTo lcore packet (destination entry packet.mbuf)))
  | refuses (lcore : Lcore) (burst : Burst) (errand : Errand)
      (current : machine.system.worker lcore = .forwarding burst)
      (calls : burst.errand = some errand) :
      Moves service path entry machine (machine.setErrand lcore burst (.free errand.packet))
  | hands (lcore : Lcore) (burst : Burst) (errand : Errand)
      (current : machine.system.worker lcore = .forwarding burst)
      (calls : burst.errand = some errand) :
      Moves service path entry machine (machine.handed lcore burst errand)
  | pops (packet : Forward.Packet) (ring : List Forward.Packet)
      (between : machine.system.defsend = none)
      (first : machine.system.shared.ring = packet :: ring) :
      Moves service path entry machine (machine.popped service packet ring)
  | idles : Moves service path entry machine machine
  | defsendRefuses (errand : Errand) (calls : machine.system.defsend = some errand) :
      Moves service path entry machine (machine.setDefsend (.free errand.packet))
  | defsendHands (errand : Errand) (calls : machine.system.defsend = some errand) :
      Moves service path entry machine (machine.defsent errand)

theorem leave_spec (burst : Burst) (next : burst.next = none) (between : burst.errand = none) :
    burst.leave.pending = (Worker.forwarding burst).pending ∧
      ∀ other, burst.leave = .forwarding other → other.errand = none := by
  unfold Burst.leave
  cases looping : burst.loop with
  | prefetched =>
      refine ⟨rfl, ?_⟩
      rintro _ ⟨rfl⟩
      exact between
  | remaining =>
      refine ⟨?_, (fun _ same => by cases same)⟩
      unfold Burst.next at next
      rw [looping] at next
      exact (List.drop_eq_nil_of_le (List.getElem?_eq_none_iff.mp next)).symm

/-- A worker between two packets comes behind its loop, or handles the next packet of it:
what keeps it from going on is the detector. -/
theorem test_cases (service : Installation) (ready : Ready path entry machine.handler.config)
    {lcore : Lcore} {burst : Burst} (current : machine.system.worker lcore = .forwarding burst)
    (between : burst.errand = none) (handling : Handling) :
    burst.next = none ∧ service.test machine lcore handling =
        some { machine with system := machine.system.setWorker lcore burst.leave } ∨
      ∃ packet, burst.next = some packet ∧
        ((∃ fault, service.detection machine lcore handling packet = .error fault ∧
            service.test machine lcore handling = none) ∨
          ∃ detector verdict handler,
            service.detection machine lcore handling packet = .ok (detector, verdict) ∧
            Ready path entry handler.config ∧
            service.test machine lcore handling =
              some ({ machine with detector := detector, handler := handler }.setErrand lcore burst
                (errandTo lcore packet (destination entry packet.mbuf)))) := by
  unfold Installation.test
  rw [current]
  dsimp only
  rw [between]
  cases burst.next with
  | none => exact .inl ⟨rfl, rfl⟩
  | some packet =>
      refine .inr ⟨packet, rfl, ?_⟩
      dsimp only
      obtain ⟨fault, detects, fails⟩ | ⟨detector, verdict, handler, detects, kept, handles⟩ :=
        insideForward_eq service ready lcore handling packet
      · rw [fails]
        exact .inl ⟨fault, detects, rfl⟩
      · rw [handles]
        exact .inr ⟨detector, verdict, handler, detects, kept, rfl⟩

theorem test_between {lcore : Lcore} {handling : Handling}
    (stepped : service.test machine lcore handling = some after) :
    ∃ burst, machine.system.worker lcore = .forwarding burst ∧ burst.errand = none := by
  unfold Installation.test at stepped
  cases current : machine.system.worker lcore with
  | forwarding burst =>
      refine ⟨burst, rfl, ?_⟩
      cases calls : burst.errand with
      | none => rfl
      | some errand => simp [current, calls] at stepped
  | _ => simp [current] at stepped

theorem moves_test (ready : Ready path entry machine.handler.config) {lcore : Lcore}
    {handling : Handling} (stepped : service.test machine lcore handling = some after) :
    Moves service path entry machine after := by
  obtain ⟨burst, current, between⟩ := test_between stepped
  obtain ⟨next, leaves⟩ | ⟨packet, next, ⟨fault, -, fails⟩ | decided⟩ :=
    test_cases service ready current between handling
  · rw [leaves] at stepped
    cases stepped
    obtain ⟨same, later⟩ := leave_spec burst next between
    exact .walks lcore _ (by rw [current]; exact same) later
  · rw [fails] at stepped
    cases stepped
  · obtain ⟨detector, verdict, handler, detects, kept, decides⟩ := decided
    rw [decides] at stepped
    cases stepped
    exact .decides lcore handling burst packet detector verdict handler current next detects kept

theorem step_rxBurst {lcore : Lcore} {mbufs : List RteMbuf}
    (stepped : service.step machine (.rxBurst lcore mbufs) = some after) :
    ∃ i, machine.system.worker lcore = .polling i ∧ after = machine.received lcore i mbufs := by
  simp only [Installation.step, Forward.step] at stepped
  cases current : machine.system.worker lcore with
  | polling i =>
      rw [current] at stepped
      dsimp only at stepped
      split_ifs at stepped
      · cases stepped
        exact ⟨i, rfl, rfl⟩
  | _ => simp [current] at stepped

/-- The step lemma of the service. -/
theorem moves_of_step (ready : Ready path entry machine.handler.config)
    (stepped : service.step machine event = some after) :
    Moves service path entry machine after := by
  cases event with
  | test lcore handling => exact moves_test ready stepped
  | forward lcore =>
      simp only [Installation.step, Forward.step] at stepped
      cases current : machine.system.worker lcore with
      | returned =>
          rw [current] at stepped
          cases stepped
          exact .walks lcore _ (by rw [current]; rfl) fun _ same => by cases same
      | _ => simp [current] at stepped
  | rxBurst lcore mbufs =>
      obtain ⟨i, polls, rfl⟩ := step_rxBurst stepped
      exact .receives lcore i mbufs polls
  | finish lcore =>
      simp only [Installation.step, Forward.step] at stepped
      cases current : machine.system.worker lcore with
      | polling i =>
          rw [current] at stepped
          dsimp only at stepped
          split_ifs at stepped
          · cases stepped
            exact .walks lcore _ (by rw [current]; rfl) fun _ same => by cases same
      | _ => simp [current] at stepped
  | perform lcore accepted =>
      simp only [Installation.step, Forward.step, Machine.errand] at stepped
      cases current : machine.system.worker lcore with
      | forwarding burst =>
          rw [current] at stepped
          dsimp only at stepped
          cases calls : burst.errand with
          | none => simp [calls] at stepped
          | some errand =>
              rw [calls] at stepped
              dsimp only at stepped
              obtain ⟨refused, nothing⟩ | ⟨takes, same⟩ :=
                perform_taken machine.system.shared accepted errand
              · rw [refused, nothing, List.append_nil] at stepped
                cases stepped
                exact .refuses lcore burst errand current calls
              · rw [takes, same] at stepped
                cases stepped
                exact .hands lcore burst errand current calls
      | _ => simp [current] at stepped
  | pop =>
      simp only [Installation.step, Forward.step] at stepped
      cases between : machine.system.defsend with
      | some errand => simp [between] at stepped
      | none =>
          cases first : machine.system.shared.ring with
          | nil =>
              rw [between, first] at stepped
              cases stepped
              exact .idles
          | cons packet ring =>
              rw [between, first] at stepped
              cases stepped
              exact .pops packet ring between first
  | defsendPerform accepted =>
      simp only [Installation.step, Forward.step] at stepped
      cases calls : machine.system.defsend with
      | none => simp [calls] at stepped
      | some errand =>
          rw [calls] at stepped
          dsimp only at stepped
          obtain ⟨refused, nothing⟩ | ⟨takes, same⟩ :=
            perform_taken machine.system.shared accepted errand
          · rw [refused, nothing, List.append_nil] at stepped
            cases stepped
            exact .defsendRefuses errand calls
          · rw [takes, same] at stepped
            cases stepped
            exact .defsendHands errand calls

/-! ## The threads -/

theorem threads_test (ready : Ready path entry machine.handler.config) {lcore : Lcore}
    {handling : Handling} (stepped : service.test machine lcore handling = some after) :
    ∃ circumstances,
      Forward.step service.setup machine.system (.test lcore circumstances) = some after.system := by
  obtain ⟨burst, current, between⟩ := test_between stepped
  have threads : ∀ circumstances,
      Forward.step service.setup machine.system (.test lcore circumstances) =
        some (machine.system.setWorker lcore (burst.test lcore circumstances)) := by
    intro circumstances
    simp only [Forward.step, current, between]
    rfl
  obtain ⟨next, leaves⟩ | ⟨packet, next, ⟨fault, -, fails⟩ | decided⟩ :=
    test_cases service ready current between handling
  · rw [leaves] at stepped
    cases stepped
    refine ⟨⟨service.flowDdosConfig, 0, machine.detector, ⟨lcore, Clock.still 0, false⟩, [],
      fun _ => 0⟩, ?_⟩
    rw [threads, test_eq_next, next]
  · rw [fails] at stepped
    cases stepped
  · obtain ⟨detector, verdict, handler, -, -, decides⟩ := decided
    rw [decides] at stepped
    cases stepped
    refine ⟨service.circumstances entry machine lcore handling packet, ?_⟩
    rw [threads, test_eq_next, next]
    dsimp only
    rw [insideForward_circumstances]
    rfl

theorem threads_of_step (ready : Ready path entry machine.handler.config)
    (stepped : service.step machine event = some after) :
    ∃ threads, Forward.step service.setup machine.system threads = some after.system := by
  cases event with
  | test lcore handling =>
      obtain ⟨circumstances, threads⟩ := threads_test ready stepped
      exact ⟨_, threads⟩
  | _ =>
      simp only [Installation.step] at stepped
      split at stepped
      next => cases stepped
      next system threads =>
        cases stepped
        exact ⟨_, threads⟩

end UAFlow.Service
