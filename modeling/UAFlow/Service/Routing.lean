import UAFlow.Service.Steps

/-!
# Every packet goes where its bytes send it

One function from the bytes of a packet to its destination serves in every run of the
service: whichever lcore a packet comes to and whatever was handled before or at the same
time, a device that takes it is the one of its destination.
-/

namespace UAFlow.Service

open Library AhoCorasick Ddos Forward UserAgent Config

variable {service : Installation} {machine after : Machine} {event : Event}
  {path : Nat → List UInt8} {entry : List UInt8 → Option AcPattern}

/-! ## What a step starts from -/

structure Sound (path : Nat → List UInt8) (entry : List UInt8 → Option AcPattern)
    (machine : Machine) : Prop where
  ready : Ready path entry machine.handler.config
  owned : Owned machine.system

theorem Moves.ready (ready : Ready path entry machine.handler.config)
    (moves : Moves service path entry machine after) : Ready path entry after.handler.config := by
  cases moves with
  | decides lcore handling burst packet detector verdict handler current next detects kept =>
      exact kept
  | _ => exact ready

theorem Sound.step (sound : Sound path entry machine)
    (stepped : service.step machine event = some after) : Sound path entry after := by
  obtain ⟨threads, stepped'⟩ := threads_of_step sound.ready stepped
  exact ⟨(moves_of_step sound.ready stepped).ready sound.ready,
    owned_step _ _ _ sound.owned stepped'⟩

theorem Installation.exists_sound (service : Installation) :
    ∃ path entry, Sound path entry service.start ∧
      ∀ str, Reported service.configured.attach service.configured.root str
        (reportedDevice (reports entry [] str 0)) := by
  obtain ⟨built, path, entry, builds, ready, answers⟩ := build_answers service.configured.accepted
  obtain rfl : built = service.configured.built :=
    Except.ok.inj (builds.symm.trans service.configured.builds)
  exact ⟨path, entry, ⟨ready, owned_start Lcore⟩, answers⟩

/-- The service is one way for the threads to run. -/
theorem Reached.threads (reached : Reached service) :
    ∃ threads : Forward.Reached service.setup, threads.system = reached.machine.system := by
  obtain ⟨path, entry, initially, -⟩ := service.exists_sound
  obtain ⟨events, run⟩ := Run.simulates
    (fun before event after => Forward.step service.setup before event = some after)
    Machine.system (Sound path entry)
    (fun _ _ _ sound stepped => ⟨sound.step stepped, threads_of_step sound.ready stepped⟩)
    reached.run initially
  exact ⟨⟨events, reached.machine.system, run⟩, rfl⟩

/-! ## Where packets were received -/

/-- The log of the receivers is complete, and a worker has its own packets. -/
structure Logged (machine : Machine) : Prop where
  count : machine.receivers.length = machine.system.received
  pending : ∀ lcore, ∀ packet ∈ (machine.system.worker lcore).pending,
    machine.receivers[packet.serial]? = some lcore

theorem logged_start (service : Installation) : Logged service.start where
  count := rfl
  pending _ _ present := absurd present List.not_mem_nil

theorem Logged.of_pending (logged : Logged machine)
    (count : after.system.received = machine.system.received)
    (receivers : after.receivers = machine.receivers)
    (less : ∀ lcore, (after.system.worker lcore).pending ⊆ (machine.system.worker lcore).pending) :
    Logged after where
  count := by rw [receivers, count, logged.count]
  pending lcore packet present := by
    rw [receivers]
    exact logged.pending lcore packet (less lcore present)

theorem pending_setWorker {system : System Lcore} {lcore : Lcore} {worker : Worker}
    (less : worker.pending ⊆ (system.worker lcore).pending) (other : Lcore) :
    ((system.setWorker lcore worker).worker other).pending ⊆ (system.worker other).pending := by
  by_cases here : other = lcore
  · subst here
    simpa [System.setWorker] using less
  · simp [System.setWorker, here]

theorem pending_rxBurst {system : System Lcore} {lcore : Lcore} {i : Nat}
    (polls : system.worker lcore = .polling i) (mbufs : List RteMbuf) (other : Lcore) :
    ((rxBurst system lcore i mbufs).worker other).pending =
      (system.worker other).pending ++
        if other = lcore then packetsFrom system.received mbufs else [] := by
  by_cases here : other = lcore
  · subst here
    rw [if_pos rfl, polls]
    cases mbufs with
    | nil => simp [rxBurst, System.setWorker, Worker.pending, packetsFrom]
    | cons mbuf mbufs => simp [rxBurst, System.setWorker, Worker.pending]
  · rw [if_neg here, List.append_nil]
    unfold rxBurst
    split <;> simp [System.setWorker, here]

theorem rxBurst_setWorker (system : System Lcore) (lcore : Lcore) (i : Nat)
    (mbufs : List RteMbuf) :
    ∃ worker, rxBurst system lcore i mbufs =
        { system with received := system.received + mbufs.length }.setWorker lcore worker ∧
      ∀ burst, worker = .forwarding burst → burst.errand = none := by
  unfold rxBurst
  split
  next => exact ⟨_, rfl, nofun⟩
  next =>
    refine ⟨_, rfl, ?_⟩
    rintro _ ⟨rfl⟩
    rfl

theorem received_rxBurst (system : System Lcore) (lcore : Lcore) (i : Nat) (mbufs : List RteMbuf) :
    (rxBurst system lcore i mbufs).received = system.received + mbufs.length := by
  unfold rxBurst
  split <;> rfl

theorem mem_packetsFrom {received : Nat} {mbufs : List RteMbuf} {packet : Forward.Packet}
    (present : packet ∈ packetsFrom received mbufs) :
    received ≤ packet.serial ∧ packet.serial < received + mbufs.length := by
  have serial : packet.serial ∈ (packetsFrom received mbufs).map Forward.Packet.serial :=
    List.mem_map_of_mem present
  rw [packetsFrom_serials] at serial
  exact List.mem_range'_1.mp serial

theorem Logged.receives (logged : Logged machine) {lcore : Lcore} {i : Nat}
    (polls : machine.system.worker lcore = .polling i) (mbufs : List RteMbuf) :
    Logged (machine.received lcore i mbufs) where
  count := by
    show (machine.receivers ++ List.replicate mbufs.length lcore).length =
      (rxBurst machine.system lcore i mbufs).received
    rw [List.length_append, List.length_replicate, received_rxBurst, logged.count]
  pending other packet present := by
    show (machine.receivers ++ List.replicate mbufs.length lcore)[packet.serial]? = some other
    have among : packet ∈ ((rxBurst machine.system lcore i mbufs).worker other).pending := present
    rw [pending_rxBurst polls, List.mem_append] at among
    rcases among with old | new
    · have known := logged.pending other packet old
      rw [List.getElem?_append_left (List.getElem?_eq_some_iff.mp known).1, known]
    · split_ifs at new with here
      · obtain ⟨above, below⟩ := mem_packetsFrom new
        rw [← logged.count] at above below
        rw [List.getElem?_append_right above, List.getElem?_replicate, if_pos (by omega), here]
      · exact absurd new List.not_mem_nil

theorem pending_resume {burst : Burst} {errand : Errand}
    (inHand : (Worker.forwarding burst).InHand) (calls : burst.errand = some errand) :
    (Worker.forwarding (burst.resume none)).pending ⊆ (Worker.forwarding burst).pending := by
  rw [inHand.pending_eq calls]
  exact List.subset_cons_self _ _

/-- Packets come to a worker by being received only. -/
theorem Moves.pending (inHand : AllInHand machine.system)
    (moves : Moves service path entry machine after) :
    (∃ lcore i mbufs, machine.system.worker lcore = .polling i ∧
        after = machine.received lcore i mbufs) ∨
      after.system.received = machine.system.received ∧ after.receivers = machine.receivers ∧
        ∀ lcore, (after.system.worker lcore).pending ⊆ (machine.system.worker lcore).pending := by
  cases moves with
  | receives lcore i mbufs polls => exact .inl ⟨lcore, i, mbufs, polls, rfl⟩
  | walks lcore worker same between =>
      exact .inr ⟨rfl, rfl, pending_setWorker fun _ present => same ▸ present⟩
  | decides lcore handling burst packet detector verdict handler current next detects kept =>
      refine .inr ⟨rfl, rfl, pending_setWorker ?_⟩
      rw [current]
      exact List.Subset.refl _
  | refuses lcore burst errand current calls =>
      refine .inr ⟨rfl, rfl, pending_setWorker ?_⟩
      rw [current]
      exact List.Subset.refl _
  | hands lcore burst errand current calls =>
      refine .inr ⟨rfl, rfl, pending_setWorker ?_⟩
      show _ ⊆ (machine.system.worker lcore).pending
      rw [current]
      exact pending_resume (current ▸ inHand lcore) calls
  | _ => exact .inr ⟨rfl, rfl, fun _ => List.Subset.refl _⟩

theorem Logged.moves (logged : Logged machine) (inHand : AllInHand machine.system)
    (moves : Moves service path entry machine after) : Logged after := by
  obtain ⟨lcore, i, mbufs, polls, rfl⟩ | ⟨count, receivers, less⟩ := moves.pending inHand
  · exact logged.receives polls mbufs
  · exact logged.of_pending count receivers less

/-! ## Where packets go -/

/-- A call is for the packet's destination, or frees it. -/
def Follows (target : RteMbuf → Sender) (lcore : Lcore) (errand : Errand) : Prop :=
  errand = errandTo lcore errand.packet (target errand.packet.mbuf) ∨
    errand = .free errand.packet

/-- The device that took a packet is the one of its destination, and it was given the packet
through the queue of the lcore that received it; or it is the first sending device, for a
packet without a device of its own, through the queue that a byte of the packet selects. -/
inductive Rightly (service : Installation) (target : RteMbuf → Sender) (receivers : List Lcore)
    (transmission : Transmission) : Prop where
  | own (lcore : Lcore) (received : receivers[transmission.packet.serial]? = some lcore)
      (goes : target transmission.packet.mbuf = .send transmission.portid)
      (queue : transmission.queueid = lcore - 1)
  | default (goes : target transmission.packet.mbuf = .push)
      (port : transmission.portid = service.ptxidx.idx.toNat)
      (queue : transmission.queueid =
        defsendQueueid service.setup.mask transmission.packet.mbuf)

theorem Rightly.mono {target : RteMbuf → Sender} {receivers more : List Lcore}
    {transmission : Transmission} (rightly : Rightly service target receivers transmission) :
    Rightly service target (receivers ++ more) transmission := by
  cases rightly with
  | own lcore received goes queue =>
      refine .own lcore ?_ goes queue
      rw [List.getElem?_append_left (List.getElem?_eq_some_iff.mp received).1, received]
  | default goes port queue => exact .default goes port queue

/-- The default sender's call is for the first sending device, or frees the packet. -/
def FollowsDefault (service : Installation) (errand : Errand) : Prop :=
  errand = .send errand.packet service.ptxidx.idx.toNat
      (defsendQueueid service.setup.mask errand.packet.mbuf) ∨
    errand = .free errand.packet

/-- Every packet on its way has its destination before it, and every one transmitted behind it. -/
structure Routed (service : Installation) (target : RteMbuf → Sender) (machine : Machine) :
    Prop where
  errands : ∀ lcore burst errand, machine.system.worker lcore = .forwarding burst →
    burst.errand = some errand → Follows target lcore errand
  ring : ∀ packet ∈ machine.system.shared.ring, target packet.mbuf = .push
  popped : ∀ errand, machine.system.defsend = some errand →
    target errand.packet.mbuf = .push ∧ FollowsDefault service errand
  rightly : ∀ transmission ∈ machine.transmissions,
    Rightly service target machine.receivers transmission
  same : machine.transmissions.map Transmission.packet = machine.system.shared.transmitted

variable {target : RteMbuf → Sender}

theorem routed_start (service : Installation) (target : RteMbuf → Sender) :
    Routed service target service.start where
  errands _ _ _ forwarding _ := nomatch forwarding
  ring _ present := absurd present List.not_mem_nil
  popped _ calls := nomatch calls
  rightly _ present := absurd present List.not_mem_nil
  same := rfl

theorem Routed.worker (routed : Routed service target machine) {lcore : Lcore}
    {worker : Worker}
    (follows : ∀ burst errand, worker = .forwarding burst → burst.errand = some errand →
      Follows target lcore errand) :
    ∀ other burst errand, (machine.system.setWorker lcore worker).worker other = .forwarding burst →
      burst.errand = some errand → Follows target other errand := by
  intro other burst errand forwarding calls
  by_cases here : other = lcore
  · subst here
    simp only [System.setWorker, Function.update_self] at forwarding
    exact follows burst errand forwarding calls
  · simp only [System.setWorker, Function.update_of_ne here] at forwarding
    exact routed.errands other burst errand forwarding calls

theorem Routed.between (routed : Routed service target machine) {lcore : Lcore}
    {worker : Worker} (between : ∀ burst, worker = .forwarding burst → burst.errand = none) :
    ∀ other burst errand, (machine.system.setWorker lcore worker).worker other = .forwarding burst →
      burst.errand = some errand → Follows target other errand := by
  apply routed.worker
  intro burst errand forwarding calls
  rw [between burst forwarding] at calls
  cases calls

theorem Follows.push {lcore : Lcore} {packet : Forward.Packet}
    (follows : Follows target lcore (.push packet)) : target packet.mbuf = .push := by
  rcases follows with goes | frees
  · dsimp only [Errand.packet] at goes
    cases sender : target packet.mbuf with
    | push => rfl
    | send portid =>
        rw [sender] at goes
        cases goes
  · cases frees

theorem Follows.send {lcore : Lcore} {packet : Forward.Packet} {portid queueid : Int}
    (follows : Follows target lcore (.send packet portid queueid)) :
    target packet.mbuf = .send portid ∧ queueid = lcore - 1 := by
  rcases follows with goes | frees
  · dsimp only [Errand.packet] at goes
    cases sender : target packet.mbuf with
    | push =>
        rw [sender] at goes
        cases goes
    | send other =>
        rw [sender] at goes
        cases goes
        exact ⟨rfl, rfl⟩
  · cases frees

theorem ring_put (shared : Shared) (errand : Errand) :
    (shared.put errand).ring = shared.ring ++
      match errand with
      | .push packet => [packet]
      | _ => [] := by
  cases errand with
  | push packet => rfl
  | _ => exact (List.append_nil _).symm

theorem transmitted_put (shared : Shared) (errand : Errand) :
    (shared.put errand).transmitted =
      shared.transmitted ++ (given errand).map Transmission.packet := by
  cases errand with
  | send packet portid queueid => rfl
  | _ => exact (List.append_nil _).symm

theorem Routed.hands (routed : Routed service target machine) {lcore : Lcore}
    {burst : Burst} {errand : Errand} (follows : Follows target lcore errand)
    (received : machine.receivers[errand.packet.serial]? = some lcore) :
    Routed service target (machine.handed lcore burst errand) where
  errands := routed.between (by rintro _ ⟨rfl⟩; rfl)
  ring packet present := by
    have among : packet ∈ (machine.system.shared.put errand).ring := present
    rw [ring_put, List.mem_append] at among
    rcases among with old | new
    · exact routed.ring packet old
    · cases errand with
      | push own =>
          rw [List.mem_singleton.mp new]
          exact follows.push
      | _ => exact absurd new List.not_mem_nil
  popped := routed.popped
  rightly transmission present := by
    rcases List.mem_append.mp present with old | new
    · exact routed.rightly transmission old
    · cases errand with
      | send packet portid queueid =>
          rw [given, List.mem_singleton] at new
          subst new
          exact .own lcore received follows.send.1 follows.send.2
      | _ => exact absurd new List.not_mem_nil
  same := by
    show (machine.transmissions ++ given errand).map Transmission.packet =
      (machine.system.shared.put errand).transmitted
    rw [List.map_append, routed.same, transmitted_put]

theorem Routed.defsends (routed : Routed service target machine) {errand : Errand}
    (goes : target errand.packet.mbuf = .push) (follows : FollowsDefault service errand) :
    Routed service target (machine.defsent errand) where
  errands := routed.errands
  ring packet present := by
    have among : packet ∈ (machine.system.shared.put errand).ring := present
    rw [ring_put, List.mem_append] at among
    rcases among with old | new
    · exact routed.ring packet old
    · rcases follows with sends | frees
      · rw [sends] at new
        exact absurd new List.not_mem_nil
      · rw [frees] at new
        exact absurd new List.not_mem_nil
  popped _ calls := nomatch calls
  rightly transmission present := by
    rcases List.mem_append.mp present with old | new
    · exact routed.rightly transmission old
    · rcases follows with sends | frees
      · rw [sends, given, List.mem_singleton] at new
        subst new
        exact .default goes rfl rfl
      · rw [frees] at new
        exact absurd new List.not_mem_nil
  same := by
    show (machine.transmissions ++ given errand).map Transmission.packet =
      (machine.system.shared.put errand).transmitted
    rw [List.map_append, routed.same, transmitted_put]

theorem errand_pending {system : System Lcore} (inHand : AllInHand system) {lcore : Lcore}
    {burst : Burst} {errand : Errand} (current : system.worker lcore = .forwarding burst)
    (calls : burst.errand = some errand) : errand.packet ∈ (system.worker lcore).pending := by
  have hand : (Worker.forwarding burst).InHand := current ▸ inHand lcore
  rw [current, hand.pending_eq calls]
  exact List.mem_cons_self

theorem Routed.moves (routed : Routed service (destination entry) machine)
    (logged : Logged machine) (inHand : AllInHand machine.system)
    (moves : Moves service path entry machine after) :
    Routed service (destination entry) after := by
  cases moves with
  | walks lcore worker same between => exact { routed with errands := routed.between between }
  | receives lcore i mbufs polls =>
      obtain ⟨worker, receives, between⟩ := rxBurst_setWorker machine.system lcore i mbufs
      refine ⟨?_, ?_, ?_, ?_, ?_⟩
      · intro other burst errand forwarding calls
        dsimp only [Machine.received] at forwarding
        rw [receives] at forwarding
        exact routed.between between other burst errand forwarding calls
      · dsimp only [Machine.received]
        rw [receives]
        exact routed.ring
      · dsimp only [Machine.received]
        rw [receives]
        exact routed.popped
      · exact fun transmission present => (routed.rightly transmission present).mono
      · dsimp only [Machine.received]
        rw [receives]
        exact routed.same
  | decides lcore handling burst packet detector verdict handler current next detects kept =>
      refine { routed with errands := routed.worker ?_ }
      rintro _ _ ⟨rfl⟩ ⟨rfl⟩
      left
      rw [errandTo_packet]
  | refuses lcore burst errand current calls =>
      refine { routed with errands := routed.worker ?_ }
      rintro _ _ ⟨rfl⟩ ⟨rfl⟩
      exact .inr rfl
  | hands lcore burst errand current calls =>
      exact routed.hands (routed.errands lcore burst errand current calls)
        (logged.pending lcore _ (errand_pending inHand current calls))
  | pops packet ring between first =>
      refine { routed with ring := ?_, popped := ?_ }
      · intro other present
        exact routed.ring other (first ▸ List.mem_cons_of_mem packet present)
      · rintro _ ⟨rfl⟩
        exact ⟨routed.ring packet (first ▸ List.mem_cons_self), .inl rfl⟩
  | idles => exact routed
  | defsendRefuses errand calls =>
      refine { routed with popped := ?_ }
      rintro _ ⟨rfl⟩
      exact ⟨(routed.popped errand calls).1, .inr rfl⟩
  | defsendHands errand calls =>
      exact routed.defsends (routed.popped errand calls).1 (routed.popped errand calls).2

/-! ## Every run -/

structure Kept (service : Installation) (path : Nat → List UInt8)
    (entry : List UInt8 → Option AcPattern) (machine : Machine) : Prop where
  sound : Sound path entry machine
  logged : Logged machine
  routed : Routed service (destination entry) machine

theorem kept_start (sound : Sound path entry service.start) :
    Kept service path entry service.start :=
  ⟨sound, logged_start service, routed_start service _⟩

theorem Kept.step (kept : Kept service path entry machine)
    (stepped : service.step machine event = some after) : Kept service path entry after := by
  have moves := moves_of_step kept.sound.ready stepped
  have inHand := kept.sound.owned.inHand
  exact ⟨kept.sound.step stepped, kept.logged.moves inHand moves,
    kept.routed.moves kept.logged inHand moves⟩

theorem Reached.kept (sound : Sound path entry service.start) (reached : Reached service) :
    Kept service path entry reached.machine :=
  Run.invariant (Kept service path entry) (fun _ _ _ kept stepped => kept.step stepped) reached.run
    (kept_start sound)

/-- There is one function from the bytes of a packet to its destination, the device of the key
that is found in the text it makes its lcore search for, by which the devices have taken their
packets in every state of every run. -/
theorem transmitted_as_destined (service : Installation) :
    ∃ target : RteMbuf → Sender, (∀ mbuf, Destined service.configured mbuf (target mbuf)) ∧
      ∀ reached : Reached service,
        reached.machine.transmissions.map Transmission.packet =
            reached.machine.system.shared.transmitted ∧
          ∀ transmission ∈ reached.machine.transmissions,
            Rightly service target reached.machine.receivers transmission := by
  obtain ⟨path, entry, sound, answers⟩ := service.exists_sound
  refine ⟨destination entry, destined_destination answers, fun reached => ?_⟩
  have kept := reached.kept sound
  exact ⟨kept.routed.same, kept.routed.rightly⟩

end UAFlow.Service
