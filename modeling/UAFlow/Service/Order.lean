import UAFlow.Service.Routing

/-!
# Packets are not reordered

A packet on its way stands behind the packets of its lcore with the same destination that
came before it: in the order of the transmitted, the popped one, the ring and what its
worker has in hand.  No step lets a packet overtake one of those.
-/

namespace UAFlow.Service

open Library AhoCorasick Ddos Forward UserAgent Config

variable {service : Installation} {machine after : Machine} {event : Event}
  {path : Nat → List UInt8} {entry : List UInt8 → Option AcPattern}
  {target : RteMbuf → Sender} {lcore other : Lcore} {sender : Sender}

/-- The packet came to this lcore and has this destination. -/
def Belongs (target : RteMbuf → Sender) (receivers : List Lcore) (lcore : Lcore) (sender : Sender)
    (packet : Forward.Packet) : Bool :=
  receivers[packet.serial]? = some lcore ∧ target packet.mbuf = sender

/-- The packets that came to an lcore with a destination, as far as they have come. -/
def Machine.queue (machine : Machine) (target : RteMbuf → Sender) (lcore : Lcore)
    (sender : Sender) : List Forward.Packet :=
  (machine.system.shared.transmitted ++ machine.system.defsend.toList.map Errand.packet ++
    machine.system.shared.ring ++ (machine.system.worker lcore).pending).filter
      (Belongs target machine.receivers lcore sender)

def Before (first second : Forward.Packet) : Prop := first.serial < second.serial

def Ordered (target : RteMbuf → Sender) (machine : Machine) : Prop :=
  ∀ lcore sender, (machine.queue target lcore sender).Pairwise Before

theorem ordered_start (service : Installation) (target : RteMbuf → Sender) :
    Ordered target service.start :=
  fun _ _ => List.Pairwise.nil

/-! ## What takes a packet out of a queue -/

theorem belongs_lcore {receivers : List Lcore} {packet : Forward.Packet}
    (received : receivers[packet.serial]? = some lcore) (different : other ≠ lcore) :
    Belongs target receivers other sender packet = false := by
  apply decide_eq_false
  rintro ⟨same, -⟩
  rw [received] at same
  exact different (Option.some.inj same).symm

theorem belongs_sender {receivers : List Lcore} {packet : Forward.Packet}
    (goes : target packet.mbuf ≠ sender) :
    Belongs target receivers lcore sender packet = false :=
  decide_eq_false fun belongs => goes belongs.2

theorem filter_elsewhere {receivers : List Lcore} {packets : List Forward.Packet}
    (goes : ∀ packet ∈ packets, target packet.mbuf ≠ sender) :
    packets.filter (Belongs target receivers lcore sender) = [] := by
  apply List.filter_eq_nil_iff.mpr
  intro packet present
  rw [belongs_sender (goes packet present)]
  exact Bool.false_ne_true

/-! ## A packet is handed over -/

section Handed

variable {burst : Burst} {errand : Errand}

theorem pending_handed (machine : Machine) (burst : Burst) (errand : Errand) (lcore other : Lcore) :
    ((machine.handed lcore burst errand).system.worker other).pending =
      if other = lcore then (Worker.forwarding (burst.resume none)).pending
      else (machine.system.worker other).pending := by
  by_cases here : other = lcore
  · subst here
    rw [if_pos rfl]
    simp [Machine.handed, System.setWorker]
  · rw [if_neg here]
    simp [Machine.handed, System.setWorker, here]

theorem queue_handed (machine : Machine) (burst : Burst) (errand : Errand) (lcore other : Lcore)
    (sender : Sender) :
    (machine.handed lcore burst errand).queue target other sender =
      ((machine.system.shared.transmitted ++ (given errand).map Transmission.packet ++
        machine.system.defsend.toList.map Errand.packet ++
          (machine.system.shared.put errand).ring ++
            if other = lcore then (Worker.forwarding (burst.resume none)).pending
            else (machine.system.worker other).pending).filter
        (Belongs target machine.receivers other sender)) := by
  rw [← transmitted_put, ← pending_handed machine burst errand lcore other]
  rfl

theorem queue_handed_other (different : other ≠ lcore)
    (received : machine.receivers[errand.packet.serial]? = some lcore) :
    (machine.handed lcore burst errand).queue target other sender =
      machine.queue target other sender := by
  have foreign : Belongs target machine.receivers other sender errand.packet = false :=
    belongs_lcore received different
  rw [queue_handed, if_neg different, ring_put]
  unfold Machine.queue
  cases errand with
  | push packet =>
      dsimp only [Errand.packet] at foreign
      simp [given, foreign]
  | send packet portid queueid =>
      dsimp only [Errand.packet] at foreign
      simp [given, foreign]
  | free packet => simp [given]

/-- A packet that is sent passes those of the default sender, which go elsewhere. -/
theorem queue_handed_send (routed : Routed service target machine) {packet : Forward.Packet}
    {portid queueid : Int}
    (follows : Follows target lcore (.send packet portid queueid))
    (first : (machine.system.worker lcore).pending =
      packet :: (Worker.forwarding (burst.resume none)).pending) :
    (machine.handed lcore burst (.send packet portid queueid)).queue target lcore sender =
      machine.queue target lcore sender := by
  rw [queue_handed, if_pos rfl]
  unfold Machine.queue
  rw [first]
  by_cases goes : target packet.mbuf = sender
  · have elsewhere : Sender.push ≠ sender := by
      rw [← goes, follows.send.1]
      exact nofun
    have popped : (machine.system.defsend.toList.map Errand.packet).filter
        (Belongs target machine.receivers lcore sender) = [] := by
      apply filter_elsewhere
      intro other present
      obtain ⟨errand, calls, rfl⟩ := List.mem_map.mp present
      rw [(routed.popped errand (Option.mem_toList.mp calls)).1]
      exact elsewhere
    have ring : machine.system.shared.ring.filter
        (Belongs target machine.receivers lcore sender) = [] := by
      apply filter_elsewhere
      intro other present
      rw [routed.ring other present]
      exact elsewhere
    simp only [List.filter_append, popped, ring, List.append_nil, ring_put]
    simp [given, List.filter_cons]
    split <;> rfl
  · have foreign : Belongs target machine.receivers lcore sender packet = false :=
      belongs_sender goes
    simp [given, foreign, ring_put]

theorem queue_hands (routed : Routed service target machine) (logged : Logged machine)
    (inHand : AllInHand machine.system)
    (current : machine.system.worker lcore = .forwarding burst) (calls : burst.errand = some errand)
    (other : Lcore) (sender : Sender) :
    ((machine.handed lcore burst errand).queue target other sender).Sublist
      (machine.queue target other sender) := by
  have follows := routed.errands lcore burst errand current calls
  have received := logged.pending lcore _ (errand_pending inHand current calls)
  have hand : (Worker.forwarding burst).InHand := current ▸ inHand lcore
  have first : (machine.system.worker lcore).pending =
      errand.packet :: (Worker.forwarding (burst.resume none)).pending := by
    rw [current]
    exact hand.pending_eq calls
  by_cases here : other = lcore
  · subst here
    cases errand with
    | push packet =>
        rw [queue_handed, if_pos rfl, ring_put, Machine.queue, first]
        simp [given, Errand.packet]
    | send packet portid queueid => rw [queue_handed_send routed follows first]
    | free packet =>
        rw [queue_handed, if_pos rfl, ring_put, Machine.queue, first]
        apply List.Sublist.filter
        simp [given]
  · rw [queue_handed_other here received]

end Handed

/-! ## A step -/

theorem queue_setWorker {worker : Worker}
    (same : worker.pending = (machine.system.worker lcore).pending)
    (workers : after.system.worker = (machine.system.setWorker lcore worker).worker)
    (shared : after.system.shared = machine.system.shared)
    (defsend : after.system.defsend = machine.system.defsend)
    (receivers : after.receivers = machine.receivers) (other : Lcore) (sender : Sender) :
    (after.queue target other sender).Sublist (machine.queue target other sender) := by
  have pending : (after.system.worker other).pending = (machine.system.worker other).pending := by
    rw [workers]
    by_cases here : other = lcore
    · subst here
      simpa [System.setWorker] using same
    · simp [System.setWorker, here]
  unfold Machine.queue
  rw [shared, defsend, receivers, pending]

/-- No step but the reception of packets puts anything into a queue. -/
theorem queue_moves (routed : Routed service target machine) (logged : Logged machine)
    (inHand : AllInHand machine.system) (moves : Moves service path entry machine after) :
    (∃ lcore i mbufs, machine.system.worker lcore = .polling i ∧
        after = machine.received lcore i mbufs) ∨
      ∀ other sender,
        (after.queue target other sender).Sublist (machine.queue target other sender) := by
  cases moves with
  | receives lcore i mbufs polls => exact .inl ⟨lcore, i, mbufs, polls, rfl⟩
  | walks lcore worker same between =>
      exact .inr (queue_setWorker same rfl rfl rfl rfl)
  | decides lcore handling burst packet detector verdict handler current next detects kept =>
      exact .inr (queue_setWorker (by rw [current]; rfl) rfl rfl rfl rfl)
  | refuses lcore burst errand current calls =>
      exact .inr (queue_setWorker (by rw [current]; rfl) rfl rfl rfl rfl)
  | hands lcore burst errand current calls =>
      exact .inr (queue_hands routed logged inHand current calls)
  | pops packet ring between first =>
      right
      intro other sender
      unfold Machine.queue
      dsimp only [Machine.popped]
      rw [between, first]
      simp [Errand.packet]
  | idles => exact .inr fun _ _ => List.Sublist.refl _
  | defsendRefuses errand calls =>
      right
      intro other sender
      unfold Machine.queue
      dsimp only [Machine.setDefsend]
      rw [calls]
      exact List.Sublist.refl _
  | defsendHands errand calls =>
      right
      intro other sender
      unfold Machine.queue
      dsimp only [Machine.defsent]
      rw [calls, transmitted_put, ring_put]
      apply List.Sublist.filter
      obtain ⟨-, sends | frees⟩ := routed.popped errand calls
      · rw [sends]
        simp [given, Errand.packet]
      · rw [frees]
        simp [given, Errand.packet]

theorem received_queue (sound : Sound path entry machine) (logged : Logged machine)
    {packet : Forward.Packet} (present : packet ∈ machine.system.shared.transmitted ++
      machine.system.defsend.toList.map Errand.packet ++ machine.system.shared.ring ++
        (machine.system.worker lcore).pending) :
    packet.serial < machine.receivers.length := by
  have known : ∀ place, packet ∈ machine.system.packetsAt place →
      packet.serial < machine.receivers.length := by
    intro place lies
    rw [logged.count]
    exact List.mem_range.mp (sound.owned.single.known place packet.serial
      (List.mem_map_of_mem lies))
  simp only [List.mem_append] at present
  rcases present with ((transmitted | popped) | ring) | pending
  · exact known .transmitted transmitted
  · exact known .popped popped
  · exact known .ring ring
  · exact known (.pending lcore) pending

theorem packetsFrom_ordered (received : Nat) (mbufs : List RteMbuf) :
    (packetsFrom received mbufs).Pairwise Before := by
  have serials : ((packetsFrom received mbufs).map Forward.Packet.serial).Pairwise (· < ·) := by
    rw [packetsFrom_serials]
    exact List.pairwise_lt_range'
  rw [List.pairwise_map] at serials
  exact serials

theorem queue_received (sound : Sound path entry machine) (logged : Logged machine) {i : Nat}
    (polls : machine.system.worker lcore = .polling i) (mbufs : List RteMbuf) (other : Lcore)
    (sender : Sender) :
    (machine.received lcore i mbufs).queue target other sender =
      machine.queue target other sender ++
        (if other = lcore then packetsFrom machine.system.received mbufs else []).filter
          (Belongs target (machine.received lcore i mbufs).receivers other sender) := by
  obtain ⟨worker, receives, -⟩ := rxBurst_setWorker machine.system lcore i mbufs
  have pending := pending_rxBurst polls mbufs other
  unfold Machine.queue
  dsimp only [Machine.received]
  rw [pending]
  rw [receives]
  dsimp only [System.setWorker]
  rw [← List.append_assoc, List.filter_append]
  congr 1
  apply List.filter_congr
  intro packet present
  have below := received_queue sound logged present
  unfold Belongs
  rw [List.getElem?_append_left below]

theorem Ordered.moves (ordered : Ordered target machine) (sound : Sound path entry machine)
    (routed : Routed service target machine) (logged : Logged machine)
    (moves : Moves service path entry machine after) : Ordered target after := by
  intro other sender
  obtain ⟨lcore, i, mbufs, polls, rfl⟩ | less :=
    queue_moves routed logged sound.owned.inHand moves
  · rw [queue_received sound logged polls]
    refine List.pairwise_append.mpr ⟨ordered other sender, ?_, ?_⟩
    · apply List.Pairwise.filter
      split_ifs
      · exact packetsFrom_ordered _ _
      · exact List.Pairwise.nil
    · intro first old second new
      have below := received_queue sound logged (List.mem_of_mem_filter old)
      have among := List.mem_of_mem_filter new
      split_ifs at among
      · have above := (mem_packetsFrom among).1
        rw [logged.count] at below
        exact Nat.lt_of_lt_of_le below above
      · exact absurd among List.not_mem_nil
  · exact (ordered other sender).sublist (less other sender)

/-! ## Every run -/

/-- Packets that came to one lcore and have one destination leave in the order in which they
came, in every run. -/
theorem transmitted_in_order (service : Installation) :
    ∃ target : RteMbuf → Sender, (∀ mbuf, Destined service.configured mbuf (target mbuf)) ∧
      ∀ (reached : Reached service) (lcore : Lcore) (sender : Sender),
        ((reached.machine.transmissions.map Transmission.packet).filter
          (Belongs target reached.machine.receivers lcore sender)).Pairwise Before := by
  obtain ⟨path, entry, sound, answers⟩ := service.exists_sound
  refine ⟨destination entry, destined_destination answers, fun reached lcore sender => ?_⟩
  have kept : Kept service path entry reached.machine ∧
      Ordered (destination entry) reached.machine := by
    apply Run.invariant (fun machine => Kept service path entry machine ∧
      Ordered (destination entry) machine) _ reached.run ⟨kept_start sound, ordered_start service _⟩
    rintro machine event after ⟨kept, ordered⟩ stepped
    exact ⟨kept.step stepped, ordered.moves kept.sound kept.routed kept.logged
      (moves_of_step kept.sound.ready stepped)⟩
  rw [kept.1.routed.same]
  have queued := kept.2 lcore sender
  unfold Machine.queue at queued
  rw [List.append_assoc, List.append_assoc, List.filter_append] at queued
  exact (List.pairwise_append.mp queued).1

end UAFlow.Service
