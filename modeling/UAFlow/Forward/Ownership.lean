import UAFlow.Forward.Workers
import UAFlow.Library.Custody

/-!
# Every packet has one owner

Whatever the threads do and in whatever order, a received packet is pending in
its worker's burst, in the ring, popped by the default sender, transmitted or
freed: one of these, and once.
-/

namespace UAFlow.Forward

open Library

inductive Place (Lcore : Type) where
  | pending (lcore : Lcore)
  | ring
  | popped
  | transmitted
  | freed
  deriving DecidableEq

def Worker.pending : Worker → List Packet
  | forwarding burst => burst.pktsBurst.drop burst.j
  | _ => []

def System.packetsAt {Lcore : Type} (system : System Lcore) : Place Lcore → List Packet
  | .pending lcore => (system.worker lcore).pending
  | .ring => system.shared.ring
  | .popped => system.defsend.toList.map Errand.packet
  | .transmitted => system.shared.transmitted
  | .freed => system.shared.freed

def System.serialsAt {Lcore : Type} (system : System Lcore) (place : Place Lcore) : List Nat :=
  (system.packetsAt place).map Packet.serial

def System.custody {Lcore : Type} (system : System Lcore) : Custody (Place Lcore) Nat :=
  ⟨List.range system.received, system.serialsAt⟩

/-- A worker calls for the first packet it has not handed over. -/
def Worker.InHand (worker : Worker) : Prop :=
  ∀ burst errand, worker = .forwarding burst → burst.errand = some errand →
    burst.pktsBurst[burst.j]? = some errand.packet

/-! ## One call -/

def Shared.put (shared : Shared) : Errand → Shared
  | .push packet => { shared with ring := shared.ring ++ [packet] }
  | .send packet _ _ => { shared with transmitted := shared.transmitted ++ [packet] }
  | .free packet => { shared with freed := shared.freed ++ [packet] }

def Errand.target {Lcore : Type} : Errand → Place Lcore
  | push _ => .ring
  | send _ _ _ => .transmitted
  | free _ => .freed

theorem perform_cases (shared : Shared) (accepted : Bool) (errand : Errand) :
    errand.perform shared accepted = (shared, some (.free errand.packet)) ∨
      errand.perform shared accepted = (shared.put errand, none) := by
  cases errand with
  | push packet =>
      cases accepted with
      | true => exact Or.inr rfl
      | false => exact Or.inl rfl
  | send packet portid queueid =>
      cases accepted with
      | true => exact Or.inr rfl
      | false => exact Or.inl rfl
  | free packet => exact Or.inr rfl

theorem insideForward_packet (lcoreId : Nat) (circumstances : Circumstances) (packet : Packet) :
    (insideForward lcoreId circumstances packet).packet = packet := by
  simp only [insideForward]
  split
  next => rfl
  next => split <;> rfl

theorem Burst.inHand_test {burst : Burst} (inside : burst.j < burst.pktsBurst.length)
    (lcoreId : Nat) (circumstances : Circumstances) :
    (Worker.forwarding { burst with
      errand := some (insideForward lcoreId circumstances burst.pktsBurst[burst.j]) }).InHand := by
  rintro _ errand ⟨rfl⟩ same
  obtain rfl := Option.some.inj same
  rw [insideForward_packet]
  exact List.getElem?_eq_getElem inside

/-- A test leaves the packets where they are, and the call it leads to is for the
first of them. -/
theorem Burst.test_spec {burst : Burst} (between : burst.errand = none) (lcoreId : Nat)
    (circumstances : Circumstances) :
    (burst.test lcoreId circumstances).pending = (Worker.forwarding burst).pending ∧
      (burst.test lcoreId circumstances).InHand := by
  unfold Burst.test
  split
  next =>
    split
    next inside => exact ⟨rfl, Burst.inHand_test _ lcoreId circumstances⟩
    next =>
      refine ⟨rfl, ?_⟩
      rintro _ errand ⟨rfl⟩ same
      simp [between] at same
  next =>
    split
    next inside => exact ⟨rfl, Burst.inHand_test inside lcoreId circumstances⟩
    next outside =>
      refine ⟨(List.drop_eq_nil_of_le (Nat.le_of_not_lt outside)).symm, ?_⟩
      rintro _ errand ⟨⟩

theorem Worker.InHand.pending_eq {burst : Burst} {errand : Errand}
    (inHand : (Worker.forwarding burst).InHand) (calls : burst.errand = some errand) :
    (Worker.forwarding burst).pending =
      errand.packet :: (Worker.forwarding (burst.resume none)).pending := by
  have first := inHand burst errand rfl calls
  obtain ⟨inside, same⟩ := List.getElem?_eq_some_iff.mp first
  exact same ▸ List.drop_eq_getElem_cons inside

theorem Burst.inHand_resume_none (burst : Burst) :
    (Worker.forwarding (burst.resume none)).InHand := by
  rintro _ errand ⟨rfl⟩ same
  simp [Burst.resume] at same

theorem Burst.inHand_resume_free {burst : Burst} {errand : Errand}
    (inHand : (Worker.forwarding burst).InHand) (calls : burst.errand = some errand) :
    (Worker.forwarding (burst.resume (some (.free errand.packet)))).InHand := by
  rintro _ next ⟨rfl⟩ same
  obtain rfl := Option.some.inj same
  exact inHand burst errand rfl calls

/-! ## The invariant -/

def AllInHand {Lcore : Type} (system : System Lcore) : Prop :=
  ∀ lcore, (system.worker lcore).InHand

structure Owned {Lcore : Type} (system : System Lcore) : Prop where
  inHand : AllInHand system
  single : system.custody.Single

theorem Worker.inHand_of_idle {worker : Worker} (idle : ∀ burst, worker ≠ .forwarding burst) :
    worker.InHand :=
  fun burst _ same => absurd same (idle burst)

theorem owned_start (Lcore : Type) : Owned (System.start Lcore) where
  inHand _ := Worker.inHand_of_idle (by simp [System.start])
  single := by
    constructor
    · intro place token lies
      cases place <;> simp [System.custody, System.serialsAt, System.packetsAt, System.start,
        Worker.pending] at lies
    · intro token issued
      simp [System.custody, System.start] at issued

/-! ## The places after a step -/

section Places

variable {Lcore : Type} [DecidableEq Lcore]

theorem serialsAt_setWorker (system : System Lcore) (lcore : Lcore) (worker : Worker) :
    (system.setWorker lcore worker).serialsAt =
      Function.update system.serialsAt (.pending lcore) (worker.pending.map Packet.serial) := by
  funext place
  cases place with
  | pending other =>
      by_cases here : other = lcore
      · subst here
        simp [System.serialsAt, System.packetsAt, System.setWorker]
      · simp [System.serialsAt, System.packetsAt, System.setWorker, here]
  | _ => rfl

theorem serialsAt_put (system : System Lcore) (errand : Errand) :
    ({ system with shared := system.shared.put errand } : System Lcore).serialsAt =
      Function.update system.serialsAt errand.target
        (system.serialsAt errand.target ++ [errand.packet.serial]) := by
  funext place
  cases errand <;> cases place <;>
    simp [System.serialsAt, System.packetsAt, Shared.put, Errand.target, Errand.packet]

theorem serialsAt_defsend (system : System Lcore) (defsend : Option Errand) :
    ({ system with defsend := defsend } : System Lcore).serialsAt =
      Function.update system.serialsAt .popped
        (defsend.toList.map fun errand => errand.packet.serial) := by
  funext place
  cases place with
  | popped => simp [System.serialsAt, System.packetsAt, Function.comp_def]
  | _ => rfl

theorem custody_keeps {system : System Lcore} {lcore : Lcore} {worker : Worker}
    (same : worker.pending = (system.worker lcore).pending) :
    (system.setWorker lcore worker).custody = system.custody := by
  unfold System.custody
  rw [serialsAt_setWorker, same]
  congr 1
  exact Function.update_eq_self _ _

theorem custody_hands {system after : System Lcore} {errand : Errand} {source : Place Lcore}
    {rest : List Nat} (apart : source ≠ errand.target)
    (received : after.received = system.received)
    (places : after.serialsAt = Function.update
      (({ system with shared := system.shared.put errand } : System Lcore).serialsAt)
      source rest) :
    after.custody = system.custody.hand source errand.target errand.packet.serial rest := by
  unfold System.custody Custody.hand
  rw [received, places, serialsAt_put, Function.update_comm apart.symm]

theorem packetsFrom_serials (received : Nat) (mbufs : List RteMbuf) :
    (packetsFrom received mbufs).map Packet.serial = List.range' received mbufs.length := by
  unfold packetsFrom
  rw [List.map_map]
  exact List.zipIdx_map_snd received mbufs

theorem custody_receives {system : System Lcore} {lcore : Lcore} {i : Nat}
    (polls : system.worker lcore = .polling i) (mbufs : List RteMbuf) :
    (rxBurst system lcore i mbufs).custody =
      system.custody.receive (.pending lcore) (List.range' system.received mbufs.length) := by
  have before : system.serialsAt (.pending lcore) = [] := by
    simp [System.serialsAt, System.packetsAt, polls, Worker.pending]
  have more : (rxBurst system lcore i mbufs).received = system.received + mbufs.length := by
    unfold rxBurst
    split <;> rfl
  have places : (rxBurst system lcore i mbufs).serialsAt =
      Function.update system.serialsAt (.pending lcore)
        (List.range' system.received mbufs.length) := by
    unfold rxBurst
    split
    next none =>
      rw [serialsAt_setWorker, none]
      rfl
    next =>
      rw [serialsAt_setWorker, ← packetsFrom_serials]
      rfl
  unfold System.custody Custody.receive
  simp only [more, places, before, List.nil_append, List.range_eq_range']
  rw [← List.range'_append_1, Nat.zero_add]

/-! ## A step -/

theorem AllInHand.setWorker {system : System Lcore} (all : AllInHand system) {lcore : Lcore}
    {worker : Worker} (inHand : worker.InHand) : AllInHand (system.setWorker lcore worker) := by
  intro other
  by_cases here : other = lcore
  · subst here
    simpa [System.setWorker] using inHand
  · simpa [System.setWorker, here] using all other

/-- What a step may do: it keeps the packets where they are, or receives new
ones, or hands one over. -/
structure Changes (before after : System Lcore) : Prop where
  inHand : AllInHand after
  custody : Custody.Change before.custody after.custody

theorem changes_worker {system : System Lcore} (all : AllInHand system) {lcore : Lcore}
    {worker : Worker} (inHand : worker.InHand)
    (same : worker.pending = (system.worker lcore).pending) :
    Changes system (system.setWorker lcore worker) :=
  ⟨all.setWorker inHand, .keeps (custody_keeps same)⟩

theorem changes_rxBurst {system : System Lcore} (all : AllInHand system) {lcore : Lcore} {i : Nat}
    (polls : system.worker lcore = .polling i) (mbufs : List RteMbuf) :
    Changes system (rxBurst system lcore i mbufs) := by
  constructor
  · unfold rxBurst
    split
    next => exact AllInHand.setWorker all (Worker.inHand_of_idle (by simp))
    next =>
      apply AllInHand.setWorker all
      rintro _ errand ⟨rfl⟩ same
      simp at same
  · refine .receives (.pending lcore) _ List.nodup_range' ?_ (custody_receives polls mbufs)
    intro serial arrived known
    have above := (List.mem_range'_1.mp arrived).1
    have below := List.mem_range.mp known
    omega

theorem changes_perform {system : System Lcore} (all : AllInHand system) {lcore : Lcore}
    {burst : Burst} {errand : Errand} (current : system.worker lcore = .forwarding burst)
    (calls : burst.errand = some errand) (accepted : Bool) :
    Changes system (({ system with
      shared := (errand.perform system.shared accepted).1 } : System Lcore).setWorker lcore
        (.forwarding (burst.resume (errand.perform system.shared accepted).2))) := by
  have inHand : (Worker.forwarding burst).InHand := current ▸ all lcore
  rcases perform_cases system.shared accepted errand with refused | taken
  · rw [refused]
    exact changes_worker all (Burst.inHand_resume_free inHand calls) (by rw [current]; rfl)
  · rw [taken]
    refine ⟨AllInHand.setWorker all burst.inHand_resume_none, ?_⟩
    have apart : (Place.pending lcore) ≠ errand.target := by
      cases errand <;> simp [Errand.target]
    refine .hands (.pending lcore) errand.target errand.packet.serial
      ((Worker.forwarding (burst.resume none)).pending.map Packet.serial) apart ?_
      (custody_hands apart rfl (serialsAt_setWorker _ _ _))
    change (system.worker lcore).pending.map Packet.serial = _
    rw [current, inHand.pending_eq calls]
    rfl

theorem changes_pop {system : System Lcore} (all : AllInHand system) {packet : Packet}
    {ring : List Packet} (between : system.defsend = none)
    (first : system.shared.ring = packet :: ring) (portid queueid : Int) :
    Changes system { system with
      shared := { system.shared with ring := ring }
      defsend := some (.send packet portid queueid) } := by
  refine ⟨all, .hands .ring .popped packet.serial (ring.map Packet.serial) (by simp) ?_ ?_⟩
  · change system.shared.ring.map Packet.serial = _
    rw [first]
    rfl
  · unfold System.custody Custody.hand
    congr 1
    funext place
    cases place <;> simp [System.serialsAt, System.packetsAt, between, Errand.packet]

theorem changes_defsendPerform {system : System Lcore} (all : AllInHand system)
    {errand : Errand} (calls : system.defsend = some errand) (accepted : Bool) :
    Changes system { system with
      shared := (errand.perform system.shared accepted).1
      defsend := (errand.perform system.shared accepted).2 } := by
  rcases perform_cases system.shared accepted errand with refused | taken
  · rw [refused]
    refine ⟨all, .keeps ?_⟩
    unfold System.custody
    congr 1
    rw [serialsAt_defsend]
    apply Function.update_eq_self_iff.mpr
    simp [System.serialsAt, System.packetsAt, calls, Errand.packet]
  · rw [taken]
    have apart : (Place.popped : Place Lcore) ≠ errand.target := by
      cases errand <;> simp [Errand.target]
    refine ⟨all, .hands .popped errand.target errand.packet.serial [] apart ?_
      (custody_hands apart rfl
        (serialsAt_defsend { system with shared := system.shared.put errand } none))⟩
    simp [System.custody, System.serialsAt, System.packetsAt, calls]

/-- The step lemma. -/
theorem changes_step {setup : Setup Lcore} {system after : System Lcore} {event : Event Lcore}
    (all : AllInHand system) (stepped : step setup system event = some after) :
    Changes system after := by
  cases event with
  | forward lcore =>
      cases current : system.worker lcore with
      | returned =>
          simp only [step, current, Option.some.injEq] at stepped
          subst stepped
          exact changes_worker all (Worker.inHand_of_idle (by simp)) (by rw [current]; rfl)
      | _ => simp [step, current] at stepped
  | rxBurst lcore mbufs =>
      cases current : system.worker lcore with
      | polling i =>
          simp only [step, current] at stepped
          split at stepped
          next =>
            obtain rfl := Option.some.inj stepped
            exact changes_rxBurst all current mbufs
          next => simp at stepped
      | _ => simp [step, current] at stepped
  | finish lcore =>
      cases current : system.worker lcore with
      | polling i =>
          simp only [step, current] at stepped
          split at stepped
          next => simp at stepped
          next =>
            obtain rfl := Option.some.inj stepped
            exact changes_worker all (Worker.inHand_of_idle (by simp)) (by rw [current]; rfl)
      | _ => simp [step, current] at stepped
  | test lcore circumstances =>
      cases current : system.worker lcore with
      | forwarding burst =>
          simp only [step, current] at stepped
          split at stepped
          next between =>
            obtain rfl := Option.some.inj stepped
            obtain ⟨same, inHand⟩ := burst.test_spec between (setup.lcoreId lcore) circumstances
            exact changes_worker all inHand (by rw [current]; exact same)
          next => simp at stepped
      | _ => simp [step, current] at stepped
  | perform lcore accepted =>
      cases current : system.worker lcore with
      | forwarding burst =>
          simp only [step, current] at stepped
          split at stepped
          next errand calls =>
            obtain rfl := Option.some.inj stepped
            exact changes_perform all current calls accepted
          next => simp at stepped
      | _ => simp [step, current] at stepped
  | pop =>
      simp only [step] at stepped
      split at stepped
      next between first =>
        obtain rfl := Option.some.inj stepped
        exact changes_pop all between first _ _
      next =>
        obtain rfl := Option.some.inj stepped
        exact ⟨all, .keeps rfl⟩
      next => simp at stepped
  | defsendPerform accepted =>
      simp only [step] at stepped
      split at stepped
      next errand calls =>
        obtain rfl := Option.some.inj stepped
        exact changes_defsendPerform all calls accepted
      next => simp at stepped

theorem owned_step {setup : Setup Lcore} (system : System Lcore) (event : Event Lcore)
    (after : System Lcore) (owned : Owned system)
    (stepped : step setup system event = some after) : Owned after := by
  have changes := changes_step owned.inHand stepped
  exact ⟨changes.inHand, owned.single.change changes.custody⟩

/-- In every state the threads reach, each packet received so far is in exactly
one place, and none has been transmitted or freed twice. -/
theorem one_owner {setup : Setup Lcore} (reached : Reached setup) :
    (∀ serial < reached.system.received, ∃ place,
        (reached.system.serialsAt place).count serial = 1 ∧
          ∀ other, other ≠ place → serial ∉ reached.system.serialsAt other) ∧
      (reached.system.serialsAt .transmitted ++ reached.system.serialsAt .freed).Nodup := by
  have owned := Run.invariant Owned owned_step reached.run (owned_start Lcore)
  constructor
  · intro serial received
    exact owned.single.once serial (List.mem_range.mpr received)
  · exact owned.single.nodup_append (by simp)

end Places

end UAFlow.Forward
