import Mathlib.Algebra.BigOperators.Fin
import UAFlow.Service.Progress

/-!
# The service drains

When no more packets come, the threads get rid of those they have, in whatever order they
take their turns.
-/

namespace UAFlow.Forward

def left : Option Errand → Nat
  | none => 0
  | some errand => 3 - spent (some errand)

/-- The turns the threads can still have: a packet of a worker may come to the ring, and then
the default sender has it. -/
def System.work {Lcore : Type} [Fintype Lcore] (system : System Lcore) : Nat :=
  (∑ lcore, ((system.worker lcore).work + 3 * (system.worker lcore).pending.length)) +
    3 * system.shared.ring.length + left system.defsend

theorem perform_left {errand : Errand} (notPush : ∀ packet, errand ≠ .push packet)
    (shared : Shared) (accepted : Bool) :
    (errand.perform shared accepted).1.ring = shared.ring ∧
      left (errand.perform shared accepted).2 < left (some errand) := by
  cases errand with
  | push packet => exact absurd rfl (notPush packet)
  | send packet portid queueid =>
      cases accepted with
      | true => exact ⟨rfl, Nat.zero_lt_succ 1⟩
      | false => exact ⟨rfl, Nat.lt_succ_self 1⟩
  | free packet => exact ⟨rfl, Nat.zero_lt_succ 0⟩

end UAFlow.Forward

namespace UAFlow.Service

open Library AhoCorasick Ddos Forward UserAgent Config

inductive Thread where
  | worker (lcore : Lcore)
  | defsend

/-- A thread has a packet, or is on its way out of a burst. -/
def Machine.Busy (machine : Machine) : Thread → Prop
  | .worker lcore => ∃ burst, machine.system.worker lcore = .forwarding burst
  | .defsend => machine.system.defsend ≠ none ∨ machine.system.shared.ring ≠ []

/-- What a thread that has something to do does next. -/
def Machine.turnOf (machine : Machine) (handling : Handling) (accepted : Bool) : Thread → Event
  | .worker lcore => machine.turn lcore handling accepted
  | .defsend =>
      match machine.system.defsend with
      | none => .pop
      | some _ => .defsendPerform accepted

section Turns

variable {service : Installation} {path : Nat → List UInt8} {entry : List UInt8 → Option AcPattern}
  {machine after : Machine} {sources : Finset Source} {lcore : Lcore} {burst : Burst}

theorem sum_lt_of_update {Index : Type} [Fintype Index] [DecidableEq Index]
    (first second : Index → Nat) (place : Index) (before behind : Nat)
    (others : ∀ other, other ≠ place → second other = first other)
    (less : second place + behind < first place + before) :
    (∑ index, second index) + behind < (∑ index, first index) + before := by
  have rest : ∑ index ∈ Finset.univ.erase place, second index =
      ∑ index ∈ Finset.univ.erase place, first index :=
    Finset.sum_congr rfl fun other among => others other (Finset.ne_of_mem_erase among)
  rw [← Finset.add_sum_erase _ second (Finset.mem_univ place),
    ← Finset.add_sum_erase _ first (Finset.mem_univ place), rest]
  omega

theorem Turned.work_lt {worker : Worker} {shared : Shared}
    (turned : Turned lcore burst machine after worker shared)
    (current : machine.system.worker lcore = .forwarding burst) :
    after.system.work < machine.system.work := by
  have less := turned.less
  have packets := turned.packets
  have ring : after.system.shared = shared := by rw [turned.system]; rfl
  have defsend : after.system.defsend = machine.system.defsend := by rw [turned.system]; rfl
  have sums := sum_lt_of_update
    (fun lcore => (machine.system.worker lcore).work +
      3 * (machine.system.worker lcore).pending.length)
    (fun lcore => (after.system.worker lcore).work +
      3 * (after.system.worker lcore).pending.length) lcore
    (3 * machine.system.shared.ring.length) (3 * shared.ring.length) ?_ ?_
  · unfold System.work
    rw [ring, defsend]
    omega
  · intro other elsewhere
    have same : after.system.worker other = machine.system.worker other := by
      rw [turned.system]
      exact Function.update_of_ne elsewhere ..
    rw [same]
  · show (after.system.worker lcore).work + 3 * (after.system.worker lcore).pending.length + _ <
      (machine.system.worker lcore).work + 3 * (machine.system.worker lcore).pending.length + _
    rw [turned.here, current]
    have whole : (Worker.forwarding burst).work = burst.work := rfl
    omega

theorem defsend_turn (kept : Kept service path entry machine) (busy : machine.Busy .defsend)
    (handling : Handling) (accepted : Bool) :
    ∃ after, service.step machine (machine.turnOf handling accepted .defsend) = some after ∧
      after.system.received = machine.system.received ∧
        after.system.work < machine.system.work := by
  unfold Machine.turnOf
  cases calls : machine.system.defsend with
  | none =>
      obtain waiting | waiting := busy
      · exact absurd calls waiting
      · obtain ⟨packet, ring, first⟩ := List.exists_cons_of_ne_nil waiting
        have stepped : service.step machine .pop = some (machine.popped service packet ring) := by
          simp only [Installation.step, Forward.step, calls, first]
          rfl
        refine ⟨_, stepped, rfl, ?_⟩
        unfold System.work
        rw [calls, first, List.length_cons]
        show (∑ lcore, ((machine.system.worker lcore).work +
          3 * (machine.system.worker lcore).pending.length)) + 3 * ring.length + 2 < _
        omega
  | some errand =>
      -- a packet does not come back to the ring
      have notPush : ∀ packet, errand ≠ .push packet := by
        rintro packet rfl
        obtain send | free := (kept.routed.popped _ calls).2
        · cases send
        · cases free
      obtain ⟨ring, less⟩ := perform_left notPush machine.system.shared accepted
      have stepped : service.step machine (.defsendPerform accepted) = some { machine with
          system := { machine.system with
            shared := (errand.perform machine.system.shared accepted).1
            defsend := (errand.perform machine.system.shared accepted).2 }
          transmissions := machine.transmissions ++ taken (some errand) accepted } := by
        simp only [Installation.step, Forward.step, calls]
      refine ⟨_, stepped, rfl, ?_⟩
      unfold System.work
      dsimp only
      rw [calls, ring]
      omega

structure Draining (service : Installation) (path : Nat → List UInt8)
    (entry : List UInt8 → Option AcPattern) (sources : Finset Source) (received : Nat)
    (machine : Machine) : Prop where
  kept : Kept service path entry machine
  populated : Populated service sources machine
  count : machine.system.received = received

theorem turnOf_brings (machine : Machine) (handling : Handling) (accepted : Bool)
    (thread : Thread) : (machine.turnOf handling accepted thread).Brings sources := by
  cases thread with
  | worker lcore => exact turn_brings machine lcore handling accepted
  | defsend =>
      unfold Machine.turnOf
      dsimp only
      split <;> trivial

/-- A thread with something to do has a turn, and every turn leaves less to do. -/
theorem Draining.turn {received : Nat}
    (draining : Draining service path entry sources received machine)
    (bears : Bears service sources) {thread : Thread} (busy : machine.Busy thread)
    {handling : Handling} (enough : 11 ≤ handling.fuel) (accepted : Bool) :
    ∃ after, service.step machine (machine.turnOf handling accepted thread) = some after ∧
      Draining service path entry sources received after ∧
        after.system.work < machine.system.work := by
  have goes : ∃ after, service.step machine (machine.turnOf handling accepted thread) = some after ∧
      after.system.received = machine.system.received ∧
        after.system.work < machine.system.work := by
    cases thread with
    | worker lcore =>
        obtain ⟨burst, current⟩ := busy
        obtain ⟨after, worker, shared, stepped, turned⟩ := turn_of_forwarding draining.kept.sound
          bears draining.populated current enough accepted
        exact ⟨after, stepped, by rw [turned.system]; rfl, turned.work_lt current⟩
    | defsend => exact defsend_turn draining.kept busy handling accepted
  obtain ⟨after, stepped, count, less⟩ := goes
  exact ⟨after, stepped, ⟨draining.kept.step stepped, draining.populated.step bears
    draining.kept.sound (turnOf_brings _ _ _ _) stepped, count.trans draining.count⟩, less⟩

theorem perm_of_idle (owned : Owned machine.system) (idle : ∀ thread, ¬ machine.Busy thread) :
    (machine.system.serialsAt .transmitted ++ machine.system.serialsAt .freed).Perm
      (List.range machine.system.received) := by
  have apart : (Place.transmitted : Place Lcore) ≠ .freed := by simp
  apply (List.perm_ext_iff_of_nodup (owned.single.nodup_append apart) List.nodup_range).mpr
  intro serial
  constructor
  · intro present
    rcases List.mem_append.mp present with transmitted | freed
    · exact owned.single.known _ serial transmitted
    · exact owned.single.known _ serial freed
  · intro received
    obtain ⟨place, once, -⟩ := owned.single.once serial received
    have present : serial ∈ machine.system.serialsAt place :=
      List.count_pos_iff.mp (Nat.lt_of_lt_of_eq Nat.zero_lt_one once.symm)
    cases place with
    | transmitted => exact List.mem_append_left _ present
    | freed => exact List.mem_append_right _ present
    | pending lcore =>
        exfalso
        obtain ⟨packet, inside, -⟩ := List.mem_map.mp present
        cases current : machine.system.worker lcore with
        | forwarding burst => exact idle (.worker lcore) ⟨burst, current⟩
        | _ =>
            have nothing : packet ∈ (machine.system.worker lcore).pending := inside
            rw [current] at nothing
            exact List.not_mem_nil nothing
    | ring =>
        have drained := not_not.mp fun waiting => idle .defsend (.inr waiting)
        simp [System.serialsAt, System.packetsAt, drained] at present
    | popped =>
        have drained := not_not.mp fun waiting => idle .defsend (.inl waiting)
        simp [System.serialsAt, System.packetsAt, drained] at present

end Turns

def Installation.Goes (service : Installation) (thread : Machine → Thread) (handling : Machine → Handling)
    (accepted : Machine → Bool) (before : Machine) (event : Event) (after : Machine) : Prop :=
  event = before.turnOf (handling before) (accepted before) (thread before) ∧
    service.step before event = some after

/-- Where the detector has room for the sources of the packets, the service gets rid of its
packets once no more come: if the turns go to threads that have something to do, in whatever
order and whatever they are told, the turns come to an end, and then each packet received has
been transmitted or freed, and once. -/
theorem service_drains (service : Installation) (sources : Finset Source)
    (bears : Bears service sources) (reached : Reached service)
    (brings : ∀ lcore mbufs, .rxBurst lcore mbufs ∈ reached.events →
      ∀ mbuf ∈ mbufs, Expected sources mbuf)
    (thread : Machine → Thread)
    (conserving : ∀ (machine : Machine) (other : Thread), machine.Busy other →
      machine.Busy (thread machine))
    (handling : Machine → Handling) (enough : ∀ machine, 11 ≤ (handling machine).fuel)
    (accepted : Machine → Bool) :
    ∃ turns finish, Run (service.Goes thread handling accepted) reached.machine turns finish ∧
      (∀ thread, ¬ finish.Busy thread) ∧
      (finish.system.serialsAt .transmitted ++ finish.system.serialsAt .freed).Perm
        (List.range reached.machine.system.received) ∧
      turns.length ≤ reached.machine.system.work := by
  obtain ⟨path, entry, initially, -⟩ := service.exists_sound
  obtain ⟨-, populated⟩ := reached.populated initially bears brings
  let Inv := Draining service path entry sources reached.machine.system.received
  have progress : ∀ machine, Inv machine →
      ¬ (Inv machine ∧ ∀ thread, ¬ machine.Busy thread) →
        ∃ event after, service.Goes thread handling accepted machine event after ∧ Inv after ∧
          after.system.work < machine.system.work := by
    intro machine draining unfinished
    obtain ⟨other, busy⟩ := not_forall_not.mp fun idle => unfinished ⟨draining, idle⟩
    obtain ⟨after, stepped, drainingAfter, less⟩ := draining.turn bears
      (conserving machine other busy) (enough machine) (accepted machine)
    exact ⟨_, after, ⟨rfl, stepped⟩, drainingAfter, less⟩
  have begins : Inv reached.machine := ⟨reached.kept initially, populated, rfl⟩
  obtain ⟨turns, finish, run, ⟨draining, idle⟩, short⟩ := Run.exists_of_decreasing
    (fun machine : Machine => machine.system.work) Inv _ progress reached.machine begins
  refine ⟨turns, finish, run, idle, ?_, short⟩
  rw [← draining.count]
  exact perm_of_idle draining.kept.sound.owned idle

theorem exists_conserving :
    ∃ thread : Machine → Thread, ∀ (machine : Machine) (other : Thread), machine.Busy other →
      machine.Busy (thread machine) := by
  classical
  refine ⟨fun machine =>
    if busy : ∃ other, machine.Busy other then busy.choose else .defsend, ?_⟩
  intro machine other busy
  dsimp only
  rw [dif_pos ⟨other, busy⟩]
  exact Exists.choose_spec _

theorem service_drains_one_packet :
    ∃ (service : Installation) (reached : Reached service) (thread : Machine → Thread),
      reached.machine.system.received = 1 ∧
        ∀ (handling : Machine → Handling) (_ : ∀ machine, 11 ≤ (handling machine).fuel)
          (accepted : Machine → Bool), ∃ turns finish,
            Run (service.Goes thread handling accepted) reached.machine turns finish ∧
              (finish.system.serialsAt .transmitted ++
                finish.system.serialsAt .freed).Perm [0] := by
  obtain ⟨service, sources, reached, bears, brings, -, one⟩ := exists_one_packet
  obtain ⟨thread, conserving⟩ := exists_conserving
  refine ⟨service, reached, thread, one, ?_⟩
  intro handling enough accepted
  obtain ⟨turns, finish, run, -, all, -⟩ := service_drains service sources bears reached brings
    thread conserving handling enough accepted
  rw [one] at all
  exact ⟨turns, finish, run, all⟩

end UAFlow.Service
