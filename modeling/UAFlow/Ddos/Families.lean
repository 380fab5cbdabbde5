import UAFlow.Ddos.Eviction
import UAFlow.Library.Machines

/-!
# The two detectors compared

`flow_ddos_module_v4detect` and `flow_ddos_module_v6detect` are the same code
twice, but the first clears a node before it stamps it and the second keeps what
the pool memory held.  `Mirrors` relates a state of an IPv4 table to one of an
IPv6 table: the pointers run alike, and two nodes agree in what a walk or a scan
of the entries reads.  What lies beyond `n_packets`, and the twelve bytes of the
union that an IPv4 address leaves alone, may be anything.
-/

namespace UAFlow.Ddos

open Library

/-! ## The cells of one table -/

inductive Place where
  | head (slot : Fin flowDdosNodeListMaxSz)
  | node (item : Nat)
  deriving DecidableEq

namespace Place

def cell (table : Table) : Place → Cell
  | .head slot => .head ⟨table, slot⟩
  | .node item => .node item

@[simp]
theorem cell_head (table : Table) (slot : Fin flowDdosNodeListMaxSz) :
    (head slot).cell table = .head ⟨table, slot⟩ :=
  rfl

@[simp]
theorem cell_node (table : Table) (item : Nat) : (node item).cell table = .node item :=
  rfl

theorem cell_injective (table : Table) : Function.Injective (cell table) := by
  intro first second same
  cases first <;> cases second <;> simp_all [cell]

def Within (used : Nat) : Place → Prop
  | .head _ => True
  | .node item => item < used

theorem Within.mono {used later : Nat} (grows : used ≤ later) {place : Place}
    (within : place.Within used) : place.Within later := by
  cases place with
  | head slot => trivial
  | node item => exact Nat.lt_of_lt_of_le within grows

theorem Within.of_ne {used later item : Nat}
    (known : ∀ old < later, old ≠ item → old < used) {place : Place}
    (within : place.Within later) (different : place ≠ .node item) : place.Within used := by
  cases place with
  | head slot => trivial
  | node old => exact known old within fun same => different (congrArg Place.node same)

end Place

/-- The pointers between the heads of the table and the nodes handed out. -/
structure Linked (table : Table) (used : Nat) (pointers : Cell → Cell) (links : Place → Place) :
    Prop where
  follow : ∀ place : Place, place.Within used →
    pointers (place.cell table) = (links place).cell table
  stays : ∀ place : Place, place.Within used → (links place).Within used

theorem linked_init (table : Table) {pointers : Cell → Cell}
    (own : ∀ bucket, pointers (.head bucket) = .head bucket) :
    Linked table 0 pointers id where
  follow place within := by
    cases place with
    | head slot => exact own ⟨table, slot⟩
    | node item => exact absurd within (Nat.not_lt_zero item)
  stays _ within := within

section Insertion

variable {table : Table} {used later item : Nat} {pointers : Cell → Cell} {links : Place → Place}
  {last : Place}

theorem Linked.insertNext (linked : Linked table used pointers links) (below : item < later)
    (known : ∀ old < later, old ≠ item → old < used) (grows : used ≤ later)
    (slot : Fin flowDdosNodeListMaxSz) :
    Linked table later
      (Library.insertNext pointers (.node item) (last.cell table) (.head ⟨table, slot⟩))
      (Library.insertNext links (.node item) last (.head slot)) where
  follow place within :=
    insertNext_image (Place.cell_injective table) (.node item) last (.head slot)
      fun different => linked.follow place (within.of_ne known different)
  stays place within := by
    simp only [Library.insertNext, Function.update_apply]
    split_ifs with isLast isItem
    · exact below
    · trivial
    · exact (linked.stays place (within.of_ne known isItem)).mono grows

theorem Linked.insertPrev (linked : Linked table used pointers links) (below : item < later)
    (known : ∀ old < later, old ≠ item → old < used) (grows : used ≤ later)
    (inside : last.Within later) (slot : Fin flowDdosNodeListMaxSz) :
    Linked table later
      (Library.insertPrev pointers (.node item) (last.cell table) (.head ⟨table, slot⟩))
      (Library.insertPrev links (.node item) last (.head slot)) where
  follow place within :=
    insertPrev_image (Place.cell_injective table) (.node item) last (.head slot)
      fun different => linked.follow place (within.of_ne known different)
  stays place within := by
    simp only [Library.insertPrev, Function.update_apply]
    split_ifs with isItem isHead
    · exact inside
    · exact below
    · exact (linked.stays place (within.of_ne known isItem)).mono grows

end Insertion

/-! ## Corresponding nodes and tables -/

/-- The IPv6 source of an IPv4 source is another for each, and hashes to the
bucket of the same number. -/
structure Translates (config : FlowDdosConfig) (core : Fin flowLcoreMaxSlot)
    (phi : UInt32 → FlowDdosAddr) : Prop where
  injective : Function.Injective phi
  slot : ∀ srcAddr, config.slotOf ⟨.v6, core⟩ (.v6 (phi srcAddr)) =
    config.slotOf ⟨.v4, core⟩ (.v4 srcAddr)

/-- One packet, given to either detector. -/
structure Arrival where
  srcAddr : UInt32
  srcPort : UInt16
  clock : Clock
  granted : Bool

def Arrival.v4 (core : Fin flowLcoreMaxSlot) (arrival : Arrival) : Call :=
  ⟨.v4 arrival.srcAddr, core, arrival.srcPort, arrival.clock, arrival.granted⟩

def Arrival.v6 (core : Fin flowLcoreMaxSlot) (phi : UInt32 → FlowDdosAddr) (arrival : Arrival) :
    Call :=
  ⟨.v6 (phi arrival.srcAddr), core, arrival.srcPort, arrival.clock, arrival.granted⟩

theorem Arrival.v6_bucket {config : FlowDdosConfig} {core : Fin flowLcoreMaxSlot}
    {phi : UInt32 → FlowDdosAddr} (arrival : Arrival)
    (slot : config.slotOf ⟨.v6, core⟩ (.v6 (phi arrival.srcAddr)) =
      config.slotOf ⟨.v4, core⟩ (.v4 arrival.srcAddr)) :
    (arrival.v6 core phi).bucket config =
      ⟨⟨.v6, core⟩, config.slotOf ⟨.v4, core⟩ (.v4 arrival.srcAddr)⟩ :=
  congrArg (Bucket.mk ⟨.v6, core⟩) slot

structure SameRecord (phi : UInt32 → FlowDdosAddr) (node other : FlowDdosNode) : Prop where
  addr : other.addr = phi node.addr.addrv4
  modtime : other.modtime = node.modtime
  nPackets : other.nPackets = node.nPackets
  entry : ∀ i < node.nPackets.toNat, (other.entry i).port = (node.entry i).port ∧
    (other.entry i).addr = phi (node.entry i).addr.addrv4

structure Mirrors (core : Fin flowLcoreMaxSlot) (phi : UInt32 → FlowDdosAddr)
    (state other : FlowDdosState) : Prop where
  used : other.used = state.used
  next : ∃ links, Linked ⟨.v4, core⟩ state.used state.next links ∧
    Linked ⟨.v6, core⟩ state.used other.next links
  prev : ∃ links, Linked ⟨.v4, core⟩ state.used state.prev links ∧
    Linked ⟨.v6, core⟩ state.used other.prev links
  node : ∀ item < state.used, SameRecord phi (state.node item) (other.node item)

theorem mirrors_init (core : Fin flowLcoreMaxSlot) (phi : UInt32 → FlowDdosAddr)
    (memory otherMemory : Nat → FlowDdosNode) :
    Mirrors core phi (flowDdosModuleInit memory) (flowDdosModuleInit otherMemory) where
  used := rfl
  next := ⟨id, linked_init _ fun _ => rfl, linked_init _ fun _ => rfl⟩
  prev := ⟨id, linked_init _ fun _ => rfl, linked_init _ fun _ => rfl⟩
  node item below := absurd below (Nat.not_lt_zero item)

namespace SameRecord

variable {config : FlowDdosConfig} {phi : UInt32 → FlowDdosAddr} {node other : FlowDdosNode}

theorem refresh (same : SameRecord phi node other) (clock : Clock) :
    SameRecord phi (refresh config node clock) (refresh config other clock) := by
  unfold Ddos.refresh
  rw [same.modtime, same.nPackets]
  split
  · exact ⟨same.addr, rfl, rfl, fun i below => by simp at below⟩
  · exact ⟨same.addr, rfl, rfl, same.entry⟩

theorem heldIn_eq (injective : Function.Injective phi) {addr otherAddr : FlowDdosAddr}
    (image : otherAddr = phi addr.addrv4) (srcAddr : UInt32) :
    (Source.v6 (phi srcAddr)).heldIn otherAddr = (Source.v4 srcAddr).heldIn addr := by
  rw [Bool.eq_iff_iff]
  simp only [Source.heldIn, image, beq_iff_eq, injective.eq_iff]

theorem recorded_eq (same : SameRecord phi node other) (injective : Function.Injective phi)
    (srcAddr : UInt32) (srcPort : UInt16) :
    recorded other (.v6 (phi srcAddr)) srcPort = recorded node (.v4 srcAddr) srcPort := by
  unfold recorded
  rw [same.nPackets, Bool.eq_iff_iff, List.any_eq_true, List.any_eq_true]
  apply exists_congr
  intro i
  apply and_congr_right
  intro membership
  obtain ⟨port, addr⟩ := same.entry i (List.mem_range.mp membership)
  rw [port, heldIn_eq injective addr]

theorem addEntry (same : SameRecord phi node other) (srcAddr : UInt32) (srcPort : UInt16) :
    SameRecord phi (addEntry node (.v4 srcAddr) srcPort)
      (addEntry other (.v6 (phi srcAddr)) srcPort) where
  addr := same.addr
  modtime := same.modtime
  nPackets := congrArg (· + 1) same.nPackets
  entry i below := by
    simp only [Ddos.addEntry] at below ⊢
    rw [same.nPackets]
    by_cases last : i = node.nPackets.toNat
    · rw [last, Function.update_self, Function.update_self]
      exact ⟨rfl, rfl⟩
    · rw [Function.update_of_ne last, Function.update_of_ne last]
      apply same.entry
      have step : (node.nPackets + 1).toNat ≤ node.nPackets.toNat + 1 := by
        rw [UInt32.toNat_add]
        exact Nat.mod_le _ _
      omega

theorem of_enlisted {core : Fin flowLcoreMaxSlot} {arrival : Arrival} {item : Nat}
    {state middle otherState otherMiddle : FlowDdosState}
    (enlisted : Enlisted config (arrival.v4 core) item state middle)
    (otherEnlisted : Enlisted config (arrival.v6 core phi) item otherState otherMiddle) :
    SameRecord phi (middle.node item) (otherMiddle.node item) where
  addr := by
    have own : (middle.node item).addr.addrv4 = arrival.srcAddr := Source.v4.inj enlisted.source
    have otherOwn : (otherMiddle.node item).addr = phi arrival.srcAddr :=
      Source.v6.inj otherEnlisted.source
    rw [own, otherOwn]
  modtime := otherEnlisted.modtime.trans enlisted.modtime.symm
  nPackets := otherEnlisted.empty.trans enlisted.empty.symm
  entry i below := by simp [enlisted.empty] at below

theorem cleared (same : SameRecord phi node other) :
    SameRecord phi { node with nPackets := 0 } { other with nPackets := 0 } where
  addr := same.addr
  modtime := same.modtime
  nPackets := rfl
  entry i below := by simp at below

end SameRecord

namespace Mirrors

variable {config : FlowDdosConfig} {core : Fin flowLcoreMaxSlot} {phi : UInt32 → FlowDdosAddr}
  {state other middle otherMiddle : FlowDdosState} {item : Nat}

/-! ## The walk -/

theorem scanBucket_eq (mirrors : Mirrors core phi state other)
    (injective : Function.Injective phi) (slot : Fin flowDdosNodeListMaxSz) (srcAddr : UInt32)
    (fuel : Nat) {place : Place} (within : place.Within state.used) (scan : Scan) :
    scanBucket other (.head ⟨⟨.v6, core⟩, slot⟩) (.v6 (phi srcAddr)) fuel
        (place.cell ⟨.v6, core⟩) scan =
      scanBucket state (.head ⟨⟨.v4, core⟩, slot⟩) (.v4 srcAddr) fuel
        (place.cell ⟨.v4, core⟩) scan := by
  obtain ⟨links, linked, otherLinked⟩ := mirrors.next
  induction fuel generalizing place scan with
  | zero => rfl
  | succ fuel inductionHypothesis =>
      cases place with
      | head here =>
          simp only [Place.cell_head, scanBucket, Cell.head.injEq, Bucket.mk.injEq, true_and]
      | node item =>
          have same := mirrors.node item within
          have next := linked.follow (.node item) within
          have otherNext := otherLinked.follow (.node item) within
          have rest := inductionHypothesis (linked.stays (.node item) within)
            (scan.visit item (state.node item).modtime)
          simp only [Place.cell_node] at next otherNext
          simp only [Place.cell_node, scanBucket, reduceCtorEq, if_false,
            SameRecord.heldIn_eq injective same.addr, same.modtime, next, otherNext, rest]

theorem scanBucket_within {table : Table} {links : Place → Place}
    (linked : Linked table state.used state.next links) (slot : Fin flowDdosNodeListMaxSz)
    (source : Source) (fuel : Nat) {place : Place} (within : place.Within state.used)
    {scan last : Scan} {found : Option Nat}
    (scanned : scanBucket state (.head ⟨table, slot⟩) source fuel (place.cell table) scan =
      .ok (found, last))
    (start : ∀ old, scan.old = some old → old < state.used) :
    (∀ item, found = some item → item < state.used) ∧
      ∀ old, last.old = some old → old < state.used := by
  induction fuel generalizing place scan with
  | zero => simp [scanBucket] at scanned
  | succ fuel inductionHypothesis =>
      cases place with
      | head here =>
          by_cases atHead : here = slot
          · subst atHead
            rw [Place.cell_head, scanBucket_head] at scanned
            cases scanned
            exact ⟨by simp, start⟩
          · simp [scanBucket, atHead] at scanned
      | node item =>
          have next := linked.follow (.node item) within
          simp only [Place.cell_node] at next
          simp only [Place.cell_node, scanBucket, reduceCtorEq, if_false, next] at scanned
          split at scanned
          next held =>
            cases scanned
            refine ⟨?_, start⟩
            intro found same
            cases same
            exact within
          next notHeld =>
            apply inductionHypothesis (linked.stays _ within) scanned
            intro old chosen
            unfold Scan.visit at chosen
            split at chosen
            next older =>
              cases chosen
              exact within
            next newer => exact start old chosen

theorem flowDdosScan_eq (mirrors : Mirrors core phi state other)
    (injective : Function.Injective phi) (slot : Fin flowDdosNodeListMaxSz) (srcAddr : UInt32)
    (fuel : Nat) :
    flowDdosScan other ⟨⟨.v6, core⟩, slot⟩ (.v6 (phi srcAddr)) fuel =
      flowDdosScan state ⟨⟨.v4, core⟩, slot⟩ (.v4 srcAddr) fuel ∧
    ∀ found last, flowDdosScan state ⟨⟨.v4, core⟩, slot⟩ (.v4 srcAddr) fuel = .ok (found, last) →
      (∀ item, found = some item → item < state.used) ∧
        ∀ old, last.old = some old → old < state.used := by
  obtain ⟨links, linked, otherLinked⟩ := mirrors.next
  have first := linked.follow (.head slot) trivial
  have otherFirst := otherLinked.follow (.head slot) trivial
  have inside := linked.stays (.head slot) trivial
  rw [Place.cell_head] at first otherFirst
  unfold flowDdosScan
  rw [first, otherFirst]
  refine ⟨mirrors.scanBucket_eq injective slot srcAddr fuel inside _, ?_⟩
  intro found last scanned
  exact scanBucket_within linked slot _ fuel inside scanned (by simp [Scan.start])

/-! ## One call -/

theorem enlist (mirrors : Mirrors core phi state other) {arrival : Arrival}
    (enlisted : Enlisted config (arrival.v4 core) item state middle)
    (otherEnlisted : Enlisted config (arrival.v6 core phi) item other otherMiddle)
    (slot : config.slotOf ⟨.v6, core⟩ (.v6 (phi arrival.srcAddr)) =
      config.slotOf ⟨.v4, core⟩ (.v4 arrival.srcAddr))
    (used : otherMiddle.used = middle.used) (grows : state.used ≤ middle.used)
    (below : item < middle.used)
    (known : ∀ old < middle.used, old ≠ item → old < state.used) :
    Mirrors core phi middle otherMiddle := by
  obtain ⟨links, linked, otherLinked⟩ := mirrors.next
  obtain ⟨backs, backLinked, otherBackLinked⟩ := mirrors.prev
  let head := Place.head (config.slotOf ⟨.v4, core⟩ (.v4 arrival.srcAddr))
  have last : state.prev (.head ((arrival.v4 core).bucket config)) =
      (backs head).cell ⟨.v4, core⟩ := backLinked.follow head trivial
  have otherLast : other.prev (.head ((arrival.v6 core phi).bucket config)) =
      (backs head).cell ⟨.v6, core⟩ := by
    rw [arrival.v6_bucket slot]
    exact otherBackLinked.follow head trivial
  have inside : (backs head).Within middle.used := (backLinked.stays head trivial).mono grows
  refine ⟨used, ⟨insertNext links (.node item) (backs head) head, ?_, ?_⟩,
    ⟨insertPrev backs (.node item) (backs head) head, ?_, ?_⟩, ?_⟩
  · rw [enlisted.next, last]
    exact linked.insertNext below known grows _
  · rw [otherEnlisted.next, otherLast, arrival.v6_bucket slot]
    exact otherLinked.insertNext below known grows _
  · rw [enlisted.prev, last]
    exact backLinked.insertPrev below known grows inside _
  · rw [otherEnlisted.prev, otherLast, arrival.v6_bucket slot]
    exact otherBackLinked.insertPrev below known grows inside _
  · intro old within
    by_cases same : old = item
    · subst same
      exact .of_enlisted enlisted otherEnlisted
    · rw [enlisted.others old same, otherEnlisted.others old same]
      exact mirrors.node old (known old within same)

theorem setNode (mirrors : Mirrors core phi state other) {node otherNode : FlowDdosNode}
    (same : SameRecord phi node otherNode) (item : Nat) :
    Mirrors core phi (state.setNode item node) (other.setNode item otherNode) where
  used := mirrors.used
  next := mirrors.next
  prev := mirrors.prev
  node old within := by
    simp only [FlowDdosState.setNode, Function.update_apply]
    split_ifs with here
    · exact same
    · exact mirrors.node old within

theorem record (mirrors : Mirrors core phi state other) (injective : Function.Injective phi)
    (arrival : Arrival) (below : item < state.used) :
    Agrees (fun first second => Mirrors core phi first.1 second.1 ∧ first.2 = second.2)
      (flowDdosRecord config state (arrival.v4 core) item)
      (flowDdosRecord config other (arrival.v6 core phi) item) := by
  have refreshed : SameRecord phi (refresh config (state.node item) (arrival.v4 core).clock)
      (refresh config (other.node item) (arrival.v6 core phi).clock) :=
    (mirrors.node item below).refresh arrival.clock
  unfold flowDdosRecord
  generalize refresh config (state.node item) (arrival.v4 core).clock = node at refreshed ⊢
  generalize refresh config (other.node item) (arrival.v6 core phi).clock = otherNode
    at refreshed ⊢
  have known : recorded otherNode (arrival.v6 core phi).source (arrival.v6 core phi).srcPort =
      recorded node (arrival.v4 core).source (arrival.v4 core).srcPort :=
    refreshed.recorded_eq injective arrival.srcAddr arrival.srcPort
  have added : SameRecord phi
      (addEntry node (arrival.v4 core).source (arrival.v4 core).srcPort)
      (addEntry otherNode (arrival.v6 core phi).source (arrival.v6 core phi).srcPort) :=
    refreshed.addEntry arrival.srcAddr arrival.srcPort
  dsimp only
  rw [known, refreshed.nPackets, added.nPackets]
  split_ifs
  · exact ⟨mirrors.setNode refreshed item, rfl⟩
  · rfl
  · exact ⟨mirrors.setNode added.cleared item, rfl⟩
  · exact ⟨mirrors.setNode added item, rfl⟩

def Arrived (core : Fin flowLcoreMaxSlot) (phi : UInt32 → FlowDdosAddr) :
    Option (FlowDdosState × Nat) → Option (FlowDdosState × Nat) → Prop
  | none, none => True
  | some (middle, item), some (otherMiddle, otherItem) =>
      otherItem = item ∧ item < middle.used ∧ Mirrors core phi middle otherMiddle
  | _, _ => False

/-- Up to the join the calls agree, in their faults too. -/
theorem arrive (mirrors : Mirrors core phi state other) (translates : Translates config core phi)
    (fuel : Nat) (arrival : Arrival) :
    Agrees (Arrived core phi) (arrive config fuel state (arrival.v4 core))
      (arrive config fuel other (arrival.v6 core phi)) := by
  have slot := translates.slot arrival.srcAddr
  obtain ⟨same, inside⟩ := mirrors.flowDdosScan_eq translates.injective
    (config.slotOf ⟨.v4, core⟩ (.v4 arrival.srcAddr)) arrival.srcAddr fuel
  have walked : flowDdosScan other ((arrival.v6 core phi).bucket config)
      (arrival.v6 core phi).source fuel =
      flowDdosScan state ((arrival.v4 core).bucket config) (arrival.v4 core).source fuel := by
    rw [arrival.v6_bucket slot]
    exact same
  unfold Ddos.arrive
  rw [walked]
  cases scanned : flowDdosScan state ((arrival.v4 core).bucket config) (arrival.v4 core).source
    fuel with
  | error fault => rfl
  | ok result =>
      obtain ⟨found, last⟩ := result
      obtain ⟨foundWithin, oldWithin⟩ := inside found last scanned
      cases found with
      | some item => exact ⟨rfl, foundWithin item rfl, mirrors⟩
      | none =>
          dsimp only
          by_cases full : last.cnt = 10
          · rw [if_pos full, if_pos full]
            cases victim : last.old with
            | none => rfl
            | some old =>
                have below := oldWithin old victim
                have enlisted := (insertOf_enlisted config (evictOld state (arrival.v4 core) old)
                  (arrival.v4 core) old).of_evictOld
                have otherEnlisted := (insertOf_enlisted config
                  (evictOld other (arrival.v6 core phi) old) (arrival.v6 core phi) old).of_evictOld
                exact ⟨rfl, below, mirrors.enlist enlisted otherEnlisted slot mirrors.used
                  (Nat.le_refl _) below fun _ within _ => within⟩
          · rw [if_neg full, if_neg full]
            rw [show (arrival.v4 core).granted = arrival.granted from rfl,
              show (arrival.v6 core phi).granted = arrival.granted from rfl, mirrors.used]
            by_cases granted : arrival.granted = true
            · rw [if_pos granted, if_pos granted]
              have below : state.used < (mempoolGet state).used := Nat.lt_succ_self _
              have enlisted := (insertOf_enlisted config (mempoolGet state) (arrival.v4 core)
                state.used).of_mempoolGet
              have otherEnlisted := (insertOf_enlisted config (mempoolGet other)
                (arrival.v6 core phi) state.used).of_mempoolGet
              refine ⟨rfl, below, mirrors.enlist enlisted otherEnlisted slot
                (congrArg (· + 1) mirrors.used) (Nat.le_succ _) below ?_⟩
              intro old within different
              exact Nat.lt_of_le_of_ne (Nat.le_of_lt_succ within) different
            · rw [if_neg granted, if_neg granted]
              trivial

theorem detect (mirrors : Mirrors core phi state other) (translates : Translates config core phi)
    (fuel : Nat) (arrival : Arrival) :
    Agrees (fun first second => Mirrors core phi first.1 second.1 ∧ first.2 = second.2)
      (flowDdosModuleV4detect config fuel state (arrival.v4 core))
      (flowDdosModuleV6detect config fuel other (arrival.v6 core phi)) := by
  have arrived := mirrors.arrive translates fuel arrival
  have left : flowDdosModuleV4detect config fuel state (arrival.v4 core) =
      depart config state (arrival.v4 core) (Ddos.arrive config fuel state (arrival.v4 core)) :=
    detect_arrive config fuel state (arrival.v4 core)
  have right : flowDdosModuleV6detect config fuel other (arrival.v6 core phi) =
      depart config other (arrival.v6 core phi)
        (Ddos.arrive config fuel other (arrival.v6 core phi)) :=
    detect_arrive config fuel other (arrival.v6 core phi)
  rw [left, right]
  cases first : Ddos.arrive config fuel state (arrival.v4 core) with
  | error fault =>
      cases second : Ddos.arrive config fuel other (arrival.v6 core phi) with
      | error otherFault => rwa [first, second] at arrived
      | ok otherPlace =>
          rw [first, second] at arrived
          exact arrived.elim
  | ok place =>
      cases second : Ddos.arrive config fuel other (arrival.v6 core phi) with
      | error otherFault =>
          rw [first, second] at arrived
          exact arrived.elim
      | ok otherPlace =>
          rw [first, second] at arrived
          cases place with
          | none =>
              cases otherPlace with
              | none => exact ⟨mirrors, rfl⟩
              | some otherPlace => exact arrived.elim
          | some place =>
              cases otherPlace with
              | none => exact arrived.elim
              | some otherPlace =>
                  obtain ⟨middle, item⟩ := place
                  obtain ⟨otherMiddle, otherItem⟩ := otherPlace
                  obtain ⟨rfl, below, alike⟩ := arrived
                  exact alike.record translates.injective arrival below

end Mirrors

/-! ## Whole runs -/

/-- On translated sources the IPv6 detector gives the verdicts of the IPv4
detector, and leaves a corresponding table; a call that does not return, or that
faults, does so in both. -/
theorem v6detect_mirrors_v4detect (config : FlowDdosConfig) (core : Fin flowLcoreMaxSlot)
    (phi : UInt32 → FlowDdosAddr) (translates : Translates config core phi)
    (memory otherMemory : Nat → FlowDdosNode) (fuel : Nat) (arrivals : List Arrival) :
    (Machine.run (flowDdosModuleV4detect config fuel) (flowDdosModuleInit memory)
        (arrivals.map (Arrival.v4 core))).1 =
      (Machine.run (flowDdosModuleV6detect config fuel) (flowDdosModuleInit otherMemory)
        (arrivals.map (Arrival.v6 core phi))).1 ∧
    Agrees (Mirrors core phi)
      (Machine.run (flowDdosModuleV4detect config fuel) (flowDdosModuleInit memory)
        (arrivals.map (Arrival.v4 core))).2
      (Machine.run (flowDdosModuleV6detect config fuel) (flowDdosModuleInit otherMemory)
        (arrivals.map (Arrival.v6 core phi))).2 := by
  apply Machine.run_agrees
  · intro state other arrival mirrors
    exact mirrors.detect translates fuel arrival
  · exact mirrors_init core phi memory otherMemory

/-- The IPv4 address in front of twelve zero bytes. -/
def paddedAddr (srcAddr : UInt32) : FlowDdosAddr := ⟨srcAddr, 0⟩

theorem translates_padded : Translates collidingConfig 0 paddedAddr where
  injective _ _ same := (FlowDdosAddr.mk.inj same).1
  slot _ := rfl

def stainedMemory : Nat → FlowDdosNode :=
  fun _ => ⟨⟨5, 5⟩, 6, 7, fun _ => ⟨80, ⟨1, 0⟩⟩⟩

def twelveArrivals : List Arrival :=
  (List.range 12).map fun i => ⟨UInt32.ofNat i, 80, Clock.still (UInt32.ofNat i), true⟩

theorem v6detect_mirrors_v4detect_twelve :
    (Machine.run (flowDdosModuleV4detect collidingConfig 20) (flowDdosModuleInit blankMemory)
        (twelveArrivals.map (Arrival.v4 0))).1 =
      (Machine.run (flowDdosModuleV6detect collidingConfig 20) (flowDdosModuleInit stainedMemory)
        (twelveArrivals.map (Arrival.v6 0 paddedAddr))).1 ∧
    Agrees (Mirrors 0 paddedAddr)
      (Machine.run (flowDdosModuleV4detect collidingConfig 20) (flowDdosModuleInit blankMemory)
        (twelveArrivals.map (Arrival.v4 0))).2
      (Machine.run (flowDdosModuleV6detect collidingConfig 20) (flowDdosModuleInit stainedMemory)
        (twelveArrivals.map (Arrival.v6 0 paddedAddr))).2 :=
  v6detect_mirrors_v4detect collidingConfig 0 paddedAddr translates_padded blankMemory
    stainedMemory 20 twelveArrivals

end UAFlow.Ddos
