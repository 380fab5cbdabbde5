import Mathlib.Data.Finset.Card
import Mathlib.Data.Finset.Image
import Mathlib.Data.Finset.Range
import UAFlow.Ddos.Eviction
import UAFlow.Library.Machines

/-!
# The detector without its lists

What the detector is for needs no hash, no list and no array: it remembers for
each source when it was last seen and on which ports.  As long as no bucket is
asked to hold more than ten sources and the pool yields its nodes, the module
answers every packet as this reference does.
-/

namespace UAFlow.Ddos

open Library

/-! ## The reference -/

structure Record where
  lastSeen : UInt32
  ports : Finset UInt16

def Record.created (now : UInt32) : Record := ⟨now, ∅⟩

/-- One packet of a source: the record it leaves, and the verdict. -/
def Record.see (config : FlowDdosConfig) (record : Record) (port : UInt16) (clock : Clock) :
    Record × Int :=
  let ports := if elapsedFires config record.lastSeen clock.tested then ∅ else record.ports
  if port ∈ ports then
    (⟨clock.stamped, ports⟩, 0)
  else if (insert port ports).card > config.scanNumber.toNat then
    (⟨clock.stamped, ∅⟩, 1)
  else
    (⟨clock.stamped, insert port ports⟩, 0)

def answer (config : FlowDdosConfig) (record : Option Record) (port : UInt16) (clock : Clock) :
    Option Record × Int :=
  let (record, verdict) := (record.getD (.created clock.created)).see config port clock
  (some record, verdict)

def Call.key (call : Call) : Table × Source := (call.table, call.source)

/-- One record for each table and source. -/
def reference (config : FlowDdosConfig) : Transducer (Table × Source → Option Record) Call Int :=
  .keyed Call.key fun record call => answer config record call.srcPort call.clock

theorem reference_eq (config : FlowDdosConfig) (records : Table × Source → Option Record)
    (call : Call) {record : Record}
    (kept : (records call.key).getD (.created call.clock.created) = record) :
    reference config records call =
      (Function.update records call.key (some (record.see config call.srcPort call.clock).1),
        (record.see config call.srcPort call.clock).2) := by
  subst kept
  rfl

def noRecords : Table × Source → Option Record := fun _ => none

def Fits (records : Table × Source → Option Record) (call : Call) : Prop :=
  ∀ record, records call.key = some record → record.ports.card < flowDdosEverynodeEntryMaxSz

theorem Record.see_card {config : FlowDdosConfig} {record : Record} {bound : Nat}
    (few : config.scanNumber.toNat ≤ bound) (start : record.ports.card ≤ bound) (port : UInt16)
    (clock : Clock) : (record.see config port clock).1.ports.card ≤ bound := by
  have cleared : (if elapsedFires config record.lastSeen clock.tested then (∅ : Finset UInt16)
      else record.ports).card ≤ bound := by
    split
    · exact Nat.zero_le bound
    · exact start
  unfold Record.see
  generalize (if elapsedFires config record.lastSeen clock.tested then (∅ : Finset UInt16)
    else record.ports) = ports at cleared ⊢
  dsimp only
  split_ifs with known exceeded
  · exact cleared
  · exact Nat.zero_le bound
  · exact (Nat.not_lt.mp exceeded).trans few

theorem card_run_reference {config : FlowDdosConfig} {bound : Nat}
    (few : config.scanNumber.toNat ≤ bound) (calls : List Call) (key : Table × Source) :
    ∀ record, (Transducer.run (reference config) noRecords calls).2 key = some record →
      record.ports.card ≤ bound := by
  induction calls using List.reverseRecOn generalizing key with
  | nil => simp [Transducer.run, noRecords]
  | append_singleton calls call inductionHypothesis =>
      intro record
      rw [Transducer.run_append]
      generalize before : (Transducer.run (reference config) noRecords calls).2 = records at *
      by_cases here : key = call.key
      · subst here
        simp only [Transducer.run, reference, Transducer.keyed, Function.update_self, answer,
          Option.some.injEq]
        rintro rfl
        apply Record.see_card few
        cases known : records call.key with
        | none => exact Nat.zero_le bound
        | some record => exact inductionHypothesis call.key record known
      · simp only [Transducer.run, reference, Transducer.keyed, Function.update_of_ne here]
        exact inductionHypothesis key record

/-! ## The record a node keeps -/

/-- The node of a source keeps this record; what its array holds beyond
`n_packets` does not matter. -/
structure Keeps (source : Source) (node : FlowDdosNode) (record : Record) : Prop where
  own : node.addr.source source.family = source
  lastSeen : node.modtime = record.lastSeen
  addrs : ∀ i < node.nPackets.toNat, (node.entry i).addr.source source.family = source
  ports : record.ports =
    (Finset.range node.nPackets.toNat).image fun i => (node.entry i).port
  count : record.ports.card = node.nPackets.toNat

namespace Keeps

variable {config : FlowDdosConfig} {source : Source} {node : FlowDdosNode} {record : Record}

theorem of_empty {now : UInt32} (same : node.addr.source source.family = source)
    (stamp : node.modtime = now) (empty : node.nPackets = 0) : Keeps source node ⟨now, ∅⟩ where
  own := same
  lastSeen := stamp
  addrs i below := by simp [empty] at below
  ports := by simp [empty]
  count := by simp [empty]

theorem refresh (keeps : Keeps source node record) (config : FlowDdosConfig) (clock : Clock) :
    Keeps source (refresh config node clock) ⟨clock.stamped,
      if elapsedFires config record.lastSeen clock.tested then ∅ else record.ports⟩ := by
  unfold Ddos.refresh
  rw [← keeps.lastSeen]
  split
  · exact of_empty keeps.own rfl rfl
  · exact ⟨keeps.own, rfl, keeps.addrs, keeps.ports, keeps.count⟩

theorem recorded_iff (keeps : Keeps source node record) (port : UInt16) :
    recorded node source port = true ↔ port ∈ record.ports := by
  rw [keeps.ports]
  simp only [recorded, List.any_eq_true, List.mem_range, Bool.and_eq_true, beq_iff_eq,
    Source.heldIn_iff, Finset.mem_image, Finset.mem_range]
  constructor
  · rintro ⟨i, below, same, _⟩
    exact ⟨i, below, same⟩
  · rintro ⟨i, below, same⟩
    exact ⟨i, below, same, keeps.addrs i below⟩

theorem addEntry (keeps : Keeps source node record) {port : UInt16} (new : port ∉ record.ports)
    (room : record.ports.card < flowDdosEverynodeEntryMaxSz) :
    Keeps source (addEntry node source port) ⟨record.lastSeen, insert port record.ports⟩ := by
  have small : node.nPackets.toNat < 1024 := keeps.count ▸ room
  have next : (node.nPackets + 1).toNat = node.nPackets.toNat + 1 := by
    rw [UInt32.toNat_add]
    exact Nat.mod_eq_of_lt (by simp only [UInt32.reduceToNat]; omega)
  refine ⟨keeps.own, keeps.lastSeen, ?_, ?_, ?_⟩
  · intro i below
    have inside : i < node.nPackets.toNat + 1 := next ▸ below
    simp only [Ddos.addEntry]
    by_cases last : i = node.nPackets.toNat
    · rw [last, Function.update_self]
      exact Source.source_store source _
    · rw [Function.update_of_ne last]
      exact keeps.addrs i (by omega)
  · simp only [Ddos.addEntry, next, Finset.range_add_one, Finset.image_insert,
      Function.update_self]
    rw [keeps.ports]
    congr 1
    apply Finset.image_congr
    intro i below
    have inside := Finset.mem_range.mp (Finset.mem_coe.mp below)
    dsimp only
    rw [Function.update_of_ne (Nat.ne_of_lt inside)]
  · simp only [Ddos.addEntry, next]
    rw [Finset.card_insert_of_notMem new, keeps.count]

/-- Behind the join a call answers like the reference, and leaves the record
that the reference leaves. -/
theorem answers {state : FlowDdosState} {call : Call} {item : Nat}
    (keeps : Keeps call.source (state.node item) record) (config : FlowDdosConfig)
    (room : record.ports.card < flowDdosEverynodeEntryMaxSz) :
    ∃ after, flowDdosRecord config state call item =
        .ok (after, (record.see config call.srcPort call.clock).2) ∧
      Keeps call.source (after.node item) (record.see config call.srcPort call.clock).1 := by
  have refreshed := keeps.refresh config call.clock
  unfold flowDdosRecord Record.see
  generalize Ddos.refresh config (state.node item) call.clock = node at refreshed ⊢
  have fewer : (if elapsedFires config record.lastSeen call.clock.tested then ∅
      else record.ports).card < flowDdosEverynodeEntryMaxSz := by
    split
    · exact Nat.succ_pos _
    · exact room
  generalize (if elapsedFires config record.lastSeen call.clock.tested then ∅
    else record.ports) = ports at refreshed fewer ⊢
  have known := refreshed.recorded_iff call.srcPort
  dsimp only at known ⊢
  by_cases old : call.srcPort ∈ ports
  · rw [if_pos (known.mpr old), if_pos old]
    exact ⟨_, rfl, by simpa [FlowDdosState.setNode] using refreshed⟩
  · have added := refreshed.addEntry old fewer
    have space : ¬ node.nPackets.toNat ≥ flowDdosEverynodeEntryMaxSz := by
      rw [← refreshed.count]
      exact Nat.not_le.mpr fewer
    rw [if_neg (mt known.mp old), if_neg space, if_neg old]
    have exceeds : (Ddos.addEntry node call.source call.srcPort).nPackets > config.scanNumber ↔
        (insert call.srcPort ports).card > config.scanNumber.toNat := by
      rw [gt_iff_lt, UInt32.lt_iff_toNat_lt, ← added.count]
    by_cases exceeded : (insert call.srcPort ports).card > config.scanNumber.toNat
    · rw [if_pos (exceeds.mpr exceeded), if_pos exceeded]
      refine ⟨_, rfl, ?_⟩
      simp only [FlowDdosState.setNode, Function.update_self]
      exact of_empty added.own added.lastSeen rfl
    · rw [if_neg (mt exceeds.mp exceeded), if_neg exceeded]
      exact ⟨_, rfl, by simpa [FlowDdosState.setNode] using added⟩

end Keeps

end UAFlow.Ddos
