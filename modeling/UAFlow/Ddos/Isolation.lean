import UAFlow.Ddos.Refinement

/-!
# A source has the detector to itself

All nodes come from one pool, and nodes of several sources are on one list.
Still the verdicts of a source depend on its own packets alone: the reference
keeps a record for each table and source, and looks at no other.
-/

namespace UAFlow.Ddos

open Library

structure Packet where
  port : UInt16
  clock : Clock

def Call.packet (call : Call) : Packet := ⟨call.srcPort, call.clock⟩

def Call.isFor (key : Table × Source) (call : Call) : Bool := call.key = key

/-- The verdicts of a source that no other shares the detector with. -/
def alone (config : FlowDdosConfig) (packets : List Packet) : List Int :=
  (Transducer.run (fun record packet => answer config record packet.port packet.clock) none
    packets).1

theorem answersTo_reference (config : FlowDdosConfig) (key : Table × Source) (calls : List Call) :
    answersTo (Call.isFor key) calls (Transducer.run (reference config) noRecords calls).1 =
      alone config ((calls.filter (Call.isFor key)).map Call.packet) := by
  have own := answersTo_keyed Call.key
    (fun record (call : Call) => answer config record call.srcPort call.clock) key calls noRecords
  rw [alone, Transducer.run_map]
  exact own

/-- The verdicts of a source are a function of its own packets, and are the same
when all other calls are deleted from the run. -/
theorem verdicts_of_own_packets (config : FlowDdosConfig) (memory : Nat → FlowDdosNode)
    (calls : List Call) (key : Table × Source) (number : config.scanNumber.toNat < 1024)
    (uncrowded : Uncrowded config calls) (granted : ∀ call ∈ calls, call.granted = true)
    (extra : Nat) :
    ∃ verdicts finish,
      Machine.run (detect config (11 + extra)) (flowDdosModuleInit memory) calls =
          (verdicts, .ok finish) ∧
        answersTo (Call.isFor key) calls verdicts =
          alone config ((calls.filter (Call.isFor key)).map Call.packet) ∧
        ∀ otherMemory, ∃ otherFinish,
          Machine.run (detect config (11 + extra)) (flowDdosModuleInit otherMemory)
              (calls.filter (Call.isFor key)) =
            (answersTo (Call.isFor key) calls verdicts, .ok otherFinish) := by
  obtain ⟨finish, _, returned, _⟩ := run_reference config memory calls uncrowded granted
    (fun before call _ _ => fits_of_number number before call) extra
  have own := answersTo_reference config key calls
  refine ⟨_, finish, returned, own, fun otherMemory => ?_⟩
  have fewer : (calls.filter (Call.isFor key)).Sublist calls := List.filter_sublist
  obtain ⟨otherFinish, _, otherReturned, _⟩ := run_reference config otherMemory
    (calls.filter (Call.isFor key)) (uncrowded.of_sublist fewer)
    (fun call membership => granted call (fewer.subset membership))
    (fun before call _ _ => fits_of_number number before call) extra
  have remaining := answersTo_reference config key (calls.filter (Call.isFor key))
  rw [List.filter_filter, answersTo_all (fun call membership => List.of_mem_filter membership)
    (Transducer.run_length _ _ _)] at remaining
  simp only [Bool.and_self] at remaining
  exact ⟨otherFinish, by rw [otherReturned, own, remaining]⟩

/-- The second port of one source among calls for another source, another core
and the other family, all in colliding buckets. -/
def mixedCalls : List Call :=
  [sourceCall 7, sourceCall 8, { sourceCall 7 with core := ⟨1, by decide⟩ },
    { sourceCall 7 with source := .v6 ⟨7, 0⟩ }, { sourceCall 7 with srcPort := 84 }]

theorem verdicts_of_own_packets_mixed :
    ∃ verdicts finish,
      Machine.run (detect { collidingConfig with scanNumber := 1 } (11 + 0))
          (flowDdosModuleInit blankMemory) mixedCalls = (verdicts, .ok finish) ∧
        answersTo (Call.isFor (⟨.v4, 0⟩, .v4 7)) mixedCalls verdicts = [0, 1] ∧
        ∀ otherMemory, ∃ otherFinish,
          Machine.run (detect { collidingConfig with scanNumber := 1 } (11 + 0))
              (flowDdosModuleInit otherMemory)
              (mixedCalls.filter (Call.isFor (⟨.v4, 0⟩, .v4 7))) =
            (answersTo (Call.isFor (⟨.v4, 0⟩, .v4 7)) mixedCalls verdicts, .ok otherFinish) :=
  verdicts_of_own_packets { collidingConfig with scanNumber := 1 } blankMemory mixedCalls
    (⟨.v4, 0⟩, .v4 7) (by decide) (uncrowded_of_short _ (by decide)) (by decide) 0

end UAFlow.Ddos
