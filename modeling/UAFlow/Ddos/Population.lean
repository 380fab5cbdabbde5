import UAFlow.Ddos.Overflow

/-!
# Detections that return

When the packets come from sources of which no bucket is asked to hold more than ten, no
detection evicts, and with a scan number below the size of the arrays each one returns,
after no more than eleven steps of its walk, whatever the clock and the pool answer.
-/

namespace UAFlow.Ddos

open Library

/-- No bucket is asked to hold more than ten of the sources. -/
def Roomy (config : FlowDdosConfig) (sources : Finset Source) : Prop :=
  ∀ bucket : Bucket, (sources.filter fun source =>
    source.family = bucket.table.family ∧ config.slotOf bucket.table source = bucket.slot).card ≤ 10

/-- The buckets are rings of at most ten nodes, each for one of the sources. -/
structure Housed (config : FlowDdosConfig) (sources : Finset Source) (state : FlowDdosState)
    (chain : Bucket → List Nat) : Prop where
  chains : Chains state chain
  intact : ∀ table, Intact state chain table
  known : ∀ bucket, ∀ item ∈ chain bucket,
    state.sourceOf bucket.table.family item ∈ sources ∧
      config.slotOf bucket.table (state.sourceOf bucket.table.family item) = bucket.slot

theorem housed_init (config : FlowDdosConfig) (sources : Finset Source)
    (memory : Nat → FlowDdosNode) :
    Housed config sources (flowDdosModuleInit memory) fun _ => [] where
  chains := chains_init memory
  intact := intact_init memory
  known _ _ present := absurd present List.not_mem_nil

namespace Housed

variable {config : FlowDdosConfig} {sources : Finset Source} {state after : FlowDdosState}
  {chain : Bucket → List Nat} {call : Call}

theorem walks (housed : Housed config sources state chain) (bucket : Bucket) :
    Walks state bucket (chain bucket) :=
  ((housed.intact bucket.table).ring bucket.slot).path

theorem room (housed : Housed config sources state chain) (roomy : Roomy config sources)
    (among : call.source ∈ sources)
    (absent : ∀ item ∈ chain (call.bucket config),
      state.sourceOf call.source.family item ≠ call.source) :
    (chain (call.bucket config)).length < 10 := by
  have distinct : ((chain (call.bucket config)).map (state.sourceOf call.source.family) ++
      [call.source]).Nodup := by
    rw [List.nodup_append]
    refine ⟨housed.chains.distinct (call.bucket config), List.nodup_singleton _, ?_⟩
    intro first firstMember second secondMember equality
    obtain ⟨item, inside, same⟩ := List.mem_map.mp firstMember
    exact absent item inside (same.trans (equality.trans (List.mem_singleton.mp secondMember)))
  have subset : ((chain (call.bucket config)).map (state.sourceOf call.source.family) ++
      [call.source]).toFinset ⊆ sources.filter fun source =>
        source.family = (call.bucket config).table.family ∧
          config.slotOf (call.bucket config).table source = (call.bucket config).slot := by
    intro source membership
    rw [List.mem_toFinset, List.mem_append, List.mem_singleton] at membership
    rw [Finset.mem_filter]
    rcases membership with old | rfl
    · obtain ⟨item, inside, rfl⟩ := List.mem_map.mp old
      obtain ⟨known, slot⟩ := housed.known _ item inside
      exact ⟨known, FlowDdosAddr.source_family _ _, slot⟩
    · exact ⟨among, rfl, rfl⟩
  have bound := (Finset.card_le_card subset).trans (roomy (call.bucket config))
  rw [List.toFinset_card_of_nodup distinct, List.length_append, List.length_map,
    List.length_singleton] at bound
  omega

theorem not_evicts (housed : Housed config sources state chain) (roomy : Roomy config sources)
    (among : call.source ∈ sources) : ¬ Evicts config state call := by
  rintro ⟨items, walks, ten, absent, -⟩
  obtain rfl := (housed.chains.walks_eq walks).1
  have room := housed.room roomy among ((not_mem_tracked_iff rfl).mp absent)
  omega

theorem step (housed : Housed config sources state chain) (roomy : Roomy config sources)
    (among : call.source ∈ sources) (stepped : Step config state call after) :
    ∃ chainAfter, Housed config sources after chainAfter := by
  obtain ⟨chainAfter, chains, kept⟩ := housed.chains.step stepped
  refine ⟨chainAfter, chains, ?_, ?_⟩
  · intro table
    obtain ⟨other, otherChains, intact⟩ := (housed.intact table).step housed.chains
      (fun _ => housed.not_evicts roomy among) stepped
    have same : ∀ slot, other ⟨table, slot⟩ = chainAfter ⟨table, slot⟩ := fun slot =>
      (chains.walks_eq (intact.ring slot).path).1
    exact ⟨fun slot => same slot ▸ intact.ring slot, fun slot => same slot ▸ intact.short slot⟩
  · intro bucket item inside
    obtain ⟨rfl, source, -⟩ | ⟨onList, node, -⟩ := kept bucket item inside
    · have source' : after.sourceOf (call.bucket config).table.family item = call.source := source
      rw [source']
      exact ⟨among, rfl⟩
    · have source : after.sourceOf bucket.table.family item =
          state.sourceOf bucket.table.family item := by
        simp only [FlowDdosState.sourceOf, node]
      rw [source]
      exact housed.known bucket item onList

end Housed

theorem flowDdosRecord_room {config : FlowDdosConfig} {state : FlowDdosState} {item bound : Nat}
    (call : Call) (count : (state.node item).nPackets.toNat ≤ bound)
    (small : bound < flowDdosEverynodeEntryMaxSz) :
    ∃ after verdict, flowDdosRecord config state call item = .ok (after, verdict) := by
  have room := Nat.lt_of_le_of_lt (refresh_count count config call.clock) small
  unfold flowDdosRecord
  dsimp only
  by_cases known : recorded (refresh config (state.node item) call.clock) call.source call.srcPort
  · rw [if_pos known]
    exact ⟨_, _, rfl⟩
  · rw [if_neg known, if_neg (Nat.not_le.mpr room)]
    split <;> exact ⟨_, _, rfl⟩

theorem Housed.returns {config : FlowDdosConfig} {sources : Finset Source} {state : FlowDdosState}
    {chain : Bucket → List Nat} {call : Call} {bound fuel : Nat}
    (housed : Housed config sources state chain) (roomy : Roomy config sources)
    (among : call.source ∈ sources) (counts : Counts bound state)
    (small : bound < flowDdosEverynodeEntryMaxSz) (enough : 11 ≤ fuel) :
    ∃ after verdict, detect config fuel state call = .ok (after, verdict) := by
  have short : (chain (call.bucket config)).length ≤ 10 :=
    (housed.intact (call.bucket config).table).short (call.bucket config).slot
  have walked := scanBucket_mono (fuel - ((chain (call.bucket config)).length + 1))
    ((housed.walks (call.bucket config)).scan call.source)
  rw [Nat.add_sub_cancel' (by omega)] at walked
  have scanned : flowDdosScan state (call.bucket config) call.source fuel =
      .ok (scanItems state call.source (chain (call.bucket config)) Scan.start) := walked
  rcases folded : scanItems state call.source (chain (call.bucket config)) Scan.start with
    ⟨found, scan⟩
  rw [folded] at scanned
  rw [detect_arrive]
  cases found with
  | some item =>
      obtain ⟨inside, -⟩ := scanItems_some folded
      rw [arrive_found scanned]
      exact flowDdosRecord_room call (counts item (housed.chains.fresh _ item inside)) small
  | none =>
      obtain ⟨absent, count⟩ := scanItems_none folded
      have room := housed.room roomy among absent
      have notTen : scan.cnt ≠ 10 := by
        rw [count]
        show 0 + _ ≠ 10
        omega
      by_cases granted : call.granted = true
      · rw [arrive_added scanned notTen granted]
        exact flowDdosRecord_empty config _ call _ (insertOf_enlisted config _ call _).empty
      · have refused : arrive config fuel state call = .ok none := by
          simp only [arrive, scanned, if_neg notTen, if_neg granted]
        rw [refused]
        exact ⟨_, _, rfl⟩

end UAFlow.Ddos
