import UAFlow.Ddos.Reference

/-!
# The module follows the reference

`Represents` relates a state to the records the reference keeps after the same
calls: each node on a list keeps the record of its source, and a source on no
list has none.  Every call keeps it, and answers like the reference.
-/

namespace UAFlow.Ddos

open Library

/-- No bucket is asked to hold more than ten sources. -/
def Uncrowded (config : FlowDdosConfig) (calls : List Call) : Prop :=
  ∀ bucket, ((calls.filter fun call => call.bucket config = bucket).map Call.source).toFinset.card
    ≤ 10

structure Represents (config : FlowDdosConfig) (calls : List Call) (state : FlowDdosState)
    (chain : Bucket → List Nat) (records : Table × Source → Option Record) : Prop where
  chains : Chains state chain
  intact : ∀ table, Intact state chain table
  kept : ∀ bucket, ∀ item ∈ chain bucket, ∃ record,
    records (bucket.table, state.sourceOf bucket.table.family item) = some record ∧
      Keeps (state.sourceOf bucket.table.family item) (state.node item) record
  unseen : ∀ table source, source.family = table.family →
    (∀ item ∈ chain ⟨table, config.slotOf table source⟩,
      state.sourceOf table.family item ≠ source) → records (table, source) = none
  called : ∀ bucket, ∀ item ∈ chain bucket, ∃ call ∈ calls, call.bucket config = bucket ∧
    call.source = state.sourceOf bucket.table.family item

theorem represents_init (config : FlowDdosConfig) (memory : Nat → FlowDdosNode) :
    Represents config [] (flowDdosModuleInit memory) (fun _ => []) noRecords where
  chains := chains_init memory
  intact := intact_init memory
  kept _ _ membership := by simp at membership
  unseen _ _ _ _ := rfl
  called _ _ membership := by simp at membership

namespace Represents

variable {config : FlowDdosConfig} {calls : List Call} {state middle after : FlowDdosState}
  {chain chainAfter : Bucket → List Nat} {records : Table × Source → Option Record} {call : Call}

theorem walks (represents : Represents config calls state chain records) (bucket : Bucket) :
    Walks state bucket (chain bucket) :=
  ((represents.intact bucket.table).ring bucket.slot).path

theorem scan (represents : Represents config calls state chain records) (bucket : Bucket)
    (source : Source) (extra : Nat) :
    flowDdosScan state bucket source (11 + extra) =
      .ok (scanItems state source (chain bucket) Scan.start) := by
  have short : (chain bucket).length ≤ 10 := (represents.intact bucket.table).short bucket.slot
  have more := scanBucket_mono (11 + extra - ((chain bucket).length + 1))
    ((represents.walks bucket).scan source)
  rwa [Nat.add_sub_cancel' (by omega)] at more

theorem bucket_eq (represents : Represents config calls state chain records) {bucket : Bucket}
    {item : Nat} (membership : item ∈ chain bucket)
    (same : (bucket.table, state.sourceOf bucket.table.family item) = call.key) :
    bucket = call.bucket config := by
  obtain ⟨earlier, _, here, source⟩ := represents.called bucket item membership
  obtain ⟨table, owner⟩ := Prod.mk.inj same
  rw [← here] at table
  have tables : earlier.table = call.table := table
  rw [← here, Call.bucket, Call.bucket, tables, source, owner]

theorem room (represents : Represents config calls state chain records)
    (uncrowded : Uncrowded config (calls ++ [call]))
    (absent : ∀ item ∈ chain (call.bucket config),
      state.sourceOf call.source.family item ≠ call.source) :
    (chain (call.bucket config)).length ≠ 10 := by
  have distinct : ((chain (call.bucket config)).map (state.sourceOf call.source.family) ++
      [call.source]).Nodup := by
    rw [List.nodup_append]
    refine ⟨represents.chains.distinct (call.bucket config), by simp, ?_⟩
    intro first firstMember second secondMember equality
    obtain ⟨item, inside, same⟩ := List.mem_map.mp firstMember
    exact absent item inside (same.trans (equality.trans (List.mem_singleton.mp secondMember)))
  have subset : ((chain (call.bucket config)).map (state.sourceOf call.source.family) ++
      [call.source]).toFinset ⊆ (((calls ++ [call]).filter fun other =>
        other.bucket config = call.bucket config).map Call.source).toFinset := by
    intro source membership
    simp only [List.toFinset_append, List.mem_toFinset, Finset.mem_union, List.mem_map,
      List.mem_singleton] at membership
    rw [List.mem_toFinset, List.mem_map]
    rcases membership with ⟨item, inside, rfl⟩ | rfl
    · obtain ⟨earlier, membership, here, same⟩ := represents.called _ item inside
      exact ⟨earlier, by simp [membership, here], same⟩
    · exact ⟨call, by simp, rfl⟩
  have bound := (Finset.card_le_card subset).trans (uncrowded (call.bucket config))
  rw [List.toFinset_card_of_nodup distinct, List.length_append, List.length_map,
    List.length_singleton] at bound
  omega

/-- After the join: `item` is the node of the call's source, and the other nodes
are as they were before the call. -/
theorem recorded (represents : Represents config calls state chain records) {item : Nat}
    {record : Record} (chains : Chains middle chainAfter)
    (intact : ∀ table, Intact middle chainAfter table)
    (inside : item ∈ chainAfter (call.bucket config))
    (grows : ∀ bucket, ∀ other ∈ chain bucket, other ∈ chainAfter bucket)
    (others : ∀ bucket, ∀ other ∈ chainAfter bucket, other ≠ item →
      other ∈ chain bucket ∧ middle.node other = state.node other)
    (own : ∀ bucket, item ∈ chain bucket → state.sourceOf call.source.family item = call.source)
    (recorded : Recorded call item middle after)
    (keeps : Keeps call.source (after.node item) record) :
    Represents config (calls ++ [call]) after chainAfter
      (Function.update records call.key (some record)) := by
  have source : after.sourceOf call.source.family item = call.source := keeps.own
  have unchanged : ∀ bucket, ∀ other ∈ chainAfter bucket, other ≠ item →
      other ∈ chain bucket ∧ after.node other = state.node other := by
    intro bucket other membership different
    obtain ⟨before, same⟩ := others bucket other membership different
    exact ⟨before, (recorded.others other different).trans same⟩
  have here : ∀ bucket, item ∈ chainAfter bucket → bucket = call.bucket config :=
    fun bucket membership => chains.apart _ _ item membership inside
  refine ⟨chains.recorded recorded, fun table => (intact table).recorded recorded, ?_, ?_, ?_⟩
  · intro bucket other membership
    by_cases isItem : other = item
    · subst isItem
      obtain rfl := here bucket membership
      have key : ((call.bucket config).table, call.source) = call.key := rfl
      rw [show after.sourceOf (call.bucket config).table.family other = call.source from source,
        key, Function.update_self]
      exact ⟨record, rfl, keeps⟩
    · obtain ⟨before, same⟩ := unchanged bucket other membership isItem
      have sameSource : after.sourceOf bucket.table.family other =
          state.sourceOf bucket.table.family other := by
        simp only [FlowDdosState.sourceOf, same]
      rw [sameSource, same, Function.update_of_ne]
      · exact represents.kept bucket other before
      · intro equality
        obtain rfl := represents.bucket_eq before equality
        have owner : after.sourceOf call.source.family other = call.source :=
          sameSource.trans (Prod.mk.inj equality).2
        exact isItem ((chains.recorded recorded).sourceOf_injective _ membership inside
          (owner.trans source.symm))
  · intro table other family absent
    have different : (table, other) ≠ call.key := by
      intro equality
      obtain ⟨rfl, rfl⟩ := Prod.mk.inj equality
      exact absent item inside source
    rw [Function.update_of_ne different]
    apply represents.unseen table other family
    intro old membership same
    apply absent old (grows _ old membership)
    by_cases isItem : old = item
    · subst isItem
      obtain rfl : table = call.table := congrArg Bucket.table (here _ (grows _ old membership))
      exact source.trans ((own _ membership).symm.trans same)
    · obtain ⟨_, node⟩ := unchanged _ old (grows _ old membership) isItem
      simpa only [FlowDdosState.sourceOf, node] using same
  · intro bucket other membership
    by_cases isItem : other = item
    · subst isItem
      obtain rfl := here bucket membership
      exact ⟨call, by simp, rfl, source.symm⟩
    · obtain ⟨before, same⟩ := unchanged bucket other membership isItem
      obtain ⟨earlier, called, bucketSame, sourceSame⟩ := represents.called bucket other before
      refine ⟨earlier, List.mem_append_left _ called, bucketSame, ?_⟩
      simpa only [FlowDdosState.sourceOf, same] using sourceSame

theorem found (represents : Represents config calls state chain records) {item : Nat} {scan : Scan}
    (scanned : scanItems state call.source (chain (call.bucket config)) Scan.start =
      (some item, scan)) (fits : Fits records call) (extra : Nat) :
    ∃ after, detect config (11 + extra) state call =
        .ok (after, (reference config records call).2) ∧
      Represents config (calls ++ [call]) after chain (reference config records call).1 := by
  obtain ⟨membership, same⟩ := scanItems_some scanned
  obtain ⟨record, known, keeps⟩ := represents.kept _ item membership
  have sameSource : state.sourceOf (call.bucket config).table.family item = call.source := same
  rw [sameSource] at known keeps
  obtain ⟨after, returned, keepsAfter⟩ := keeps.answers config (fits record known)
  have walked := represents.scan (call.bucket config) call.source extra
  rw [scanned] at walked
  have present : records call.key = some record := known
  rw [reference_eq config records call (by rw [present, Option.getD_some])]
  refine ⟨after, by rw [detect_arrive, arrive_found walked, depart, returned], ?_⟩
  exact represents.recorded represents.chains represents.intact membership
    (fun _ _ inside => inside) (fun _ _ inside _ => ⟨inside, rfl⟩) (fun _ _ => same)
    (flowDdosRecord_recorded returned) keepsAfter

theorem added (represents : Represents config calls state chain records) {scan : Scan}
    (scanned : scanItems state call.source (chain (call.bucket config)) Scan.start = (none, scan))
    (uncrowded : Uncrowded config (calls ++ [call])) (granted : call.granted = true)
    (extra : Nat) :
    ∃ after chainAfter, detect config (11 + extra) state call =
        .ok (after, (reference config records call).2) ∧
      Represents config (calls ++ [call]) after chainAfter (reference config records call).1 := by
  obtain ⟨absent, count⟩ := scanItems_none scanned
  have room := represents.room uncrowded absent
  have walked := represents.scan (call.bucket config) call.source extra
  rw [scanned] at walked
  have notFull : scan.cnt ≠ 10 := by
    rw [count]
    simpa [Scan.start] using room
  have enlisted := (insertOf_enlisted config (mempoolGet state) call state.used).of_mempoolGet
  have used := insertOf_used config (mempoolGet state) call state.used
  have arrived := arrive_added walked notFull granted
  generalize insertOf call config (mempoolGet state) call state.used = middle at *
  have keeps : Keeps call.source (middle.node state.used) (.created call.clock.created) :=
    Keeps.of_empty enlisted.source enlisted.modtime enlisted.empty
  obtain ⟨after, returned, keepsAfter⟩ := keeps.answers config (Nat.succ_pos _)
  have unknown : records call.key = none :=
    represents.unseen call.table call.source rfl absent
  have outside : ∀ bucket, state.used ∉ chain bucket :=
    fun bucket inside => Nat.lt_irrefl _ (represents.chains.fresh bucket _ inside)
  have chains := represents.chains.enlist_fresh (represents.walks _) enlisted used absent
  rw [reference_eq config records call (by rw [unknown, Option.getD_none])]
  refine ⟨after, _, by rw [detect_arrive, arrived, depart, returned], represents.recorded chains
    (fun table => (represents.intact table).enlisted represents.chains enlisted (Or.inr rfl)
      fun _ => ⟨rfl, rfl, room⟩) (by simp) ?_ ?_ (fun bucket inside => absurd inside
        (outside bucket)) (flowDdosRecord_recorded returned) keepsAfter⟩
  · intro bucket other membership
    by_cases here : bucket = call.bucket config
    · subst here
      rw [Function.update_self]
      exact List.mem_append_left _ membership
    · rwa [Function.update_of_ne here]
  · intro bucket other membership different
    exact ⟨Chains.mem_of_inserted (List.Subset.refl _) membership different,
      enlisted.others other different⟩

theorem step (represents : Represents config calls state chain records)
    (uncrowded : Uncrowded config (calls ++ [call])) (granted : call.granted = true)
    (fits : Fits records call) (extra : Nat) :
    ∃ after chainAfter, detect config (11 + extra) state call =
        .ok (after, (reference config records call).2) ∧
      Represents config (calls ++ [call]) after chainAfter (reference config records call).1 := by
  rcases scanned : scanItems state call.source (chain (call.bucket config)) Scan.start with
    ⟨found, scan⟩
  cases found with
  | some item =>
      obtain ⟨after, returned, later⟩ := represents.found scanned fits extra
      exact ⟨after, chain, returned, later⟩
  | none => exact represents.added scanned uncrowded granted extra

end Represents

theorem Uncrowded.of_sublist {config : FlowDdosConfig} {calls others : List Call}
    (uncrowded : Uncrowded config calls) (sublist : others.Sublist calls) :
    Uncrowded config others := by
  intro bucket
  refine (Finset.card_le_card ?_).trans (uncrowded bucket)
  intro source membership
  rw [List.mem_toFinset] at membership ⊢
  exact ((sublist.filter _).map _).subset membership

/-- Every run answers like the reference: with at most ten sources in a bucket, a
pool that yields its nodes, and room in the arrays. -/
theorem run_reference (config : FlowDdosConfig) (memory : Nat → FlowDdosNode) (calls : List Call)
    (uncrowded : Uncrowded config calls) (granted : ∀ call ∈ calls, call.granted = true)
    (fits : ∀ before call after, calls = before ++ call :: after →
      Fits (Transducer.run (reference config) noRecords before).2 call) (extra : Nat) :
    ∃ finish chain,
      Machine.run (detect config (11 + extra)) (flowDdosModuleInit memory) calls =
          ((Transducer.run (reference config) noRecords calls).1, .ok finish) ∧
        Represents config calls finish chain
          (Transducer.run (reference config) noRecords calls).2 := by
  have follows := Machine.run_follows (detect config (11 + extra)) (reference config) calls
    (fun before state records => ∃ chain, Represents config before state chain records)
    ⟨_, represents_init config memory⟩ (by
      rintro before call after rfl state records ⟨chain, represents⟩ rfl
      have within : Uncrowded config (before ++ [call]) :=
        uncrowded.of_sublist (by simp)
      obtain ⟨next, chainAfter, returned, later⟩ := represents.step within
        (granted call (by simp)) (fits before call after rfl) extra
      exact ⟨next, returned, chainAfter, later⟩)
  obtain ⟨finish, returned, chain, represents⟩ := follows
  exact ⟨finish, chain, returned, represents⟩

theorem fits_of_number {config : FlowDdosConfig}
    (number : config.scanNumber.toNat < flowDdosEverynodeEntryMaxSz) (before : List Call)
    (call : Call) : Fits (Transducer.run (reference config) noRecords before).2 call := by
  intro record known
  have bound := card_run_reference (Nat.le_of_lt_succ number) before call.key record known
  exact Nat.lt_succ_of_le bound

/-! ## IPv4 packets on one core -/

/-- A packet as the reference detector sees it. -/
structure Sighting where
  source : UInt32
  port : UInt16
  now : UInt32

def Sighting.call (core : Fin flowLcoreMaxSlot) (sighting : Sighting) : Call :=
  ⟨.v4 sighting.source, core, sighting.port, Clock.still sighting.now, true⟩

def referenceDetector (config : FlowDdosConfig) :
    Transducer (UInt32 → Option Record) Sighting Int :=
  .keyed Sighting.source fun record sighting =>
    answer config record sighting.port (Clock.still sighting.now)

/-- The verdicts of any run on one core are those of the reference detector. -/
theorem v4detect_refines_reference (config : FlowDdosConfig) (memory : Nat → FlowDdosNode)
    (core : Fin flowLcoreMaxSlot) (sightings : List Sighting)
    (number : config.scanNumber.toNat < 1024)
    (uncrowded : Uncrowded config (sightings.map (Sighting.call core))) (extra : Nat) :
    ∃ finish, Machine.run (flowDdosModuleV4detect config (11 + extra)) (flowDdosModuleInit memory)
        (sightings.map (Sighting.call core)) =
      ((Transducer.run (referenceDetector config) (fun _ => none) sightings).1, .ok finish) := by
  have granted : ∀ call ∈ sightings.map (Sighting.call core), call.granted = true := by
    intro call membership
    obtain ⟨sighting, _, rfl⟩ := List.mem_map.mp membership
    rfl
  obtain ⟨finish, _, returned, _⟩ := run_reference config memory
    (sightings.map (Sighting.call core)) uncrowded granted
    (fun before call _ _ => fits_of_number number before call) extra
  have detector : Machine.run (flowDdosModuleV4detect config (11 + extra))
        (flowDdosModuleInit memory) (sightings.map (Sighting.call core)) =
      Machine.run (detect config (11 + extra)) (flowDdosModuleInit memory)
        (sightings.map (Sighting.call core)) := by
    apply Machine.run_congr
    intro call membership state
    obtain ⟨sighting, _, rfl⟩ := List.mem_map.mp membership
    rfl
  have verdicts : (Transducer.run (reference config) noRecords
        (sightings.map (Sighting.call core))).1 =
      (Transducer.run (referenceDetector config) (fun _ => none) sightings).1 := by
    apply run_keyed_rename Sighting.source Call.key _ _ fun source => (⟨.v4, core⟩, .v4 source)
    · intro first second same
      exact Source.v4.inj (Prod.mk.inj same).2
    · exact fun _ => rfl
    · exact fun _ _ => rfl
    · exact fun _ => rfl
  exact ⟨finish, by rw [detector, returned, verdicts]⟩

theorem uncrowded_of_short (config : FlowDdosConfig) {calls : List Call}
    (short : calls.length ≤ 10) : Uncrowded config calls := by
  intro bucket
  refine (List.toFinset_card_le _).trans ?_
  rw [List.length_map]
  exact (List.length_filter_le _ _).trans short

/-- Two ports of one source, when one is allowed. -/
theorem v4detect_refines_reference_two :
    ∃ finish, Machine.run
        (flowDdosModuleV4detect { collidingConfig with scanNumber := 1 } (11 + 0))
        (flowDdosModuleInit blankMemory)
        ([⟨7, 80, 0⟩, ⟨8, 80, 0⟩, ⟨7, 81, 0⟩, ⟨7, 81, 0⟩].map (Sighting.call 0)) =
      ([0, 0, 1, 0], .ok finish) :=
  v4detect_refines_reference { collidingConfig with scanNumber := 1 } blankMemory 0
    [⟨7, 80, 0⟩, ⟨8, 80, 0⟩, ⟨7, 81, 0⟩, ⟨7, 81, 0⟩] (by decide)
    (uncrowded_of_short _ (by decide)) 0

end UAFlow.Ddos
