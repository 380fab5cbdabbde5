import Mathlib.Data.List.Perm.Subperm
import UAFlow.Ddos.Chains

/-!
# Eviction and the shape of a table

The eviction branch puts a node that is still linked through
`INIT_LIST_HEAD` and `list_add_tail` without taking it off its list first.  As
long as no call evicts, every bucket of a table is a circular doubly linked
list of at most ten nodes and the table behaves as a map from sources to
records; the first eviction breaks both, wherever in the list the victim sits.
-/

namespace UAFlow.Ddos

open Library

/-- A finite circular doubly linked list through the bucket's head. -/
def BucketLinked (state : FlowDdosState) (bucket : Bucket) : Prop :=
  ∃ cells, Path state.next (state.next (.head bucket)) cells (.head bucket) ∧
    (Cell.head bucket :: cells).Nodup ∧
    ∀ cell ∈ Cell.head bucket :: cells,
      state.prev (state.next cell) = cell ∧ state.next (state.prev cell) = cell

/-- The walk of the next call for `source` ends, at a node with its address or
at the head. -/
def WalkEnds (state : FlowDdosState) (bucket : Bucket) (source : Source) : Prop :=
  ∃ fuel result, flowDdosScan state bucket source fuel = .ok result

def tracked (state : FlowDdosState) (bucket : Bucket) (items : List Nat) : List Source :=
  items.map (state.sourceOf bucket.table.family)

/-- The call's source is absent from a bucket that holds ten. -/
def Full (config : FlowDdosConfig) (state : FlowDdosState) (call : Call) : Prop :=
  ∃ items, Walks state (call.bucket config) items ∧ items.length = 10 ∧
    call.source ∉ tracked state (call.bucket config) items

/-- The call evicts: its bucket is full and some node is below the start value
of `mtime`, so that `old` is not null. -/
def Evicts (config : FlowDdosConfig) (state : FlowDdosState) (call : Call) : Prop :=
  ∃ items, Walks state (call.bucket config) items ∧ items.length = 10 ∧
    call.source ∉ tracked state (call.bucket config) items ∧
    ∃ item ∈ items, (state.node item).modtime < Scan.start.mtime

theorem Evicts.full {config : FlowDdosConfig} {state : FlowDdosState} {call : Call}
    (evicts : Evicts config state call) : Full config state call := by
  obtain ⟨items, walks, length, absent, _⟩ := evicts
  exact ⟨items, walks, length, absent⟩

theorem not_mem_tracked_iff {state : FlowDdosState} {bucket : Bucket} {items : List Nat}
    {source : Source} (family : source.family = bucket.table.family) :
    source ∉ tracked state bucket items ↔
      ∀ item ∈ items, state.sourceOf source.family item ≠ source := by
  simp [tracked, family]

theorem Walks.scan {state : FlowDdosState} {bucket : Bucket} {items : List Nat}
    (walks : Walks state bucket items) (source : Source) :
    flowDdosScan state bucket source (items.length + 1) =
      .ok (scanItems state source items Scan.start) := by
  rw [flowDdosScan, scanBucket_path state bucket source 1 Scan.start walks]
  obtain ⟨result, scan⟩ := scanItems state source items Scan.start
  cases result <;> simp

theorem BucketLinked.of_ring {state : FlowDdosState} {bucket : Bucket} {cells : List Cell}
    (ring : Ring state.next state.prev (.head bucket) cells) : BucketLinked state bucket :=
  ⟨cells, ring.path, ring.nodup, fun cell membership =>
    ⟨ring.prev_next cell membership, ring.next_prev membership⟩⟩

theorem BucketLinked.ring {state : FlowDdosState} {bucket : Bucket}
    (linked : BucketLinked state bucket) :
    ∃ cells, Ring state.next state.prev (.head bucket) cells := by
  obtain ⟨cells, path, nodup, undone⟩ := linked
  exact ⟨cells, path, nodup, fun cell membership => (undone cell membership).1⟩

/-! ## Tables without eviction -/

/-- The buckets of one table are rings of at most ten nodes. -/
structure Intact (state : FlowDdosState) (chain : Bucket → List Nat) (table : Table) : Prop where
  ring : ∀ slot, Ring state.next state.prev (.head ⟨table, slot⟩)
    ((chain ⟨table, slot⟩).map .node)
  short : ∀ slot, (chain ⟨table, slot⟩).length ≤ 10

theorem intact_init (memory : Nat → FlowDdosNode) (table : Table) :
    Intact (flowDdosModuleInit memory) (fun _ => []) table where
  ring _ := Ring.singleton rfl rfl
  short _ := by simp

theorem Intact.recorded {state after : FlowDdosState} {chain : Bucket → List Nat}
    {table : Table} {call : Call} {item : Nat} (intact : Intact state chain table)
    (recorded : Recorded call item state after) : Intact after chain table where
  ring slot := by
    rw [recorded.next, recorded.prev]
    exact intact.ring slot
  short := intact.short

theorem Intact.enlisted {config : FlowDdosConfig} {state middle : FlowDdosState}
    {chain : Bucket → List Nat} {table : Table} {call : Call} {item : Nat} {items : List Nat}
    (intact : Intact state chain table) (chains : Chains state chain)
    (enlisted : Enlisted config call item state middle)
    (known : item ∈ chain (call.bucket config) ∨ item = state.used)
    (own : call.table = table → item = state.used ∧
      items = chain (call.bucket config) ++ [state.used] ∧
      (chain (call.bucket config)).length ≠ 10) :
    Intact middle (Function.update chain (call.bucket config) items) table := by
  refine ⟨?_, ?_⟩
  · intro slot
    by_cases same : ⟨table, slot⟩ = call.bucket config
    · obtain ⟨isUsed, appended, _⟩ := own (congrArg Bucket.table same).symm
      rw [same, Function.update_self, appended, List.map_append, enlisted.next,
        enlisted.prev, isUsed]
      rw [← same] at *
      exact (intact.ring slot).insert_fresh (chains.used_outside _)
    · have frame := (chains.enlisted_foreign enlisted known same).1
      rw [Function.update_of_ne same]
      exact (intact.ring slot).congr (fun cell membership => (frame cell membership).1)
        (fun cell membership => (frame cell membership).2)
  · intro slot
    by_cases same : ⟨table, slot⟩ = call.bucket config
    · obtain ⟨_, appended, room⟩ := own (congrArg Bucket.table same).symm
      have bound := intact.short slot
      rw [same, Function.update_self, appended, List.length_append]
      rw [same] at bound
      simp only [List.length_singleton]
      omega
    · rw [Function.update_of_ne same]
      exact intact.short slot

theorem Intact.step {config : FlowDdosConfig} {state after : FlowDdosState}
    {chain : Bucket → List Nat} {table : Table} {call : Call}
    (intact : Intact state chain table) (chains : Chains state chain)
    (noEviction : call.table = table → ¬ Evicts config state call)
    (stepped : Step config state call after) :
    ∃ chainAfter, Chains after chainAfter ∧ Intact after chainAfter table := by
  cases detected_of_step stepped with
  | found item scan scanned recorded =>
      exact ⟨chain, chains.recorded recorded, intact.recorded recorded⟩
  | evicted old scan middle scanned full victim enlisted used recorded =>
      obtain ⟨fuel, scanned⟩ := scanned
      obtain ⟨walks, absent, count, chosen⟩ := chains.scan_missed scanned
      obtain ⟨membership, below⟩ := chosen old victim
      obtain ⟨before, rest, split⟩ := List.append_of_mem membership
      refine ⟨_, (chains.enlist_old walks split enlisted used absent).recorded recorded,
        (intact.enlisted chains enlisted (.inl membership) ?_).recorded recorded⟩
      intro own
      exact absurd ⟨chain (call.bucket config), walks, count.symm.trans full,
        (not_mem_tracked_iff rfl).mpr absent, old, membership, below⟩ (noEviction own)
  | added scan middle scanned room enlisted used recorded =>
      obtain ⟨fuel, scanned⟩ := scanned
      obtain ⟨walks, absent, count, _⟩ := chains.scan_missed scanned
      refine ⟨_, (chains.enlist_fresh walks enlisted used absent).recorded recorded,
        (intact.enlisted chains enlisted (.inr rfl) ?_).recorded recorded⟩
      exact fun _ => ⟨rfl, rfl, count ▸ room⟩
  | refused scan scanned room exhausted unchanged =>
      subst unchanged
      exact ⟨chain, chains, intact⟩

theorem exists_intact {config : FlowDdosConfig} {memory : Nat → FlowDdosNode} {table : Table}
    {calls : List Call} {state : FlowDdosState} (reached : Reaches config memory calls state)
    (noEviction : ∀ before call middle, before ++ [call] <+: calls →
      Reaches config memory before middle → call.table = table →
        ¬ Evicts config middle call) :
    ∃ chain, Chains state chain ∧ Intact state chain table := by
  apply Run.invariant_while
    (fun state => ∃ chain, Chains state chain ∧ Intact state chain table)
    (fun state (call : Call) => call.table = table → ¬ Evicts config state call)
    _ reached ⟨_, chains_init memory, intact_init memory table⟩ noEviction
  rintro state call after ⟨chain, chains, intact⟩ allowed stepped
  exact intact.step chains allowed stepped

/-! ## The first eviction -/

/-- A call for an absent source and a full bucket can only evict. -/
theorem evicted_of_full {config : FlowDdosConfig} {state after : FlowDdosState} {call : Call}
    {items : List Nat} {chain : Bucket → List Nat} (chains : Chains state chain)
    (walks : Walks state (call.bucket config) items) (length : items.length = 10)
    (absent : call.source ∉ tracked state (call.bucket config) items)
    (stepped : Step config state call after) :
    ∃ before old rest middle, items = before ++ old :: rest ∧
      Enlisted config call old state middle ∧ Recorded call old middle after ∧
      Chains after (Function.update chain (call.bucket config) (before ++ [old])) := by
  obtain ⟨same, walksChain⟩ := chains.walks_eq walks
  subst same
  have scanned := walks.scan call.source
  have missed := scanItems_absent ((not_mem_tracked_iff rfl).mp absent) Scan.start
  rcases folded : scanItems state call.source (chain (call.bucket config)) Scan.start with
    ⟨result, scan⟩
  rw [folded] at scanned missed
  subst missed
  have count := (scanItems_none folded).2
  cases detected_of_step stepped with
  | found item other scannedOther recorded =>
      obtain ⟨fuel, scannedOther⟩ := scannedOther
      cases flowDdosScan_unique scanned scannedOther
  | evicted old other middle scannedOther full victim enlisted used recorded =>
      obtain ⟨fuel, scannedOther⟩ := scannedOther
      obtain ⟨_, absentItems, _, chosen⟩ := chains.scan_missed scannedOther
      obtain ⟨before, rest, split⟩ := List.append_of_mem (chosen old victim).1
      exact ⟨before, old, rest, middle, split, enlisted, recorded,
        (chains.enlist_old walks split enlisted used absentItems).recorded recorded⟩
  | added other middle scannedOther room enlisted used recorded =>
      obtain ⟨fuel, scannedOther⟩ := scannedOther
      cases flowDdosScan_unique scanned scannedOther
      simp only [Scan.start, Nat.zero_add] at count
      omega
  | refused other scannedOther room exhausted unchanged =>
      obtain ⟨fuel, scannedOther⟩ := scannedOther
      cases flowDdosScan_unique scanned scannedOther
      simp only [Scan.start, Nat.zero_add] at count
      omega

theorem not_bucketLinked_of_full {config : FlowDdosConfig} {state after : FlowDdosState}
    {call : Call} {chain : Bucket → List Nat} (chains : Chains state chain)
    (full : Full config state call) (stepped : Step config state call after) :
    ¬ BucketLinked after (call.bucket config) := by
  obtain ⟨items, walks, length, absent⟩ := full
  rcases evicted_of_full chains walks length absent stepped with
    ⟨before, old, rest, middle, split, enlisted, recorded, _⟩
  have same := (chains.walks_eq walks).1
  subst same
  intro linked
  obtain ⟨cells, ring⟩ := linked.ring
  have nodup := chains.cells_nodup (call.bucket config)
  unfold Walks at walks
  rw [split, List.map_append, List.map_cons] at walks nodup
  rw [recorded.next, recorded.prev, enlisted.next, enlisted.prev, chains.prevHead] at ring
  refine not_ring_insert_linked walks nodup ?_ ring
  rw [split]
  rcases List.eq_nil_or_concat rest with empty | ⟨after, final, tail⟩
  · subst empty
    simp
  · rw [List.concat_eq_append] at tail
    subst tail
    rw [show before ++ old :: (after ++ [final]) = (before ++ old :: after) ++ [final] by simp,
      lastCell_append_singleton]
    simp

theorem Evicts.returns {config : FlowDdosConfig} {state : FlowDdosState} {call : Call}
    (evicts : Evicts config state call) : ∃ after, Step config state call after := by
  obtain ⟨items, walks, length, absent, item, membership, below⟩ := evicts
  have scanned := walks.scan call.source
  have missed := scanItems_absent ((not_mem_tracked_iff rfl).mp absent) Scan.start
  rcases folded : scanItems state call.source items Scan.start with ⟨result, scan⟩
  rw [folded] at scanned missed
  subst missed
  have count := (scanItems_none folded).2
  simp only [Scan.start, Nat.zero_add] at count
  have chosen := scanItems_victim folded (.inr ⟨membership, below⟩)
  rcases step_of_absent scanned (by rw [if_pos (count.trans length)]; exact chosen) with
    ⟨after, verdict, returned⟩
  exact ⟨after, verdict, returned⟩

/-- In a run of detections, the buckets of a table are circular doubly linked
lists and their walks end, in every state reached, exactly when no call of the
run for that table evicts. -/
theorem buckets_linked_iff_no_eviction (config : FlowDdosConfig)
    (memory : Nat → FlowDdosNode) (table : Table) (calls : List Call) :
    (∀ before state, before <+: calls → Reaches config memory before state →
        ∀ slot, BucketLinked state ⟨table, slot⟩ ∧
          ∀ source, WalkEnds state ⟨table, slot⟩ source) ↔
      ∀ before call state, before ++ [call] <+: calls →
        Reaches config memory before state → call.table = table →
          ¬ Evicts config state call := by
  constructor
  · intro linked before call state within reached own evicts
    obtain ⟨chain, chains⟩ := exists_chains reached
    obtain ⟨after, stepped⟩ := evicts.returns
    apply not_bucketLinked_of_full chains evicts.full stepped
    subst own
    exact (linked (before ++ [call]) after within (reached.snoc stepped) _).1
  · intro noEviction before state within reached slot
    have allowed : ∀ earlier call middle, earlier ++ [call] <+: before →
        Reaches config memory earlier middle → call.table = table →
          ¬ Evicts config middle call :=
      fun earlier call middle inside => noEviction earlier call middle (inside.trans within)
    obtain ⟨chain, _, intact⟩ := exists_intact reached allowed
    refine ⟨.of_ring (intact.ring slot), fun source => ?_⟩
    exact ⟨_, _, Walks.scan (intact.ring slot).path source⟩

/-! ## Eleven sources in one bucket -/

/-- A hash under which all sources collide, and the shipped window and scan
number. -/
def collidingConfig : FlowDdosConfig :=
  ⟨fun _ _ => 0, fun _ _ => 0, fun _ => 0, 1000, 5000⟩

def blankMemory : Nat → FlowDdosNode :=
  fun _ => ⟨⟨0, 0⟩, 0, 0, fun _ => ⟨0, ⟨0, 0⟩⟩⟩

def sourceCall (i : Nat) : Call :=
  ⟨.v4 (UInt32.ofNat i), 0, 80, Clock.still (UInt32.ofNat i), true⟩

def tenSources : List Call := (List.range 10).map sourceCall

def tenTracked : FlowDdosState :=
  stateAfter collidingConfig 20 (flowDdosModuleInit blankMemory) tenSources

theorem reaches_tenTracked : Reaches collidingConfig blankMemory tenSources tenTracked :=
  run_stateAfter collidingConfig 20 _ tenSources (by decide +kernel)

theorem evicts_tenTracked : Evicts collidingConfig tenTracked (sourceCall 10) := by
  have walks : Walks tenTracked ((sourceCall 10).bucket collidingConfig) (List.range 10) := by
    unfold Walks
    decide +kernel
  refine ⟨List.range 10, walks, rfl, ?_, 0, by simp, ?_⟩
  · decide +kernel
  · decide +kernel

/-- The eleventh source unlinks the bucket. -/
theorem buckets_unlinked_by_eleven :
    ¬ ∀ before state, before <+: tenSources ++ [sourceCall 10] →
        Reaches collidingConfig blankMemory before state →
          ∀ slot, BucketLinked state ⟨⟨.v4, 0⟩, slot⟩ ∧
            ∀ source, WalkEnds state ⟨⟨.v4, 0⟩, slot⟩ source := by
  intro linked
  obtain ⟨chain, chains⟩ := exists_chains reaches_tenTracked
  obtain ⟨after, stepped⟩ := evicts_tenTracked.returns
  apply not_bucketLinked_of_full chains evicts_tenTracked.full stepped
  exact (linked _ after (List.prefix_refl _) (reaches_tenTracked.snoc stepped) _).1

/-! ## The table as a bounded map -/

/-- After an eviction the bucket tracks the previous sources minus one with the
smallest `modtime`, plus the new one; the survivors keep their records. -/
def Replaced (config : FlowDdosConfig) (state : FlowDdosState) (call : Call)
    (items : List Nat) (after : FlowDdosState) : Prop :=
  ∃ victim ∈ items,
    (∀ item ∈ items, (state.node victim).modtime ≤ (state.node item).modtime) ∧
    ∃ itemsAfter, Walks after (call.bucket config) itemsAfter ∧
      (∀ source, source ∈ tracked after (call.bucket config) itemsAfter ↔
        source ∈ tracked state (call.bucket config) items ∧
            source ≠ state.sourceOf call.source.family victim ∨
          source = call.source) ∧
      ∀ item ∈ items, item ≠ victim →
        item ∈ itemsAfter ∧ after.node item = state.node item

/-- After an addition the bucket tracks the previous sources and the new one. -/
def Extended (config : FlowDdosConfig) (state : FlowDdosState) (call : Call)
    (items : List Nat) (after : FlowDdosState) : Prop :=
  ∃ itemsAfter, Walks after (call.bucket config) itemsAfter ∧
    (∀ source, source ∈ tracked after (call.bucket config) itemsAfter ↔
      source ∈ tracked state (call.bucket config) items ∨ source = call.source) ∧
    ∀ item ∈ items, item ∈ itemsAfter ∧ after.node item = state.node item

/-- What a bounded map evicting a least recently modified source does on a
call, and the shape it promises to find before it. -/
def MapStep (config : FlowDdosConfig) (state : FlowDdosState) (call : Call) : Prop :=
  ∃ items, Walks state (call.bucket config) items ∧
    (tracked state (call.bucket config) items).Nodup ∧ items.length ≤ 10 ∧
    (call.source ∈ tracked state (call.bucket config) items →
      ∀ after verdict, Returns config state call after verdict →
        Walks after (call.bucket config) items ∧
          tracked after (call.bucket config) items =
            tracked state (call.bucket config) items) ∧
    (call.source ∉ tracked state (call.bucket config) items →
      (items.length = 10 → ∃ after verdict,
        Returns config state call after verdict ∧ Replaced config state call items after) ∧
      (items.length < 10 → call.granted = true → ∃ after verdict,
        Returns config state call after verdict ∧ Extended config state call items after))

theorem step_of_tracked {config : FlowDdosConfig} {state after : FlowDdosState} {call : Call}
    {chain : Bucket → List Nat} (chains : Chains state chain)
    (walks : Walks state (call.bucket config) (chain (call.bucket config)))
    (present : call.source ∈ tracked state (call.bucket config) (chain (call.bucket config)))
    (stepped : Step config state call after) :
    Walks after (call.bucket config) (chain (call.bucket config)) ∧
      tracked after (call.bucket config) (chain (call.bucket config)) =
        tracked state (call.bucket config) (chain (call.bucket config)) := by
  obtain ⟨item, membership, same⟩ := List.mem_map.mp present
  have contradiction : ∀ scan fuel,
      flowDdosScan state (call.bucket config) call.source fuel ≠ .ok (none, scan) :=
    fun scan fuel scanned => (chains.scan_missed scanned).2.1 item membership same
  cases detected_of_step stepped with
  | found found scan scanned recorded =>
      refine ⟨?_, ?_⟩
      · unfold Walks
        rw [recorded.next]
        exact walks
      · apply List.map_congr_left
        intro other _
        unfold FlowDdosState.sourceOf
        by_cases isFound : other = found
        · rw [isFound, recorded.addr]
        · rw [recorded.others other isFound]
  | evicted old scan middle scanned full victim enlisted used recorded =>
      exact absurd scanned.choose_spec (contradiction _ _)
  | added scan middle scanned room enlisted used recorded =>
      exact absurd scanned.choose_spec (contradiction _ _)
  | refused scan scanned room exhausted unchanged =>
      exact absurd scanned.choose_spec (contradiction _ _)

theorem extended_of_room {config : FlowDdosConfig} {state : FlowDdosState} {call : Call}
    {chain : Bucket → List Nat} (chains : Chains state chain)
    (walks : Walks state (call.bucket config) (chain (call.bucket config)))
    (absent : call.source ∉ tracked state (call.bucket config) (chain (call.bucket config)))
    (room : (chain (call.bucket config)).length < 10) (granted : call.granted = true) :
    ∃ after verdict, Returns config state call after verdict ∧
      Extended config state call (chain (call.bucket config)) after := by
  have scanned := walks.scan call.source
  have missed := scanItems_absent ((not_mem_tracked_iff rfl).mp absent) Scan.start
  rcases folded : scanItems state call.source (chain (call.bucket config)) Scan.start with
    ⟨result, scan⟩
  rw [folded] at scanned missed
  subst missed
  have count := (chains.scan_missed scanned).2.2.1
  rcases step_of_absent scanned (by rw [if_neg (by omega)]; exact granted) with
    ⟨after, verdict, returned⟩
  refine ⟨after, verdict, returned, ?_⟩
  cases detected_of_step ⟨verdict, returned⟩ with
  | found item other scannedOther recorded =>
      cases flowDdosScan_unique scanned scannedOther.choose_spec
  | evicted old other middle scannedOther full victim enlisted used recorded =>
      cases flowDdosScan_unique scanned scannedOther.choose_spec
      omega
  | added other middle scannedOther notTen enlisted used recorded =>
      have kept : ∀ item ∈ chain (call.bucket config), after.node item = state.node item := by
        intro item membership
        have different : item ≠ state.used :=
          Nat.ne_of_lt (chains.fresh _ item membership)
        rw [recorded.others item different, enlisted.others item different]
      refine ⟨chain (call.bucket config) ++ [state.used], ?_, ?_, fun item membership =>
        ⟨List.mem_append_left _ membership, kept item membership⟩⟩
      · unfold Walks
        rw [recorded.next]
        exact chains.walks_fresh walks enlisted
      · have newSource : after.sourceOf call.source.family state.used = call.source := by
          rw [FlowDdosState.sourceOf, recorded.addr]
          exact enlisted.source
        have sources : tracked after (call.bucket config)
              (chain (call.bucket config) ++ [state.used]) =
            tracked state (call.bucket config) (chain (call.bucket config)) ++
              [call.source] := by
          simp only [tracked, List.map_append, List.map_singleton]
          refine congrArg₂ (· ++ ·) (List.map_congr_left ?_) (congrArg List.singleton newSource)
          intro item membership
          simp only [FlowDdosState.sourceOf, kept item membership]
        intro source
        rw [sources, List.mem_append, List.mem_singleton]
  | refused other scannedOther notTen exhausted unchanged =>
      simp [granted] at exhausted

/-- The sources of a bucket when the call's source has taken the victim's place. -/
def replacement (state : FlowDdosState) (call : Call) (items : List Nat) (victim : Nat) :
    List Source :=
  (items.erase victim).map (state.sourceOf call.source.family) ++ [call.source]

theorem replacement_nodup {config : FlowDdosConfig} {state : FlowDdosState} {call : Call}
    {chain : Bucket → List Nat} (chains : Chains state chain)
    (absent : call.source ∉ tracked state (call.bucket config) (chain (call.bucket config)))
    (victim : Nat) : (replacement state call (chain (call.bucket config)) victim).Nodup := by
  have survivors : ((chain (call.bucket config)).erase victim).Sublist
      (chain (call.bucket config)) := List.erase_sublist
  unfold replacement
  rw [List.nodup_append]
  refine ⟨(chains.distinct (call.bucket config)).sublist (survivors.map _), by simp, ?_⟩
  intro first firstMember second secondMember equality
  rw [List.mem_singleton] at secondMember
  obtain ⟨item, inside, itemSource⟩ := List.mem_map.mp firstMember
  exact (not_mem_tracked_iff rfl).mp absent item (List.mem_of_mem_erase inside)
    (itemSource.trans (equality.trans secondMember))

theorem mem_replacement {config : FlowDdosConfig} {state : FlowDdosState} {call : Call}
    {chain : Bucket → List Nat} (chains : Chains state chain) {victim : Nat}
    (membership : victim ∈ chain (call.bucket config)) {source : Source}
    (inside : source ∈ replacement state call (chain (call.bucket config)) victim) :
    source ∈ tracked state (call.bucket config) (chain (call.bucket config)) ∧
        source ≠ state.sourceOf call.source.family victim ∨
      source = call.source := by
  rcases List.mem_append.mp inside with survived | new
  · obtain ⟨item, kept, itemSource⟩ := List.mem_map.mp survived
    obtain ⟨different, here⟩ := (chains.nodup (call.bucket config)).mem_erase_iff.mp kept
    refine .inl ⟨List.mem_map.mpr ⟨item, here, itemSource⟩, ?_⟩
    rw [← itemSource]
    intro equality
    exact different (chains.sourceOf_injective (call.bucket config) here membership equality)
  · exact .inr (List.mem_singleton.mp new)

theorem length_le_of_replaced {config : FlowDdosConfig} {state after : FlowDdosState}
    {call : Call} {chain : Bucket → List Nat} {itemsAfter : List Nat} {victim : Nat}
    (chains : Chains state chain)
    (absent : call.source ∉ tracked state (call.bucket config) (chain (call.bucket config)))
    (membership : victim ∈ chain (call.bucket config))
    (sources : ∀ source, source ∈ tracked after (call.bucket config) itemsAfter ↔
      source ∈ tracked state (call.bucket config) (chain (call.bucket config)) ∧
          source ≠ state.sourceOf call.source.family victim ∨
        source = call.source) :
    (chain (call.bucket config)).length ≤ itemsAfter.length := by
  have subset : replacement state call (chain (call.bucket config)) victim ⊆
      tracked after (call.bucket config) itemsAfter :=
    fun source inside => (sources source).mpr (mem_replacement chains membership inside)
  have enough := ((replacement_nodup chains absent victim).subperm subset).length_le
  have erased := List.length_erase_of_mem membership
  have positive := List.length_pos_of_mem membership
  simp only [replacement, tracked, List.length_append, List.length_map,
    List.length_singleton] at enough
  omega

/-- No returning call replaces a source of a full bucket as the map would: too
few nodes are left on the walk, or it does not end. -/
theorem not_replaced_of_full {config : FlowDdosConfig} {state after : FlowDdosState}
    {call : Call} {items : List Nat} {chain : Bucket → List Nat} (chains : Chains state chain)
    (walks : Walks state (call.bucket config) items) (length : items.length = 10)
    (absent : call.source ∉ tracked state (call.bucket config) items)
    (stepped : Step config state call after) :
    ¬ Replaced config state call items after := by
  rcases evicted_of_full chains walks length absent stepped with
    ⟨before, old, rest, middle, split, enlisted, recorded, chainsAfter⟩
  rintro ⟨victim, membership, _, itemsAfter, walksAfter, sources, _⟩
  have left : itemsAfter = before ++ [old] := by
    simpa using (chainsAfter.walks_eq walksAfter).1
  obtain rfl := (chains.walks_eq walks).1
  have enough := length_le_of_replaced chains absent membership sources
  have total := congrArg List.length split
  simp only [left, List.length_append, List.length_cons, List.length_nil] at enough total
  have empty : rest = [] := List.length_eq_zero_iff.mp (by omega)
  -- The victim was the last node, and points to itself.
  subst empty
  subst left
  have loop : after.next (.node old) = .node old := by
    rw [recorded.next, enlisted.next, chains.prevHead, split, lastCell_append_singleton]
    exact insertNext_last
  have arrives := Path.next_last walksAfter
  rw [show (Cell.head (call.bucket config) :: (before ++ [old]).map Cell.node).getLast
    (by simp) = .node old from lastCell_append_singleton _ before old, loop] at arrives
  cases arrives

/-- In a run of detections, every call for a table does what the bounded map
does, and finds every bucket in the promised shape, exactly when no call of the
run for that table has an absent source and a bucket that holds ten. -/
theorem map_step_iff_no_full (config : FlowDdosConfig) (memory : Nat → FlowDdosNode)
    (table : Table) (calls : List Call) :
    (∀ before call state, before ++ [call] <+: calls → Reaches config memory before state →
        call.table = table → MapStep config state call) ↔
      ∀ before call state, before ++ [call] <+: calls → Reaches config memory before state →
        call.table = table → ¬ Full config state call := by
  constructor
  · intro meets before call state within reached own full
    obtain ⟨chain, chains⟩ := exists_chains reached
    obtain ⟨items, walks, length, absent⟩ := full
    rcases meets before call state within reached own with
      ⟨others, walksOthers, _, _, _, whenAbsent⟩
    have same : others = items :=
      (chains.walks_eq walksOthers).1.trans (chains.walks_eq walks).1.symm
    subst same
    obtain ⟨after, verdict, returned, replaced⟩ := (whenAbsent absent).1 length
    exact not_replaced_of_full chains walks length absent ⟨verdict, returned⟩ replaced
  · intro noFull before call state within reached own
    have allowed : ∀ earlier other middle, earlier ++ [other] <+: before →
        Reaches config memory earlier middle → other.table = table →
          ¬ Evicts config middle other := by
      intro earlier other middle inside reachedMiddle ownOther evicts
      have prefixed : earlier ++ [other] <+: calls :=
        (inside.trans (List.prefix_append before [call])).trans within
      exact noFull earlier other middle prefixed reachedMiddle ownOther evicts.full
    obtain ⟨chain, chains, intact⟩ := exists_intact reached allowed
    subst own
    have walks : Walks state (call.bucket config) (chain (call.bucket config)) :=
      (intact.ring (call.bucket config).slot).path
    refine ⟨_, walks, chains.distinct _, intact.short _, ?_, fun absent => ⟨?_, ?_⟩⟩
    · intro present after verdict returned
      exact step_of_tracked chains walks present ⟨verdict, returned⟩
    · intro length
      exact absurd ⟨_, walks, length, absent⟩ (noFull before call state within reached rfl)
    · intro room granted
      exact extended_of_room chains walks absent room granted

/-- The eleventh source makes the table lose tracked sources. -/
theorem not_map_step_eleven :
    ¬ ∀ before call state, before ++ [call] <+: tenSources ++ [sourceCall 10] →
        Reaches collidingConfig blankMemory before state →
          call.table = ⟨.v4, 0⟩ → MapStep collidingConfig state call := by
  intro meets
  obtain ⟨chain, chains⟩ := exists_chains reaches_tenTracked
  obtain ⟨items, walks, length, absent⟩ := evicts_tenTracked.full
  rcases meets tenSources (sourceCall 10) tenTracked (List.prefix_refl _) reaches_tenTracked
    rfl with ⟨others, walksOthers, _, _, _, whenAbsent⟩
  have same : others = items :=
    (chains.walks_eq walksOthers).1.trans (chains.walks_eq walks).1.symm
  subst same
  obtain ⟨after, verdict, returned, replaced⟩ := (whenAbsent absent).1 length
  exact not_replaced_of_full chains walks length absent ⟨verdict, returned⟩ replaced

end UAFlow.Ddos
