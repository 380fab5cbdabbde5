import UAFlow.Config.Load
import UAFlow.Ddos.Refinement

/-!
# The entry array of a node

A node has room for 1024 entries, and `n_packets` is cleared when it exceeds the
scan number.  The scan number is whatever `atoi` makes of `CKNumber`; the loader
accepts every value, the array only those below its size.
-/

namespace UAFlow.Ddos

open Library Config

/-- The loop over the entries of the node a call comes to reads inside the
array, and so does the call write a new entry. -/
def InBounds (config : FlowDdosConfig) (state : FlowDdosState) (call : Call) : Prop :=
  ∀ fuel middle item, arrive config fuel state call = .ok (some (middle, item)) →
    let node := refresh config (middle.node item) call.clock
    (∀ i < node.nPackets.toNat, i < flowDdosEverynodeEntryMaxSz) ∧
      (recorded node call.source call.srcPort = false →
        node.nPackets.toNat < flowDdosEverynodeEntryMaxSz)

/-! ## A small scan number -/

section Small

variable {config : FlowDdosConfig} {state middle after : FlowDdosState} {call : Call}
  {chain : Bucket → List Nat} {item fuel bound : Nat}

def Counts (bound : Nat) (state : FlowDdosState) : Prop :=
  ∀ item < state.used, (state.node item).nPackets.toNat ≤ bound

theorem counts_init (memory : Nat → FlowDdosNode) : Counts bound (flowDdosModuleInit memory) :=
  fun item below => absurd below (Nat.not_lt_zero item)

theorem Counts.enlisted (counts : Counts bound state)
    (enlisted : Enlisted config call item state middle)
    (known : ∀ old < middle.used, old ≠ item → old < state.used) : Counts bound middle := by
  intro old below
  by_cases here : old = item
  · rw [here, enlisted.empty]
    exact Nat.zero_le bound
  · rw [enlisted.others old here]
    exact counts old (known old below here)

theorem Counts.arrive (counts : Counts bound state) (chains : Chains state chain)
    (arrived : arrive config fuel state call = .ok (some (middle, item))) :
    item < middle.used ∧ Counts bound middle := by
  unfold Ddos.arrive at arrived
  split at arrived
  next fault failed => simp at arrived
  next found scan scanned =>
    cases arrived
    exact ⟨chains.fresh _ _ (chains.scan_found scanned).1, counts⟩
  next scan scanned =>
    obtain ⟨_, _, _, chosen⟩ := chains.scan_missed scanned
    split at arrived
    next full =>
      split at arrived
      next missing => simp at arrived
      next old victim =>
        have enlisted := (insertOf_enlisted config (evictOld state call old) call old).of_evictOld
        have used := insertOf_used config (evictOld state call old) call old
        have below := chains.fresh _ _ (chosen old victim).1
        cases arrived
        refine ⟨by rw [used]; exact below, counts.enlisted enlisted ?_⟩
        intro other otherBelow _
        rwa [used] at otherBelow
    next room =>
      split at arrived
      next granted =>
        cases arrived
        have enlisted :=
          (insertOf_enlisted config (mempoolGet state) call state.used).of_mempoolGet
        have used := insertOf_used config (mempoolGet state) call state.used
        have handed : (mempoolGet state).used = state.used + 1 := rfl
        refine ⟨by rw [used, handed]; exact Nat.lt_succ_self _, counts.enlisted enlisted ?_⟩
        intro old below different
        rw [used, handed] at below
        exact Nat.lt_of_le_of_ne (Nat.le_of_lt_succ below) different
      next refused => simp at arrived

theorem refresh_count (count : (middle.node item).nPackets.toNat ≤ bound)
    (config : FlowDdosConfig) (clock : Clock) :
    (refresh config (middle.node item) clock).nPackets.toNat ≤ bound := by
  simp only [refresh]
  split
  · exact Nat.zero_le bound
  · exact count

theorem flowDdosRecord_count {verdict : Int} (few : config.scanNumber.toNat ≤ bound)
    (count : (middle.node item).nPackets.toNat ≤ bound)
    (returned : flowDdosRecord config middle call item = .ok (after, verdict)) :
    (after.node item).nPackets.toNat ≤ bound := by
  have refreshed := refresh_count count config call.clock
  unfold flowDdosRecord at returned
  generalize refresh config (middle.node item) call.clock = node at returned refreshed
  dsimp only at returned
  split at returned
  next known =>
    cases returned
    simpa [FlowDdosState.setNode] using refreshed
  next unknown =>
    split at returned
    next full => simp at returned
    next room =>
      split at returned
      next exceeded =>
        cases returned
        simp [FlowDdosState.setNode]
      next within =>
        cases returned
        have below := UInt32.le_iff_toNat_le.mp (UInt32.not_lt.mp within)
        simpa [FlowDdosState.setNode] using Nat.le_trans below few

theorem Counts.step (few : config.scanNumber.toNat ≤ bound) (counts : Counts bound state)
    (chains : Chains state chain) (stepped : Step config state call after) :
    Counts bound after := by
  obtain ⟨verdict, fuel, returned⟩ := stepped
  rw [detect_arrive] at returned
  cases arrived : Ddos.arrive config fuel state call with
  | error fault => simp [arrived, depart] at returned
  | ok place =>
      cases place with
      | none =>
          rw [arrived] at returned
          cases returned
          exact counts
      | some place =>
          obtain ⟨middle, item⟩ := place
          rw [arrived, depart] at returned
          obtain ⟨below, countsMiddle⟩ := counts.arrive chains arrived
          have recorded := flowDdosRecord_recorded returned
          intro other otherBelow
          rw [recorded.used] at otherBelow
          by_cases here : other = item
          · rw [here]
            exact flowDdosRecord_count few (countsMiddle item below) returned
          · rw [recorded.others other here]
            exact countsMiddle other otherBelow

theorem counts_of_reaches {memory : Nat → FlowDdosNode} {calls : List Call}
    (few : config.scanNumber.toNat ≤ bound) (reached : Reaches config memory calls state) :
    Counts bound state := by
  have both : Counts bound state ∧ ∃ chain, Chains state chain := by
    apply Run.invariant (fun state => Counts bound state ∧ ∃ chain, Chains state chain) _ reached
      ⟨counts_init memory, _, chains_init memory⟩
    rintro state call after ⟨counts, chain, chains⟩ stepped
    obtain ⟨chainAfter, chainsAfter, _⟩ := chains.step stepped
    exact ⟨counts.step few chains stepped, chainAfter, chainsAfter⟩
  exact both.1

theorem inBounds_of_small {memory : Nat → FlowDdosNode} {calls : List Call}
    (small : config.scanNumber.toNat < flowDdosEverynodeEntryMaxSz)
    (reached : Reaches config memory calls state) (call : Call) : InBounds config state call := by
  intro fuel middle item arrived
  obtain ⟨chain, chains⟩ := exists_chains reached
  have counts := counts_of_reaches (Nat.le_refl _) reached
  obtain ⟨below, countsMiddle⟩ := counts.arrive chains arrived
  have count := refresh_count (countsMiddle item below) config call.clock
  have room := Nat.lt_of_le_of_lt count small
  exact ⟨fun i inside => Nat.lt_trans inside room, fun _ => room⟩

end Small

/-! ## A large scan number -/

section Large

variable {config : FlowDdosConfig}

def scanCall (port : Nat) : Call :=
  ⟨.v4 7, (sourceCall 7).core, UInt16.ofNat port, Clock.still 0, true⟩

def scanCalls (count : Nat) : List Call := (List.range count).map scanCall

theorem scanCalls_succ (count : Nat) :
    scanCalls (count + 1) = scanCalls count ++ [scanCall count] := by
  simp [scanCalls, List.range_succ]

def scanPorts (count : Nat) : Finset UInt16 := (Finset.range count).image UInt16.ofNat

theorem scanPorts_succ (count : Nat) :
    scanPorts (count + 1) = insert (UInt16.ofNat count) (scanPorts count) := by
  rw [scanPorts, Finset.range_add_one, Finset.image_insert]
  rfl

theorem port_fresh {count : Nat} (small : count ≤ flowDdosEverynodeEntryMaxSz) :
    UInt16.ofNat count ∉ scanPorts count := by
  intro membership
  obtain ⟨port, below, same⟩ := Finset.mem_image.mp membership
  have inside := Finset.mem_range.mp below
  have fits : count < UInt16.size := Nat.lt_of_le_of_lt small (by decide)
  have values := congrArg UInt16.toNat same
  rw [UInt16.toNat_ofNat_of_lt' (Nat.lt_trans inside fits),
    UInt16.toNat_ofNat_of_lt' fits] at values
  exact Nat.ne_of_lt inside values

theorem scanPorts_card {count : Nat} (small : count ≤ flowDdosEverynodeEntryMaxSz) :
    (scanPorts count).card = count := by
  induction count with
  | zero => rfl
  | succ count inductionHypothesis =>
      rw [scanPorts_succ, Finset.card_insert_of_notMem (port_fresh (Nat.le_of_succ_le small)),
        inductionHypothesis (Nat.le_of_succ_le small)]

def scanRecord : Nat → Option Record
  | 0 => none
  | count + 1 => some ⟨0, scanPorts (count + 1)⟩

theorem scanRecord_getD (count : Nat) :
    (scanRecord count).getD (.created 0) = ⟨0, scanPorts count⟩ := by
  cases count <;> rfl

theorem elapsedFires_same (config : FlowDdosConfig) (now : UInt32) :
    elapsedFires config now now = false := by
  simp [elapsedFires]

theorem see_scan (large : flowDdosEverynodeEntryMaxSz ≤ config.scanNumber.toNat) {count : Nat}
    (small : count < flowDdosEverynodeEntryMaxSz) :
    (Record.see config ⟨0, scanPorts count⟩ (UInt16.ofNat count) (Clock.still 0)).1 =
      ⟨0, scanPorts (count + 1)⟩ := by
  have fresh := port_fresh (Nat.le_of_lt small)
  have card := scanPorts_card (Nat.succ_le_of_lt small)
  rw [scanPorts_succ] at card ⊢
  have within :
      ¬ (insert (UInt16.ofNat count) (scanPorts count)).card > config.scanNumber.toNat := by
    rw [card]
    exact Nat.not_lt.mpr (Nat.le_trans small large)
  unfold Record.see
  simp only [Clock.still, elapsedFires_same, Bool.false_eq_true, if_false, if_neg fresh,
    if_neg within]

theorem reference_scan (large : flowDdosEverynodeEntryMaxSz ≤ config.scanNumber.toNat)
    {count : Nat} (small : count ≤ flowDdosEverynodeEntryMaxSz) :
    (Transducer.run (reference config) noRecords (scanCalls count)).2 (scanCall 0).key =
      scanRecord count := by
  induction count with
  | zero => rfl
  | succ count inductionHypothesis =>
      have before := inductionHypothesis (Nat.le_of_succ_le small)
      rw [scanCalls_succ, Transducer.run_append]
      generalize (Transducer.run (reference config) noRecords (scanCalls count)).2 = records
        at before ⊢
      have key : (scanCall count).key = (scanCall 0).key := rfl
      simp only [Transducer.run, reference, Transducer.keyed, key, Function.update_self, before]
      have seen := see_scan large (Nat.lt_of_succ_le small)
      rw [← scanRecord_getD] at seen
      exact congrArg some seen

theorem uncrowded_scanCalls (config : FlowDdosConfig) (count : Nat) :
    Uncrowded config (scanCalls count) := by
  intro bucket
  have one : (((scanCalls count).filter fun call => call.bucket config = bucket).map
      Call.source).toFinset ⊆ {.v4 7} := by
    intro source membership
    simp only [List.mem_toFinset, List.mem_map, List.mem_filter] at membership
    obtain ⟨call, ⟨called, _⟩, rfl⟩ := membership
    obtain ⟨port, _, rfl⟩ := List.mem_map.mp called
    exact Finset.mem_singleton_self _
  exact (Finset.card_le_card one).trans (by simp)

theorem fits_scanCalls (large : flowDdosEverynodeEntryMaxSz ≤ config.scanNumber.toNat)
    {count : Nat} (small : count ≤ flowDdosEverynodeEntryMaxSz) {before after : List Call}
    {call : Call} (split : scanCalls count = before ++ call :: after) :
    Fits (Transducer.run (reference config) noRecords before).2 call := by
  have length := congrArg List.length split
  have start := congrArg (List.take before.length) split
  have key : call.key = (scanCall 0).key := by
    have membership : call ∈ scanCalls count := by simp [split]
    obtain ⟨port, _, rfl⟩ := List.mem_map.mp membership
    rfl
  simp only [scanCalls, List.length_map, List.length_range, List.length_append,
    List.length_cons] at length
  have earlier : before.length < count := by omega
  have inside := Nat.lt_of_lt_of_le earlier small
  rw [List.take_left, scanCalls, ← List.map_take, List.take_range,
    Nat.min_eq_left (Nat.le_of_lt earlier)] at start
  have records := reference_scan large (Nat.le_of_lt inside)
  rw [scanCalls, start] at records
  intro record known
  rw [key, records] at known
  have same := scanRecord_getD before.length
  rw [known, Option.getD_some] at same
  rw [same, scanPorts_card (Nat.le_of_lt inside)]
  exact inside

theorem node_after_scan (large : flowDdosEverynodeEntryMaxSz ≤ config.scanNumber.toNat)
    {count : Nat} (small : count < flowDdosEverynodeEntryMaxSz) (memory : Nat → FlowDdosNode) :
    ∃ state item, Reaches config memory (scanCalls (count + 1)) state ∧
      arrive config 11 state (scanCall (count + 1)) = .ok (some (state, item)) ∧
      Keeps (.v4 7) (state.node item) ⟨0, scanPorts (count + 1)⟩ := by
  have granted : ∀ call ∈ scanCalls (count + 1), call.granted = true := by
    intro call membership
    obtain ⟨port, _, rfl⟩ := List.mem_map.mp membership
    rfl
  obtain ⟨state, chain, returned, represents⟩ := run_reference config memory
    (scanCalls (count + 1)) (uncrowded_scanCalls config _) granted
    (fun before call after split => fits_scanCalls large small split) 0
  have steps := Machine.steps_of_run (congrArg Prod.snd returned)
  have records := reference_scan large (Nat.succ_le_of_lt small)
  generalize (Transducer.run (reference config) noRecords (scanCalls (count + 1))).2 = kept
    at represents records
  generalize callIs : scanCall (count + 1) = call
  have key : call.key = (scanCall 0).key := by rw [← callIs]; rfl
  have source : call.source = .v4 7 := by rw [← callIs]; rfl
  have walked := represents.scan (call.bucket config) call.source 0
  rcases scanned : scanItems state call.source (chain (call.bucket config)) Scan.start with
    ⟨found, scan⟩
  rw [scanned] at walked
  rw [← key] at records
  cases found with
  | none =>
      have unknown := represents.unseen call.table call.source rfl (scanItems_none scanned).1
      exact absurd (records.symm.trans unknown) (by simp [scanRecord])
  | some item =>
      obtain ⟨membership, same⟩ := scanItems_some scanned
      obtain ⟨record, known, keeps⟩ := represents.kept _ item membership
      have own : state.sourceOf (call.bucket config).table.family item = call.source := same
      rw [own] at known keeps
      rw [source] at keeps
      cases records.symm.trans known
      exact ⟨state, item, steps.mono fun state call next ⟨verdict, step⟩ => ⟨verdict, _, step⟩,
        arrive_found walked, keeps⟩

/-- After a scan of as many ports as there are entries, the next port is written
past the end. -/
theorem exists_overflow (config : FlowDdosConfig)
    (large : flowDdosEverynodeEntryMaxSz ≤ config.scanNumber.toNat)
    (memory : Nat → FlowDdosNode) :
    ∃ calls state call, Reaches config memory calls state ∧ ¬ InBounds config state call := by
  obtain ⟨count, size⟩ : ∃ count, count + 1 = flowDdosEverynodeEntryMaxSz := ⟨1023, rfl⟩
  obtain ⟨state, item, reached, arrived, keeps⟩ :=
    node_after_scan large (Nat.lt_of_succ_le (Nat.le_of_eq size)) memory
  refine ⟨_, state, scanCall (count + 1), reached, fun inside => ?_⟩
  have written := (inside _ _ _ arrived).2
  have refreshed := keeps.refresh config (scanCall (count + 1)).clock
  have still : elapsedFires config 0 (scanCall (count + 1)).clock.tested = false :=
    elapsedFires_same config 0
  simp only [still, Bool.false_eq_true, if_false] at refreshed
  have fresh : UInt16.ofNat (count + 1) ∉ scanPorts (count + 1) := port_fresh (Nat.le_of_eq size)
  have unknown : recorded (refresh config (state.node item) (scanCall (count + 1)).clock) (.v4 7)
      (UInt16.ofNat (count + 1)) = false :=
    Bool.eq_false_iff.mpr (mt (refreshed.recorded_iff _).mp fresh)
  have full := refreshed.count
  rw [scanPorts_card (Nat.le_of_eq size), size] at full
  exact Nat.lt_irrefl _ (Nat.lt_of_le_of_lt (Nat.le_of_eq full) (written unknown))

end Large

/-! ## Every accepted document -/

/-- No run of the detectors leaves the entry arrays exactly when the document's
scan number is below their size. -/
theorem entries_in_bounds_iff (grants : Grants) (attach : List UInt8 → UInt8) (root : XmlNode)
    (loaded : FlowConfigState)
    (accepted : flowConfigModuleLoadInsideParseUnder grants attach flowConfigModuleInit root =
      .ok loaded)
    (config : FlowDdosConfig) (taken : config.scanNumber = loaded.scanNumber) :
    (∀ memory calls state call, Reaches config memory calls state →
        InBounds config state call) ↔ (ckNumber root).toNat < 1024 := by
  have number : config.scanNumber = ckNumber root := taken.trans (loadUnder_frame accepted).2
  rw [← number]
  constructor
  · intro inside
    by_contra large
    obtain ⟨calls, state, call, reached, outside⟩ :=
      exists_overflow config (Nat.not_lt.mp large) blankMemory
    exact outside (inside blankMemory calls state call reached)
  · intro small memory calls state call reached
    exact inBounds_of_small small reached call

def limitsDocument (number : List UInt8) : XmlNode :=
  .mk "UAFlow" []
    [.mk "Scan" [] [.mk "DDOS" [("CKNumber", number), ("CKTime", [53, 48, 48, 48])] []]]

def limitsLoaded (number : List UInt8) : FlowConfigState :=
  { flowConfigModuleInit with
    scanNumber := UInt32.ofInt (atoi number)
    scanMillisecond := UInt32.ofInt (atoi [53, 48, 48, 48]) }

theorem limits_accepted (attach : List UInt8 → UInt8) (number : List UInt8) :
    flowConfigModuleLoadInsideParse attach flowConfigModuleInit (limitsDocument number) =
      .ok (limitsLoaded number) := by
  rfl

/-- The number 999. -/
theorem entries_in_bounds_iff_999 :
    (∀ memory calls state call, Reaches { collidingConfig with scanNumber := 999 } memory calls
        state → InBounds { collidingConfig with scanNumber := 999 } state call) ↔
      (ckNumber (limitsDocument [57, 57, 57])).toNat < 1024 :=
  entries_in_bounds_iff .all (fun _ => 0) (limitsDocument [57, 57, 57]) (limitsLoaded [57, 57, 57])
    (limits_accepted _ _) { collidingConfig with scanNumber := 999 } (by decide)

/-- The number -1 is accepted, and allows 4294967295 entries. -/
theorem not_entries_in_bounds_negative :
    ¬ ∀ grants attach root loaded,
        flowConfigModuleLoadInsideParseUnder grants attach flowConfigModuleInit root =
            .ok loaded →
          ∀ config : FlowDdosConfig, config.scanNumber = loaded.scanNumber →
            ∀ memory calls state call, Reaches config memory calls state →
              InBounds config state call := by
  intro inside
  have large : flowDdosEverynodeEntryMaxSz ≤ (limitsLoaded [45, 49]).scanNumber.toNat := by decide
  obtain ⟨calls, state, call, reached, outside⟩ :=
    exists_overflow { collidingConfig with scanNumber := (limitsLoaded [45, 49]).scanNumber }
      large blankMemory
  exact outside (inside .all (fun _ => 0) (limitsDocument [45, 49]) (limitsLoaded [45, 49])
    (limits_accepted _ _) _ rfl blankMemory calls state call reached)

end UAFlow.Ddos
