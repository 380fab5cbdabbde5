import Mathlib.Tactic.NormNum
import Mathlib.Tactic.Ring
import UAFlow.Ddos.Eviction

/-!
# The scan window

`flow_current` keeps the millisecond clock in 32 bits.  A detection compares
the clock with the node's `modtime` and clears the node's counter when its test
says that the window has passed.  The test subtracts the later time from the
earlier one and multiplies by a thousand, so it measures the gap modulo 2^32
from the wrong side.
-/

namespace UAFlow.Ddos

open Library

structure Timeval where
  tvSec : Nat
  tvUsec : Nat

def Timeval.milliseconds (tv : Timeval) : Nat := tv.tvSec * 1000 + tv.tvUsec / 1000

/-- `tv_sec * 1000 + tv_usec / 1000`, stored in a `uint32_t`. -/
def flowCurrentModuleInsideGetime (tv : Timeval) : UInt32 :=
  UInt32.ofNat (tv.tvSec * 1000 + tv.tvUsec / 1000)

theorem getime_toNat (tv : Timeval) :
    (flowCurrentModuleInsideGetime tv).toNat = tv.milliseconds % 2 ^ 32 :=
  UInt32.toNat_ofNat'

/-- Two detections of one source in a run, at the times `earlier` and `later`,
with no detection of that source in between; the second one finds the source
still tracked. -/
structure Revisit (config : FlowDdosConfig) (memory : Nat → FlowDdosNode)
    (earlier later : Timeval) where
  before : List Call
  start : FlowDdosState
  reached : Reaches config memory before start
  first : Call
  afterFirst : FlowDdosState
  firstReturns : Step config start first afterFirst
  firstClock : first.clock = Clock.still (flowCurrentModuleInsideGetime earlier)
  between : List Call
  state : FlowDdosState
  run : Run (Step config) afterFirst between state
  others : ∀ call ∈ between, call.table = first.table → call.source ≠ first.source
  second : Call
  secondTable : second.table = first.table
  secondSource : second.source = first.source
  secondClock : second.clock = Clock.still (flowCurrentModuleInsideGetime later)
  stillTracked : ∃ fuel item scan,
    flowDdosScan state (second.bucket config) second.source fuel = .ok (some item, scan)
  ordered : earlier.milliseconds ≤ later.milliseconds
  gap : later.milliseconds - earlier.milliseconds < 2 ^ 32

/-! ## Counting on and counting anew -/

def FlowDdosNode.counting (node : FlowDdosNode) (nPackets : UInt32)
    (entry : Nat → FlowDdosEntry) : FlowDdosNode :=
  { node with nPackets := nPackets, entry := entry }

/-- The count after one more packet, when `counted` of the node's entries count. -/
def countedOn (config : FlowDdosConfig) (call : Call) (node : FlowDdosNode) (counted : UInt32) :
    UInt32 :=
  if recorded { node with nPackets := counted } call.source call.srcPort then
    counted
  else if counted + 1 > config.scanNumber then
    0
  else
    counted + 1

/-- The call finds its source, and whatever the node has counted before, the count it
leaves goes on from `start` of that. -/
def CountsFrom (start : UInt32 → UInt32) (config : FlowDdosConfig) (state : FlowDdosState)
    (call : Call) : Prop :=
  ∃ fuel item scan,
    flowDdosScan state (call.bucket config) call.source fuel = .ok (some item, scan) ∧
      ∀ nPackets entry after verdict,
        let node := (state.node item).counting nPackets entry
        Returns config (state.setNode item node) call after verdict →
          (after.node item).nPackets = countedOn config call node (start nPackets)

def ClearsCount : FlowDdosConfig → FlowDdosState → Call → Prop := CountsFrom fun _ => 0

def KeepsCount : FlowDdosConfig → FlowDdosState → Call → Prop := CountsFrom id

/-- The second detection clears the count when the window has passed, and only
then. -/
def Revisit.ClearsWhenPassed {config : FlowDdosConfig} {memory : Nat → FlowDdosNode}
    {earlier later : Timeval} (revisit : Revisit config memory earlier later) : Prop :=
  (config.scanMillisecond.toNat < later.milliseconds - earlier.milliseconds →
      ClearsCount config revisit.state revisit.second) ∧
    (later.milliseconds - earlier.milliseconds ≤ config.scanMillisecond.toNat →
      KeepsCount config revisit.state revisit.second)

section Counting

variable {config : FlowDdosConfig} {state after : FlowDdosState} {call : Call} {fuel item : Nat}
  {scan : Scan}

theorem scanBucket_congr {other : FlowDdosState} (next : other.next = state.next)
    (addr : ∀ item, (other.node item).addr = (state.node item).addr)
    (modtime : ∀ item, (other.node item).modtime = (state.node item).modtime)
    (head : Cell) (source : Source) (fuel : Nat) (pos : Cell) (scan : Scan) :
    scanBucket other head source fuel pos scan = scanBucket state head source fuel pos scan := by
  induction fuel generalizing pos scan with
  | zero => rfl
  | succ fuel inductionHypothesis =>
      unfold scanBucket
      simp only [next, addr, modtime, inductionHypothesis]

theorem flowDdosScan_counting (state : FlowDdosState) (item : Nat) (nPackets : UInt32)
    (entry : Nat → FlowDdosEntry) (bucket : Bucket) (source : Source) (fuel : Nat) :
    flowDdosScan (state.setNode item ((state.node item).counting nPackets entry)) bucket source
      fuel = flowDdosScan state bucket source fuel := by
  have next : (state.setNode item ((state.node item).counting nPackets entry)).next =
      state.next := rfl
  apply scanBucket_congr next
  all_goals
    intro other
    by_cases here : other = item
    · subst here
      simp [FlowDdosState.setNode, FlowDdosNode.counting]
    · simp [FlowDdosState.setNode, here]

theorem flowDdosRecord_nPackets {verdict : Int}
    (returned : flowDdosRecord config state call item = .ok (after, verdict)) :
    (after.node item).nPackets = countedOn config call (state.node item)
      (refresh config (state.node item) call.clock).nPackets := by
  have set : ∀ node, ((state.setNode item node).node item) = node :=
    fun node => Function.update_self ..
  generalize refreshed : refresh config (state.node item) call.clock = node
  have same : recorded { state.node item with nPackets := node.nPackets } call.source
      call.srcPort = recorded node call.source call.srcPort := by
    rw [← refreshed]
    rfl
  unfold countedOn
  rw [same]
  cases known : recorded node call.source call.srcPort with
  | true =>
      rw [flowDdosRecord_known refreshed known] at returned
      cases returned
      rw [set, if_pos rfl]
  | false =>
      rw [if_neg Bool.false_ne_true]
      rcases Nat.lt_or_ge node.nPackets.toNat flowDdosEverynodeEntryMaxSz with room | full
      · rw [flowDdosRecord_new refreshed known room] at returned
        split at returned
        next exceeded =>
          cases returned
          rw [set, if_pos exceeded]
        next few =>
          cases returned
          rw [set, if_neg few]
          rfl
      · rw [flowDdosRecord_full refreshed known full] at returned
        cases returned

theorem countsFrom_elapsed
    (scanned : flowDdosScan state (call.bucket config) call.source fuel = .ok (some item, scan)) :
    CountsFrom (fun counted =>
      if elapsedFires config (state.node item).modtime call.clock.tested then 0 else counted)
        config state call := by
  refine ⟨fuel, item, scan, scanned, ?_⟩
  rintro nPackets entry after verdict node ⟨steps, returned⟩
  rw [detect_eq, detectWith, flowDdosScan_counting] at returned
  cases walk : flowDdosScan state (call.bucket config) call.source steps with
  | error fault =>
      rw [walk] at returned
      cases returned
  | ok result =>
      obtain rfl := flowDdosScan_unique walk scanned
      rw [walk] at returned
      have counted := flowDdosRecord_nPackets returned
      simp only [FlowDdosState.setNode, Function.update_self] at counted
      exact counted

theorem CountsFrom.count {start : UInt32 → UInt32} (counts : CountsFrom start config state call)
    (scanned : flowDdosScan state (call.bucket config) call.source fuel = .ok (some item, scan))
    (nPackets : UInt32) (entry : Nat → FlowDdosEntry) {verdict : Int}
    (returned : Returns config
      (state.setNode item ((state.node item).counting nPackets entry)) call after verdict) :
    (after.node item).nPackets =
      countedOn config call ((state.node item).counting nPackets entry) (start nPackets) := by
  obtain ⟨steps, other, last, walk, count⟩ := counts
  obtain ⟨⟨⟩, rfl⟩ := Prod.mk.inj (flowDdosScan_unique walk scanned)
  exact count nPackets entry after verdict returned

theorem CountsFrom.count_held {start : UInt32 → UInt32} (counts : CountsFrom start config state call)
    (scanned : flowDdosScan state (call.bucket config) call.source fuel = .ok (some item, scan))
    {verdict : Int} (returned : Returns config state call after verdict) :
    (after.node item).nPackets =
      countedOn config call (state.node item) (start (state.node item).nPackets) := by
  have held : state.setNode item
      ((state.node item).counting (state.node item).nPackets (state.node item).entry) = state := by
    simp [FlowDdosState.setNode, FlowDdosNode.counting]
  exact counts.count scanned _ (state.node item).entry (held.symm ▸ returned)

theorem returns_of_room
    (scanned : flowDdosScan state (call.bucket config) call.source fuel = .ok (some item, scan))
    (room : (state.node item).nPackets.toNat < flowDdosEverynodeEntryMaxSz) :
    ∃ after verdict, Returns config state call after verdict := by
  have count : (refresh config (state.node item) call.clock).nPackets.toNat <
      flowDdosEverynodeEntryMaxSz := by
    simp only [refresh]
    split
    · decide
    · exact room
  have returned : ∃ after verdict, flowDdosRecord config state call item = .ok (after, verdict) := by
    cases known : recorded (refresh config (state.node item) call.clock) call.source
        call.srcPort with
    | true => exact ⟨_, _, flowDdosRecord_known rfl known⟩
    | false =>
        rw [flowDdosRecord_new rfl known count]
        split
        · exact ⟨_, _, rfl⟩
        · exact ⟨_, _, rfl⟩
  obtain ⟨after, verdict, recorded⟩ := returned
  refine ⟨after, verdict, fuel, ?_⟩
  rw [detect_eq, detectWith, scanned]
  exact recorded

/-- One call does not both clear the count and keep it: two entries that both have the
call's port tell them apart. -/
theorem ClearsCount.not_keepsCount (clears : ClearsCount config state call) :
    ¬ KeepsCount config state call := by
  intro keeps
  obtain ⟨fuel, item, scan, scanned, -⟩ := id clears
  let entry : Nat → FlowDdosEntry := fun _ => ⟨call.srcPort, call.source.store ⟨0, 0⟩⟩
  let node := (state.node item).counting 2 entry
  have own : (state.setNode item node).node item = node := Function.update_self ..
  have walked : flowDdosScan (state.setNode item node) (call.bucket config) call.source fuel =
      .ok (some item, scan) := (flowDdosScan_counting ..).trans scanned
  have two : node.nPackets = 2 := rfl
  obtain ⟨after, verdict, returned⟩ := returns_of_room walked (by rw [own, two]; decide)
  have known : recorded node call.source call.srcPort = true :=
    List.any_eq_true.mpr ⟨0, List.mem_range.mpr (by rw [two]; decide),
      by simp [node, entry, FlowDdosNode.counting]⟩
  have unknown : recorded { node with nPackets := 0 } call.source call.srcPort = false := rfl
  have anew : (after.node item).nPackets = if 0 + 1 > config.scanNumber then 0 else 0 + 1 := by
    rw [clears.count scanned 2 entry returned, countedOn, if_neg (Bool.eq_false_iff.mp unknown)]
  have on : (after.node item).nPackets = 2 := by
    rw [keeps.count scanned 2 entry returned]
    exact if_pos known
  rw [on] at anew
  split at anew
  next => cases anew
  next => cases anew

end Counting

/-! ## The stamp stays -/

/-- Every node that tracks `source` in its bucket carries the given stamp. -/
def Stamped (state : FlowDdosState) (bucket : Bucket) (source : Source)
    (modtime : UInt32) : Prop :=
  ∃ chain, Chains state chain ∧ ∀ item ∈ chain bucket,
    state.sourceOf source.family item = source → (state.node item).modtime = modtime

theorem stamped_of_call {config : FlowDdosConfig} {state after : FlowDdosState} {call : Call}
    {chain : Bucket → List Nat} (chains : Chains state chain)
    (stepped : Step config state call after) :
    Stamped after (call.bucket config) call.source call.clock.stamped := by
  obtain ⟨chainAfter, chainsAfter, effect⟩ := chains.step stepped
  refine ⟨chainAfter, chainsAfter, ?_⟩
  intro item membership same
  rcases effect _ item membership with ⟨_, _, stamp⟩ | ⟨_, kept, other⟩
  · exact stamp
  · rw [FlowDdosState.sourceOf, kept] at same
    exact absurd same (other rfl)

theorem Stamped.step {config : FlowDdosConfig} {state after : FlowDdosState} {call : Call}
    {bucket : Bucket} {source : Source} {modtime : UInt32}
    (family : source.family = bucket.table.family)
    (other : call.table = bucket.table → call.source ≠ source)
    (stamped : Stamped state bucket source modtime) (stepped : Step config state call after) :
    Stamped after bucket source modtime := by
  obtain ⟨chain, chains, stamp⟩ := stamped
  obtain ⟨chainAfter, chainsAfter, effect⟩ := chains.step stepped
  refine ⟨chainAfter, chainsAfter, ?_⟩
  intro item membership same
  rcases effect bucket item membership with ⟨here, own, _⟩ | ⟨onList, kept, _⟩
  · subst here
    have sameSource : call.source = source := by
      rw [← own, ← same, family]
      rfl
    exact absurd sameSource (other rfl)
  · rw [kept]
    rw [FlowDdosState.sourceOf, kept] at same
    exact stamp item onList same

theorem Revisit.modtime {config : FlowDdosConfig} {memory : Nat → FlowDdosNode}
    {earlier later : Timeval} (revisit : Revisit config memory earlier later)
    {fuel item : Nat} {scan : Scan}
    (scanned : flowDdosScan revisit.state (revisit.second.bucket config)
      revisit.second.source fuel = .ok (some item, scan)) :
    (revisit.state.node item).modtime = flowCurrentModuleInsideGetime earlier := by
  have sameBucket : revisit.second.bucket config = revisit.first.bucket config := by
    unfold Call.bucket
    rw [revisit.secondTable, revisit.secondSource]
  obtain ⟨chain, chains⟩ := exists_chains revisit.reached
  have stamped : Stamped revisit.state (revisit.first.bucket config)
      revisit.first.source revisit.first.clock.stamped := by
    apply Run.invariant_while
      (fun state => Stamped state (revisit.first.bucket config)
        revisit.first.source revisit.first.clock.stamped)
      (fun _ (call : Call) =>
        call.table = revisit.first.table → call.source ≠ revisit.first.source)
      _ revisit.run (stamped_of_call chains revisit.firstReturns)
    · intro before call _ within _
      exact revisit.others call (within.subset (by simp))
    · intro state call after stamped allowed stepped
      exact stamped.step rfl allowed stepped
  obtain ⟨chainNow, chainsNow, stamp⟩ := stamped
  obtain ⟨membership, same⟩ := chainsNow.scan_found scanned
  rw [sameBucket] at membership
  rw [revisit.secondSource] at same
  rw [stamp item membership same, revisit.firstClock]
  rfl

/-! ## The test -/

/-- How far a thousand gaps are from the next multiple of 2^32. -/
def distance (gap : Nat) : Nat := (2 ^ 32 - 1000 * gap % 2 ^ 32) % 2 ^ 32

/-- The window is below the gap and the distance, or not below either. -/
def WindowAgrees (gap window : Nat) : Prop :=
  window < min gap (distance gap) ∨ max gap (distance gap) ≤ window

theorem elapsed_toNat {earlier later : Timeval} (ordered : earlier.milliseconds ≤ later.milliseconds) :
    ((flowCurrentModuleInsideGetime earlier - flowCurrentModuleInsideGetime later) * 1000).toNat =
      distance (later.milliseconds - earlier.milliseconds) := by
  have thousand : (1000 : UInt32).toNat = 1000 := rfl
  rw [UInt32.toNat_mul, UInt32.toNat_sub, thousand, getime_toNat, getime_toNat]
  generalize earlier.milliseconds = start at ordered ⊢
  obtain ⟨gap, total⟩ := Nat.exists_eq_add_of_le ordered
  have behind : (2 ^ 32 - (start + gap) % 2 ^ 32 + start % 2 ^ 32) % 2 ^ 32 =
      (2 ^ 32 - gap % 2 ^ 32) % 2 ^ 32 := by omega
  rw [total, behind, Nat.add_sub_cancel_left]
  unfold distance
  omega

theorem elapsedFires_iff (config : FlowDdosConfig) {earlier later : Timeval}
    (ordered : earlier.milliseconds ≤ later.milliseconds) :
    elapsedFires config (flowCurrentModuleInsideGetime earlier)
        (flowCurrentModuleInsideGetime later) = true ↔
      config.scanMillisecond.toNat < distance (later.milliseconds - earlier.milliseconds) := by
  unfold elapsedFires
  rw [decide_eq_true_iff, gt_iff_lt, UInt32.lt_iff_toNat_lt, elapsed_toNat ordered]

theorem Revisit.clears_or_keeps {config : FlowDdosConfig} {memory : Nat → FlowDdosNode}
    {earlier later : Timeval} (revisit : Revisit config memory earlier later) :
    (config.scanMillisecond.toNat < distance (later.milliseconds - earlier.milliseconds) →
        ClearsCount config revisit.state revisit.second) ∧
      (distance (later.milliseconds - earlier.milliseconds) ≤ config.scanMillisecond.toNat →
        KeepsCount config revisit.state revisit.second) := by
  obtain ⟨fuel, item, scan, scanned⟩ := revisit.stillTracked
  have counts := countsFrom_elapsed scanned
  have tested : revisit.second.clock.tested = flowCurrentModuleInsideGetime later := by
    rw [revisit.secondClock]
    rfl
  rw [revisit.modtime scanned, tested] at counts
  have fires := elapsedFires_iff config revisit.ordered
  constructor
  · intro passed
    simp only [fires.mpr passed, if_true] at counts
    exact counts
  · intro within
    simp only [mt fires.mp (Nat.not_lt.mpr within)] at counts
    exact counts

/-- The second detection clears the count exactly when the window has passed,
precisely for the gaps and windows of `WindowAgrees`. -/
theorem clears_iff_window_agrees (config : FlowDdosConfig) (memory : Nat → FlowDdosNode)
    (earlier later : Timeval) (revisit : Revisit config memory earlier later) :
    revisit.ClearsWhenPassed ↔
      WindowAgrees (later.milliseconds - earlier.milliseconds) config.scanMillisecond.toNat := by
  obtain ⟨clears, keeps⟩ := revisit.clears_or_keeps
  unfold Revisit.ClearsWhenPassed WindowAgrees
  rw [Nat.lt_min, Nat.max_le]
  constructor
  · rintro ⟨whenPassed, whenWithin⟩
    rcases Nat.lt_or_ge config.scanMillisecond.toNat
      (later.milliseconds - earlier.milliseconds) with passed | within
    · refine .inl ⟨passed, Nat.not_le.mp fun far => ?_⟩
      exact (whenPassed passed).not_keepsCount (keeps far)
    · refine .inr ⟨within, Nat.not_lt.mp fun near => ?_⟩
      exact (clears near).not_keepsCount (whenWithin within)
  · rintro (⟨passed, near⟩ | ⟨within, far⟩)
    · exact ⟨fun _ => clears near, fun other => absurd passed (Nat.not_lt.mpr other)⟩
    · exact ⟨fun other => absurd within (Nat.not_le.mpr other), fun _ => keeps far⟩

def oneMillisecondLater : Revisit collidingConfig blankMemory ⟨0, 0⟩ ⟨0, 1000⟩ where
  before := []
  start := flowDdosModuleInit blankMemory
  reached := rfl
  first := sourceCall 0
  afterFirst := stateAfter collidingConfig 20 (flowDdosModuleInit blankMemory) [sourceCall 0]
  firstReturns := by
    obtain ⟨middle, stepped, same⟩ := run_stateAfter collidingConfig 20
      (flowDdosModuleInit blankMemory) [sourceCall 0] (by decide +kernel)
    exact same ▸ stepped
  firstClock := rfl
  between := []
  state := stateAfter collidingConfig 20 (flowDdosModuleInit blankMemory) [sourceCall 0]
  run := rfl
  others call membership := by simp at membership
  second := { sourceCall 0 with srcPort := 81, clock := Clock.still 1 }
  secondTable := rfl
  secondSource := rfl
  secondClock := rfl
  stillTracked := ⟨20, 0, Scan.start, rfl⟩
  ordered := by decide
  gap := by decide

/-- With the shipped window of 5000 ms the count is 1 after 1 ms, when it should be
2. -/
theorem clears_after_one_millisecond :
    ¬ ∀ revisit : Revisit collidingConfig blankMemory ⟨0, 0⟩ ⟨0, 1000⟩,
        revisit.ClearsWhenPassed := by
  intro clears
  have keeps : KeepsCount collidingConfig oneMillisecondLater.state oneMillisecondLater.second :=
    (clears oneMillisecondLater).2 (by decide)
  obtain ⟨after, ⟨verdict, returned⟩, cleared⟩ : ∃ after, Step collidingConfig
      oneMillisecondLater.state oneMillisecondLater.second after ∧ (after.node 0).nPackets = 1 := by
    refine ⟨stateAfter collidingConfig 20 oneMillisecondLater.state [oneMillisecondLater.second],
      ?_, by decide +kernel⟩
    obtain ⟨middle, stepped, same⟩ := run_stateAfter collidingConfig 20 oneMillisecondLater.state
      [oneMillisecondLater.second] (by decide +kernel)
    exact same ▸ stepped
  have scanned : flowDdosScan oneMillisecondLater.state
      (oneMillisecondLater.second.bucket collidingConfig) oneMillisecondLater.second.source 20 =
        .ok (some 0, Scan.start) := rfl
  have counted := keeps.count_held scanned returned
  rw [cleared] at counted
  exact absurd counted (by decide +kernel)

end UAFlow.Ddos
