import UAFlow.Ddos.Model
import UAFlow.Library.CircularList

/-!
What one detection does to the lists and to the nodes.

The walk is compared with a fold over the nodes it visits.  `Enlisted` is the
common effect of both insertions, `Recorded` that of the code after the two
paths join, and `Detected` puts them together: every returning call is one of
its four cases.
-/

namespace UAFlow.Ddos

open Library

/-! ## Sources -/

def FlowDdosAddr.source (addr : FlowDdosAddr) : Family → Source
  | .v4 => .v4 addr.addrv4
  | .v6 => .v6 addr

@[simp]
theorem FlowDdosAddr.source_family (addr : FlowDdosAddr) (family : Family) :
    (addr.source family).family = family := by
  cases family <;> rfl

@[simp]
theorem Source.heldIn_iff (source : Source) (addr : FlowDdosAddr) :
    source.heldIn addr = true ↔ addr.source source.family = source := by
  cases source <;> simp [Source.heldIn, FlowDdosAddr.source, Source.family]

@[simp]
theorem Source.source_store (source : Source) (addr : FlowDdosAddr) :
    (source.store addr).source source.family = source := by
  cases source <;> rfl

/-- The source a node of the bucket is tracked for. -/
def FlowDdosState.sourceOf (state : FlowDdosState) (family : Family) (item : Nat) : Source :=
  (state.node item).addr.source family

/-! ## The walk -/

def scanItems (state : FlowDdosState) (source : Source) :
    List Nat → Scan → Option Nat × Scan
  | [], scan => (none, scan)
  | item :: items, scan =>
      if source.heldIn (state.node item).addr then
        (some item, scan)
      else
        scanItems state source items (scan.visit item (state.node item).modtime)

@[simp]
theorem Scan.visit_cnt (scan : Scan) (item : Nat) (modtime : UInt32) :
    (scan.visit item modtime).cnt = scan.cnt + 1 := by
  unfold Scan.visit
  split <;> rfl

theorem scanItems_some
    {state : FlowDdosState} {source : Source} {items : List Nat} {start scan : Scan}
    {item : Nat} (found : scanItems state source items start = (some item, scan)) :
    item ∈ items ∧ state.sourceOf source.family item = source := by
  induction items generalizing start with
  | nil => simp [scanItems] at found
  | cons first items inductionHypothesis =>
      rw [scanItems] at found
      split at found
      next held =>
        cases found
        exact ⟨by simp, (Source.heldIn_iff _ _).mp held⟩
      next other =>
        obtain ⟨membership, same⟩ := inductionHypothesis found
        exact ⟨List.mem_cons_of_mem first membership, same⟩

theorem scanItems_none
    {state : FlowDdosState} {source : Source} {items : List Nat} {start scan : Scan}
    (missed : scanItems state source items start = (none, scan)) :
    (∀ item ∈ items, state.sourceOf source.family item ≠ source) ∧
      scan.cnt = start.cnt + items.length := by
  induction items generalizing start with
  | nil =>
      cases missed
      simp
  | cons first items inductionHypothesis =>
      rw [scanItems] at missed
      split at missed
      next held => simp at missed
      next other =>
        obtain ⟨absent, count⟩ := inductionHypothesis missed
        refine ⟨?_, ?_⟩
        · intro item membership
          rcases List.mem_cons.mp membership with same | later
          · subst item
            exact fun equality => other ((Source.heldIn_iff _ _).mpr equality)
          · exact absent item later
        · rw [count, Scan.visit_cnt, List.length_cons]
          omega

theorem scanItems_absent
    {state : FlowDdosState} {source : Source} {items : List Nat}
    (absent : ∀ item ∈ items, state.sourceOf source.family item ≠ source) (start : Scan) :
    (scanItems state source items start).1 = none := by
  rcases found : scanItems state source items start with ⟨result, scan⟩
  cases result with
  | none => rfl
  | some item =>
      have present := scanItems_some found
      exact absurd present.2 (absent item present.1)

theorem scanItems_old
    {state : FlowDdosState} {source : Source} {items : List Nat} {start scan : Scan}
    {result : Option Nat} {old : Nat}
    (scanned : scanItems state source items start = (result, scan))
    (chosen : scan.old = some old) :
    old ∈ items ∧ (state.node old).modtime < start.mtime ∨ start.old = some old := by
  induction items generalizing start with
  | nil =>
      cases scanned
      exact .inr chosen
  | cons first items inductionHypothesis =>
      rw [scanItems] at scanned
      split at scanned
      next held =>
        cases scanned
        exact .inr chosen
      next other =>
        have later := inductionHypothesis scanned
        unfold Scan.visit at later
        split at later
        next older =>
          rcases later with ⟨inside, below⟩ | chosenHere
          · exact .inl ⟨List.mem_cons_of_mem first inside, UInt32.lt_trans below older⟩
          · cases chosenHere
            exact .inl ⟨by simp, older⟩
        next newer =>
          rcases later with ⟨inside, below⟩ | chosenBefore
          · exact .inl ⟨List.mem_cons_of_mem first inside, below⟩
          · exact .inr chosenBefore

theorem scanItems_victim
    {state : FlowDdosState} {source : Source} {items : List Nat} {start scan : Scan}
    {item : Nat} (missed : scanItems state source items start = (none, scan))
    (low : start.old.isSome ∨ item ∈ items ∧ (state.node item).modtime < start.mtime) :
    scan.old.isSome := by
  induction items generalizing start with
  | nil =>
      cases missed
      simpa using low
  | cons first items inductionHypothesis =>
      rw [scanItems] at missed
      split at missed
      next held => simp at missed
      next other =>
        apply inductionHypothesis missed
        unfold Scan.visit
        split
        next older => exact .inl rfl
        next newer =>
          rcases low with already | ⟨membership, below⟩
          · exact .inl already
          · rcases List.mem_cons.mp membership with same | later
            · subst item
              exact absurd below newer
            · exact .inr ⟨later, below⟩

/-- Along a path of nodes the loop computes the fold, and goes on at the end of
the path when the fold found nothing. -/
theorem scanBucket_path
    (state : FlowDdosState) (bucket : Bucket) (source : Source) (fuel : Nat)
    {pos stop : Cell} {items : List Nat} (scan : Scan)
    (path : Path state.next pos (items.map .node) stop) :
    scanBucket state (.head bucket) source (items.length + fuel) pos scan =
      match scanItems state source items scan with
      | (some item, last) => .ok (some item, last)
      | (none, last) => scanBucket state (.head bucket) source fuel stop last := by
  induction items generalizing pos scan with
  | nil =>
      have arrived : pos = stop := path
      rw [arrived, scanItems, List.length_nil, Nat.zero_add]
  | cons item items inductionHypothesis =>
      obtain ⟨here, rest⟩ := path
      subst here
      have count : (item :: items).length + fuel = (items.length + fuel) + 1 := by
        simp only [List.length_cons]
        omega
      rw [count, scanBucket, scanItems]
      simp only [reduceCtorEq, if_false]
      by_cases held : source.heldIn (state.node item).addr
      · simp only [held, if_true]
      · simp only [held, if_false, Bool.false_eq_true]
        exact inductionHypothesis _ rest

@[simp]
theorem scanBucket_head (state : FlowDdosState) (head : Cell) (source : Source) (fuel : Nat)
    (scan : Scan) :
    scanBucket state head source (fuel + 1) head scan = .ok (none, scan) := by
  simp [scanBucket]

theorem scanBucket_mono
    {state : FlowDdosState} {head : Cell} {source : Source} {fuel : Nat} {pos : Cell}
    {scan : Scan} {result : Option Nat × Scan} (extra : Nat)
    (scanned : scanBucket state head source fuel pos scan = .ok result) :
    scanBucket state head source (fuel + extra) pos scan = .ok result := by
  induction fuel generalizing pos scan with
  | zero => simp [scanBucket] at scanned
  | succ fuel inductionHypothesis =>
      rw [Nat.add_right_comm]
      by_cases arrived : pos = head
      · simpa only [scanBucket, arrived, if_true] using scanned
      · cases pos with
        | null => simp [scanBucket, arrived] at scanned
        | head bucket => simp [scanBucket, arrived] at scanned
        | node item =>
            simp only [scanBucket, arrived, if_false] at scanned ⊢
            split at scanned
            next held => simpa only [held, if_true] using scanned
            next other =>
              simp only [other, Bool.false_eq_true, if_false]
              exact inductionHypothesis scanned

theorem flowDdosScan_unique
    {state : FlowDdosState} {bucket : Bucket} {source : Source} {first second : Nat}
    {left right : Option Nat × Scan}
    (leftScan : flowDdosScan state bucket source first = .ok left)
    (rightScan : flowDdosScan state bucket source second = .ok right) : left = right := by
  have leftMore := scanBucket_mono second leftScan
  have rightMore := scanBucket_mono first rightScan
  rw [Nat.add_comm second first] at rightMore
  exact Except.ok.inj (leftMore.symm.trans rightMore)

/-! ## Insertion -/

structure Enlisted (config : FlowDdosConfig) (call : Call) (item : Nat)
    (state after : FlowDdosState) : Prop where
  next : after.next = insertNext state.next (.node item)
    (state.prev (.head (call.bucket config))) (.head (call.bucket config))
  prev : after.prev = insertPrev state.prev (.node item)
    (state.prev (.head (call.bucket config))) (.head (call.bucket config))
  source : after.sourceOf call.source.family item = call.source
  empty : (after.node item).nPackets = 0
  modtime : (after.node item).modtime = call.clock.created
  others : ∀ other, other ≠ item → after.node other = state.node other

theorem insertNext_reset (next : Cell → Cell) (item : Nat) (last head value : Cell) :
    insertNext (Function.update next (.node item) value) (.node item) last head =
      insertNext next (.node item) last head := by
  simp [insertNext]

theorem insertPrev_reset (prev : Cell → Cell) (item : Nat) (last value : Cell)
    (bucket : Bucket) :
    insertPrev (Function.update prev (.node item) value) (.node item) last (.head bucket) =
      insertPrev prev (.node item) last (.head bucket) := by
  funext cell
  by_cases here : cell = .node item <;> simp [insertPrev, Function.update_apply, here]

theorem listAddTail_next (state : FlowDdosState) (new head : Cell) :
    (state.listAddTail new head).next = insertNext state.next new (state.prev head) head :=
  rfl

theorem listAddTail_prev (state : FlowDdosState) (new head : Cell) :
    (state.listAddTail new head).prev = insertPrev state.prev new (state.prev head) head :=
  rfl

theorem v4Insert_enlisted (config : FlowDdosConfig) (state : FlowDdosState) (call : Call)
    (item : Nat) : Enlisted config call item state (v4Insert config state call item) where
  next := by
    simp [v4Insert, listAddTail_next, FlowDdosState.stampNew, FlowDdosState.setNode,
      FlowDdosState.initListHead, FlowDdosState.memset, insertNext_reset]
  prev := by
    simp [v4Insert, listAddTail_prev, FlowDdosState.stampNew, FlowDdosState.setNode,
      FlowDdosState.initListHead, FlowDdosState.memset, insertPrev_reset]
  source := by
    simp [v4Insert, FlowDdosState.sourceOf, FlowDdosState.listAddTail, FlowDdosState.listAdd,
      FlowDdosState.stampNew, FlowDdosState.setNode]
  empty := by
    simp [v4Insert, FlowDdosState.listAddTail, FlowDdosState.listAdd,
      FlowDdosState.stampNew, FlowDdosState.setNode]
  modtime := by
    simp [v4Insert, FlowDdosState.listAddTail, FlowDdosState.listAdd,
      FlowDdosState.stampNew, FlowDdosState.setNode]
  others other different := by
    simp [v4Insert, FlowDdosState.listAddTail, FlowDdosState.listAdd, FlowDdosState.stampNew,
      FlowDdosState.setNode, FlowDdosState.initListHead, FlowDdosState.memset, different]

theorem v6Insert_enlisted (config : FlowDdosConfig) (state : FlowDdosState) (call : Call)
    (item : Nat) : Enlisted config call item state (v6Insert config state call item) where
  next := by
    simp [v6Insert, listAddTail_next, FlowDdosState.stampNew, FlowDdosState.setNode,
      FlowDdosState.initListHead, insertNext_reset]
  prev := by
    simp [v6Insert, listAddTail_prev, FlowDdosState.stampNew, FlowDdosState.setNode,
      FlowDdosState.initListHead, insertPrev_reset]
  source := by
    simp [v6Insert, FlowDdosState.sourceOf, FlowDdosState.listAddTail, FlowDdosState.listAdd,
      FlowDdosState.stampNew, FlowDdosState.setNode, FlowDdosState.initListHead]
  empty := by
    simp [v6Insert, FlowDdosState.listAddTail, FlowDdosState.listAdd,
      FlowDdosState.stampNew, FlowDdosState.setNode, FlowDdosState.initListHead]
  modtime := by
    simp [v6Insert, FlowDdosState.listAddTail, FlowDdosState.listAdd,
      FlowDdosState.stampNew, FlowDdosState.setNode, FlowDdosState.initListHead]
  others other different := by
    simp [v6Insert, FlowDdosState.listAddTail, FlowDdosState.listAdd, FlowDdosState.stampNew,
      FlowDdosState.setNode, FlowDdosState.initListHead, different]

def insertOf (call : Call) : FlowDdosConfig → FlowDdosState → Call → Nat → FlowDdosState :=
  match call.source with
  | .v4 _ => v4Insert
  | .v6 _ => v6Insert

theorem detect_eq (config : FlowDdosConfig) (fuel : Nat) (state : FlowDdosState)
    (call : Call) :
    detect config fuel state call = detectWith (insertOf call) config fuel state call := by
  unfold detect insertOf
  cases call.source <;> rfl

theorem insertOf_enlisted (config : FlowDdosConfig) (state : FlowDdosState) (call : Call)
    (item : Nat) : Enlisted config call item state (insertOf call config state call item) := by
  unfold insertOf
  cases call.source with
  | v4 srcAddr => exact v4Insert_enlisted config state call item
  | v6 srcAddr => exact v6Insert_enlisted config state call item

theorem insertOf_used (config : FlowDdosConfig) (state : FlowDdosState) (call : Call)
    (item : Nat) : (insertOf call config state call item).used = state.used := by
  unfold insertOf
  cases call.source <;> rfl

/-- The eviction branch's own block is overwritten by the common one. -/
theorem Enlisted.of_evictOld
    {config : FlowDdosConfig} {call : Call} {item : Nat} {state after : FlowDdosState}
    (enlisted : Enlisted config call item (evictOld state call item) after) :
    Enlisted config call item state after where
  next := by
    rw [enlisted.next]
    simp [evictOld, FlowDdosState.stampNew, FlowDdosState.setNode, FlowDdosState.memset,
      insertNext_reset]
  prev := by
    rw [enlisted.prev]
    simp [evictOld, FlowDdosState.stampNew, FlowDdosState.setNode, FlowDdosState.memset,
      insertPrev_reset]
  source := enlisted.source
  empty := enlisted.empty
  modtime := enlisted.modtime
  others other different := by
    rw [enlisted.others other different]
    simp [evictOld, FlowDdosState.stampNew, FlowDdosState.setNode, FlowDdosState.memset,
      different]

theorem Enlisted.of_mempoolGet
    {config : FlowDdosConfig} {call : Call} {item : Nat} {state after : FlowDdosState}
    (enlisted : Enlisted config call item (mempoolGet state) after) :
    Enlisted config call item state after where
  next := enlisted.next
  prev := enlisted.prev
  source := enlisted.source
  empty := enlisted.empty
  modtime := enlisted.modtime
  others := enlisted.others

/-! ## After the two paths join -/

structure Recorded (call : Call) (item : Nat) (state after : FlowDdosState) : Prop where
  next : after.next = state.next
  prev : after.prev = state.prev
  used : after.used = state.used
  addr : (after.node item).addr = (state.node item).addr
  modtime : (after.node item).modtime = call.clock.stamped
  others : ∀ other, other ≠ item → after.node other = state.node other

theorem setNode_recorded
    (call : Call) (item : Nat) (state : FlowDdosState) (value : FlowDdosNode)
    (addr : value.addr = (state.node item).addr)
    (modtime : value.modtime = call.clock.stamped) :
    Recorded call item state (state.setNode item value) where
  next := rfl
  prev := rfl
  used := rfl
  addr := by simp [FlowDdosState.setNode, addr]
  modtime := by simp [FlowDdosState.setNode, modtime]
  others other different := by simp [FlowDdosState.setNode, different]

theorem flowDdosRecord_recorded
    {config : FlowDdosConfig} {state after : FlowDdosState} {call : Call} {item : Nat}
    {verdict : Int} (returned : flowDdosRecord config state call item = .ok (after, verdict)) :
    Recorded call item state after := by
  unfold flowDdosRecord at returned
  dsimp only at returned
  split at returned
  next known =>
    cases returned
    exact setNode_recorded call item state _ rfl rfl
  next unknown =>
    split at returned
    next full => simp at returned
    next room =>
      split at returned
      next exceeded =>
        cases returned
        exact setNode_recorded call item state _ rfl rfl
      next within =>
        cases returned
        exact setNode_recorded call item state _ rfl rfl

section Recording

variable {config : FlowDdosConfig} {state : FlowDdosState} {call : Call} {item : Nat}
  {node : FlowDdosNode}

theorem flowDdosRecord_known (refreshed : refresh config (state.node item) call.clock = node)
    (known : recorded node call.source call.srcPort = true) :
    flowDdosRecord config state call item = .ok (state.setNode item node, 0) := by
  unfold flowDdosRecord
  simp only [refreshed, known, if_true]

theorem flowDdosRecord_full (refreshed : refresh config (state.node item) call.clock = node)
    (unknown : recorded node call.source call.srcPort = false)
    (full : flowDdosEverynodeEntryMaxSz ≤ node.nPackets.toNat) :
    flowDdosRecord config state call item = .error .entryOverflow := by
  unfold flowDdosRecord
  simp only [refreshed, unknown, Bool.false_eq_true, if_false, ge_iff_le, if_pos full]

theorem flowDdosRecord_new (refreshed : refresh config (state.node item) call.clock = node)
    (unknown : recorded node call.source call.srcPort = false)
    (room : node.nPackets.toNat < flowDdosEverynodeEntryMaxSz) :
    flowDdosRecord config state call item =
      if node.nPackets + 1 > config.scanNumber then
        .ok (state.setNode item
          { addEntry node call.source call.srcPort with nPackets := 0 }, 1)
      else
        .ok (state.setNode item (addEntry node call.source call.srcPort), 0) := by
  unfold flowDdosRecord
  simp only [refreshed, unknown, Bool.false_eq_true, if_false, ge_iff_le,
    if_neg (Nat.not_le.mpr room)]
  rfl

end Recording

theorem flowDdosRecord_empty
    (config : FlowDdosConfig) (state : FlowDdosState) (call : Call) (item : Nat)
    (empty : (state.node item).nPackets = 0) :
    ∃ after verdict, flowDdosRecord config state call item = .ok (after, verdict) := by
  have none : (refresh config (state.node item) call.clock).nPackets = 0 := by
    simp [refresh, empty]
  have unknown :
      recorded (refresh config (state.node item) call.clock) call.source call.srcPort = false := by
    simp [recorded, none]
  rw [flowDdosRecord_new rfl unknown (by rw [none]; decide)]
  split
  · exact ⟨_, _, rfl⟩
  · exact ⟨_, _, rfl⟩

/-! ## A whole call -/

inductive Detected (config : FlowDdosConfig) (state : FlowDdosState) (call : Call)
    (after : FlowDdosState) : Prop where
  | found (item : Nat) (scan : Scan)
      (scanned : ∃ fuel,
        flowDdosScan state (call.bucket config) call.source fuel = .ok (some item, scan))
      (recorded : Recorded call item state after)
  | evicted (old : Nat) (scan : Scan) (middle : FlowDdosState)
      (scanned : ∃ fuel,
        flowDdosScan state (call.bucket config) call.source fuel = .ok (none, scan))
      (full : scan.cnt = 10) (victim : scan.old = some old)
      (enlisted : Enlisted config call old state middle)
      (used : middle.used = state.used)
      (recorded : Recorded call old middle after)
  | added (scan : Scan) (middle : FlowDdosState)
      (scanned : ∃ fuel,
        flowDdosScan state (call.bucket config) call.source fuel = .ok (none, scan))
      (room : scan.cnt ≠ 10)
      (enlisted : Enlisted config call state.used state middle)
      (used : middle.used = state.used + 1)
      (recorded : Recorded call state.used middle after)
  | refused (scan : Scan)
      (scanned : ∃ fuel,
        flowDdosScan state (call.bucket config) call.source fuel = .ok (none, scan))
      (room : scan.cnt ≠ 10) (exhausted : call.granted = false)
      (unchanged : after = state)

theorem detected_of_step
    {config : FlowDdosConfig} {state after : FlowDdosState} {call : Call}
    (stepped : Step config state call after) : Detected config state call after := by
  obtain ⟨verdict, fuel, returned⟩ := stepped
  rw [detect_eq, detectWith] at returned
  split at returned
  next fault failed => simp at returned
  next item scan scanned =>
    exact .found item scan ⟨fuel, scanned⟩ (flowDdosRecord_recorded returned)
  next scan scanned =>
    split at returned
    next full =>
      split at returned
      next missing => simp at returned
      next old victim =>
        exact .evicted old scan _ ⟨fuel, scanned⟩ full victim
          (insertOf_enlisted config _ call old).of_evictOld
          (insertOf_used config _ call old) (flowDdosRecord_recorded returned)
    next room =>
      dsimp only at returned
      split at returned
      next granted =>
        exact .added scan _ ⟨fuel, scanned⟩ room
          (insertOf_enlisted config _ call state.used).of_mempoolGet
          (insertOf_used config _ call state.used) (flowDdosRecord_recorded returned)
      next refused =>
        cases returned
        exact .refused scan ⟨fuel, scanned⟩ room (by simpa using refused) rfl

/-- A call for an absent source returns when its bucket has room and the pool
yields a node, or when it holds ten nodes and a victim is found. -/
theorem step_of_absent
    {config : FlowDdosConfig} {state : FlowDdosState} {call : Call} {scan : Scan} {fuel : Nat}
    (scanned : flowDdosScan state (call.bucket config) call.source fuel = .ok (none, scan))
    (possible : if scan.cnt = 10 then scan.old.isSome = true else call.granted = true) :
    ∃ after verdict, Returns config state call after verdict := by
  have returns : ∃ after verdict, detectWith (insertOf call) config fuel state call =
      .ok (after, verdict) := by
    rw [detectWith, scanned]
    dsimp only
    split at possible
    next full =>
      obtain ⟨old, victim⟩ := Option.isSome_iff_exists.mp possible
      rw [if_pos full, victim]
      exact flowDdosRecord_empty config _ call old (insertOf_enlisted config _ call old).empty
    next room =>
      rw [if_neg room, if_pos possible]
      exact flowDdosRecord_empty config _ call state.used
        (insertOf_enlisted config _ call state.used).empty
  obtain ⟨after, verdict, returned⟩ := returns
  exact ⟨after, verdict, fuel, by rw [detect_eq, returned]⟩

/-! ## Up to the join -/

/-- The state and the node at `/*item is not null*/`, or no node when the pool
refuses. -/
def arrive (config : FlowDdosConfig) (fuel : Nat) (state : FlowDdosState) (call : Call) :
    Except Fault (Option (FlowDdosState × Nat)) :=
  match flowDdosScan state (call.bucket config) call.source fuel with
  | .error fault => .error fault
  | .ok (some item, _) => .ok (some (state, item))
  | .ok (none, scan) =>
      if scan.cnt = 10 then
        match scan.old with
        | none => .error .nullVictim
        | some old => .ok (some (insertOf call config (evictOld state call old) call old, old))
      else if call.granted then
        .ok (some (insertOf call config (mempoolGet state) call state.used, state.used))
      else
        .ok none

def depart (config : FlowDdosConfig) (state : FlowDdosState) (call : Call) :
    Except Fault (Option (FlowDdosState × Nat)) → Except Fault (FlowDdosState × Int)
  | .error fault => .error fault
  | .ok none => .ok (state, 0)
  | .ok (some (middle, item)) => flowDdosRecord config middle call item

theorem detect_arrive (config : FlowDdosConfig) (fuel : Nat) (state : FlowDdosState)
    (call : Call) :
    detect config fuel state call = depart config state call (arrive config fuel state call) := by
  rw [detect_eq, detectWith, arrive]
  cases flowDdosScan state (call.bucket config) call.source fuel with
  | error fault => rfl
  | ok result =>
      obtain ⟨found, scan⟩ := result
      cases found with
      | some item => rfl
      | none =>
          dsimp only
          by_cases full : scan.cnt = 10
          · rw [if_pos full, if_pos full]
            cases scan.old <;> rfl
          · rw [if_neg full, if_neg full]
            by_cases granted : call.granted = true
            · rw [if_pos granted, if_pos granted]
              rfl
            · rw [if_neg granted, if_neg granted]
              rfl

theorem arrive_found {config : FlowDdosConfig} {fuel item : Nat} {state : FlowDdosState}
    {call : Call} {scan : Scan}
    (scanned : flowDdosScan state (call.bucket config) call.source fuel = .ok (some item, scan)) :
    arrive config fuel state call = .ok (some (state, item)) := by
  simp only [arrive, scanned]

theorem arrive_added {config : FlowDdosConfig} {fuel : Nat} {state : FlowDdosState} {call : Call}
    {scan : Scan}
    (scanned : flowDdosScan state (call.bucket config) call.source fuel = .ok (none, scan))
    (room : scan.cnt ≠ 10) (granted : call.granted = true) :
    arrive config fuel state call =
      .ok (some (insertOf call config (mempoolGet state) call state.used, state.used)) := by
  simp only [arrive, scanned, if_neg room, if_pos granted]

end UAFlow.Ddos
