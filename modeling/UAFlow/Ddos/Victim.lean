import UAFlow.Ddos.Eviction

/-!
# The node an eviction takes

The walk keeps the smallest `modtime` seen so far, starting from 3000000000.
The clock counts milliseconds modulo 2³², so it passes values from there on, and
nodes stamped with such values are never chosen.
-/

namespace UAFlow.Ddos

open Library

theorem scanItems_mtime {state : FlowDdosState} {source : Source} {items : List Nat}
    {start scan : Scan} (missed : scanItems state source items start = (none, scan)) :
    scan.mtime ≤ start.mtime ∧ ∀ item ∈ items, scan.mtime ≤ (state.node item).modtime := by
  induction items generalizing start with
  | nil =>
      cases missed
      exact ⟨UInt32.le_refl _, by simp⟩
  | cons first items inductionHypothesis =>
      rw [scanItems] at missed
      split at missed
      next held => simp at missed
      next other =>
        obtain ⟨below, rest⟩ := inductionHypothesis missed
        have visited : (start.visit first (state.node first).modtime).mtime ≤ start.mtime ∧
            (start.visit first (state.node first).modtime).mtime ≤
              (state.node first).modtime := by
          unfold Scan.visit
          split
          next older => exact ⟨UInt32.le_of_lt older, UInt32.le_refl _⟩
          next newer => exact ⟨UInt32.le_refl _, UInt32.not_lt.mp newer⟩
        refine ⟨UInt32.le_trans below visited.1, ?_⟩
        intro item membership
        cases membership with
        | head => exact UInt32.le_trans below visited.2
        | tail _ later => exact rest item later

theorem scanItems_mtime_old {state : FlowDdosState} {source : Source} {items : List Nat}
    {start scan : Scan} {old : Nat} (missed : scanItems state source items start = (none, scan))
    (chosen : scan.old = some old)
    (begins : start.old = some old → (state.node old).modtime = start.mtime) :
    (state.node old).modtime = scan.mtime := by
  induction items generalizing start with
  | nil =>
      cases missed
      exact begins chosen
  | cons first items inductionHypothesis =>
      rw [scanItems] at missed
      split at missed
      next held => simp at missed
      next other =>
        apply inductionHypothesis missed
        unfold Scan.visit
        split
        next older =>
          intro same
          cases same
          rfl
        next newer => exact begins

/-- The walk passes ten nodes and ends with `old` at one of them that has the
smallest `modtime`. -/
def ChoosesOldest (state : FlowDdosState) (bucket : Bucket) (source : Source)
    (items : List Nat) : Prop :=
  ∃ scan old, (∀ extra, flowDdosScan state bucket source (11 + extra) = .ok (none, scan)) ∧
    scan.cnt = 10 ∧ scan.old = some old ∧ old ∈ items ∧
    ∀ item ∈ items, (state.node old).modtime ≤ (state.node item).modtime

section FullBucket

variable {state : FlowDdosState} {bucket : Bucket} {source : Source} {items : List Nat}

theorem Walks.scan_full (walks : Walks state bucket items) (ten : items.length = 10)
    (absent : ∀ item ∈ items, state.sourceOf source.family item ≠ source) :
    ∃ scan, scanItems state source items Scan.start = (none, scan) ∧ scan.cnt = 10 ∧
      ∀ extra, flowDdosScan state bucket source (11 + extra) = .ok (none, scan) := by
  have scanned := walks.scan source
  have missed := scanItems_absent absent Scan.start
  rcases folded : scanItems state source items Scan.start with ⟨result, scan⟩
  rw [folded] at scanned missed
  subst missed
  have count := (scanItems_none folded).2
  rw [ten] at scanned count
  exact ⟨scan, rfl, count, fun extra => scanBucket_mono extra scanned⟩

/-- Only a node below the start value of `mtime` is ever chosen. -/
theorem scanItems_below {scan : Scan} {old : Nat}
    (folded : scanItems state source items Scan.start = (none, scan))
    (chosen : scan.old = some old) : old ∈ items ∧ (state.node old).modtime < 3000000000 := by
  cases scanItems_old folded chosen with
  | inl inside => exact inside
  | inr before => simp [Scan.start] at before

theorem ChoosesOldest.exists_below (walks : Walks state bucket items) (ten : items.length = 10)
    (absent : ∀ item ∈ items, state.sourceOf source.family item ≠ source)
    (chooses : ChoosesOldest state bucket source items) :
    ∃ item ∈ items, (state.node item).modtime < 3000000000 := by
  obtain ⟨scan, folded, _, scanned⟩ := walks.scan_full ten absent
  obtain ⟨other, old, walked, _, chosen, _⟩ := chooses
  have same := flowDdosScan_unique (scanned 0) (walked 0)
  cases same
  exact ⟨old, scanItems_below folded chosen⟩

/-- Without a node below the start value the eviction works on a null node. -/
theorem detect_nullVictim {config : FlowDdosConfig} {call : Call}
    (walks : Walks state (call.bucket config) items) (ten : items.length = 10)
    (absent : ∀ item ∈ items, state.sourceOf call.source.family item ≠ call.source)
    (late : ∀ item ∈ items, ¬ (state.node item).modtime < 3000000000) (extra : Nat) :
    detect config (11 + extra) state call = .error .nullVictim := by
  obtain ⟨scan, folded, count, scanned⟩ := walks.scan_full ten absent
  have null : scan.old = none := by
    rw [Option.eq_none_iff_forall_not_mem]
    intro old chosen
    obtain ⟨membership, below⟩ := scanItems_below folded chosen
    exact late old membership below
  rw [detect_eq, detectWith, scanned]
  simp only [count, null, if_true]

end FullBucket

/-- A full bucket yields its oldest node exactly when some node was stamped
before the start value of `mtime`. -/
theorem chooses_oldest_iff (state : FlowDdosState) (bucket : Bucket) (source : Source)
    (items : List Nat) (walks : Walks state bucket items) (ten : items.length = 10)
    (absent : ∀ item ∈ items, state.sourceOf source.family item ≠ source) :
    ChoosesOldest state bucket source items ↔
      ∃ item ∈ items, (state.node item).modtime < 3000000000 := by
  constructor
  · exact ChoosesOldest.exists_below walks ten absent
  · rintro ⟨item, membership, below⟩
    obtain ⟨scan, folded, count, scanned⟩ := walks.scan_full ten absent
    have victim := scanItems_victim folded (.inr ⟨membership, below⟩)
    obtain ⟨old, chosen⟩ := Option.isSome_iff_exists.mp victim
    have smallest := scanItems_mtime_old folded chosen (by simp [Scan.start])
    refine ⟨scan, old, scanned, count, chosen, (scanItems_below folded chosen).1, ?_⟩
    intro other otherMembership
    rw [smallest]
    exact (scanItems_mtime folded).2 other otherMembership

theorem chooses_oldest_iff_ten :
    ChoosesOldest tenTracked ((sourceCall 10).bucket collidingConfig) (sourceCall 10).source
        (List.range 10) ↔
      ∃ item ∈ List.range 10, (tenTracked.node item).modtime < 3000000000 :=
  chooses_oldest_iff tenTracked _ _ (List.range 10)
    (by unfold Walks; decide +kernel) rfl (by decide +kernel)

/-- Ten sources, all seen after the start value of `mtime`. -/
def tenLate : FlowDdosState :=
  stateAfter collidingConfig 20 (flowDdosModuleInit blankMemory)
    ((List.range 10).map fun i =>
      { sourceCall i with clock := Clock.still (3000000000 + UInt32.ofNat i) })

theorem walks_tenLate :
    Walks tenLate ((sourceCall 10).bucket collidingConfig) (List.range 10) := by
  unfold Walks
  decide +kernel

theorem absent_tenLate :
    ∀ item ∈ List.range 10, tenLate.sourceOf (sourceCall 10).source.family item ≠
      (sourceCall 10).source := by
  decide +kernel

/-- Among ten late sources the walk chooses no node, and the eleventh one brings the module
down. -/
theorem not_chooses_oldest_late :
    (¬ ∀ state bucket source items, Walks state bucket items → items.length = 10 →
        (∀ item ∈ items, state.sourceOf source.family item ≠ source) →
          ChoosesOldest state bucket source items) ∧
      detect collidingConfig 11 tenLate (sourceCall 10) = .error .nullVictim := by
  have late : ∀ item ∈ List.range 10, ¬ (tenLate.node item).modtime < 3000000000 := by
    decide +kernel
  refine ⟨fun chooses => ?_, detect_nullVictim walks_tenLate rfl absent_tenLate late 0⟩
  obtain ⟨item, membership, below⟩ := ChoosesOldest.exists_below walks_tenLate rfl absent_tenLate
    (chooses tenLate _ _ (List.range 10) walks_tenLate rfl absent_tenLate)
  exact late item membership below

end UAFlow.Ddos
