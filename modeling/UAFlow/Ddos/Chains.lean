import UAFlow.Ddos.Effect

/-!
# The lists of a reachable state

`Chains state chain` holds in every reachable state, evictions included: each
bucket has a list of nodes that the forward walk visits in order, the lists of
different buckets share no node, and a bucket tracks a source at most once.
What an eviction can do to a bucket is in the two ends a walk may have: the
list head, or a node that points to itself.
-/

namespace UAFlow.Ddos

open Library

/-- The walk of the bucket visits `items` and comes back to the head. -/
def Walks (state : FlowDdosState) (bucket : Bucket) (items : List Nat) : Prop :=
  Path state.next (state.next (.head bucket)) (items.map .node) (.head bucket)

/-- The cell `list_add_tail` finds in `head->prev`. -/
def lastCell (bucket : Bucket) (items : List Nat) : Cell :=
  (Cell.head bucket :: items.map Cell.node).getLast (by simp)

theorem lastCell_mem (bucket : Bucket) (items : List Nat) :
    lastCell bucket items ∈ Cell.head bucket :: items.map Cell.node :=
  List.getLast_mem (by simp)

@[simp]
theorem lastCell_append_singleton (bucket : Bucket) (items : List Nat) (item : Nat) :
    lastCell bucket (items ++ [item]) = .node item := by
  unfold lastCell
  rw [List.getLast_cons (by simp)]
  simp

structure Chains (state : FlowDdosState) (chain : Bucket → List Nat) : Prop where
  walk : ∀ bucket, ∃ stop,
    Path state.next (state.next (.head bucket)) ((chain bucket).map .node) stop ∧
      (stop = .head bucket ∨ ∃ item ∈ chain bucket,
        stop = .node item ∧ state.next (.node item) = .node item)
  prevHead : ∀ bucket, state.prev (.head bucket) = lastCell bucket (chain bucket)
  apart : ∀ first second item,
    item ∈ chain first → item ∈ chain second → first = second
  fresh : ∀ bucket, ∀ item ∈ chain bucket, item < state.used
  distinct : ∀ bucket,
    ((chain bucket).map (state.sourceOf bucket.table.family)).Nodup

theorem chains_init (memory : Nat → FlowDdosNode) :
    Chains (flowDdosModuleInit memory) (fun _ => []) where
  walk bucket := ⟨.head bucket, rfl, .inl rfl⟩
  prevHead _ := rfl
  apart _ _ _ membership := by simp at membership
  fresh _ _ membership := by simp at membership
  distinct _ := by simp

namespace Chains

variable {config : FlowDdosConfig} {state middle after : FlowDdosState} {call : Call}
  {chain : Bucket → List Nat}

theorem nodup (chains : Chains state chain) (bucket : Bucket) : (chain bucket).Nodup :=
  (chains.distinct bucket).of_map _

theorem cells_nodup (chains : Chains state chain) (bucket : Bucket) :
    (Cell.head bucket :: (chain bucket).map Cell.node).Nodup := by
  rw [List.nodup_cons]
  refine ⟨by simp, (chains.nodup bucket).map ?_⟩
  intro first second same
  exact Cell.node.inj same

theorem used_outside (chains : Chains state chain) (bucket : Bucket) :
    Cell.node state.used ∉ Cell.head bucket :: (chain bucket).map Cell.node := by
  intro membership
  simp only [List.mem_cons, reduceCtorEq, List.mem_map, Cell.node.injEq, exists_eq_right,
    false_or] at membership
  exact absurd (chains.fresh _ _ membership) (by omega)

theorem sourceOf_injective (chains : Chains state chain) (bucket : Bucket)
    {first second : Nat} (firstMember : first ∈ chain bucket)
    (secondMember : second ∈ chain bucket)
    (same : state.sourceOf bucket.table.family first =
      state.sourceOf bucket.table.family second) : first = second :=
  List.inj_on_of_nodup_map (chains.distinct bucket) firstMember secondMember same

/-- A node that points to itself and is not searched for holds the walk forever. -/
theorem scan_selfLoop {bucket : Bucket} {source : Source} {item : Nat}
    (loop : state.next (.node item) = .node item)
    (other : state.sourceOf source.family item ≠ source) (fuel : Nat) (scan : Scan)
    (result : Option Nat × Scan) :
    scanBucket state (.head bucket) source fuel (.node item) scan ≠ .ok result := by
  induction fuel generalizing scan with
  | zero => simp [scanBucket]
  | succ fuel inductionHypothesis =>
      have notHeld : ¬ source.heldIn (state.node item).addr = true :=
        fun held => other ((Source.heldIn_iff _ _).mp held)
      simp only [scanBucket, reduceCtorEq, if_false, notHeld, loop]
      exact inductionHypothesis _

theorem scan_cases (chains : Chains state chain) {bucket : Bucket} {source : Source}
    {fuel : Nat} {result : Option Nat} {scan : Scan}
    (scanned : flowDdosScan state bucket source fuel = .ok (result, scan)) :
    scanItems state source (chain bucket) Scan.start = (result, scan) ∧
      (result = none → Walks state bucket (chain bucket)) := by
  obtain ⟨stop, path, ending⟩ := chains.walk bucket
  have more := scanBucket_mono (chain bucket).length scanned
  rw [Nat.add_comm, scanBucket_path state bucket source fuel Scan.start path] at more
  rcases folded : scanItems state source (chain bucket) Scan.start with ⟨found, last⟩
  rw [folded] at more
  cases found with
  | some item =>
      cases more
      exact ⟨rfl, by simp⟩
  | none =>
      dsimp only at more
      rcases ending with atHead | ⟨item, membership, atItem, loop⟩
      · subst stop
        cases fuel with
        | zero => simp [scanBucket] at more
        | succ fuel =>
            rw [scanBucket_head] at more
            cases more
            exact ⟨rfl, fun _ => path⟩
      · subst stop
        have other := (scanItems_none folded).1 item membership
        exact absurd more (scan_selfLoop loop other _ _ _)

theorem scan_found (chains : Chains state chain) {bucket : Bucket} {source : Source}
    {fuel item : Nat} {scan : Scan}
    (scanned : flowDdosScan state bucket source fuel = .ok (some item, scan)) :
    item ∈ chain bucket ∧ state.sourceOf source.family item = source :=
  scanItems_some (chains.scan_cases scanned).1

theorem scan_missed (chains : Chains state chain) {bucket : Bucket} {source : Source}
    {fuel : Nat} {scan : Scan}
    (scanned : flowDdosScan state bucket source fuel = .ok (none, scan)) :
    Walks state bucket (chain bucket) ∧
      (∀ item ∈ chain bucket, state.sourceOf source.family item ≠ source) ∧
      scan.cnt = (chain bucket).length ∧
      ∀ old, scan.old = some old →
        old ∈ chain bucket ∧ (state.node old).modtime < Scan.start.mtime := by
  obtain ⟨folded, walks⟩ := chains.scan_cases scanned
  obtain ⟨absent, count⟩ := scanItems_none folded
  refine ⟨walks rfl, absent, by simpa [Scan.start] using count, ?_⟩
  intro old chosen
  rcases scanItems_old folded chosen with inside | before
  · exact inside
  · simp [Scan.start] at before

theorem walks_eq (chains : Chains state chain) {bucket : Bucket} {items : List Nat}
    (walks : Walks state bucket items) :
    items = chain bucket ∧ Walks state bucket (chain bucket) := by
  obtain ⟨stop, path, ending⟩ := chains.walk bucket
  have noHead : ∀ nodes : List Nat, Cell.head bucket ∉ nodes.map Cell.node := by simp
  rcases ending with atHead | ⟨item, membership, atItem, loop⟩
  · subst stop
    have same := walks.unique path (noHead _) (noHead _)
    refine ⟨List.map_injective_iff.mpr ?_ same, path⟩
    intro first second equality
    exact Cell.node.inj equality
  · subst stop
    have stuck := path.stop_mem_of_loop loop (List.mem_map_of_mem membership) walks
    exact absurd stuck (noHead _)

theorem foreign (chains : Chains state chain) {bucket other : Bucket}
    (different : other ≠ bucket) {cell : Cell}
    (membership : cell ∈ Cell.head other :: (chain other).map Cell.node) :
    cell ≠ .head bucket ∧ cell ≠ lastCell bucket (chain bucket) ∧
      cell ≠ .node state.used ∧ ∀ item ∈ chain bucket, cell ≠ .node item := by
  have notNode : ∀ item, item ∈ chain bucket ∨ item = state.used → cell ≠ .node item := by
    rintro item known rfl
    simp only [List.mem_cons, reduceCtorEq, List.mem_map, Cell.node.injEq, exists_eq_right,
      false_or] at membership
    rcases known with inside | beyond
    · exact different (chains.apart other bucket item membership inside)
    · exact absurd (chains.fresh other item membership) (by omega)
  have notHead : cell ≠ .head bucket := by
    rintro rfl
    simp only [List.mem_cons, Cell.head.injEq, List.mem_map, reduceCtorEq, and_false,
      exists_false, or_false] at membership
    exact different membership.symm
  refine ⟨notHead, ?_, notNode _ (.inr rfl), fun item inside => notNode item (.inl inside)⟩
  intro same
  have last := lastCell_mem bucket (chain bucket)
  rw [← same] at last
  rcases List.mem_cons.mp last with isHead | isNode
  · exact notHead isHead
  · obtain ⟨item, inside, equality⟩ := List.mem_map.mp isNode
    exact notNode item (.inl inside) equality.symm

theorem recorded (chains : Chains state chain) {item : Nat}
    (recorded : Recorded call item state after) : Chains after chain := by
  have sources : ∀ family, after.sourceOf family = state.sourceOf family := by
    intro family
    funext other
    unfold FlowDdosState.sourceOf
    by_cases same : other = item
    · rw [same, recorded.addr]
    · rw [recorded.others other same]
  refine ⟨?_, ?_, chains.apart, ?_, ?_⟩
  · intro bucket
    rw [recorded.next]
    exact chains.walk bucket
  · intro bucket
    rw [recorded.prev]
    exact chains.prevHead bucket
  · intro bucket other membership
    rw [recorded.used]
    exact chains.fresh bucket other membership
  · intro bucket
    rw [sources]
    exact chains.distinct bucket

/-- An insertion leaves the other buckets' lists as they are.  `item` is the
inserted node: one of the bucket's own, or the next one of the pool. -/
theorem enlisted_foreign (chains : Chains state chain) {item : Nat}
    (enlisted : Enlisted config call item state middle)
    (known : item ∈ chain (call.bucket config) ∨ item = state.used)
    {other : Bucket} (different : other ≠ call.bucket config) :
    (∀ cell ∈ Cell.head other :: (chain other).map Cell.node,
      middle.next cell = state.next cell ∧ middle.prev cell = state.prev cell) ∧
    ∀ kept ∈ chain other, middle.node kept = state.node kept := by
  have notItem : ∀ cell ∈ Cell.head other :: (chain other).map Cell.node,
      cell ≠ .node item := by
    intro cell membership
    obtain ⟨_, _, notUsed, notOwn⟩ := chains.foreign different membership
    rcases known with inside | same
    · exact notOwn item inside
    · rw [same]
      exact notUsed
  refine ⟨?_, ?_⟩
  · intro cell membership
    obtain ⟨notHead, notLast, _⟩ := chains.foreign different membership
    rw [enlisted.next, enlisted.prev, chains.prevHead]
    exact ⟨insertNext_of_ne notLast (notItem cell membership),
      insertPrev_of_ne notHead (notItem cell membership)⟩
  · intro kept membership
    apply enlisted.others
    rintro rfl
    exact notItem (.node kept) (by simp [membership]) rfl

theorem mem_updated {item : Nat} {items : List Nat}
    (subset : ∀ kept ∈ items, kept ∈ chain (call.bucket config) ∨ kept = item)
    (known : item ∈ chain (call.bucket config) ∨ item = state.used) {bucket : Bucket} {kept : Nat}
    (membership : kept ∈ Function.update chain (call.bucket config) items bucket) :
    kept ∈ chain bucket ∨ bucket = call.bucket config ∧ kept = state.used := by
  by_cases same : bucket = call.bucket config
  · subst same
    rw [Function.update_self] at membership
    rcases subset kept membership with inside | isItem
    · exact .inl inside
    · subst isItem
      exact known.imp_right fun equality => ⟨rfl, equality⟩
  · rw [Function.update_of_ne same] at membership
    exact .inl membership

theorem enlisted_walk (chains : Chains state chain) {item : Nat}
    (enlisted : Enlisted config call item state middle)
    (known : item ∈ chain (call.bucket config) ∨ item = state.used)
    {other : Bucket} (different : other ≠ call.bucket config) :
    ∃ stop, Path middle.next (middle.next (.head other)) ((chain other).map .node) stop ∧
      (stop = .head other ∨ ∃ kept ∈ chain other,
        stop = .node kept ∧ middle.next (.node kept) = .node kept) := by
  have frame := (chains.enlisted_foreign enlisted known different).1
  obtain ⟨stop, path, ending⟩ := chains.walk other
  refine ⟨stop, ?_, ?_⟩
  · rw [(frame (.head other) (by simp)).1]
    exact path.congr fun cell membership => (frame cell (List.mem_cons_of_mem _ membership)).1
  · rcases ending with atHead | ⟨kept, membership, atItem, loop⟩
    · exact .inl atHead
    · refine .inr ⟨kept, membership, atItem, ?_⟩
      rw [(frame (.node kept) (by simp [membership])).1, loop]

theorem sources_congr {family : Family} {items : List Nat}
    (same : ∀ kept ∈ items, middle.node kept = state.node kept) :
    items.map (middle.sourceOf family) = items.map (state.sourceOf family) := by
  apply List.map_congr_left
  intro kept membership
  simp only [FlowDdosState.sourceOf, same kept membership]

theorem enlisted (chains : Chains state chain) {item : Nat} {items : List Nat}
    (enlisted : Enlisted config call item state middle)
    (used : state.used ≤ middle.used) (below : item < middle.used)
    (known : item ∈ chain (call.bucket config) ∨ item = state.used)
    (subset : ∀ kept ∈ items, kept ∈ chain (call.bucket config) ∨ kept = item)
    (walk : ∃ stop,
      Path middle.next (middle.next (.head (call.bucket config))) (items.map .node) stop ∧
        (stop = .head (call.bucket config) ∨ ∃ kept ∈ items,
          stop = .node kept ∧ middle.next (.node kept) = .node kept))
    (prevHead : middle.prev (.head (call.bucket config)) =
      lastCell (call.bucket config) items)
    (distinct : (items.map
      (middle.sourceOf (call.bucket config).table.family)).Nodup) :
    Chains middle (Function.update chain (call.bucket config) items) := by
  refine ⟨?_, ?_, ?_, ?_, ?_⟩
  · intro bucket
    by_cases same : bucket = call.bucket config
    · subst same
      simpa using walk
    · rw [Function.update_of_ne same]
      exact chains.enlisted_walk enlisted known same
  · intro bucket
    by_cases same : bucket = call.bucket config
    · subst same
      simpa using prevHead
    · rw [Function.update_of_ne same,
        ((chains.enlisted_foreign enlisted known same).1 (.head bucket) (by simp)).2]
      exact chains.prevHead bucket
  · intro first second kept firstMember secondMember
    rcases mem_updated subset known firstMember with inFirst | ⟨isFirst, new⟩
    · rcases mem_updated subset known secondMember with inSecond | ⟨_, new⟩
      · exact chains.apart first second kept inFirst inSecond
      · exact absurd (chains.fresh first kept inFirst) (by omega)
    · rcases mem_updated subset known secondMember with inSecond | ⟨isSecond, _⟩
      · exact absurd (chains.fresh second kept inSecond) (by omega)
      · rw [isFirst, isSecond]
  · intro bucket kept membership
    by_cases same : bucket = call.bucket config
    · subst same
      rw [Function.update_self] at membership
      rcases subset kept membership with inside | isItem
      · exact Nat.lt_of_lt_of_le (chains.fresh _ kept inside) used
      · exact isItem ▸ below
    · rw [Function.update_of_ne same] at membership
      exact Nat.lt_of_lt_of_le (chains.fresh bucket kept membership) used
  · intro bucket
    by_cases same : bucket = call.bucket config
    · subst same
      simpa using distinct
    · rw [Function.update_of_ne same,
        sources_congr (chains.enlisted_foreign enlisted known same).2]
      exact chains.distinct bucket

theorem enlisted_distinct (chains : Chains state chain) {item : Nat} {kept : List Nat}
    (enlisted : Enlisted config call item state middle)
    (sublist : kept.Sublist (chain (call.bucket config))) (apart : item ∉ kept)
    (absent : ∀ other ∈ chain (call.bucket config),
      state.sourceOf call.source.family other ≠ call.source) :
    ((kept ++ [item]).map
      (middle.sourceOf (call.bucket config).table.family)).Nodup := by
  have same : kept.map (middle.sourceOf (call.bucket config).table.family) =
      kept.map (state.sourceOf (call.bucket config).table.family) := by
    apply sources_congr
    intro other membership
    exact enlisted.others other fun equality => apart (equality ▸ membership)
  rw [List.map_append, same, List.nodup_append]
  refine ⟨(chains.distinct _).sublist (sublist.map _), by simp, ?_⟩
  intro first firstMember second secondMember equality
  obtain ⟨other, otherMember, otherSource⟩ := List.mem_map.mp firstMember
  have new : second = call.source := by
    simpa [enlisted.source] using (List.mem_singleton.mp secondMember).trans enlisted.source
  exact absent other (sublist.mem otherMember) (otherSource.trans (equality.trans new))

theorem walks_fresh (chains : Chains state chain)
    (walks : Walks state (call.bucket config) (chain (call.bucket config)))
    (enlisted : Enlisted config call state.used state middle) :
    Walks middle (call.bucket config)
      (chain (call.bucket config) ++ [state.used]) := by
  unfold Walks
  rw [List.map_append, enlisted.next, chains.prevHead]
  exact walks.insert_fresh (chains.cells_nodup _) (chains.used_outside _)

theorem enlist_fresh (chains : Chains state chain)
    (walks : Walks state (call.bucket config) (chain (call.bucket config)))
    (enlisted : Enlisted config call state.used state middle)
    (used : middle.used = state.used + 1)
    (absent : ∀ item ∈ chain (call.bucket config),
      state.sourceOf call.source.family item ≠ call.source) :
    Chains middle (Function.update chain (call.bucket config)
      (chain (call.bucket config) ++ [state.used])) := by
  apply chains.enlisted enlisted (by omega) (by omega) (.inr rfl)
  · simp
  · exact ⟨.head (call.bucket config), chains.walks_fresh walks enlisted, .inl rfl⟩
  · rw [enlisted.prev, lastCell_append_singleton]
    exact insertPrev_head (by simp)
  · apply chains.enlisted_distinct enlisted (List.Sublist.refl _) _ absent
    intro membership
    exact absurd (chains.fresh _ _ membership) (by omega)

/-- An eviction keeps the nodes before the victim and the victim itself; the
walk no longer comes to the nodes behind it, and not back to the head either
when the victim was the last one. -/
theorem enlist_old (chains : Chains state chain) {old : Nat} {before rest : List Nat}
    (walks : Walks state (call.bucket config) (chain (call.bucket config)))
    (split : chain (call.bucket config) = before ++ old :: rest)
    (enlisted : Enlisted config call old state middle) (used : middle.used = state.used)
    (absent : ∀ item ∈ chain (call.bucket config),
      state.sourceOf call.source.family item ≠ call.source) :
    Chains middle (Function.update chain (call.bucket config) (before ++ [old])) := by
  have membership : old ∈ chain (call.bucket config) := by simp [split]
  have cells := chains.cells_nodup (call.bucket config)
  have items := chains.nodup (call.bucket config)
  rw [split] at cells items
  apply chains.enlisted enlisted (by omega)
    (by rw [used]; exact chains.fresh _ old membership) (.inl membership)
  · intro kept keptMember
    rw [List.mem_append, List.mem_singleton] at keptMember
    exact keptMember.imp_left fun inside => by simp [split, inside]
  · have last := chains.prevHead (call.bucket config)
    unfold Walks at walks
    rw [split, List.map_append, List.map_cons] at walks
    rw [enlisted.next, last, split, List.map_append]
    rw [List.map_append, List.map_cons] at cells
    rcases List.eq_nil_or_concat rest with empty | ⟨after, final, tail⟩
    · subst empty
      rw [lastCell_append_singleton]
      refine ⟨.node old, Path.insert_last walks cells, .inr ⟨old, by simp, rfl, ?_⟩⟩
      exact insertNext_last
    · rw [List.concat_eq_append] at tail
      subst tail
      have reshaped : before ++ old :: (after ++ [final]) =
          (before ++ old :: after) ++ [final] := by simp
      rw [reshaped, lastCell_append_singleton]
      rw [List.map_append, List.map_cons, List.map_nil] at walks cells
      exact ⟨.head (call.bucket config), Path.insert_linked walks cells, .inl rfl⟩
  · rw [enlisted.prev, lastCell_append_singleton]
    exact insertPrev_head (by simp)
  · apply chains.enlisted_distinct enlisted _ _ absent
    · rw [split]
      exact List.sublist_append_left before (old :: rest)
    · rw [List.nodup_append] at items
      exact fun inside => items.2.2 old inside old (by simp) rfl

theorem mem_of_inserted {here bucket : Bucket} {kept : List Nat} {item other : Nat}
    (subset : kept ⊆ chain here)
    (inside : other ∈ Function.update chain here (kept ++ [item]) bucket)
    (different : other ≠ item) : other ∈ chain bucket := by
  by_cases same : bucket = here
  · subst same
    rw [Function.update_self, List.mem_append, List.mem_singleton] at inside
    exact subset (inside.resolve_right different)
  · rwa [Function.update_of_ne same] at inside

theorem mem_of_enlisted (chains : Chains state chain) {item : Nat} {kept : List Nat}
    (enlisted : Enlisted config call item state middle) (recorded : Recorded call item middle after)
    (known : item ∈ chain (call.bucket config) ∨ item = state.used)
    (subset : kept ⊆ chain (call.bucket config))
    (absent : ∀ other ∈ chain (call.bucket config),
      state.sourceOf call.source.family other ≠ call.source) (bucket : Bucket) (other : Nat)
    (inside : other ∈ Function.update chain (call.bucket config) (kept ++ [item]) bucket) :
    (bucket = call.bucket config ∧
        after.sourceOf call.source.family other = call.source ∧
        (after.node other).modtime = call.clock.stamped) ∨
      other ∈ chain bucket ∧ after.node other = state.node other ∧
        (bucket = call.bucket config →
          state.sourceOf call.source.family other ≠ call.source) := by
  by_cases isItem : other = item
  · subst other
    have here : bucket = call.bucket config := by
      by_contra different
      rw [Function.update_of_ne different] at inside
      rcases known with membership | fresh
      · exact different (chains.apart _ _ item inside membership)
      · exact absurd (chains.fresh bucket _ inside) (Nat.not_lt.mpr (Nat.le_of_eq fresh.symm))
    refine .inl ⟨here, ?_, recorded.modtime⟩
    rw [FlowDdosState.sourceOf, recorded.addr]
    exact enlisted.source
  · have onList : other ∈ chain bucket := mem_of_inserted subset inside isItem
    refine .inr ⟨onList, ?_, ?_⟩
    · rw [recorded.others other isItem, enlisted.others other isItem]
    · rintro rfl
      exact absent other onList

/-- Every call keeps the lists in shape.  A node on a list afterwards is either
the one of the call's source, stamped by the call, or a node of another source
that was on the same list before with the same content. -/
theorem step (chains : Chains state chain) (stepped : Step config state call after) :
    ∃ chainAfter, Chains after chainAfter ∧
      ∀ bucket, ∀ item ∈ chainAfter bucket,
        (bucket = call.bucket config ∧
            after.sourceOf call.source.family item = call.source ∧
            (after.node item).modtime = call.clock.stamped) ∨
          item ∈ chain bucket ∧ after.node item = state.node item ∧
            (bucket = call.bucket config →
              state.sourceOf call.source.family item ≠ call.source) := by
  cases detected_of_step stepped with
  | found item scan scanned recorded =>
      obtain ⟨fuel, scanned⟩ := scanned
      obtain ⟨membership, same⟩ := chains.scan_found scanned
      refine ⟨chain, chains.recorded recorded, ?_⟩
      intro bucket other inside
      by_cases equality : other = item
      · subst other
        refine .inl ⟨chains.apart _ _ item inside membership, ?_, recorded.modtime⟩
        rw [FlowDdosState.sourceOf, recorded.addr]
        exact same
      · refine .inr ⟨inside, recorded.others other equality, ?_⟩
        rintro rfl otherSource
        exact equality (chains.sourceOf_injective _ inside membership (otherSource.trans same.symm))
  | evicted old scan middle scanned full victim enlisted used recorded =>
      obtain ⟨fuel, scanned⟩ := scanned
      obtain ⟨walks, absent, _, chosen⟩ := chains.scan_missed scanned
      have membership := (chosen old victim).1
      obtain ⟨before, rest, split⟩ := List.append_of_mem membership
      have subset : before ⊆ chain (call.bucket config) := by
        rw [split]
        exact List.subset_append_left before (old :: rest)
      exact ⟨_, (chains.enlist_old walks split enlisted used absent).recorded recorded,
        chains.mem_of_enlisted enlisted recorded (.inl membership) subset absent⟩
  | added scan middle scanned room enlisted used recorded =>
      obtain ⟨fuel, scanned⟩ := scanned
      obtain ⟨walks, absent, _, _⟩ := chains.scan_missed scanned
      exact ⟨_, (chains.enlist_fresh walks enlisted used absent).recorded recorded,
        chains.mem_of_enlisted enlisted recorded (.inr rfl) (List.Subset.refl _) absent⟩
  | refused scan scanned room exhausted unchanged =>
      obtain ⟨fuel, scanned⟩ := scanned
      obtain ⟨_, absent, _, _⟩ := chains.scan_missed scanned
      subst unchanged
      refine ⟨chain, chains, fun bucket item inside => .inr ⟨inside, rfl, ?_⟩⟩
      rintro rfl
      exact absent item inside

end Chains

theorem exists_chains {config : FlowDdosConfig} {memory : Nat → FlowDdosNode}
    {calls : List Call} {state : FlowDdosState} (reached : Reaches config memory calls state) :
    ∃ chain, Chains state chain := by
  apply Run.invariant (fun state => ∃ chain, Chains state chain) _ reached
    ⟨_, chains_init memory⟩
  rintro state call after ⟨chain, chains⟩ stepped
  obtain ⟨chainAfter, chainsAfter, _⟩ := chains.step stepped
  exact ⟨chainAfter, chainsAfter⟩

end UAFlow.Ddos
