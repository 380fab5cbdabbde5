import UAFlow.AhoCorasick.Failure

/-!
# Match lists and sorted edges

`node_collect_matches` appends to a node's own pattern those of the nodes on its
failure chain.  The traversal may come to a node before or after the nodes of
its chain have been through this; the list is the same either way, because what
is there already is not added again.
-/

namespace UAFlow.AhoCorasick

open Library

variable {pool other third : Pool} {path : Nat → List UInt8}
  {entry : List UInt8 → Option AcPattern}

/-- Entries belong to nonempty words and are as long as these. -/
structure WellKept (entry : List UInt8 → Option AcPattern) : Prop where
  length : ∀ word found, entry word = some found → found.ptext.length = word.length
  empty : entry [] = none

theorem WellKept.occurrences_lengths (kept : WellKept entry) (word : List UInt8) :
    (occurrences entry word).Pairwise (fun first second =>
      second.ptext.length < first.ptext.length) ∧
      ∀ found ∈ occurrences entry word, found.ptext.length ≤ word.length := by
  induction word with
  | nil => simp [occurrences, kept.empty]
  | cons letter word inductionHypothesis =>
      obtain ⟨decreasing, bounded⟩ := inductionHypothesis
      rw [occurrences]
      cases present : entry (letter :: word) with
      | none =>
          simp only [Option.toList_none, List.nil_append]
          exact ⟨decreasing, fun found membership =>
            le_trans (bounded found membership) (Nat.le_succ _)⟩
      | some value =>
          have length := kept.length _ _ present
          simp only [Option.toList_some, List.singleton_append, List.pairwise_cons]
          refine ⟨⟨fun found membership => ?_, decreasing⟩, ?_⟩
          · rw [length]
            exact Nat.lt_succ_of_le (bounded found membership)
          · intro found membership
            rcases List.mem_cons.mp membership with rfl | behind
            · exact length.le
            · exact le_trans (bounded found behind) (Nat.le_succ _)

theorem WellKept.occurrences_texts (kept : WellKept entry) (word : List UInt8) :
    ((occurrences entry word).map AcPattern.ptext).Nodup := by
  apply List.pairwise_map.mpr
  apply (kept.occurrences_lengths word).1.imp
  intro first second shorter same
  rw [same] at shorter
  exact Nat.lt_irrefl _ shorter

/-! ## Adding to a match list -/

theorem nodeHasPattern_iff (node : ActNode) (patt : AcPattern) :
    nodeHasPattern node patt = true ↔ patt.ptext ∈ node.matched.map AcPattern.ptext := by
  simp only [nodeHasPattern, List.any_eq_true, beq_iff_eq, List.mem_map]

theorem accept_present {node : ActNode} {added : List AcPattern}
    (present : ∀ patt ∈ added, patt ∈ node.matched) :
    added.foldl (fun node patt => nodeAcceptPattern node patt false) node = node := by
  induction added with
  | nil => rfl
  | cons patt added inductionHypothesis =>
      have known : nodeHasPattern node patt = true :=
        (nodeHasPattern_iff node patt).mpr
          (List.mem_map_of_mem (present patt List.mem_cons_self))
      rw [List.foldl_cons, nodeAcceptPattern, if_pos known]
      exact inductionHypothesis fun other membership =>
        present other (List.mem_cons_of_mem patt membership)

theorem accept_new {node : ActNode} {added : List AcPattern}
    (texts : ((node.matched ++ added).map AcPattern.ptext).Nodup) :
    added.foldl (fun node patt => nodeAcceptPattern node patt false) node =
      { node with matched := node.matched ++ added } := by
  induction added generalizing node with
  | nil => simp
  | cons patt added inductionHypothesis =>
      have fresh : ¬ nodeHasPattern node patt = true := by
        rw [nodeHasPattern_iff]
        intro known
        rw [List.map_append, List.nodup_append] at texts
        exact texts.2.2 _ known _ (by simp) rfl
      rw [List.foldl_cons, nodeAcceptPattern, if_neg fresh, inductionHypothesis]
      · simp
      · simpa using texts

/-! ## One node -/

theorem setNode_setNode (pool : Pool) (nod : Nat) (first second : ActNode) :
    (pool.setNode nod first).setNode nod second = pool.setNode nod second := by
  simp [Pool.setNode]

def Raw (pool : Pool) (path : Nat → List UInt8) (entry : List UInt8 → Option AcPattern)
    (n : Nat) : Prop :=
  (pool.node n).matched = (entry (path n)).toList

def Full (pool : Pool) (path : Nat → List UInt8) (entry : List UInt8 → Option AcPattern)
    (n : Nat) : Prop :=
  (pool.node n).matched = occurrences entry (path n)

def EdgesSorted (node : ActNode) : Prop :=
  node.outgoing.Pairwise fun left right => charValue left.alpha < charValue right.alpha

structure Collecting (pool : Pool) (path : Nat → List UInt8)
    (entry : List UInt8 → Option AcPattern) : Prop where
  spelled : Spelled pool path
  rootFailure : (pool.node root).failureNode = none
  failure : ∀ n < pool.used, n ≠ root → FailureSet pool path n
  matched : ∀ n < pool.used, Raw pool path entry n ∨ Full pool path entry n
  final : ∀ n < pool.used, (pool.node n).final = !(pool.node n).matched.isEmpty
  known : ∀ word found, entry word = some found → IsPath pool word
  kept : WellKept entry

def remaining (pool : Pool) (path : Nat → List UInt8) (entry : List UInt8 → Option AcPattern)
    (n : Nat) : List AcPattern :=
  occurrences entry (longestSuffix (IsPath pool) (path n).tail)

namespace Collecting

theorem own_append_remaining (collecting : Collecting pool path entry) (n : Nat) :
    (entry (path n)).toList ++ remaining pool path entry n = occurrences entry (path n) := by
  by_cases empty : path n = []
  · simp [empty, remaining, collecting.kept.empty, longestSuffix, occurrences]
  · exact (occurrences_fall collecting.known empty).symm

theorem remaining_root (collecting : Collecting pool path entry) :
    remaining pool path entry root = [] := by
  simp [remaining, collecting.spelled.rootPath, longestSuffix, occurrences,
    collecting.kept.empty]

theorem matched_subset (collecting : Collecting pool path entry) {next : Nat}
    (inside : next < pool.used) {word : List UInt8} (suffix : path next <:+ word) :
    ∀ patt ∈ (pool.node next).matched, patt ∈ occurrences entry word := by
  intro patt membership
  rcases collecting.matched next inside with raw | full
  · rw [raw, Option.mem_toList] at membership
    exact mem_occurrences.mpr ⟨_, suffix, membership⟩
  · rw [full] at membership
    obtain ⟨part, partSuffix, present⟩ := mem_occurrences.mp membership
    exact mem_occurrences.mpr ⟨part, partSuffix.trans suffix, present⟩

/-- One node of the chain: its patterns are appended, or the list is complete
already. -/
theorem absorb (collecting : Collecting pool path entry) {next : Nat}
    (inside : next < pool.used) {word : List UInt8} (suffix : path next <:+ word)
    {value : ActNode} (final : value.final = !value.matched.isEmpty)
    (partly : value.matched ++ occurrences entry (path next) = occurrences entry word ∨
      value.matched = occurrences entry word) :
    ∃ matched,
      (let node := (pool.node next).matched.foldl
          (fun node patt => nodeAcceptPattern node patt false) value
        if (pool.node next).final then { node with final := true } else node) =
          { value with matched := matched, final := !matched.isEmpty } ∧
      (matched ++ remaining pool path entry next = occurrences entry word ∨
        matched = occurrences entry word) := by
  have nextFinal := collecting.final next inside
  rcases partly with lacking | whole
  · have own := collecting.own_append_remaining next
    have appended : (value.matched ++ (pool.node next).matched) ++
          remaining pool path entry next = occurrences entry word ∨
        value.matched ++ (pool.node next).matched = occurrences entry word := by
      rcases collecting.matched next inside with raw | full
      · exact Or.inl (by rw [raw, List.append_assoc, own, lacking])
      · exact Or.inr (by rw [full, lacking])
    have texts : ((value.matched ++ (pool.node next).matched).map AcPattern.ptext).Nodup := by
      have all := collecting.kept.occurrences_texts word
      rcases appended with more | done
      · rw [← more, List.map_append] at all
        exact (List.nodup_append.mp all).1
      · rwa [← done] at all
    refine ⟨_, ?_, appended⟩
    simp only [accept_new texts, nextFinal]
    cases (pool.node next).matched <;> simp [final]
  · refine ⟨value.matched, ?_, Or.inr whole⟩
    have present := collecting.matched_subset inside suffix
    rw [← whole] at present
    simp only [accept_present present, nextFinal, ← final]
    cases same : (pool.node next).matched with
    | nil => rfl
    | cons patt rest =>
        have some := List.ne_nil_of_mem (present patt (by simp [same]))
        simp [final, some]

theorem collectMatchesLoop_ok (collecting : Collecting pool path entry) {nod : Nat}
    (fuel : Nat) {n : Nat} (inside : n < pool.used) (suffix : path n <:+ path nod)
    (enough : (path n).length < fuel) {value : ActNode}
    (failure : value.failureNode = (pool.node nod).failureNode)
    (final : value.final = !value.matched.isEmpty)
    (partly : value.matched ++ remaining pool path entry n = occurrences entry (path nod) ∨
      value.matched = occurrences entry (path nod)) :
    collectMatchesLoop nod fuel (pool.setNode nod value) n =
      .ok (pool.setNode nod
        { value with
          matched := occurrences entry (path nod)
          final := !(occurrences entry (path nod)).isEmpty }) := by
  induction fuel generalizing n value with
  | zero => exact absurd enough (Nat.not_lt_zero _)
  | succ fuel inductionHypothesis =>
      have link : ((pool.setNode nod value).node n).failureNode = (pool.node n).failureNode := by
        by_cases here : n = nod
        · subst here
          rw [Pool.setNode_self, failure]
        · rw [Pool.setNode_other here]
      rw [collectMatchesLoop, link]
      by_cases isRoot : n = root
      · subst isRoot
        have whole : value.matched = occurrences entry (path nod) := by
          rw [collecting.remaining_root, List.append_nil, or_self] at partly
          exact partly
        rw [collecting.rootFailure]
        simp [← whole, ← final]
      · obtain ⟨next, ⟨nextInside, word⟩, set⟩ := collecting.failure n inside isRoot
        have nonempty : path n ≠ [] := (collecting.spelled.path_eq_nil_iff inside).not.mpr isRoot
        have nextSuffix : path next <:+ (path n).tail := word ▸ longestSuffix_suffix _ _
        have shorter : (path next).length < (path n).length := by
          have bound := nextSuffix.length_le
          have positive := List.length_pos_iff.mpr nonempty
          rw [List.length_tail] at bound
          omega
        have below : path next <:+ path nod :=
          (nextSuffix.trans (List.tail_suffix _)).trans suffix
        have apart : next ≠ nod := by
          rintro rfl
          have bound := suffix.length_le
          omega
        have rest : remaining pool path entry n = occurrences entry (path next) := by
          rw [remaining, word]
        rw [rest] at partly
        obtain ⟨matched, absorbed, further⟩ := collecting.absorb nextInside below final partly
        have continued : collectMatchesLoop nod fuel
            (pool.setNode nod { value with matched := matched, final := !matched.isEmpty }) next =
              _ := inductionHypothesis nextInside below (by omega) failure rfl further
        simp only [set, Pool.setNode_other apart, Pool.setNode_self, absorbed]
        rw [setNode_setNode]
        exact continued

end Collecting

theorem charValue_inj {first second : UInt8} (same : charValue first = charValue second) :
    first = second := by
  have signed := Int8.toInt_inj.mp same
  rw [← UInt8.toUInt8_toInt8 first, signed, UInt8.toUInt8_toInt8]

theorem nodeSortEdges_perm (node : ActNode) :
    (nodeSortEdges node).outgoing.Perm node.outgoing :=
  List.mergeSort_perm _ _

theorem nodeSortEdges_sorted {node : ActNode} (distinct : (node.outgoing.map ActEdge.alpha).Nodup) :
    EdgesSorted (nodeSortEdges node) := by
  have weakly : (nodeSortEdges node).outgoing.Pairwise fun left right =>
      decide (charValue left.alpha ≤ charValue right.alpha) = true := by
    apply List.pairwise_mergeSort
    · intro first second third below above
      simp only [decide_eq_true_eq] at below above ⊢
      exact le_trans below above
    · intro first second
      simp only [Bool.or_eq_true, decide_eq_true_eq]
      exact le_total _ _
  have apart : (nodeSortEdges node).outgoing.Pairwise fun left right =>
      left.alpha ≠ right.alpha :=
    List.pairwise_map.mp (((nodeSortEdges_perm node).map ActEdge.alpha).nodup_iff.mpr distinct)
  apply (weakly.and apart).imp
  rintro left right ⟨below, different⟩
  exact lt_of_le_of_ne (of_decide_eq_true below) fun same => different (charValue_inj same)

def Complete (pool : Pool) (path : Nat → List UInt8) (entry : List UInt8 → Option AcPattern)
    (n : Nat) : Prop :=
  Full pool path entry n ∧ EdgesSorted (pool.node n)

def collected (pool : Pool) (path : Nat → List UInt8) (entry : List UInt8 → Option AcPattern)
    (nod : Nat) : ActNode :=
  nodeSortEdges { pool.node nod with
    matched := occurrences entry (path nod)
    final := !(occurrences entry (path nod)).isEmpty }

theorem sameShape_collected (pool : Pool) (path : Nat → List UInt8)
    (entry : List UInt8 → Option AcPattern) (nod : Nat) :
    SameShape pool (pool.setNode nod (collected pool path entry nod)) :=
  sameShape_setNode (nodeSortEdges_perm _) rfl

namespace Collecting

theorem nodeCollectMatches_eq (collecting : Collecting pool path entry) {nod : Nat}
    (inside : nod < pool.used) :
    nodeCollectMatches pool nod = .ok (pool.setNode nod (collected pool path entry nod)) := by
  have partly : (pool.node nod).matched ++ remaining pool path entry nod =
        occurrences entry (path nod) ∨
      (pool.node nod).matched = occurrences entry (path nod) := by
    rcases collecting.matched nod inside with raw | full
    · exact Or.inl (by rw [raw, collecting.own_append_remaining])
    · exact Or.inr full
  have enough : (path nod).length < (pool.node nod).depth + 1 := by
    rw [collecting.spelled.depth nod inside]
    exact Nat.lt_succ_self _
  have same : pool.setNode nod (pool.node nod) = pool := by
    simp [Pool.setNode]
  have loop := collecting.collectMatchesLoop_ok _ inside List.suffix_rfl enough rfl
    (collecting.final nod inside) partly
  rw [same] at loop
  simp only [nodeCollectMatches, loop, Pool.setNode_self, setNode_setNode]
  rfl

theorem complete_collected (collecting : Collecting pool path entry) {nod : Nat}
    (inside : nod < pool.used) :
    Complete (pool.setNode nod (collected pool path entry nod)) path entry nod := by
  unfold Complete Full
  rw [Pool.setNode_self]
  exact ⟨rfl, nodeSortEdges_sorted (collecting.spelled.distinct nod inside)⟩

theorem setNode_collected (collecting : Collecting pool path entry) (nod : Nat) :
    Collecting (pool.setNode nod (collected pool path entry nod)) path entry := by
  have shape := sameShape_collected pool path entry nod
  have failureNode : ∀ n, ((pool.setNode nod (collected pool path entry nod)).node n).failureNode =
      (pool.node n).failureNode := by
    intro n
    by_cases here : n = nod
    · subst here
      rw [Pool.setNode_self]
      rfl
    · rw [Pool.setNode_other here]
  refine ⟨shape.spelled collecting.spelled, ?_, ?_, ?_, ?_, ?_, collecting.kept⟩
  · rw [failureNode]
    exact collecting.rootFailure
  · intro n inside notRoot
    obtain ⟨failure, fails, set⟩ := collecting.failure n inside notRoot
    exact ⟨failure, (shape.fails_iff collecting.spelled n failure).mpr fails,
      by rw [failureNode, set]⟩
  · intro n inside
    by_cases here : n = nod
    · subst here
      refine Or.inr ?_
      rw [Full, Pool.setNode_self]
      rfl
    · unfold Raw Full
      rw [Pool.setNode_other here]
      exact collecting.matched n inside
  · intro n inside
    by_cases here : n = nod
    · subst here
      rw [Pool.setNode_self]
      rfl
    · rw [Pool.setNode_other here]
      exact collecting.final n inside
  · intro word found present
    rw [shape.isPath collecting.spelled]
    exact collecting.known word found present

end Collecting

/-! ## The traversal -/

/-- Part of the traversal: complete nodes stay so, and the nodes of `Reached`
have become so. -/
structure Gathered (pool other : Pool) (path : Nat → List UInt8)
    (entry : List UInt8 → Option AcPattern) (Reached : Nat → Prop) : Prop where
  shape : SameShape pool other
  collecting : Collecting other path entry
  kept : ∀ n, Complete pool path entry n → Complete other path entry n
  complete : ∀ n < pool.used, Reached n → Complete other path entry n

theorem Gathered.trans {Reached Later : Nat → Prop}
    (first : Gathered pool other path entry Reached)
    (second : Gathered other third path entry Later) :
    Gathered pool third path entry fun n => Reached n ∨ Later n where
  shape := first.shape.trans second.shape
  collecting := second.collecting
  kept n done := second.kept n (first.kept n done)
  complete n inside reached := by
    rcases reached with before | after
    · exact second.kept n (first.complete n inside before)
    · exact second.complete n (first.shape.used.symm ▸ inside) after

theorem Gathered.mono {Reached Fewer : Nat → Prop}
    (gathered : Gathered pool other path entry Reached)
    (fewer : ∀ n < pool.used, Fewer n → Reached n) : Gathered pool other path entry Fewer :=
  { gathered with complete := fun n inside some => gathered.complete n inside (fewer n inside some) }

theorem Collecting.gathered (collecting : Collecting pool path entry) {nod : Nat}
    (inside : nod < pool.used) :
    Gathered pool (pool.setNode nod (collected pool path entry nod)) path entry
      fun n => n = nod where
  shape := sameShape_collected pool path entry nod
  collecting := collecting.setNode_collected nod
  kept n done := by
    by_cases here : n = nod
    · rw [here]
      exact collecting.complete_collected inside
    · unfold Complete Full
      rw [Pool.setNode_other here]
      exact done
  complete n _ here := by
    rw [here]
    exact collecting.complete_collected inside

theorem acTrieTraverseAction_ok (fuel : Nat) (collecting : Collecting pool path entry)
    (short : ∀ n < pool.used, (path n).length ≤ acPattrnMaxLength) {nod : Nat}
    (inside : nod < pool.used) (enough : acPattrnMaxLength < fuel + (path nod).length) :
    ∃ after, acTrieTraverseAction nodeCollectMatches fuel pool nod = .ok after ∧
      Gathered pool after path entry fun n => path nod <+: path n := by
  induction fuel generalizing pool nod with
  | zero =>
      have fits := short nod inside
      omega
  | succ fuel inductionHypothesis =>
      have first := collecting.gathered inside
      have loop := foldlM_ok
        (fun (pool : Pool) (edge : ActEdge) =>
          acTrieTraverseAction nodeCollectMatches fuel pool edge.next)
        ((pool.setNode nod (collected pool path entry nod)).node nod).outgoing
        (fun before place => Gathered pool place path entry
          (fun n => n = nod ∨ ∃ edge ∈ before, path edge.next <+: path n))
        (first.mono (by simp)) ?_
      · obtain ⟨after, finished, gathered⟩ := loop
        refine ⟨after, ?_, ?_⟩
        · simp only [acTrieTraverseAction, collecting.nodeCollectMatches_eq inside]
          exact finished
        · apply gathered.mono
          intro n nInside under
          rcases collecting.spelled.below inside nInside under with here | ⟨edge, present, further⟩
          · exact Or.inl here
          · exact Or.inr ⟨edge, (first.shape.outgoing nod inside).mem_iff.mpr present, further⟩
      · intro before edge behind same place gathered
        have present : edge ∈ (pool.node nod).outgoing :=
          (first.shape.outgoing nod inside).mem_iff.mp (by simp [same])
        obtain ⟨nextInside, word⟩ := collecting.spelled.edges nod inside edge present
        have nextLength : (path edge.next).length = (path nod).length + 1 := by
          rw [word, List.length_append, List.length_singleton]
        obtain ⟨after, returned, below⟩ :=
          inductionHypothesis gathered.collecting (gathered.shape.used ▸ short)
            (gathered.shape.used.symm ▸ nextInside) (by omega)
        refine ⟨after, returned, (gathered.trans below).mono ?_⟩
        rintro n _ (here | ⟨other, membership, under⟩)
        · exact Or.inl (Or.inl here)
        · rcases List.mem_append.mp membership with earlier | last
          · exact Or.inl (Or.inr ⟨other, earlier, under⟩)
          · obtain rfl := List.mem_singleton.mp last
            exact Or.inr under

end UAFlow.AhoCorasick
