import UAFlow.AhoCorasick.Collect

/-!
# The finalized trie

`ac_trie_finalize` returns for every trie built by `ac_trie_add`, and afterwards
the binary search for an edge finds what the linear one found before.
-/

namespace UAFlow.AhoCorasick

open Library

variable {pool : Pool} {path : Nat → List UInt8} {entry : List UInt8 → Option AcPattern}

structure Finalized (pool : Pool) (path : Nat → List UInt8)
    (entry : List UInt8 → Option AcPattern) : Prop where
  collecting : Collecting pool path entry
  complete : ∀ n < pool.used, Complete pool path entry n

/-! ## Binary search -/

structure Narrowed (outgoing : List ActEdge) (alpha : UInt8) (min max : Int) : Prop where
  lower : 0 ≤ min
  upper : max < outgoing.length
  below : ∀ index (inside : index < outgoing.length), (index : Int) < min →
    charValue outgoing[index].alpha < charValue alpha
  above : ∀ index (inside : index < outgoing.length), max < index →
    charValue alpha < charValue outgoing[index].alpha

theorem charValue_le {outgoing : List ActEdge}
    (sorted : outgoing.Pairwise fun left right => charValue left.alpha < charValue right.alpha)
    {first second : Nat} (firstInside : first < outgoing.length)
    (secondInside : second < outgoing.length) (order : first ≤ second) :
    charValue outgoing[first].alpha ≤ charValue outgoing[second].alpha := by
  rcases Nat.lt_or_eq_of_le order with before | rfl
  · exact le_of_lt (List.pairwise_iff_getElem.mp sorted first second firstInside secondInside before)
  · exact le_rfl

namespace Narrowed

variable {outgoing : List ActEdge} {alpha : UInt8} {min max : Int}

theorem not_mem (narrowed : Narrowed outgoing alpha min max) (empty : max < min) (next : Nat) :
    ⟨alpha, next⟩ ∉ outgoing := by
  intro present
  obtain ⟨index, inside, same⟩ := List.getElem_of_mem present
  rcases lt_or_ge (index : Int) min with low | high
  · have smaller := narrowed.below index inside low
    simp [same] at smaller
  · have larger := narrowed.above index inside (empty.trans_le high)
    simp [same] at larger

theorem raise (narrowed : Narrowed outgoing alpha min max)
    (sorted : outgoing.Pairwise fun left right => charValue left.alpha < charValue right.alpha)
    {middle : Int} (lower : min ≤ middle) (inside : middle.toNat < outgoing.length)
    (greater : charValue outgoing[middle.toNat].alpha < charValue alpha) :
    Narrowed outgoing alpha (middle + 1) max := by
  have positive := narrowed.lower
  refine ⟨by omega, narrowed.upper, ?_, narrowed.above⟩
  intro index indexInside low
  exact (charValue_le sorted indexInside inside (by omega)).trans_lt greater

theorem cut (narrowed : Narrowed outgoing alpha min max)
    (sorted : outgoing.Pairwise fun left right => charValue left.alpha < charValue right.alpha)
    {middle : Int} (upper : middle ≤ max) (inside : middle.toNat < outgoing.length)
    (less : charValue alpha < charValue outgoing[middle.toNat].alpha) :
    Narrowed outgoing alpha min (middle - 1) := by
  have bound := narrowed.upper
  refine ⟨narrowed.lower, by omega, narrowed.below, ?_⟩
  intro index indexInside high
  exact less.trans_le (charValue_le sorted inside indexInside (by omega))

end Narrowed

theorem findNextBsLoop_eq {outgoing : List ActEdge} {alpha : UInt8} {next : Nat}
    (sorted : outgoing.Pairwise fun left right => charValue left.alpha < charValue right.alpha)
    (fuel : Nat) {min max : Int} (narrowed : Narrowed outgoing alpha min max)
    (enough : max - min + 1 < fuel) :
    findNextBsLoop outgoing alpha fuel min max = some next ↔ ⟨alpha, next⟩ ∈ outgoing := by
  induction fuel generalizing min max with
  | zero =>
      simp only [findNextBsLoop, reduceCtorEq, false_iff]
      exact narrowed.not_mem (by omega) next
  | succ fuel inductionHypothesis =>
      rw [findNextBsLoop]
      split
      next range =>
        have lower := narrowed.lower
        have upper := narrowed.upper
        have inside : ((min + max) / 2).toNat < outgoing.length := by omega
        simp only [List.getElem?_eq_getElem inside]
        split
        next greater =>
          apply inductionHypothesis _ (by omega)
          exact narrowed.raise sorted (by omega) inside greater
        next notGreater =>
          split
          next less =>
            apply inductionHypothesis _ (by omega)
            exact narrowed.cut sorted (by omega) inside less
          next notLess =>
            have letter : alpha = outgoing[((min + max) / 2).toNat].alpha :=
              charValue_inj (le_antisymm (not_lt.mp notGreater) (not_lt.mp notLess))
            have present : outgoing[((min + max) / 2).toNat] ∈ outgoing := List.getElem_mem inside
            constructor
            · intro found
              rw [← Option.some.inj found, letter]
              exact present
            · intro member
              have apart : (outgoing.map ActEdge.alpha).Nodup := by
                apply List.pairwise_map.mpr
                apply sorted.imp
                intro left right before same
                rw [same] at before
                exact lt_irrefl _ before
              have same := List.inj_on_of_nodup_map apart member present letter
              rw [← same]
      next empty =>
        simp only [reduceCtorEq, false_iff]
        exact narrowed.not_mem (not_le.mp empty) next

theorem nodeFindNextBs_eq {n : Nat} (sorted : EdgesSorted (pool.node n))
    (distinct : ((pool.node n).outgoing.map ActEdge.alpha).Nodup) (alpha : UInt8) :
    nodeFindNextBs pool n alpha = nodeFindNext pool n alpha := by
  have narrowed : Narrowed (pool.node n).outgoing alpha 0 ((pool.node n).outgoing.length - 1) :=
    ⟨le_rfl, by omega, fun _ _ _ => by omega, fun _ _ _ => by omega⟩
  apply Option.ext
  intro next
  rw [nodeFindNextBs, findNextBsLoop_eq sorted _ narrowed (by omega)]
  exact ⟨nodeFindNext_of_mem distinct, nodeFindNext_some⟩

namespace Finalized

theorem spelled (finalized : Finalized pool path entry) : Spelled pool path :=
  finalized.collecting.spelled

theorem findNextBs (finalized : Finalized pool path entry) {n : Nat} (inside : n < pool.used)
    (alpha : UInt8) : nodeFindNextBs pool n alpha = nodeFindNext pool n alpha :=
  nodeFindNextBs_eq (finalized.complete n inside).2 (finalized.spelled.distinct n inside) alpha

theorem matched (finalized : Finalized pool path entry) {n : Nat} (inside : n < pool.used) :
    (pool.node n).matched = occurrences entry (path n) :=
  (finalized.complete n inside).1

theorem final (finalized : Finalized pool path entry) {n : Nat} (inside : n < pool.used) :
    (pool.node n).final = !(occurrences entry (path n)).isEmpty := by
  rw [finalized.collecting.final n inside, finalized.matched inside]

end Finalized

/-! ## Finalizing -/

theorem dictionary_append (adds : List (AcPattern × Bool)) (add : AcPattern × Bool) :
    dictionary (adds ++ [add]) =
      if Accepts (dictionary adds) add.1 then
        Function.update (dictionary adds) add.1.ptext (some (stored add.1 add.2))
      else
        dictionary adds := by
  rw [dictionary, List.foldl_append]
  rfl

/-- Of the calls with a text that `ac_trie_add` takes, the first one counts. -/
theorem dictionary_eq_find (adds : List (AcPattern × Bool)) {word : List UInt8}
    (nonempty : word ≠ []) (short : word.length ≤ acPattrnMaxLength) :
    dictionary adds word =
      (adds.find? fun add => add.1.ptext = word).map fun add => stored add.1 add.2 := by
  induction adds using List.reverseRecOn with
  | nil => rfl
  | append_singleton adds add inductionHypothesis =>
      rw [dictionary_append, List.find?_append, Option.map_or, ← inductionHypothesis]
      by_cases here : add.1.ptext = word
      · have last : ([add].find? fun other => other.1.ptext = word) = some add :=
          List.find?_cons_of_pos (decide_eq_true here)
        rw [last]
        cases earlier : dictionary adds word with
        | none =>
            have accepts : Accepts (dictionary adds) add.1 := by
              unfold Accepts
              rw [here]
              exact ⟨nonempty, short, earlier⟩
            rw [if_pos accepts, here, Function.update_self]
            rfl
        | some found =>
            have refuses : ¬ Accepts (dictionary adds) add.1 := by
              unfold Accepts
              rw [here, earlier]
              simp
            rw [if_neg refuses, earlier]
            rfl
      · have last : ([add].find? fun other => other.1.ptext = word) = none :=
          List.find?_cons_of_neg (by simpa using here)
        rw [last, Option.map_none, Option.or_none]
        split
        next => exact Function.update_of_ne (Ne.symm here) _ _
        next => rfl

theorem dictionary_length {adds : List (AcPattern × Bool)} {word : List UInt8}
    (present : (dictionary adds word).isSome = true) :
    word ≠ [] ∧ word.length ≤ acPattrnMaxLength := by
  induction adds using List.reverseRecOn with
  | nil => simp [dictionary] at present
  | append_singleton adds add inductionHypothesis =>
      rw [dictionary_append] at present
      split at present
      next accepts =>
        by_cases here : word = add.1.ptext
        · rw [here]
          exact ⟨accepts.1, accepts.2.1⟩
        · rw [Function.update_of_ne here] at present
          exact inductionHypothesis present
      next => exact inductionHypothesis present

theorem wellKept_dictionary (adds : List (AcPattern × Bool)) : WellKept (dictionary adds) := by
  induction adds using List.reverseRecOn with
  | nil => exact ⟨by simp [dictionary], rfl⟩
  | append_singleton adds add inductionHypothesis =>
      rw [dictionary_append]
      split
      next accepts =>
        refine ⟨?_, ?_⟩
        · intro word found present
          by_cases here : word = add.1.ptext
          · rw [here, Function.update_self] at present
            rw [← Option.some.inj present, length_stored, here]
          · rw [Function.update_of_ne here] at present
            exact inductionHypothesis.length word found present
        · rw [Function.update_of_ne (Ne.symm accepts.1)]
          exact inductionHypothesis.empty
      next => exact inductionHypothesis

theorem Open.collecting {after : Pool} (opened : Open pool path entry) (kept : WellKept entry)
    (traversed : Traversed pool after path fun n => path root <+: path n) :
    Collecting after path entry := by
  have shape := traversed.refailed.sameShape
  refine ⟨shape.spelled opened.spelled, traversed.failing.atRoot, ?_, ?_, ?_, ?_, kept⟩
  · intro n inside notRoot
    apply traversed.set n (traversed.refailed.used ▸ inside) _ notRoot
    rw [opened.spelled.rootPath]
    exact List.nil_prefix
  · intro n inside
    obtain ⟨failure, same⟩ := traversed.refailed.node n
    refine Or.inl ?_
    rw [Raw, same]
    exact opened.matched n (traversed.refailed.used ▸ inside)
  · intro n inside
    have before := traversed.refailed.used ▸ inside
    obtain ⟨failure, same⟩ := traversed.refailed.node n
    simp only [same, opened.final n before, opened.matched n before]
    cases entry (path n) <;> rfl
  · intro word found present
    rw [shape.isPath opened.spelled]
    exact opened.known word found present

theorem Open.partlyFailing (opened : Open pool path entry) : PartlyFailing pool path where
  atRoot := opened.failureNode root opened.spelled.rooted
  others n inside _ := Or.inl (opened.failureNode n inside)

theorem acTrieFinalize_ok {thiz : AcTrie} (opened : Open thiz.pool path entry)
    (kept : WellKept entry) :
    ∃ pool, acTrieFinalize thiz = .ok { thiz with pool := pool, trieOpen := false } ∧
      Finalized pool path entry ∧ SameShape thiz.pool pool := by
  have enough : acPattrnMaxLength < acPattrnMaxLength + 1 + (path root).length := by omega
  have holds : Holds (fun _ => 0) (path root) := by
    rw [opened.spelled.rootPath]
    rfl
  obtain ⟨failing, prefAfter, returned, traversed, _⟩ := acTrieTraverseSetfailure_ok _
    opened.spelled opened.partlyFailing opened.short opened.spelled.rooted enough holds
  have collecting := opened.collecting kept traversed
  have short : ∀ n < failing.used, (path n).length ≤ acPattrnMaxLength :=
    traversed.refailed.used ▸ opened.short
  obtain ⟨pool, finished, gathered⟩ := acTrieTraverseAction_ok _ collecting short
    collecting.spelled.rooted enough
  refine ⟨pool, ?_, ⟨gathered.collecting, ?_⟩, traversed.refailed.sameShape.trans gathered.shape⟩
  · simp only [acTrieFinalize, returned, finished]
  · intro n inside
    apply gathered.complete n (gathered.shape.used ▸ inside)
    rw [opened.spelled.rootPath]
    exact List.nil_prefix

end UAFlow.AhoCorasick
