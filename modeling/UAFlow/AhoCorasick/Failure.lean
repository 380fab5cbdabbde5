import UAFlow.AhoCorasick.Tree

/-!
# Failure transitions

`ac_trie_set_failure` tries the proper suffixes of a node's word from the
longest to the shortest; the traversal does this for every node.  Each failure
node then spells the longest proper suffix that is a word of the trie.
-/

namespace UAFlow.AhoCorasick

open Library

variable {pool other third : Pool} {path : Nat → List UInt8}

def Fails (pool : Pool) (path : Nat → List UInt8) (n failure : Nat) : Prop :=
  failure < pool.used ∧ path failure = longestSuffix (IsPath pool) (path n).tail

theorem SameShape.fails_iff (same : SameShape pool other) (spelled : Spelled pool path)
    (n failure : Nat) : Fails other path n failure ↔ Fails pool path n failure := by
  have paths : IsPath other = IsPath pool :=
    funext fun word => propext (same.isPath spelled word)
  unfold Fails
  rw [same.used]
  simp only [paths]

def FailureSet (pool : Pool) (path : Nat → List UInt8) (n : Nat) : Prop :=
  ∃ failure, Fails pool path n failure ∧ (pool.node n).failureNode = some failure

structure Refailed (pool other : Pool) : Prop where
  used : other.used = pool.used
  node : ∀ n, ∃ failure, other.node n = { pool.node n with failureNode := failure }

namespace Refailed

theorem refl (pool : Pool) : Refailed pool pool :=
  ⟨rfl, fun n => ⟨(pool.node n).failureNode, rfl⟩⟩

theorem trans (first : Refailed pool other) (second : Refailed other third) :
    Refailed pool third where
  used := second.used.trans first.used
  node n := by
    obtain ⟨failure, same⟩ := second.node n
    obtain ⟨_, before⟩ := first.node n
    exact ⟨failure, by rw [same, before]⟩

theorem outgoing (refailed : Refailed pool other) (n : Nat) :
    (other.node n).outgoing = (pool.node n).outgoing := by
  obtain ⟨failure, same⟩ := refailed.node n
  rw [same]

theorem sameShape (refailed : Refailed pool other) : SameShape pool other where
  used := refailed.used
  outgoing n _ := by rw [refailed.outgoing n]
  depth n _ := by
    obtain ⟨failure, same⟩ := refailed.node n
    rw [same]

theorem fails_iff (refailed : Refailed pool other) (spelled : Spelled pool path)
    (n failure : Nat) : Fails other path n failure ↔ Fails pool path n failure :=
  refailed.sameShape.fails_iff spelled n failure

end Refailed

theorem refailed_setNode (pool : Pool) (nod : Nat) (failure : Option Nat) :
    Refailed pool (pool.setNode nod { pool.node nod with failureNode := failure }) where
  used := rfl
  node n := by
    by_cases here : n = nod
    · subst here
      exact ⟨failure, Pool.setNode_self pool n _⟩
    · exact ⟨(pool.node n).failureNode, Pool.setNode_other here pool _⟩

/-- While the traversal is under way a failure transition is as it should be or
not set yet; the root has none. -/
structure PartlyFailing (pool : Pool) (path : Nat → List UInt8) : Prop where
  atRoot : (pool.node root).failureNode = none
  others : ∀ n < pool.used, n ≠ root →
    (pool.node n).failureNode = none ∨ FailureSet pool path n

/-! ## One node -/

/-- The first `depth` letters written to `prefix` spell the word. -/
def Holds (pref : Nat → UInt8) (word : List UInt8) : Prop :=
  (List.range' 0 word.length).map pref = word

theorem Holds.update {pref : Nat → UInt8} {word : List UInt8} (holds : Holds pref word)
    (alpha : UInt8) : Holds (Function.update pref word.length alpha) (word ++ [alpha]) := by
  unfold Holds at holds ⊢
  have kept : (List.range' 0 word.length).map (Function.update pref word.length alpha) = word := by
    nth_rewrite 3 [← holds]
    apply List.map_congr_left
    intro i membership
    have below : i < word.length := by simpa using (List.mem_range'_1.mp membership).2
    exact Function.update_of_ne (Nat.ne_of_lt below) _ _
  rw [List.length_append, List.length_singleton, List.range'_concat, List.map_append, kept]
  simp

theorem Holds.prefix {pref : Nat → UInt8} {front back : List UInt8}
    (holds : Holds pref (front ++ back)) : Holds pref front := by
  unfold Holds at holds ⊢
  rw [List.length_append, ← List.range'_append_1, List.map_append] at holds
  exact (List.append_inj holds (by simp)).1

theorem lettersFrom_eq {pref : Nat → UInt8} {word : List UInt8} (holds : Holds pref word)
    (i : Nat) : lettersFrom pref i word.length = word.drop i := by
  unfold Holds at holds
  unfold lettersFrom
  nth_rewrite 2 [← holds]
  rw [← List.map_drop, List.drop_range']
  simp

/-- The search through the suffixes finds the node of the longest suffix, or
nothing when only the empty word is left. -/
theorem findSome?_suffixes (spelled : Spelled pool path) (word : List UInt8) (i : Nat) :
    match (List.range' i (word.length - i)).findSome? fun i => follow pool root (word.drop i) with
    | some failure =>
        failure < pool.used ∧ path failure = longestSuffix (IsPath pool) (word.drop i)
    | none => longestSuffix (IsPath pool) (word.drop i) = [] := by
  induction distance : word.length - i generalizing i with
  | zero =>
      have outside : word.length ≤ i := by omega
      simp only [List.range'_zero, List.findSome?_nil, List.drop_eq_nil_of_le outside]
      rfl
  | succ distance inductionHypothesis =>
      have inside : i < word.length := by omega
      have later := inductionHypothesis (i + 1) (by omega)
      have cut : word.drop i = word[i] :: word.drop (i + 1) := List.drop_eq_getElem_cons inside
      rw [List.range'_succ, List.findSome?_cons]
      cases found : follow pool root (word.drop i) with
      | some failure =>
          obtain ⟨failureInside, failurePath⟩ := spelled.follow_root_iff.mp found
          have isPath : IsPath pool (word.drop i) := by rw [IsPath, found]; rfl
          exact ⟨failureInside, by rw [failurePath, longestSuffix_of_path isPath]⟩
      | none =>
          have noPath : ¬ IsPath pool (word.drop i) := by rw [IsPath, found]; simp
          rw [cut] at noPath ⊢
          rw [longestSuffix_of_not_path noPath]
          exact later

theorem PartlyFailing.setFailure (failing : PartlyFailing pool path) (spelled : Spelled pool path)
    {nod : Nat} (inside : nod < pool.used) {pref : Nat → UInt8} (holds : Holds pref (path nod)) :
    Refailed pool (acTrieSetFailure pool nod pref) ∧
      (nod ≠ root → FailureSet (acTrieSetFailure pool nod pref) path nod) ∧
      ∀ n, n ≠ nod → (acTrieSetFailure pool nod pref).node n = pool.node n := by
  unfold acTrieSetFailure
  split
  next isRoot => exact ⟨Refailed.refl pool, fun other => absurd isRoot other, fun _ _ => rfl⟩
  next notRoot =>
    have set : ∀ failure, Fails pool path nod failure →
        FailureSet (pool.setNode nod { pool.node nod with failureNode := some failure }) path
          nod := by
      intro failure fails
      refine ⟨failure, ((refailed_setNode pool nod _).fails_iff spelled _ _).mpr fails, ?_⟩
      rw [Pool.setNode_self]
    have suffixes : (fun i => follow pool root (lettersFrom pref i (pool.node nod).depth)) =
        fun i => follow pool root ((path nod).drop i) := by
      funext i
      rw [spelled.depth nod inside, lettersFrom_eq holds]
    have search := findSome?_suffixes spelled (path nod) 1
    rw [List.drop_one, ← suffixes, ← spelled.depth nod inside] at search
    cases found : (List.range' 1 ((pool.node nod).depth - 1)).findSome? fun i =>
        follow pool root (lettersFrom pref i (pool.node nod).depth) with
    | some failure =>
        simp only [found] at search ⊢
        exact ⟨refailed_setNode pool nod _, fun _ => set failure search,
          fun n other => Pool.setNode_other other pool _⟩
    | none =>
        simp only [found] at search ⊢
        have fails : Fails pool path nod root :=
          ⟨spelled.rooted, by rw [spelled.rootPath]; exact search.symm⟩
        split
        next =>
          exact ⟨refailed_setNode pool nod _, fun _ => set root fails,
            fun n other => Pool.setNode_other other pool _⟩
        next already =>
          refine ⟨Refailed.refl pool, fun _ => ?_, fun _ _ => rfl⟩
          rcases failing.others nod inside notRoot with unset | isSet
          · simp [unset] at already
          · exact isSet

/-! ## The traversal -/

structure Traversed (pool other : Pool) (path : Nat → List UInt8) (Reached : Nat → Prop) :
    Prop where
  refailed : Refailed pool other
  failing : PartlyFailing other path
  kept : ∀ n, FailureSet pool path n → FailureSet other path n
  set : ∀ n < pool.used, Reached n → n ≠ root → FailureSet other path n

theorem Traversed.trans {Reached Later : Nat → Prop} (first : Traversed pool other path Reached)
    (second : Traversed other third path Later) :
    Traversed pool third path fun n => Reached n ∨ Later n where
  refailed := first.refailed.trans second.refailed
  failing := second.failing
  kept n isSet := second.kept n (first.kept n isSet)
  set n inside reached notRoot := by
    rcases reached with before | after
    · exact second.kept n (first.set n inside before notRoot)
    · exact second.set n (first.refailed.used.symm ▸ inside) after notRoot

theorem Traversed.mono {Reached Fewer : Nat → Prop} (traversed : Traversed pool other path Reached)
    (fewer : ∀ n < pool.used, Fewer n → Reached n) : Traversed pool other path Fewer :=
  { traversed with set := fun n inside some => traversed.set n inside (fewer n inside some) }

theorem PartlyFailing.traversed (failing : PartlyFailing pool path) (spelled : Spelled pool path)
    {nod : Nat} (inside : nod < pool.used) {pref : Nat → UInt8} (holds : Holds pref (path nod)) :
    Traversed pool (acTrieSetFailure pool nod pref) path fun n => n = nod := by
  obtain ⟨refailed, set, others⟩ := failing.setFailure spelled inside holds
  have keep : ∀ n, n ≠ nod → FailureSet pool path n →
      FailureSet (acTrieSetFailure pool nod pref) path n := by
    intro n other isSet
    obtain ⟨failure, fails, assigned⟩ := isSet
    exact ⟨failure, (refailed.fails_iff spelled n failure).mpr fails, by rwa [others n other]⟩
  refine ⟨refailed, ⟨?_, ?_⟩, ?_, ?_⟩
  · by_cases isRoot : root = nod
    · simpa [acTrieSetFailure, ← isRoot] using failing.atRoot
    · rw [others root isRoot]
      exact failing.atRoot
  · intro n nInside notRoot
    by_cases here : n = nod
    · subst here
      exact Or.inr (set notRoot)
    · rcases failing.others n (refailed.used ▸ nInside) notRoot with unset | isSet
      · exact Or.inl (by rwa [others n here])
      · exact Or.inr (keep n here isSet)
  · intro n isSet
    by_cases here : n = nod
    · subst here
      apply set
      rintro rfl
      obtain ⟨failure, _, assigned⟩ := isSet
      rw [failing.atRoot] at assigned
      exact absurd assigned (by simp)
    · exact keep n here isSet
  · rintro n _ rfl notRoot
    exact set notRoot

theorem Spelled.below (spelled : Spelled pool path) {nod n : Nat} (inside : nod < pool.used)
    (nInside : n < pool.used) (under : path nod <+: path n) :
    n = nod ∨ ∃ edge ∈ (pool.node nod).outgoing, path edge.next <+: path n := by
  obtain ⟨rest, same⟩ := under
  cases rest with
  | nil => exact Or.inl (spelled.path_inj nInside inside (by rw [← same, List.append_nil]))
  | cons alpha rest =>
      have isPath : IsPath pool (path nod ++ [alpha]) := by
        apply isPath_closed pool _ rest
        rw [List.append_assoc, List.singleton_append, same]
        exact spelled.isPath_path nInside
      obtain ⟨next, nextInside, word⟩ := spelled.isPath_iff.mp isPath
      refine Or.inr ⟨⟨alpha, next⟩, nodeFindNext_some ?_, rest, ?_⟩
      · exact (spelled.nodeFindNext_eq_some_iff inside).mpr ⟨nextInside, word⟩
      · rw [word, List.append_assoc, List.singleton_append, same]

/-- The loop over the edges of `nod` has gone through those of `before`. -/
structure Halfway (pool : Pool) (path : Nat → List UInt8) (nod : Nat) (before : List ActEdge)
    (place : Pool × (Nat → UInt8)) : Prop where
  traversed : Traversed pool place.1 path
    fun n => n = nod ∨ ∃ edge ∈ before, path edge.next <+: path n
  holds : Holds place.2 (path nod)

namespace Halfway

variable {nod : Nat} {pref prefAfter : Nat → UInt8} {before : List ActEdge} {edge : ActEdge}
  {place : Pool × (Nat → UInt8)}

theorem begins (failing : PartlyFailing pool path) (spelled : Spelled pool path)
    (inside : nod < pool.used) (holds : Holds pref (path nod)) :
    Halfway pool path nod [] (acTrieSetFailure pool nod pref, pref) :=
  ⟨(failing.traversed spelled inside holds).mono (by simp), holds⟩

/-- Whatever the children before have left in `prefix`, its first letters are those of
the next child once the letter of the edge is written. -/
theorem holdsNext (halfway : Halfway pool path nod before place)
    (word : path edge.next = path nod ++ [edge.alpha]) :
    Holds (Function.update place.2 (path nod).length edge.alpha) (path edge.next) := by
  rw [word]
  exact halfway.holds.update edge.alpha

theorem step (halfway : Halfway pool path nod before place)
    (word : path edge.next = path nod ++ [edge.alpha])
    (below : Traversed place.1 other path fun n => path edge.next <+: path n)
    (held : Holds prefAfter (path edge.next)) :
    Halfway pool path nod (before ++ [edge]) (other, prefAfter) := by
  rw [word] at held
  refine ⟨?_, held.prefix⟩
  apply (halfway.traversed.trans below).mono
  rintro n _ (here | ⟨child, membership, under⟩)
  · exact Or.inl (Or.inl here)
  · rcases List.mem_append.mp membership with earlier | last
    · exact Or.inl (Or.inr ⟨child, earlier, under⟩)
    · obtain rfl := List.mem_singleton.mp last
      exact Or.inr under

theorem ends (halfway : Halfway pool path nod (pool.node nod).outgoing place)
    (spelled : Spelled pool path) (inside : nod < pool.used) :
    Traversed pool place.1 path fun n => path nod <+: path n := by
  apply halfway.traversed.mono
  intro n nInside under
  exact spelled.below inside nInside under

end Halfway

/-! ## The calls -/

/-- What happens to `prefix` in the traversal: a call finds it so, or writes to it. -/
inductive PrefixEvent where
  | call (nod : Nat) (pref : Nat → UInt8)
  | write (index : Nat)

/-- `ac_trie_traverse_setfailure` with its calls and writes in order, and without a
bound for the writes. -/
def traverseSetfailureTraced : Nat → Pool → Nat → (Nat → UInt8) →
    Except Fault ((Pool × (Nat → UInt8)) × List PrefixEvent)
  | 0, _, _, _ => .error .unfinished
  | fuel + 1, pool, nod, pref =>
      let pool := acTrieSetFailure pool nod pref
      let depth := (pool.node nod).depth
      (pool.node nod).outgoing.foldlM
        (fun (place : (Pool × (Nat → UInt8)) × List PrefixEvent) edge =>
          match traverseSetfailureTraced fuel place.1.1 edge.next
              (Function.update place.1.2 depth edge.alpha) with
          | .error fault => .error fault
          | .ok (after, below) => .ok (after, place.2 ++ .write depth :: below))
        ((pool, pref), [.call nod pref])

/-- A call finds the word of its node in `prefix`, and a write is inside it. -/
def PrefixEvent.Right (used : Nat) (path : Nat → List UInt8) : PrefixEvent → Prop
  | .call nod pref => nod < used ∧ Holds pref (path nod)
  | .write index => index < acPattrnMaxLength

theorem right_call {used nod : Nat} {pref : Nat → UInt8} (inside : nod < used)
    (holds : Holds pref (path nod)) :
    ∀ event ∈ [PrefixEvent.call nod pref], event.Right used path := by
  intro event membership
  obtain rfl := List.mem_singleton.mp membership
  exact ⟨inside, holds⟩

theorem right_append {used index : Nat} {before below : List PrefixEvent}
    (first : ∀ event ∈ before, event.Right used path) (within : index < acPattrnMaxLength)
    (further : ∀ event ∈ below, event.Right used path) :
    ∀ event ∈ before ++ .write index :: below, event.Right used path := by
  intro event membership
  rcases List.mem_append.mp membership with earlier | later
  · exact first event earlier
  · rcases List.mem_cons.mp later with rfl | under
    · exact within
    · exact further event under

/-- The traversal returns with the failure transitions below `nod` set, and has done
nothing wrong with `prefix` on the way. -/
theorem traverseSetfailureTraced_ok (fuel : Nat) (spelled : Spelled pool path)
    (failing : PartlyFailing pool path)
    (short : ∀ n < pool.used, (path n).length ≤ acPattrnMaxLength) {nod : Nat}
    (inside : nod < pool.used) (enough : acPattrnMaxLength < fuel + (path nod).length)
    {pref : Nat → UInt8} (holds : Holds pref (path nod)) :
    ∃ after prefAfter events,
      acTrieTraverseSetfailure fuel pool nod pref = .ok (after, prefAfter) ∧
      traverseSetfailureTraced fuel pool nod pref = .ok ((after, prefAfter), events) ∧
      (∀ event ∈ events, event.Right pool.used path) ∧
      Traversed pool after path (fun n => path nod <+: path n) ∧ Holds prefAfter (path nod) := by
  induction fuel generalizing pool nod pref with
  | zero =>
      have fits := short nod inside
      omega
  | succ fuel inductionHypothesis =>
      have first := failing.traversed spelled inside holds
      have spelledFirst := first.refailed.sameShape.spelled spelled
      have depth : ((acTrieSetFailure pool nod pref).node nod).depth = (path nod).length :=
        spelledFirst.depth nod (first.refailed.used.symm ▸ inside)
      rw [acTrieTraverseSetfailure, traverseSetfailureTraced]
      simp only [first.refailed.outgoing nod, depth]
      have begins : Halfway pool path nod [] (acTrieSetFailure pool nod pref, pref) ∧
          ∀ event ∈ [PrefixEvent.call nod pref], event.Right pool.used path :=
        ⟨Halfway.begins failing spelled inside holds, right_call inside holds⟩
      have loop := foldlM_lockstep
        (fun (place : Pool × (Nat → UInt8)) (edge : ActEdge) =>
          if (path nod).length < acPattrnMaxLength then
            acTrieTraverseSetfailure fuel place.1 edge.next
              (Function.update place.2 (path nod).length edge.alpha)
          else
            .error .prefixOverflow)
        (fun (place : (Pool × (Nat → UInt8)) × List PrefixEvent) (edge : ActEdge) =>
          match traverseSetfailureTraced fuel place.1.1 edge.next
              (Function.update place.1.2 (path nod).length edge.alpha) with
          | .error fault => .error fault
          | .ok (after, below) => .ok (after, place.2 ++ .write (path nod).length :: below))
        (pool.node nod).outgoing (acTrieSetFailure pool nod pref, pref)
        ((acTrieSetFailure pool nod pref, pref), [.call nod pref])
        (fun before place traced => traced.1 = place ∧ Halfway pool path nod before place ∧
          ∀ event ∈ traced.2, event.Right pool.used path)
        ⟨rfl, begins⟩ ?_
      · obtain ⟨⟨after, prefAfter⟩, ⟨_, events⟩, returned, traced, rfl, halfway, right⟩ := loop
        exact ⟨after, prefAfter, events, returned, traced, right,
          halfway.ends spelled inside, halfway.holds⟩
      · rintro before edge behind same ⟨middle, prefMiddle⟩ ⟨_, events⟩ ⟨rfl, halfway, right⟩
        have present : edge ∈ (pool.node nod).outgoing := by simp [same]
        obtain ⟨nextInside, word⟩ := spelled.edges nod inside edge present
        have nextFits := short edge.next nextInside
        have nextLength : (path edge.next).length = (path nod).length + 1 := by
          rw [word, List.length_append, List.length_singleton]
        have refailed := halfway.traversed.refailed
        obtain ⟨after, prefAfter, below, called, traced, rightBelow, traversed, held⟩ :=
          inductionHypothesis (refailed.sameShape.spelled spelled) halfway.traversed.failing
            (refailed.used ▸ short) (refailed.used.symm ▸ nextInside) (by omega)
            (halfway.holdsNext word)
        rw [refailed.used] at rightBelow
        have within : (path nod).length < acPattrnMaxLength := by omega
        refine ⟨(after, prefAfter),
          ((after, prefAfter), events ++ .write (path nod).length :: below), ?_, ?_, rfl,
          halfway.step word traversed held, right_append right within rightBelow⟩
        · rw [if_pos within]
          exact called
        · simp only [traced]

theorem acTrieTraverseSetfailure_ok (fuel : Nat) (spelled : Spelled pool path)
    (failing : PartlyFailing pool path)
    (short : ∀ n < pool.used, (path n).length ≤ acPattrnMaxLength) {nod : Nat}
    (inside : nod < pool.used) (enough : acPattrnMaxLength < fuel + (path nod).length)
    {pref : Nat → UInt8} (holds : Holds pref (path nod)) :
    ∃ after prefAfter, acTrieTraverseSetfailure fuel pool nod pref = .ok (after, prefAfter) ∧
      Traversed pool after path (fun n => path nod <+: path n) ∧ Holds prefAfter (path nod) := by
  obtain ⟨after, prefAfter, _, returned, _, _, traversed, held⟩ :=
    traverseSetfailureTraced_ok fuel spelled failing short inside enough holds
  exact ⟨after, prefAfter, returned, traversed, held⟩

end UAFlow.AhoCorasick
