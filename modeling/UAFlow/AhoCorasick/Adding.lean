import UAFlow.AhoCorasick.Finalized

/-!
# Adding patterns in sequence

`ac_trie_add` makes the nodes for a word before it knows whether it takes the
pattern.  It never has to undo that: a word that is refused as a duplicate has all
its nodes already.
-/

namespace UAFlow.AhoCorasick

open Library

def acceptedPatterns (thiz : AcTrie) : List (AcPattern × Bool) → List AcPattern
  | [] => []
  | add :: adds =>
      let (after, status) := acTrieAdd thiz add.1 add.2
      (if status = .success then [add.1] else []) ++ acceptedPatterns after adds

/-- The trie has a node for each prefix of an accepted pattern, marks those of the
patterns themselves, and nothing else. -/
structure Represents (thiz : AcTrie) (accepted : List AcPattern) : Prop where
  distinct : ∀ n < thiz.pool.used, ((thiz.pool.node n).outgoing.map ActEdge.alpha).Nodup
  path : ∀ n < thiz.pool.used, ∃! word, follow thiz.pool root word = some n
  depth : ∀ n word, follow thiz.pool root word = some n →
    (thiz.pool.node n).depth = word.length
  final : ∀ n word, follow thiz.pool root word = some n →
    ((thiz.pool.node n).final = true ↔ ∃ patt ∈ accepted, patt.ptext = word)
  matched : ∀ n, ∀ patt ∈ accepted, follow thiz.pool root patt.ptext = some n →
    (thiz.pool.node n).matched = [patt]
  covered : ∀ n word, follow thiz.pool root word = some n → n ≠ root →
    ∃ patt ∈ accepted, word <+: patt.ptext
  patternsCount : thiz.patternsCount = accepted.length

def afterAdding (patts : List AcPattern) : AcTrie :=
  acTrieAddAll acTrieCreate (patts.map (·, false))

/-- Those of the patterns for which `ac_trie_add` returned `ACERR_SUCCESS`. -/
def acceptedOf (patts : List AcPattern) : List AcPattern :=
  acceptedPatterns acTrieCreate (patts.map (·, false))

/-! ## Accepted patterns -/

theorem acceptedPatterns_append (thiz : AcTrie) (adds : List (AcPattern × Bool))
    (add : AcPattern × Bool) :
    acceptedPatterns thiz (adds ++ [add]) = acceptedPatterns thiz adds ++
      if (acTrieAdd (acTrieAddAll thiz adds) add.1 add.2).2 = .success then [add.1] else [] := by
  induction adds generalizing thiz with
  | nil =>
      simp only [List.nil_append, acceptedPatterns, List.append_nil]
      rfl
  | cons first adds inductionHypothesis =>
      simp only [List.cons_append, acceptedPatterns, inductionHypothesis, List.append_assoc]
      rfl

theorem acTrieAdd_success_iff_accepts (adds : List (AcPattern × Bool)) (patt : AcPattern)
    (copy : Bool) :
    (acTrieAdd (acTrieAddAll acTrieCreate adds) patt copy).2 = .success ↔
      Accepts (dictionary adds) patt := by
  obtain ⟨isOpen, path, opened⟩ := open_addAll adds
  constructor
  · intro success
    by_contra refused
    exact (acTrieAdd_of_not_accepts opened copy refused).2 success
  · exact fun accepts => (acTrieAdd_of_accepts isOpen opened copy accepts).1

theorem dictionary_isSome_iff (adds : List (AcPattern × Bool)) (word : List UInt8) :
    (dictionary adds word).isSome = true ↔
      ∃ patt ∈ acceptedPatterns acTrieCreate adds, patt.ptext = word := by
  induction adds using List.reverseRecOn with
  | nil => simp [dictionary, acceptedPatterns]
  | append_singleton adds add inductionHypothesis =>
      rw [dictionary_append, acceptedPatterns_append]
      simp only [acTrieAdd_success_iff_accepts]
      split
      next accepts =>
        by_cases here : word = add.1.ptext
        · subst here
          simp
        · rw [Function.update_of_ne here, inductionHypothesis]
          simp [Ne.symm here]
      next refused =>
        rw [List.append_nil]
        exact inductionHypothesis

theorem acTrieAdd_success_iff (adds : List (AcPattern × Bool)) (patt : AcPattern) (copy : Bool) :
    (acTrieAdd (acTrieAddAll acTrieCreate adds) patt copy).2 = .success ↔
      1 ≤ patt.ptext.length ∧ patt.ptext.length ≤ acPattrnMaxLength ∧
        ∀ earlier ∈ acceptedPatterns acTrieCreate adds, earlier.ptext ≠ patt.ptext := by
  have unknown : dictionary adds patt.ptext = none ↔
      ∀ earlier ∈ acceptedPatterns acTrieCreate adds, earlier.ptext ≠ patt.ptext := by
    rw [← Option.not_isSome_iff_eq_none, dictionary_isSome_iff]
    push Not
    rfl
  rw [acTrieAdd_success_iff_accepts, Accepts, unknown, ← List.length_pos_iff]
  rfl

theorem acTrieAdd_unchanged (adds : List (AcPattern × Bool)) {patt : AcPattern} {copy : Bool}
    (failure : (acTrieAdd (acTrieAddAll acTrieCreate adds) patt copy).2 ≠ .success) :
    (acTrieAdd (acTrieAddAll acTrieCreate adds) patt copy).1 = acTrieAddAll acTrieCreate adds := by
  obtain ⟨isOpen, path, opened⟩ := open_addAll adds
  have refused : ¬ Accepts (dictionary adds) patt :=
    fun accepts => failure (acTrieAdd_of_accepts isOpen opened copy accepts).1
  exact (acTrieAdd_of_not_accepts opened copy refused).1

theorem acTrieAddAll_append (thiz : AcTrie) (adds : List (AcPattern × Bool))
    (add : AcPattern × Bool) :
    acTrieAddAll thiz (adds ++ [add]) = (acTrieAdd (acTrieAddAll thiz adds) add.1 add.2).1 :=
  List.foldl_append ..

theorem dictionary_of_accepted (patts : List AcPattern) :
    ∀ patt ∈ acceptedOf patts, dictionary (patts.map (·, false)) patt.ptext = some patt := by
  induction patts using List.reverseRecOn with
  | nil => exact nofun
  | append_singleton patts last inductionHypothesis =>
      unfold acceptedOf
      rw [List.map_append, List.map_singleton, acceptedPatterns_append, dictionary_append]
      simp only [acTrieAdd_success_iff_accepts]
      split
      next accepts =>
        intro patt membership
        rcases List.mem_append.mp membership with earlier | new
        · have kept := inductionHypothesis patt earlier
          have other : patt.ptext ≠ last.ptext := by
            intro same
            rw [same, accepts.2.2] at kept
            cases kept
          rw [Function.update_of_ne other]
          exact kept
        · rw [List.mem_singleton.mp new, Function.update_self]
          rfl
      next =>
        rw [List.append_nil]
        exact inductionHypothesis

/-! ## The nodes -/

section Nodes

variable {pool : Pool} {path : Nat → List UInt8} {n : Nat}

theorem isPath_grow (spelled : Spelled pool path) (inside : n < pool.used) {alpha : UInt8}
    (none : nodeFindNext pool n alpha = none) {word : List UInt8}
    (isPath : IsPath (grow pool n alpha) word) : IsPath pool word ∨ word = path n ++ [alpha] := by
  obtain ⟨m, mInside, rfl⟩ := (spelled.grow inside none).isPath_iff.mp isPath
  rcases Nat.lt_succ_iff_lt_or_eq.mp mInside with old | rfl
  · rw [growPath_old old]
    exact .inl (spelled.isPath_path old)
  · exact .inr (growPath_new pool path n alpha)

theorem isPath_addLetters (spelled : Spelled pool path) (inside : n < pool.used)
    {letters word : List UInt8} (isPath : IsPath (addLetters pool n letters).1 word) :
    IsPath pool word ∨ word <+: path n ++ letters := by
  induction letters generalizing pool path n with
  | nil => exact .inl isPath
  | cons letter letters inductionHypothesis =>
      rw [addLetters, List.foldl_cons] at isPath
      rw [List.append_cons]
      cases step : nodeFindNext pool n letter with
      | some next =>
          obtain ⟨nextInside, nextPath⟩ := (spelled.nodeFindNext_eq_some_iff inside).mp step
          rw [addLetter_of_some step] at isPath
          rw [← nextPath]
          exact inductionHypothesis spelled nextInside isPath
      | none =>
          rw [addLetter_of_none inside step] at isPath
          have grown := inductionHypothesis (spelled.grow inside step) (Nat.lt_succ_self _) isPath
          rw [growPath_new] at grown
          rcases grown with before | start
          · rcases isPath_grow spelled inside step before with old | rfl
            · exact .inl old
            · exact .inr (List.prefix_append _ _)
          · exact .inr start

end Nodes

theorem sameShape_accept (pool : Pool) (n : Nat) (patt : AcPattern) (copy : Bool) :
    SameShape pool
      (pool.setNode n (nodeAcceptPattern { pool.node n with final := true } patt copy)) := by
  apply sameShape_setNode
  · unfold nodeAcceptPattern
    split <;> exact List.Perm.refl _
  · unfold nodeAcceptPattern
    split <;> rfl

/-- Whatever the call returns, it adds at most the nodes on the way to the pattern,
and counts the pattern if it succeeds. -/
theorem acTrieAdd_grows {thiz : AcTrie} {path : Nat → List UInt8}
    {entry : List UInt8 → Option AcPattern} (opened : Open thiz.pool path entry)
    (patt : AcPattern) (copy : Bool) :
    (∀ word, IsPath (acTrieAdd thiz patt copy).1.pool word →
        IsPath thiz.pool word ∨ word <+: patt.ptext) ∧
      (acTrieAdd thiz patt copy).1.patternsCount =
        thiz.patternsCount + if (acTrieAdd thiz patt copy).2 = .success then 1 else 0 := by
  unfold acTrieAdd
  split
  next => exact ⟨fun _ => .inl, rfl⟩
  split
  next => exact ⟨fun _ => .inl, rfl⟩
  split
  next => exact ⟨fun _ => .inl, rfl⟩
  next zero long =>
    have fits : (path root ++ patt.ptext).length ≤ acPattrnMaxLength := by
      rw [opened.spelled.rootPath]
      exact Nat.not_lt.mp long
    obtain ⟨_, grown, _, _⟩ := opened.addLetters opened.spelled.rooted fits
    have onPath : ∀ word, IsPath (addLetters thiz.pool root patt.ptext).1 word →
        IsPath thiz.pool word ∨ word <+: patt.ptext := by
      intro word isPath
      have either := isPath_addLetters opened.spelled opened.spelled.rooted isPath
      rwa [opened.spelled.rootPath] at either
    dsimp only
    split
    next => exact ⟨onPath, rfl⟩
    next =>
      refine ⟨fun word isPath => onPath word ?_, rfl⟩
      exact ((sameShape_accept _ _ patt copy).isPath grown.spelled word).mp isPath

theorem addAll_grows (adds : List (AcPattern × Bool)) :
    (∀ word, IsPath (acTrieAddAll acTrieCreate adds).pool word → word ≠ [] →
        ∃ patt ∈ acceptedPatterns acTrieCreate adds, word <+: patt.ptext) ∧
      (acTrieAddAll acTrieCreate adds).patternsCount =
        (acceptedPatterns acTrieCreate adds).length := by
  induction adds using List.reverseRecOn with
  | nil =>
      refine ⟨fun word isPath nonempty => ?_, rfl⟩
      obtain ⟨n, inside, rfl⟩ := open_create.spelled.isPath_iff.mp isPath
      exact absurd rfl nonempty
  | append_singleton adds add inductionHypothesis =>
      obtain ⟨covered, count⟩ := inductionHypothesis
      obtain ⟨_, path, opened⟩ := open_addAll adds
      obtain ⟨onPath, counted⟩ := acTrieAdd_grows opened add.1 add.2
      rw [acTrieAddAll_append, acceptedPatterns_append]
      refine ⟨fun word isPath nonempty => ?_, ?_⟩
      · by_cases success : (acTrieAdd (acTrieAddAll acTrieCreate adds) add.1 add.2).2 = .success
        · rw [if_pos success]
          rcases onPath word isPath with before | start
          · obtain ⟨patt, accepted, inside⟩ := covered word before nonempty
            exact ⟨patt, List.mem_append_left _ accepted, inside⟩
          · exact ⟨add.1, List.mem_append_right _ List.mem_cons_self, start⟩
        · rw [acTrieAdd_unchanged adds success] at isPath
          rw [if_neg success, List.append_nil]
          exact covered word isPath nonempty
      · rw [counted, count, List.length_append]
        split <;> rfl

theorem represents_afterAdding (patts : List AcPattern) :
    Represents (afterAdding patts) (acceptedOf patts) := by
  obtain ⟨_, path, opened⟩ := open_addAll (patts.map (·, false))
  have spelled := opened.spelled
  constructor
  · exact spelled.distinct
  · intro n inside
    refine ⟨path n, spelled.reached n inside, fun word reached => ?_⟩
    exact (spelled.follow_root_iff.mp reached).2.symm
  · intro n word reached
    obtain ⟨inside, rfl⟩ := spelled.follow_root_iff.mp reached
    exact spelled.depth n inside
  · intro n word reached
    obtain ⟨inside, rfl⟩ := spelled.follow_root_iff.mp reached
    exact (Bool.eq_iff_iff.mp (opened.final n inside)).trans (dictionary_isSome_iff _ _)
  · intro n patt accepted reached
    obtain ⟨inside, word⟩ := spelled.follow_root_iff.mp reached
    have matched := opened.matched n inside
    rw [word, dictionary_of_accepted patts patt accepted] at matched
    exact matched
  · intro n word reached other
    obtain ⟨inside, rfl⟩ := spelled.follow_root_iff.mp reached
    have nonempty : path n ≠ [] := mt (spelled.path_eq_nil_iff inside).mp other
    exact (addAll_grows _).1 (path n) (spelled.isPath_path inside) nonempty
  · exact (addAll_grows _).2

/-- A call of `ac_trie_add` in any sequence succeeds exactly for a pattern of a
length allowed that has not been accepted, leaves the trie as it is when it fails,
and the trie represents what has been accepted. -/
theorem adding_represents_accepted (patts : List AcPattern) (patt : AcPattern) :
    ((acTrieAdd (afterAdding patts) patt false).2 = .success ↔
        1 ≤ patt.ptext.length ∧ patt.ptext.length ≤ acPattrnMaxLength ∧
          ∀ earlier ∈ acceptedOf patts, earlier.ptext ≠ patt.ptext) ∧
      ((acTrieAdd (afterAdding patts) patt false).2 ≠ .success →
        (acTrieAdd (afterAdding patts) patt false).1 = afterAdding patts) ∧
      Represents (afterAdding patts) (acceptedOf patts) :=
  ⟨acTrieAdd_success_iff _ patt false, acTrieAdd_unchanged _, represents_afterAdding patts⟩

end UAFlow.AhoCorasick
