import UAFlow.AhoCorasick.Search

/-!
# Calls on a finalized trie

Searching, setting a text and asking for the next match leave the nodes alone;
they only move the search state about.
-/

namespace UAFlow.AhoCorasick

open Library

variable {path : Nat → List UInt8} {entry : List UInt8 → Option AcPattern}

structure Searchable (thiz : AcTrie) (path : Nat → List UInt8)
    (entry : List UInt8 → Option AcPattern) : Prop where
  finalized : Finalized thiz.pool path entry
  closed : thiz.trieOpen = false
  inside : thiz.lastNode < thiz.pool.used

def searched {User : Type} (thiz : AcTrie) (scanned : ScanEnd User) (current : Nat) :
    AcTrie × User × Int :=
  if scanned.stopped then
    if thiz.wm = .findnext then
      ({ thiz with position := scanned.position, lastNode := current }, scanned.user, 1)
    else
      (thiz, scanned.user, 1)
  else
    ({ thiz with lastNode := current, basePosition := thiz.basePosition + scanned.position },
      scanned.user, 0)

theorem acTrieSearch_eq {thiz : AcTrie} (finalized : Finalized thiz.pool path entry)
    (closed : thiz.trieOpen = false) (inside : thiz.lastNode < thiz.pool.used) {User : Type}
    (text : List UInt8) (keep : Bool) (callback : AcMatchCallback User) (user : User)
    {start : AcTrie} (starts : start = if keep then thiz else acTrieReset thiz)
    {position : Nat} (begins : position = if thiz.wm = .findnext then thiz.position else 0)
    {scanned : ScanEnd User}
    (scans : scanned = scan entry start.basePosition callback (path thiz.lastNode)
      (text.drop position) position user) :
    ∃ current, Stands thiz.pool path current scanned.word ∧
      acTrieSearch thiz text keep callback user = .ok (searched start scanned current) := by
  have samePool : start.pool = thiz.pool := by
    rw [starts]
    split <;> rfl
  have enough : 2 * (text.drop position).length + (path thiz.lastNode).length <
      2 * (text.length - position) + (start.pool.node thiz.lastNode).depth + 1 := by
    rw [samePool, finalized.spelled.depth _ inside, List.length_drop]
    exact Nat.lt_succ_self _
  obtain ⟨current, stands, returned⟩ := searchLoop_comesTo finalized text start.basePosition
    callback _ user rfl ((Stands.self finalized.spelled inside).ready _) enough
  rw [← scans] at stands returned
  refine ⟨current, stands, ?_⟩
  rw [← samePool] at returned
  simp only [acTrieSearch, closed, Bool.false_eq_true, if_false, ← starts, ← begins, returned]
  unfold searched
  cases scanned.stopped with
  | true => simp only [if_true]; split <;> rfl
  | false => rfl

theorem Searchable.start {thiz : AcTrie} (searchable : Searchable thiz path entry) (keep : Bool) :
    Searchable (if keep then thiz else acTrieReset thiz) path entry := by
  split
  next => exact searchable
  next => exact { searchable with inside := searchable.finalized.spelled.rooted }

structure SameNodes (thiz after : AcTrie) : Prop where
  pool : after.pool = thiz.pool
  trieOpen : after.trieOpen = thiz.trieOpen
  wm : after.wm = thiz.wm

theorem SameNodes.trans {first second third : AcTrie} (before : SameNodes first second)
    (after : SameNodes second third) : SameNodes first third :=
  ⟨after.pool.trans before.pool, after.trieOpen.trans before.trieOpen, after.wm.trans before.wm⟩

theorem sameNodes_searched {User : Type} (thiz : AcTrie) (scanned : ScanEnd User)
    (current : Nat) : SameNodes thiz (searched thiz scanned current).1 := by
  unfold searched
  split
  · split <;> exact ⟨rfl, rfl, rfl⟩
  · exact ⟨rfl, rfl, rfl⟩

theorem sameNodes_start (thiz : AcTrie) (keep : Bool) :
    SameNodes thiz (if keep then thiz else acTrieReset thiz) := by
  split <;> exact ⟨rfl, rfl, rfl⟩

theorem searched_lastNode {User : Type} (thiz : AcTrie) (scanned : ScanEnd User) (current : Nat) :
    (searched thiz scanned current).1.lastNode = current ∨
      (searched thiz scanned current).1.lastNode = thiz.lastNode := by
  unfold searched
  split
  · split
    · exact Or.inl rfl
    · exact Or.inr rfl
  · exact Or.inl rfl

namespace Searchable

theorem search {thiz after : AcTrie} (searchable : Searchable thiz path entry) {User : Type}
    {text : List UInt8} {keep : Bool} {callback : AcMatchCallback User} {user userAfter : User}
    {answer : Int}
    (returned : acTrieSearch thiz text keep callback user = .ok (after, userAfter, answer)) :
    Searchable after path entry ∧ SameNodes thiz after := by
  obtain ⟨scanned, current, stands, result⟩ : ∃ (scanned : ScanEnd User) (current : Nat),
      Stands thiz.pool path current scanned.word ∧
        acTrieSearch thiz text keep callback user =
          .ok (searched (if keep then thiz else acTrieReset thiz) scanned current) :=
    ⟨_, acTrieSearch_eq searchable.finalized searchable.closed searchable.inside text keep
      callback user rfl rfl rfl⟩
  rw [returned] at result
  have start := searchable.start keep
  have same := (sameNodes_start thiz keep).trans (sameNodes_searched _ scanned current)
  have left : after = (searched (if keep then thiz else acTrieReset thiz) scanned current).1 :=
    congrArg Prod.fst (Except.ok.inj result)
  rw [left]
  refine ⟨⟨?_, ?_, ?_⟩, same⟩
  · rw [same.pool]
    exact searchable.finalized
  · rw [same.trieOpen]
    exact searchable.closed
  · rw [same.pool]
    rcases searched_lastNode _ _ current with moved | kept
    · rw [moved]
      exact stands.1
    · rw [kept, ← (sameNodes_start thiz keep).pool]
      exact start.inside

theorem setWm {thiz : AcTrie} (searchable : Searchable thiz path entry) (wm : ActWorkingMode) :
    Searchable { thiz with wm := wm } path entry :=
  ⟨searchable.finalized, searchable.closed, searchable.inside⟩

/-- Every call that returns leaves a trie with the same nodes, ready for the
next call. -/
theorem useStep {thiz after : AcTrie} {call : Use} (searchable : Searchable thiz path entry)
    (between : thiz.wm = .search) (stepped : UseStep thiz call after) :
    Searchable after path entry ∧ SameNodes thiz after := by
  cases call with
  | search text keep callback user =>
      obtain ⟨userAfter, answer, returned⟩ := stepped
      exact searchable.search returned
  | settext text keep =>
      obtain rfl := stepped
      have start := searchable.start keep
      have same := sameNodes_start thiz keep
      exact ⟨⟨start.finalized, start.closed, start.inside⟩, same.pool, same.trieOpen, same.wm⟩
  | findnext =>
      obtain ⟨found, returned⟩ := stepped
      unfold acTrieFindnext at returned
      split at returned
      next =>
        simp [searchable.closed] at returned
      next text set =>
        split at returned
        next => simp at returned
        next middle result answer step =>
          obtain ⟨rfl, _⟩ := Prod.mk.inj (Except.ok.inj returned)
          obtain ⟨later, same⟩ := (searchable.setWm .findnext).search step
          exact ⟨later.setWm .search, same.pool, same.trieOpen, between.symm⟩

end Searchable

/-! ## Histories -/

/-- A trie built by these calls of `ac_trie_add`, finalized, and then used by
any calls that return. -/
structure Searched (adds : List (AcPattern × Bool)) where
  fresh : AcTrie
  finalizes : acTrieFinalize (acTrieAddAll acTrieCreate adds) = .ok fresh
  calls : List Use
  state : AcTrie
  run : Run UseStep fresh calls state

theorem acTrieAdd_search (thiz : AcTrie) (patt : AcPattern) (copy : Bool) :
    (acTrieAdd thiz patt copy).1.lastNode = thiz.lastNode ∧
      (acTrieAdd thiz patt copy).1.basePosition = thiz.basePosition ∧
      (acTrieAdd thiz patt copy).1.wm = thiz.wm := by
  unfold acTrieAdd
  repeat' split
  all_goals exact ⟨rfl, rfl, rfl⟩

theorem acTrieAddAll_search (adds : List (AcPattern × Bool)) :
    (acTrieAddAll acTrieCreate adds).lastNode = root ∧
      (acTrieAddAll acTrieCreate adds).basePosition = 0 ∧
      (acTrieAddAll acTrieCreate adds).wm = .search := by
  induction adds using List.reverseRecOn with
  | nil => exact ⟨rfl, rfl, rfl⟩
  | append_singleton adds add inductionHypothesis =>
      obtain ⟨lastNode, basePosition, wm⟩ := inductionHypothesis
      have step := acTrieAdd_search (acTrieAddAll acTrieCreate adds) add.1 add.2
      rw [lastNode, basePosition, wm] at step
      rw [acTrieAddAll, List.foldl_append]
      exact step

theorem exists_finalized (adds : List (AcPattern × Bool)) :
    ∃ fresh path, acTrieFinalize (acTrieAddAll acTrieCreate adds) = .ok fresh ∧
      Searchable fresh path (dictionary adds) ∧ fresh.lastNode = root ∧
      fresh.basePosition = 0 ∧ fresh.wm = .search := by
  obtain ⟨_, path, opened⟩ := open_addAll adds
  obtain ⟨pool, finished, finalized, _⟩ := acTrieFinalize_ok opened (wellKept_dictionary adds)
  obtain ⟨lastNode, basePosition, wm⟩ := acTrieAddAll_search adds
  refine ⟨_, path, finished, ⟨finalized, rfl, ?_⟩, lastNode, basePosition, wm⟩
  simp only [lastNode]
  exact finalized.spelled.rooted

namespace Searched

variable {adds : List (AcPattern × Bool)}

theorem fresh_searchable (used : Searched adds) :
    ∃ path, Searchable used.fresh path (dictionary adds) ∧ used.fresh.lastNode = root ∧
      used.fresh.basePosition = 0 ∧ used.fresh.wm = .search := by
  obtain ⟨fresh, path, finished, searchable⟩ := exists_finalized adds
  rw [used.finalizes] at finished
  obtain rfl := Except.ok.inj finished
  exact ⟨path, searchable⟩

theorem searchable (used : Searched adds) :
    ∃ path, Searchable used.fresh path (dictionary adds) ∧
      Searchable used.state path (dictionary adds) ∧ used.fresh.lastNode = root ∧
      used.state.wm = .search ∧ used.fresh.wm = .search ∧ used.state.pool = used.fresh.pool := by
  obtain ⟨path, fresh, lastNode, _, wm⟩ := used.fresh_searchable
  obtain ⟨searchable, same⟩ := Run.invariant
    (fun state => Searchable state path (dictionary adds) ∧ SameNodes used.fresh state)
    (fun state call after holds stepped => by
      obtain ⟨before, same⟩ := holds
      obtain ⟨later, further⟩ := before.useStep (same.wm.trans wm) stepped
      exact ⟨later, same.trans further⟩)
    used.run ⟨fresh, rfl, rfl, rfl⟩
  exact ⟨path, fresh, searchable, lastNode, same.wm.trans wm, wm, same.pool⟩

end Searched

end UAFlow.AhoCorasick
