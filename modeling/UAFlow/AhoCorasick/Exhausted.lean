import UAFlow.AhoCorasick.Adding
import UAFlow.AhoCorasick.FindNext

/-!
# Asking on behind the last match

`ac_trie_findnext` moves its position when it stops at a match, but not when it
reaches the end of the text.  The next call reads what is behind the last match
once more, as if it followed the text.
-/

namespace UAFlow.AhoCorasick

open Library

variable {path : Nat → List UInt8} {entry : List UInt8 → Option AcPattern}

/-- A finalized trie, used in any way and with a text set, for which
`ac_trie_findnext` has just returned a match of size 0. -/
structure Exhausted (adds : List (AcPattern × Bool)) where
  used : Searched adds
  text : List UInt8
  isSet : used.state.text = some text
  after : AcTrie
  found : AcMatch
  returned : acTrieFindnext used.state = .ok (after, found)
  empty : found.size = 0

def StaysEmpty : Nat → AcTrie → Prop
  | 0, _ => True
  | count + 1, thiz =>
      ∃ after found, acTrieFindnext thiz = .ok (after, found) ∧ found.size = 0 ∧
        StaysEmpty count after

def repeated (count : Nat) (tail : List UInt8) : List UInt8 := (List.replicate count tail).flatten

/-- When the tail, read behind the word of the last node, is read over and over
again, no accepted pattern ends in a repetition of it. -/
def TailSilent {adds : List (AcPattern × Bool)} (exhausted : Exhausted adds) : Prop :=
  ∃ word, follow exhausted.used.state.pool root word = some exhausted.used.state.lastNode ∧
    ∀ count front, front ≠ [] →
      front <+: repeated count (exhausted.text.drop exhausted.used.state.position) →
      ∀ patt ∈ acceptedPatterns acTrieCreate adds,
        ¬ patt.ptext <:+ word ++ exhausted.text.drop exhausted.used.state.position ++ front

/-! ## One call -/

theorem reports_lastNode {thiz : AcTrie} (searchable : Searchable thiz path entry)
    {full : List UInt8} (stands : Stands thiz.pool path thiz.lastNode full)
    (rest : List UInt8) (position : Nat) :
    reports entry (path thiz.lastNode) rest position = reports entry full rest position := by
  rw [stands.2, reports_longestSuffix (isPath_empty thiz.pool) (isPath_closed thiz.pool)
    searchable.finalized.collecting.known]

theorem reports_nil_of_position {word rest : List UInt8} {position : Nat}
    (none : reports entry word rest position = []) (other : Nat) :
    reports entry word rest other = [] :=
  reports_eq_nil_iff.mpr (reports_eq_nil_iff.mp none)

/-- With nothing to report a call comes to stand behind the tail and leaves its
position where it was. -/
theorem acTrieFindnext_none {thiz : AcTrie} (searchable : Searchable thiz path entry)
    (between : thiz.wm = .search) {text : List UInt8} (isSet : thiz.text = some text)
    {full : List UInt8} (stands : Stands thiz.pool path thiz.lastNode full)
    (none : reports entry full (text.drop thiz.position) 0 = []) :
    ∃ current basePosition,
      Stands thiz.pool path current (full ++ text.drop thiz.position) ∧
        acTrieFindnext thiz =
          .ok ({ thiz with lastNode := current, basePosition := basePosition }, ⟨[], 0⟩) := by
  have one := acTrieFindnext_eq searchable between isSet
  rw [reports_lastNode searchable stands, reports_nil_of_position none] at one
  obtain ⟨current, behind, returned⟩ := one
  refine ⟨current, _, ⟨behind.1, ?_⟩, returned⟩
  rw [behind.2, stands.2, longestSuffix_append (isPath_empty thiz.pool) (isPath_closed thiz.pool)]

theorem acTrieFindnext_some {thiz : AcTrie} (searchable : Searchable thiz path entry)
    (between : thiz.wm = .search) {text : List UInt8} (isSet : thiz.text = some text)
    {full : List UInt8} (stands : Stands thiz.pool path thiz.lastNode full)
    (some : reports entry full (text.drop thiz.position) 0 ≠ []) {after : AcTrie}
    {found : AcMatch} (returned : acTrieFindnext thiz = .ok (after, found)) : found.size ≠ 0 := by
  have one := acTrieFindnext_eq searchable between isSet
  rw [reports_lastNode searchable stands] at one
  cases pending : reports entry full (text.drop thiz.position) thiz.position with
  | nil => exact absurd (reports_nil_of_position pending 0) some
  | cons report later =>
      obtain ⟨place, patterns⟩ := report
      rw [pending] at one
      obtain ⟨current, _, same⟩ := one
      obtain ⟨_, _, nonempty, _⟩ := of_mem_reports (pending ▸ List.mem_cons_self)
      rw [returned] at same
      obtain ⟨_, rfl⟩ := Prod.mk.inj (Except.ok.inj same)
      exact mt List.length_eq_zero_iff.mp nonempty

/-! ## Further calls -/

theorem repeated_succ (count : Nat) (tail : List UInt8) :
    repeated (count + 1) tail = tail ++ repeated count tail := by
  rw [repeated, List.replicate_succ, List.flatten_cons]
  rfl

theorem staysEmpty_iff {thiz : AcTrie} (searchable : Searchable thiz path entry)
    (between : thiz.wm = .search) {text : List UInt8} (isSet : thiz.text = some text)
    {full : List UInt8} (stands : Stands thiz.pool path thiz.lastNode full) (count : Nat) :
    StaysEmpty count thiz ↔
      reports entry full (repeated count (text.drop thiz.position)) 0 = [] := by
  induction count generalizing thiz full with
  | zero => exact ⟨fun _ => rfl, fun _ => trivial⟩
  | succ count inductionHypothesis =>
      rw [repeated_succ, reports_append, List.append_eq_nil_iff]
      by_cases none : reports entry full (text.drop thiz.position) 0 = []
      · obtain ⟨current, basePosition, behind, returned⟩ :=
          acTrieFindnext_none searchable between isSet stands none
        have next : Searchable
            { thiz with lastNode := current, basePosition := basePosition } path entry :=
          ⟨searchable.finalized, searchable.closed, behind.1⟩
        have later := inductionHypothesis next between isSet behind
        constructor
        · rintro ⟨_, _, again, _, stays⟩
          rw [returned] at again
          obtain ⟨rfl, _⟩ := Prod.mk.inj (Except.ok.inj again)
          exact ⟨none, reports_nil_of_position (later.mp stays) _⟩
        · intro silent
          exact ⟨_, _, returned, rfl, later.mpr (reports_nil_of_position silent.2 0)⟩
      · constructor
        · rintro ⟨after, found, returned, empty, _⟩
          exact absurd empty (acTrieFindnext_some searchable between isSet stands none returned)
        · exact fun silent => absurd silent.1 none

theorem occurrences_eq_nil_iff (adds : List (AcPattern × Bool)) (word : List UInt8) :
    occurrences (dictionary adds) word = [] ↔
      ∀ patt ∈ acceptedPatterns acTrieCreate adds, ¬ patt.ptext <:+ word := by
  constructor
  · intro none patt accepted suffix
    have present := (dictionary_isSome_iff adds patt.ptext).mpr ⟨patt, accepted, rfl⟩
    obtain ⟨found, some⟩ := Option.isSome_iff_exists.mp present
    have membership : found ∈ occurrences (dictionary adds) word :=
      mem_occurrences.mpr ⟨patt.ptext, suffix, some⟩
    rw [none] at membership
    exact List.not_mem_nil membership
  · intro absent
    apply List.eq_nil_iff_forall_not_mem.mpr
    intro found membership
    obtain ⟨part, suffix, some⟩ := mem_occurrences.mp membership
    obtain ⟨patt, accepted, rfl⟩ :=
      (dictionary_isSome_iff adds part).mp (Option.isSome_of_eq_some some)
    exact absent patt accepted suffix

namespace Exhausted

variable {adds : List (AcPattern × Bool)} (exhausted : Exhausted adds)

theorem exists_word :
    ∃ word, follow exhausted.used.state.pool root word = some exhausted.used.state.lastNode := by
  obtain ⟨path, _, searchable, _⟩ := exhausted.used.searchable
  exact ⟨_, searchable.finalized.spelled.reached _ searchable.inside⟩

theorem staysEmpty_after_iff {word : List UInt8}
    (reached : follow exhausted.used.state.pool root word = some exhausted.used.state.lastNode)
    (count : Nat) :
    StaysEmpty count exhausted.after ↔
      reports (dictionary adds) (word ++ exhausted.text.drop exhausted.used.state.position)
        (repeated count (exhausted.text.drop exhausted.used.state.position)) 0 = [] := by
  obtain ⟨path, _, searchable, _, between, _, _⟩ := exhausted.used.searchable
  obtain ⟨_, rfl⟩ := searchable.finalized.spelled.follow_root_iff.mp reached
  have stands := Stands.self searchable.finalized.spelled searchable.inside
  have none : reports (dictionary adds) (path exhausted.used.state.lastNode)
      (exhausted.text.drop exhausted.used.state.position) 0 = [] := by
    by_contra some
    exact acTrieFindnext_some searchable between exhausted.isSet stands some exhausted.returned
      exhausted.empty
  obtain ⟨current, basePosition, behind, returned⟩ :=
    acTrieFindnext_none searchable between exhausted.isSet stands none
  rw [exhausted.returned] at returned
  obtain ⟨same, _⟩ := Prod.mk.inj (Except.ok.inj returned)
  have next : Searchable
      { exhausted.used.state with lastNode := current, basePosition := basePosition } path
      (dictionary adds) := ⟨searchable.finalized, searchable.closed, behind.1⟩
  rw [same]
  exact staysEmpty_iff next between exhausted.isSet behind count

/-- Every further call returns a match of size 0 exactly when the tail is silent. -/
theorem staysEmpty_iff_tailSilent (exhausted : Exhausted adds) :
    (∀ count, StaysEmpty count exhausted.after) ↔ TailSilent exhausted := by
  constructor
  · intro stays
    obtain ⟨word, reached⟩ := exhausted.exists_word
    refine ⟨word, reached, fun count front nonempty inside => ?_⟩
    have silent := (exhausted.staysEmpty_after_iff reached count).mp (stays count)
    exact (occurrences_eq_nil_iff adds _).mp (reports_eq_nil_iff.mp silent front nonempty inside)
  · rintro ⟨word, reached, silent⟩ count
    apply (exhausted.staysEmpty_after_iff reached count).mpr
    apply reports_eq_nil_iff.mpr
    intro front nonempty inside
    exact (occurrences_eq_nil_iff adds _).mpr (silent count front nonempty inside)

end Exhausted

def patternBa : AcPattern := ⟨[98, 97], none, .number 1, 0, 0, []⟩

/-- In the text `ab` there is no `ba`; the second call finds it in `abab`. -/
theorem findnext_wraps :
    ¬ ∀ (exhausted : Exhausted [(patternBa, false)]) (count : Nat),
        StaysEmpty count exhausted.after := by
  intro stays
  obtain ⟨fresh, path, finalizes, searchable, _, _, between⟩ :=
    exists_finalized [(patternBa, false)]
  have start : Searchable (acTrieSettext fresh [97, 98] false) path
      (dictionary [(patternBa, false)]) :=
    ⟨searchable.finalized, searchable.closed, searchable.finalized.spelled.rooted⟩
  have none : reports (dictionary [(patternBa, false)]) [] [97, 98] 0 = [] := by decide
  obtain ⟨current, basePosition, _, returned⟩ :=
    acTrieFindnext_none start between rfl (Stands.root searchable.finalized.spelled) none
  let used : Searched [(patternBa, false)] :=
    ⟨fresh, finalizes, [.settext [97, 98] false], _, _, rfl, rfl⟩
  let exhausted : Exhausted [(patternBa, false)] := ⟨used, [97, 98], rfl, _, _, returned, rfl⟩
  have silent : reports (dictionary [(patternBa, false)]) [97, 98] [97, 98] 0 = [] :=
    (exhausted.staysEmpty_after_iff (show follow _ root [] = _ from rfl) 1).mp (stays exhausted 1)
  exact absurd silent (by decide)

end UAFlow.AhoCorasick
