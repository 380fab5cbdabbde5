import UAFlow.AhoCorasick.Uses

/-!
# All matches, one at a time

`ac_trie_settext` followed by `ac_trie_findnext` until it has nothing more to
say goes through the reports of the whole text: a call stops at the first report
and keeps where it was, the next call goes on from there.
-/

namespace UAFlow.AhoCorasick

open Library

variable {path : Nat → List UInt8} {entry : List UInt8 → Option AcPattern}

/-- With the callback of `ac_trie_findnext` a search ends at the first report. -/
theorem scan_acTrieMatchHandler (basePosition : Nat) (word rest : List UInt8) (position : Nat)
    (user : AcMatch) :
    scan entry basePosition acTrieMatchHandler word rest position user =
      match reports entry word rest position with
      | [] => ⟨false, position + rest.length, word ++ rest, user⟩
      | (place, found) :: _ =>
          ⟨true, place, word ++ rest.take (place - position), ⟨found, place + basePosition⟩⟩ := by
  induction rest generalizing word position with
  | nil => simp [scan, reports]
  | cons alpha rest inductionHypothesis =>
      by_cases none : occurrences entry (word ++ [alpha]) = []
      · rw [reports_cons_of_none none]
        simp only [scan, none, inductionHypothesis]
        cases some : reports entry (word ++ [alpha]) rest (position + 1) with
        | nil =>
            have total : position + 1 + rest.length = position + (rest.length + 1) := by omega
            simp [total]
        | cons report later =>
            obtain ⟨place, found⟩ := report
            have membership : (place, found) ∈
                reports entry (word ++ [alpha]) rest (position + 1) := by
              rw [some]
              exact List.mem_cons_self
            have above := (of_mem_reports membership).1
            have distance : place - position = place - (position + 1) + 1 := by omega
            simp [distance]
      · rw [reports_cons_of_some none]
        obtain ⟨patt, more, found⟩ := List.exists_cons_of_ne_nil none
        simp [scan, found, acTrieMatchHandler]

theorem acTrieFindnext_of_search {thiz : AcTrie} {text : List UInt8}
    {result : AcTrie × AcMatch × Int} (set : thiz.text = some text)
    (returned : acTrieSearch { thiz with wm := .findnext } text true acTrieMatchHandler ⟨[], 0⟩ =
      .ok result) :
    acTrieFindnext thiz = .ok ({ result.1 with wm := .search }, result.2.1) := by
  unfold acTrieFindnext
  split
  next unset =>
    rw [set] at unset
    simp at unset
  next other same =>
    rw [set] at same
    obtain rfl := Option.some.inj same
    rw [returned]

theorem acTrieFindnext_eq {thiz : AcTrie} (searchable : Searchable thiz path entry)
    (between : thiz.wm = .search) {text : List UInt8} (set : thiz.text = some text) :
    match reports entry (path thiz.lastNode) (text.drop thiz.position) thiz.position with
    | [] => ∃ current,
        Stands thiz.pool path current (path thiz.lastNode ++ text.drop thiz.position) ∧
        acTrieFindnext thiz =
          .ok ({ thiz with
                  lastNode := current
                  basePosition :=
                    thiz.basePosition + (thiz.position + (text.drop thiz.position).length) },
            ⟨[], 0⟩)
    | (place, found) :: _ => ∃ current,
        Stands thiz.pool path current
          (path thiz.lastNode ++ (text.drop thiz.position).take (place - thiz.position)) ∧
        acTrieFindnext thiz =
          .ok ({ thiz with position := place, lastNode := current },
            ⟨found, place + thiz.basePosition⟩) := by
  obtain ⟨current, stands, returned⟩ := acTrieSearch_eq
    (searchable.setWm .findnext).finalized searchable.closed searchable.inside text true
    acTrieMatchHandler ⟨[], 0⟩ rfl rfl rfl
  have findnext := acTrieFindnext_of_search set returned
  simp only [if_true, scan_acTrieMatchHandler] at stands findnext
  cases some : reports entry (path thiz.lastNode) (text.drop thiz.position) thiz.position with
  | nil =>
      simp only [some] at stands
      simp only [some, searched, Bool.false_eq_true, if_false, ← between] at findnext
      exact ⟨current, stands, findnext⟩
  | cons report later =>
      simp only [some] at stands
      simp only [some, searched, if_true, ← between] at findnext
      exact ⟨current, stands, findnext⟩

def Yields : AcTrie → List AcMatch → Prop
  | thiz, [] => ∃ after found, acTrieFindnext thiz = .ok (after, found) ∧ found.size = 0
  | thiz, found :: yielded =>
      ∃ after, acTrieFindnext thiz = .ok (after, found) ∧ found.size ≠ 0 ∧ Yields after yielded

def toMatch (basePosition : Nat) (report : Nat × List AcPattern) : AcMatch :=
  ⟨report.2, report.1 + basePosition⟩

theorem yields_reports {thiz : AcTrie} (searchable : Searchable thiz path entry)
    (between : thiz.wm = .search) {text : List UInt8} (set : thiz.text = some text) :
    Yields thiz ((reports entry (path thiz.lastNode) (text.drop thiz.position)
      thiz.position).map (toMatch thiz.basePosition)) := by
  generalize all : reports entry (path thiz.lastNode) (text.drop thiz.position) thiz.position =
    pending
  induction pending generalizing thiz with
  | nil =>
      have one := acTrieFindnext_eq searchable between set
      rw [all] at one
      obtain ⟨_, _, returned⟩ := one
      exact ⟨_, _, returned, rfl⟩
  | cons report later inductionHypothesis =>
      obtain ⟨place, found⟩ := report
      have one := acTrieFindnext_eq searchable between set
      rw [all] at one
      obtain ⟨current, stands, returned⟩ := one
      have first : (place, found) ∈
          reports entry (path thiz.lastNode) (text.drop thiz.position) thiz.position := by
        rw [all]
        exact List.mem_cons_self
      obtain ⟨above, _, nonempty, _⟩ := of_mem_reports first
      have further : Searchable { thiz with position := place, lastNode := current } path entry :=
        ⟨searchable.finalized, searchable.closed, stands.1⟩
      have tail := reports_tail all
      rw [List.drop_drop, Nat.add_sub_cancel' above.le,
        ← reports_longestSuffix (isPath_empty thiz.pool) (isPath_closed thiz.pool)
          searchable.finalized.collecting.known, ← stands.2] at tail
      exact ⟨_, returned, by simpa [AcMatch.size, toMatch] using nonempty,
        inductionHypothesis further between set tail.symm⟩

/-! ## A set of patterns -/

/-- Distinct patterns of the lengths `ac_trie_add` accepts. -/
structure PatternSet where
  patterns : List AcPattern
  distinct : (patterns.map AcPattern.ptext).Nodup
  nonempty : ∀ patt ∈ patterns, 1 ≤ patt.ptext.length
  short : ∀ patt ∈ patterns, patt.ptext.length ≤ acPattrnMaxLength

def PatternSet.adds (set : PatternSet) : List (AcPattern × Bool) :=
  set.patterns.map fun patt => (patt, false)

theorem dictionary_uncopied {patterns : List AcPattern}
    (distinct : (patterns.map AcPattern.ptext).Nodup)
    (nonempty : ∀ patt ∈ patterns, 1 ≤ patt.ptext.length)
    (short : ∀ patt ∈ patterns, patt.ptext.length ≤ acPattrnMaxLength)
    {word : List UInt8} {found : AcPattern} :
    dictionary (patterns.map fun patt => (patt, false)) word = some found ↔
      found ∈ patterns ∧ found.ptext = word := by
  constructor
  · intro present
    obtain ⟨wordNonempty, wordShort⟩ := dictionary_length (Option.isSome_of_eq_some present)
    rw [dictionary_eq_find _ wordNonempty wordShort, List.find?_map, Option.map_map] at present
    obtain ⟨patt, first, rfl⟩ := Option.map_eq_some_iff.mp present
    have same := List.find?_some first
    exact ⟨List.mem_of_find?_eq_some first, of_decide_eq_true same⟩
  · rintro ⟨membership, rfl⟩
    have wordNonempty := List.length_pos_iff.mp (nonempty found membership)
    rw [dictionary_eq_find _ wordNonempty (short found membership), List.find?_map,
      Option.map_map]
    refine Option.map_eq_some_iff.mpr ⟨found, ?_, rfl⟩
    cases first : patterns.find? ((fun add : AcPattern × Bool => add.1.ptext = found.ptext) ∘
        fun patt => (patt, false)) with
    | none =>
        have absent := List.find?_eq_none.mp first found membership
        simp at absent
    | some patt =>
        have same := List.find?_some first
        have same : patt.ptext = found.ptext := of_decide_eq_true same
        rw [List.inj_on_of_nodup_map distinct (List.mem_of_find?_eq_some first) membership same]

theorem PatternSet.mem_occurrences (set : PatternSet) {word : List UInt8} {patt : AcPattern} :
    patt ∈ occurrences (dictionary set.adds) word ↔
      patt ∈ set.patterns ∧ patt.ptext <:+ word := by
  rw [Library.mem_occurrences]
  simp only [PatternSet.adds, dictionary_uncopied set.distinct set.nonempty set.short]
  constructor
  · rintro ⟨part, suffix, membership, rfl⟩
    exact ⟨membership, suffix⟩
  · rintro ⟨membership, suffix⟩
    exact ⟨_, suffix, membership, rfl⟩

theorem PatternSet.found_iff (set : PatternSet) (word : List UInt8) :
    (!(occurrences (dictionary set.adds) word).isEmpty) =
      decide (∃ patt ∈ set.patterns, patt.ptext <:+ word) := by
  rw [Bool.eq_iff_iff, decide_eq_true_iff, Bool.not_eq_true', List.isEmpty_eq_false_iff_exists_mem]
  simp only [set.mem_occurrences]

/-- The patterns can be finalized; and from any state the trie can then be in,
setting a text and asking for matches until there are none gives each position
where a pattern ends, once and in order, with the patterns that end there. -/
theorem findnext_yields_all (set : PatternSet) :
    (∃ fresh, acTrieFinalize (acTrieAddAll acTrieCreate set.adds) = .ok fresh) ∧
      ∀ (used : Searched set.adds) (text : List UInt8),
        ∃ yielded, Yields (acTrieSettext used.state text false) yielded ∧
          yielded.map AcMatch.position =
            (List.range' 1 text.length).filter (fun position =>
              ∃ patt ∈ set.patterns, patt.ptext <:+ text.take position) ∧
          ∀ found ∈ yielded, found.patterns.Nodup ∧ ∀ patt, patt ∈ found.patterns ↔
            patt ∈ set.patterns ∧ patt.ptext <:+ text.take found.position := by
  constructor
  · obtain ⟨fresh, _, finalizes, _⟩ := exists_finalized set.adds
    exact ⟨fresh, finalizes⟩
  intro used text
  obtain ⟨path, _, searchable, _, between, _, _⟩ := used.searchable
  have start : Searchable (acTrieSettext used.state text false) path (dictionary set.adds) :=
    ⟨searchable.finalized, searchable.closed, searchable.finalized.spelled.rooted⟩
  have empty : path root = [] := searchable.finalized.spelled.rootPath
  have yields : Yields (acTrieSettext used.state text false)
      ((reports (dictionary set.adds) [] text 0).map (toMatch 0)) := by
    have all := yields_reports start between rfl
    change Yields _ ((reports _ (path root) (text.drop 0) 0).map (toMatch 0)) at all
    rwa [empty, List.drop_zero] at all
  refine ⟨_, yields, ?_, ?_⟩
  · calc
      ((reports (dictionary set.adds) [] text 0).map (toMatch 0)).map AcMatch.position
        = (reports (dictionary set.adds) [] text 0).map Prod.fst := by
          rw [List.map_map]
          rfl
      _ = ((List.range text.length).filter fun count =>
            !(occurrences (dictionary set.adds) (text.take (count + 1))).isEmpty).map (0 + · + 1) :=
          reports_positions [] text 0
      _ = (List.range' 1 text.length).filter (fun position =>
            ∃ patt ∈ set.patterns, patt.ptext <:+ text.take position) := by
          simp only [set.found_iff, List.range'_eq_map_range, List.filter_map, Function.comp_def,
            Nat.add_comm 1, Nat.zero_add]
  · intro found membership
    obtain ⟨⟨place, patterns⟩, reported, rfl⟩ := List.mem_map.mp membership
    obtain ⟨_, _, _, same⟩ := of_mem_reports reported
    rw [List.nil_append, Nat.sub_zero] at same
    simp only [toMatch, same, Nat.add_zero]
    exact ⟨((wellKept_dictionary set.adds).occurrences_texts _).of_map,
      fun patt => set.mem_occurrences⟩

end UAFlow.AhoCorasick
