import Mathlib.Data.List.Infix

/-!
# Longest suffixes in a prefix-closed set of words

A set of words that is closed under prefixes is the set of paths of a tree.
While a text is read letter by letter, the longest suffix of what has been read
that is a path determines everything a dictionary over these paths can report.
-/

namespace UAFlow.Library

universe u v

variable {Letter : Type u} {Entry : Type v}

theorem suffix_append_cases {part word rest : List Letter} (suffix : part <:+ word ++ rest) :
    part <:+ rest ∨ ∃ front, part = front ++ rest ∧ front <:+ word := by
  rcases List.suffix_or_suffix_of_suffix suffix (List.suffix_append word rest) with
    inside | ⟨front, rfl⟩
  · exact Or.inl inside
  · obtain ⟨before, same⟩ := suffix
    rw [← List.append_assoc] at same
    exact Or.inr ⟨front, rfl, before, List.append_cancel_right same⟩

section Paths

variable (Path : List Letter → Prop) [DecidablePred Path]

/-- The longest suffix that is a path. -/
def longestSuffix : List Letter → List Letter
  | [] => []
  | letter :: word =>
      if Path (letter :: word) then letter :: word else longestSuffix word

theorem longestSuffix_suffix (word : List Letter) : longestSuffix Path word <:+ word := by
  induction word with
  | nil => exact List.suffix_rfl
  | cons letter word inductionHypothesis =>
      unfold longestSuffix
      split
      next => exact List.suffix_rfl
      next => exact inductionHypothesis.trans (List.suffix_cons letter word)

variable {Path}

theorem longestSuffix_of_path {word : List Letter} (path : Path word) :
    longestSuffix Path word = word := by
  cases word with
  | nil => rfl
  | cons letter word => exact if_pos path

theorem longestSuffix_of_not_path {letter : Letter} {word : List Letter}
    (noPath : ¬ Path (letter :: word)) :
    longestSuffix Path (letter :: word) = longestSuffix Path word :=
  if_neg noPath

theorem path_longestSuffix (empty : Path []) (word : List Letter) :
    Path (longestSuffix Path word) := by
  induction word with
  | nil => exact empty
  | cons letter word inductionHypothesis =>
      unfold longestSuffix
      split
      next path => exact path
      next => exact inductionHypothesis

theorem suffix_longestSuffix {part word : List Letter} (path : Path part)
    (suffix : part <:+ word) : part <:+ longestSuffix Path word := by
  induction word with
  | nil => exact suffix
  | cons letter word inductionHypothesis =>
      unfold longestSuffix
      split
      next => exact suffix
      next noPath =>
        rcases List.suffix_cons_iff.mp suffix with rfl | shorter
        · exact absurd path noPath
        · exact inductionHypothesis shorter

/-- The longest suffix is the only path among the suffixes that has all the
others for suffixes. -/
theorem longestSuffix_eq {best word : List Letter} (empty : Path []) (path : Path best)
    (suffix : best <:+ word) (longest : ∀ part, Path part → part <:+ word → part <:+ best) :
    longestSuffix Path word = best := by
  have below := longest _ (path_longestSuffix empty word) (longestSuffix_suffix Path word)
  have above := suffix_longestSuffix path suffix
  exact below.eq_of_length (le_antisymm below.length_le above.length_le)

/-- What precedes the longest suffix can be forgotten before reading on. -/
theorem longestSuffix_append (empty : Path [])
    (closed : ∀ front back, Path (front ++ back) → Path front) (word rest : List Letter) :
    longestSuffix Path (longestSuffix Path word ++ rest) = longestSuffix Path (word ++ rest) := by
  symm
  apply longestSuffix_eq empty (path_longestSuffix empty _)
  · apply (longestSuffix_suffix Path _).trans
    obtain ⟨before, same⟩ := longestSuffix_suffix Path word
    exact ⟨before, by rw [← List.append_assoc, same]⟩
  · intro part path suffix
    apply suffix_longestSuffix path
    rcases suffix_append_cases suffix with inside | ⟨front, rfl, across⟩
    · exact inside.trans (List.suffix_append _ _)
    · obtain ⟨before, same⟩ := suffix_longestSuffix (closed front rest path) across
      exact ⟨before, by rw [← List.append_assoc, same]⟩

/-- A path that cannot be extended by `letter` may be replaced by the longest
path among its proper suffixes. -/
theorem longestSuffix_fall (empty : Path [])
    (closed : ∀ front back, Path (front ++ back) → Path front) {word : List Letter}
    {letter : Letter} (nonempty : word ≠ []) (stuck : ¬ Path (word ++ [letter])) :
    longestSuffix Path (longestSuffix Path word.tail ++ [letter]) =
      longestSuffix Path (word ++ [letter]) := by
  rw [longestSuffix_append empty closed]
  cases word with
  | nil => exact absurd rfl nonempty
  | cons first word => exact (longestSuffix_of_not_path stuck).symm

theorem longestSuffix_stuck (empty : Path []) {letter : Letter} (stuck : ¬ Path [letter]) :
    longestSuffix Path [letter] = [] := by
  rw [longestSuffix_of_not_path stuck, longestSuffix_of_path empty]

end Paths

/-! ## Entries of a dictionary -/

/-- The entries for the suffixes of a word, the longest suffix first. -/
def occurrences (entry : List Letter → Option Entry) : List Letter → List Entry
  | [] => (entry []).toList
  | letter :: word => (entry (letter :: word)).toList ++ occurrences entry word

section Occurrences

variable {entry : List Letter → Option Entry}

theorem mem_occurrences {word : List Letter} {found : Entry} :
    found ∈ occurrences entry word ↔ ∃ part, part <:+ word ∧ entry part = some found := by
  induction word with
  | nil => simp [occurrences, List.suffix_nil]
  | cons letter word inductionHypothesis =>
      simp only [occurrences, List.mem_append, Option.mem_toList, inductionHypothesis,
        List.suffix_cons_iff]
      constructor
      · rintro (whole | ⟨part, suffix, found⟩)
        · exact ⟨_, Or.inl rfl, whole⟩
        · exact ⟨part, Or.inr suffix, found⟩
      · rintro ⟨part, rfl | suffix, found⟩
        · exact Or.inl found
        · exact Or.inr ⟨part, suffix, found⟩

theorem occurrences_map {Image : Type*} (image : Entry → Image) (word : List Letter) :
    occurrences (fun part => (entry part).map image) word = (occurrences entry word).map image := by
  induction word with
  | nil => rw [occurrences, occurrences, Option.toList_map]
  | cons letter word inductionHypothesis =>
      rw [occurrences, occurrences, List.map_append, inductionHypothesis, Option.toList_map]

theorem occurrences_suffix (front word : List Letter) :
    occurrences entry word <:+ occurrences entry (front ++ word) := by
  induction front with
  | nil => exact List.suffix_rfl
  | cons letter front inductionHypothesis =>
      exact inductionHypothesis.trans (List.suffix_append _ _)

theorem occurrences_head {word : List Letter} {found : Entry} {more : List Entry}
    (some : occurrences entry word = found :: more) :
    ∃ best, best <:+ word ∧ entry best = Option.some found ∧
      ∀ part, part <:+ word → (entry part).isSome = true → part <:+ best := by
  induction word with
  | nil =>
      refine ⟨[], List.suffix_rfl, ?_, fun part suffix _ => suffix⟩
      cases own : entry [] with
      | none => simp [occurrences, own] at some
      | some value =>
          simp only [occurrences, own, Option.toList_some, List.cons.injEq] at some
          rw [some.1]
  | cons letter word inductionHypothesis =>
      cases own : entry (letter :: word) with
      | some value =>
          simp only [occurrences, own, Option.toList_some, List.singleton_append,
            List.cons.injEq] at some
          exact ⟨_, List.suffix_rfl, by rw [own, some.1], fun part suffix _ => suffix⟩
      | none =>
          simp only [occurrences, own, Option.toList_none, List.nil_append] at some
          obtain ⟨best, suffix, present, longest⟩ := inductionHypothesis some
          refine ⟨best, suffix.trans (List.suffix_cons _ _), present, ?_⟩
          intro part partSuffix partPresent
          rcases List.suffix_cons_iff.mp partSuffix with rfl | shorter
          · simp [own] at partPresent
          · exact longest part shorter partPresent

/-- Reading `word` behind `front` finds nothing more exactly when no entry
begins inside `front`. -/
theorem occurrences_append_eq_iff {front word : List Letter} :
    occurrences entry (front ++ word) = occurrences entry word ↔
      ∀ part, part ≠ [] → part <:+ front → entry (part ++ word) = none := by
  induction front with
  | nil =>
      simp only [List.nil_append, List.suffix_nil, true_iff]
      intro part nonempty empty
      exact absurd empty nonempty
  | cons letter front inductionHypothesis =>
      have more : (occurrences entry word).length ≤ (occurrences entry (front ++ word)).length :=
        (occurrences_suffix front word).length_le
      simp only [List.cons_append, occurrences, List.suffix_cons_iff]
      constructor
      · intro same
        have lengths := congrArg List.length same
        rw [List.length_append] at lengths
        have absent : (entry (letter :: (front ++ word))).toList = [] :=
          List.length_eq_zero_iff.mp (by omega)
        rw [absent, List.nil_append] at same
        rintro part nonempty (rfl | suffix)
        · simpa using absent
        · exact inductionHypothesis.mp same part nonempty suffix
      · intro none
        have absent : entry (letter :: (front ++ word)) = Option.none :=
          none (letter :: front) (by simp) (Or.inl rfl)
        rw [absent]
        exact inductionHypothesis.mpr fun part nonempty suffix =>
          none part nonempty (Or.inr suffix)

variable {Path : List Letter → Prop} [DecidablePred Path]

theorem occurrences_longestSuffix (paths : ∀ word found, entry word = some found → Path word)
    (word : List Letter) :
    occurrences entry (longestSuffix Path word) = occurrences entry word := by
  induction word with
  | nil => rfl
  | cons letter word inductionHypothesis =>
      unfold longestSuffix
      split
      next => rfl
      next noPath =>
        have absent : entry (letter :: word) = none := by
          cases found : entry (letter :: word) with
          | none => rfl
          | some value => exact absurd (paths _ _ found) noPath
        rw [inductionHypothesis, occurrences, absent]
        rfl

/-- The entries of a path are its own and those of the path it falls back to. -/
theorem occurrences_fall (paths : ∀ word found, entry word = some found → Path word)
    {word : List Letter} (nonempty : word ≠ []) :
    occurrences entry word =
      (entry word).toList ++ occurrences entry (longestSuffix Path word.tail) := by
  cases word with
  | nil => exact absurd rfl nonempty
  | cons letter word =>
      rw [occurrences, List.tail_cons, occurrences_longestSuffix paths]

end Occurrences

/-! ## Reports while a text is read -/

/-- The positions behind which entries end while `rest` is read after `word`,
with these entries; `position` letters have been read before. -/
def reports (entry : List Letter → Option Entry) :
    List Letter → List Letter → Nat → List (Nat × List Entry)
  | _, [], _ => []
  | word, letter :: rest, position =>
      match occurrences entry (word ++ [letter]) with
      | [] => reports entry (word ++ [letter]) rest (position + 1)
      | found => (position + 1, found) :: reports entry (word ++ [letter]) rest (position + 1)

section Reports

variable {entry : List Letter → Option Entry}

theorem reports_cons_of_none {word rest : List Letter} {letter : Letter} {position : Nat}
    (none : occurrences entry (word ++ [letter]) = []) :
    reports entry word (letter :: rest) position =
      reports entry (word ++ [letter]) rest (position + 1) := by
  simp only [reports, none]

theorem reports_cons_of_some {word rest : List Letter} {letter : Letter} {position : Nat}
    (some : occurrences entry (word ++ [letter]) ≠ []) :
    reports entry word (letter :: rest) position =
      (position + 1, occurrences entry (word ++ [letter])) ::
        reports entry (word ++ [letter]) rest (position + 1) := by
  cases found : occurrences entry (word ++ [letter]) with
  | nil => exact absurd found some
  | cons value values => simp only [reports, found]

theorem reports_append (word first rest : List Letter) (position : Nat) :
    reports entry word (first ++ rest) position =
      reports entry word first position ++
        reports entry (word ++ first) rest (position + first.length) := by
  induction first generalizing word position with
  | nil => simp [reports]
  | cons letter first inductionHypothesis =>
      have later := inductionHypothesis (word ++ [letter]) (position + 1)
      have total : position + 1 + first.length = position + (letter :: first).length := by
        rw [List.length_cons]
        omega
      rw [total, List.append_assoc, List.singleton_append] at later
      rw [List.cons_append]
      by_cases none : occurrences entry (word ++ [letter]) = []
      · rw [reports_cons_of_none none, reports_cons_of_none none, later]
      · rw [reports_cons_of_some none, reports_cons_of_some none, later, List.cons_append]

theorem reports_map {Image : Type*} (image : Entry → Image) (word rest : List Letter)
    (position : Nat) :
    reports (fun part => (entry part).map image) word rest position =
      (reports entry word rest position).map fun report =>
        (report.1, report.2.map image) := by
  induction rest generalizing word position with
  | nil => rfl
  | cons letter rest inductionHypothesis =>
      have later := inductionHypothesis (word ++ [letter]) (position + 1)
      have images : occurrences (fun part => (entry part).map image) (word ++ [letter]) =
          (occurrences entry (word ++ [letter])).map image := occurrences_map image _
      by_cases none : occurrences entry (word ++ [letter]) = []
      · rw [none, List.map_nil] at images
        rw [reports_cons_of_none none, reports_cons_of_none images, later]
      · have some : (occurrences entry (word ++ [letter])).map image ≠ [] :=
          List.map_eq_nil_iff.not.mpr none
        rw [← images] at some
        rw [reports_cons_of_some none, reports_cons_of_some some, List.map_cons, later, images]

theorem reports_shift (word rest : List Letter) (position offset : Nat) :
    reports entry word rest (position + offset) =
      (reports entry word rest position).map fun report => (report.1 + offset, report.2) := by
  induction rest generalizing word position with
  | nil => rfl
  | cons letter rest inductionHypothesis =>
      have later := inductionHypothesis (word ++ [letter]) (position + 1)
      have shift : position + offset + 1 = position + 1 + offset := by omega
      by_cases none : occurrences entry (word ++ [letter]) = []
      · rw [reports_cons_of_none none, reports_cons_of_none none, shift, later]
      · rw [reports_cons_of_some none, reports_cons_of_some none, List.map_cons, shift, later]

theorem of_mem_reports {word rest : List Letter} {position place : Nat} {found : List Entry}
    (membership : (place, found) ∈ reports entry word rest position) :
    position < place ∧ place ≤ position + rest.length ∧ found ≠ [] ∧
      found = occurrences entry (word ++ rest.take (place - position)) := by
  induction rest generalizing word position with
  | nil => simp [reports] at membership
  | cons letter rest inductionHypothesis =>
      have later : (place, found) ∈ reports entry (word ++ [letter]) rest (position + 1) →
          position < place ∧ place ≤ position + (letter :: rest).length ∧ found ≠ [] ∧
            found = occurrences entry (word ++ (letter :: rest).take (place - position)) := by
        intro behind
        obtain ⟨above, below, nonempty, same⟩ := inductionHypothesis behind
        obtain ⟨count, rfl⟩ : ∃ count, place = position + 1 + count :=
          ⟨place - (position + 1), by omega⟩
        have distance : position + 1 + count - position = count + 1 := by omega
        have distance' : position + 1 + count - (position + 1) = count := by omega
        rw [distance'] at same
        refine ⟨by omega, by rw [List.length_cons]; omega, nonempty, ?_⟩
        rw [same, distance, List.take_succ_cons, List.append_assoc]
        rfl
      by_cases none : occurrences entry (word ++ [letter]) = []
      · rw [reports_cons_of_none none] at membership
        exact later membership
      · rw [reports_cons_of_some none] at membership
        rcases List.mem_cons.mp membership with here | behind
        · obtain ⟨rfl, rfl⟩ := Prod.mk.inj here
          refine ⟨Nat.lt_succ_self _, by rw [List.length_cons]; omega, none, ?_⟩
          rw [Nat.add_sub_cancel_left, List.take_succ_cons, List.take_zero]
        · exact later behind

theorem reports_positions (word rest : List Letter) (position : Nat) :
    (reports entry word rest position).map Prod.fst =
      ((List.range rest.length).filter fun count =>
        !(occurrences entry (word ++ rest.take (count + 1))).isEmpty).map (position + · + 1) := by
  induction rest generalizing word position with
  | nil => rfl
  | cons letter rest inductionHypothesis =>
      have later := inductionHypothesis (word ++ [letter]) (position + 1)
      have shift : ∀ count, position + 1 + count + 1 = position + (count + 1) + 1 := by omega
      simp only [List.append_assoc, List.singleton_append, shift] at later
      rw [reports, List.length_cons, List.range_succ_eq_map]
      cases found : occurrences entry (word ++ [letter]) with
      | nil => simp [found, later, List.filter_map, Function.comp_def]
      | cons value values => simp [found, later, List.filter_map, Function.comp_def]

/-- What is reported after the first report is reported to whoever goes on from
there. -/
theorem reports_tail {word rest : List Letter} {position place : Nat} {found : List Entry}
    {later : List (Nat × List Entry)}
    (some : reports entry word rest position = (place, found) :: later) :
    later = reports entry (word ++ rest.take (place - position)) (rest.drop (place - position))
      place := by
  induction rest generalizing word position with
  | nil => simp [reports] at some
  | cons letter rest inductionHypothesis =>
      by_cases none : occurrences entry (word ++ [letter]) = []
      · rw [reports_cons_of_none none] at some
        have above := (of_mem_reports (some ▸ List.mem_cons_self)).1
        obtain ⟨count, rfl⟩ : ∃ count, place = position + 1 + count :=
          ⟨place - (position + 1), by omega⟩
        have distance : position + 1 + count - position = count + 1 := by omega
        have distance' : position + 1 + count - (position + 1) = count := by omega
        have same := inductionHypothesis some
        rw [distance'] at same
        rw [distance, List.take_succ_cons, List.drop_succ_cons, same, List.append_assoc]
        rfl
      · rw [reports_cons_of_some none] at some
        obtain ⟨here, rfl⟩ := List.cons.inj some
        obtain ⟨rfl, _⟩ := Prod.mk.inj here
        simp

theorem reports_eq_nil_iff {word rest : List Letter} {position : Nat} :
    reports entry word rest position = [] ↔
      ∀ front, front ≠ [] → front <+: rest → occurrences entry (word ++ front) = [] := by
  induction rest generalizing word position with
  | nil =>
      simp only [reports, List.prefix_nil, true_iff]
      intro front nonempty empty
      exact absurd empty nonempty
  | cons letter rest inductionHypothesis =>
      by_cases none : occurrences entry (word ++ [letter]) = []
      · rw [reports_cons_of_none none, inductionHypothesis]
        constructor
        · intro later front nonempty inside
          cases front with
          | nil => exact absurd rfl nonempty
          | cons other front =>
              obtain ⟨rfl, within⟩ := List.cons_prefix_cons.mp inside
              cases front with
              | nil => exact none
              | cons next front =>
                  have found := later (next :: front) (by simp) within
                  simpa only [List.append_assoc, List.singleton_append] using found
        · intro all front nonempty inside
          have found := all (letter :: front) (by simp)
            (List.cons_prefix_cons.mpr ⟨rfl, inside⟩)
          simpa only [List.append_assoc, List.singleton_append] using found
      · rw [reports_cons_of_some none]
        simp only [reduceCtorEq, false_iff]
        intro all
        exact none (all [letter] (by simp) (by simp))

theorem reports_first {word rest : List Letter} {position place : Nat} {found : List Entry}
    {later : List (Nat × List Entry)}
    (some : reports entry word rest position = (place, found) :: later) {front : List Letter}
    (nonempty : front ≠ []) (inside : front <+: rest) (before : position + front.length < place) :
    occurrences entry (word ++ front) = [] := by
  induction rest generalizing word position front with
  | nil => simp [reports] at some
  | cons letter rest inductionHypothesis =>
      cases front with
      | nil => exact absurd rfl nonempty
      | cons other front =>
          obtain ⟨rfl, within⟩ := List.cons_prefix_cons.mp inside
          rw [List.length_cons] at before
          by_cases none : occurrences entry (word ++ [other]) = []
          · rw [reports_cons_of_none none] at some
            cases front with
            | nil => exact none
            | cons next front =>
                have absent := inductionHypothesis some (by simp) within (by omega)
                simpa only [List.append_assoc, List.singleton_append] using absent
          · rw [reports_cons_of_some none] at some
            obtain ⟨rfl, _⟩ := Prod.mk.inj (List.cons.inj some).1
            omega

theorem mem_reports {word front : List Letter} {letter : Letter} (back : List Letter)
    (position : Nat) (some : occurrences entry (word ++ front ++ [letter]) ≠ []) :
    (position + front.length + 1, occurrences entry (word ++ front ++ [letter])) ∈
      reports entry word (front ++ letter :: back) position := by
  rw [reports_append, reports_cons_of_some some]
  exact List.mem_append_right _ List.mem_cons_self

theorem exists_mem_reports_iff {text : List Letter} {found : Entry} (empty : entry [] = none) :
    (∃ report ∈ reports entry [] text 0, found ∈ report.2) ↔
      ∃ part, part <:+: text ∧ entry part = some found := by
  constructor
  · rintro ⟨⟨place, all⟩, reported, membership⟩
    obtain ⟨_, _, _, rfl⟩ := of_mem_reports reported
    obtain ⟨part, suffix, present⟩ := mem_occurrences.mp membership
    refine ⟨part, ?_, present⟩
    exact suffix.isInfix.trans (List.take_prefix _ text).isInfix
  · rintro ⟨part, ⟨before, after, same⟩, present⟩
    have nonempty : part ≠ [] := by
      rintro rfl
      simp [empty] at present
    obtain ⟨front, letter, rfl⟩ := (List.eq_nil_or_concat part).resolve_left nonempty
    have membership : found ∈ occurrences entry ([] ++ (before ++ front) ++ [letter]) := by
      rw [List.nil_append, List.append_assoc, ← List.concat_eq_append]
      exact mem_occurrences.mpr ⟨_, List.suffix_append _ _, present⟩
    have reported := mem_reports after 0 (List.ne_nil_of_mem membership)
    have reading : before ++ front ++ letter :: after = text := by
      rw [← same, List.concat_eq_append]
      simp
    rw [reading] at reported
    exact ⟨_, reported, membership⟩

theorem not_infix_of_reports {text : List Letter} (none : reports entry [] text 0 = [])
    {part : List Letter} (nonempty : part ≠ []) (present : (entry part).isSome = true) :
    ¬ part <:+: text := by
  rintro ⟨before, after, same⟩
  have inside : before ++ part <+: text := ⟨after, same⟩
  have absent := reports_eq_nil_iff.mp none (before ++ part) (by simp [nonempty]) inside
  obtain ⟨found, some⟩ := Option.isSome_iff_exists.mp present
  have membership : found ∈ occurrences entry (before ++ part) :=
    mem_occurrences.mpr ⟨part, List.suffix_append _ _, some⟩
  rw [List.nil_append] at absent
  rw [absent] at membership
  exact List.not_mem_nil membership

/-- The first report is of the smallest position behind which an entry ends, and
starts with the longest entry that ends there. -/
theorem reports_head {text : List Letter} {place : Nat} {found : Entry} {more : List Entry}
    {later : List (Nat × List Entry)}
    (some : reports entry [] text 0 = (place, found :: more) :: later) :
    place ≤ text.length ∧ (∃ best, best <:+ text.take place ∧ entry best = Option.some found ∧
        ∀ part, part <:+ text.take place → (entry part).isSome = true → part <:+ best) ∧
      ∀ part position, part ≠ [] → (entry part).isSome = true → position ≤ text.length →
        part <:+ text.take position → place ≤ position := by
  obtain ⟨_, inside, _, here⟩ := of_mem_reports (some ▸ List.mem_cons_self)
  rw [List.nil_append, Nat.sub_zero] at here
  rw [Nat.zero_add] at inside
  refine ⟨inside, occurrences_head here.symm, ?_⟩
  intro part position nonempty present within suffix
  by_contra before
  have length : (text.take position).length = position := by
    rw [List.length_take, Nat.min_eq_left within]
  have reached : text.take position ≠ [] := by
    intro empty
    rw [empty, List.suffix_nil] at suffix
    exact nonempty suffix
  have absent := reports_first some reached (List.take_prefix position text)
    (by rw [Nat.zero_add, length]; exact Nat.lt_of_not_le before)
  obtain ⟨value, isValue⟩ := Option.isSome_iff_exists.mp present
  have membership : value ∈ occurrences entry (text.take position) :=
    mem_occurrences.mpr ⟨part, suffix, isValue⟩
  rw [List.nil_append] at absent
  rw [absent] at membership
  exact List.not_mem_nil membership

theorem reports_cons_ne {word other rest : List Letter} {letter : Letter} {position : Nat}
    (some : occurrences entry (word ++ [letter]) ≠ []) :
    reports entry word (letter :: rest) position ≠ reports entry other rest (position + 1) := by
  intro same
  have first : (position + 1, occurrences entry (word ++ [letter])) ∈
      reports entry other rest (position + 1) := by
    rw [← same, reports_cons_of_some some]
    exact List.mem_cons_self
  exact absurd (of_mem_reports first).1 (Nat.lt_irrefl _)

theorem reports_cons_eq_iff {first second rest : List Letter} {letter : Letter} {position : Nat} :
    reports entry first (letter :: rest) position =
        reports entry second (letter :: rest) position ↔
      occurrences entry (first ++ [letter]) = occurrences entry (second ++ [letter]) ∧
        reports entry (first ++ [letter]) rest (position + 1) =
          reports entry (second ++ [letter]) rest (position + 1) := by
  by_cases firstNone : occurrences entry (first ++ [letter]) = []
  · by_cases secondNone : occurrences entry (second ++ [letter]) = []
    · rw [reports_cons_of_none firstNone, reports_cons_of_none secondNone, firstNone, secondNone]
      simp
    · have different : reports entry (first ++ [letter]) rest (position + 1) ≠
          reports entry second (letter :: rest) position :=
        (reports_cons_ne secondNone).symm
      have nonempty : [] ≠ occurrences entry (second ++ [letter]) := Ne.symm secondNone
      rw [reports_cons_of_none firstNone, firstNone]
      simp [different, nonempty]
  · by_cases secondNone : occurrences entry (second ++ [letter]) = []
    · rw [reports_cons_of_none secondNone, secondNone]
      simp [reports_cons_ne firstNone, firstNone]
    · rw [reports_cons_of_some firstNone, reports_cons_of_some secondNone]
      simp

/-- Two words lead to the same reports exactly when they have the same entries
behind every part of the text. -/
theorem reports_eq_iff {first second rest : List Letter} {position : Nat} :
    reports entry first rest position = reports entry second rest position ↔
      ∀ front, front ≠ [] → front <+: rest →
        occurrences entry (first ++ front) = occurrences entry (second ++ front) := by
  induction rest generalizing first second position with
  | nil =>
      simp only [reports, List.prefix_nil, true_iff]
      intro front nonempty empty
      exact absurd empty nonempty
  | cons letter rest inductionHypothesis =>
      rw [reports_cons_eq_iff, inductionHypothesis]
      constructor
      · rintro ⟨here, later⟩ front nonempty inside
        cases front with
        | nil => exact absurd rfl nonempty
        | cons other front =>
            obtain ⟨rfl, within⟩ := List.cons_prefix_cons.mp inside
            rcases List.eq_nil_or_concat front with rfl | ⟨_, _, rfl⟩
            · exact here
            · have same := later _ (by simp) within
              simpa only [List.append_assoc, List.singleton_append] using same
      · intro all
        refine ⟨all [letter] (by simp) (by simp), ?_⟩
        intro front nonempty inside
        have same := all (letter :: front) (by simp) (List.cons_prefix_cons.mpr ⟨rfl, inside⟩)
        simpa only [List.append_assoc, List.singleton_append] using same

variable {Path : List Letter → Prop} [DecidablePred Path]

theorem reports_longestSuffix (empty : Path [])
    (closed : ∀ front back, Path (front ++ back) → Path front)
    (paths : ∀ word found, entry word = some found → Path word)
    (word rest : List Letter) (position : Nat) :
    reports entry (longestSuffix Path word) rest position = reports entry word rest position := by
  apply reports_eq_iff.mpr
  intro front _ _
  rw [← occurrences_longestSuffix paths, longestSuffix_append empty closed,
    occurrences_longestSuffix paths]

end Reports

end UAFlow.Library
