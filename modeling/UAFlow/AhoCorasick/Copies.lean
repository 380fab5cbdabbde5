import UAFlow.AhoCorasick.Matches
import UAFlow.AhoCorasick.Sequel

/-!
# Copied patterns

A trie that copies its patterns has the same nodes as one that keeps what it is
given, and reports at the same places.  The copy of a text is made by
`mpool_strndup`, which takes it for a string: behind a zero byte only zeros are left.
-/

namespace UAFlow.AhoCorasick

open Library

/-- What the reader of a match can tell of a pattern. -/
structure AlikePattern (first second : AcPattern) : Prop where
  ptext : first.ptext = second.ptext
  id : first.id = second.id
  idx : first.idx = second.idx
  itemid : first.itemid = second.itemid
  nameLength : first.name.length = second.name.length

structure AlikeMatch (first second : AcMatch) : Prop where
  position : first.position = second.position
  patterns : List.Forall₂ AlikePattern first.patterns second.patterns

/-- Searches of the text report alike whether the patterns were copied or not. -/
def BehaveAlike (patts : List AcPattern) (text : List UInt8) : Prop :=
  ∃ copying keeping copied kept,
    acTrieFinalize (acTrieAddAll acTrieCreate (patts.map (·, true))) = .ok copying ∧
    acTrieFinalize (acTrieAddAll acTrieCreate (patts.map (·, false))) = .ok keeping ∧
    callsMade copying text = .ok copied ∧ callsMade keeping text = .ok kept ∧
    List.Forall₂ AlikeMatch copied kept

/-- No byte other than zero is behind a zero byte. -/
def ZerosLast (str : List UInt8) : Prop := str.Pairwise fun before after => before = 0 → after = 0

instance : DecidablePred ZerosLast :=
  fun str => inferInstanceAs (Decidable (str.Pairwise fun before after => before = 0 → after = 0))

/-! ## One copy -/

theorem mpoolStrndup_zero (str : List UInt8) :
    mpoolStrndup (0 :: str) = 0 :: List.replicate str.length 0 := by
  simp [mpoolStrndup, List.replicate_succ]

theorem mpoolStrndup_cons {char : UInt8} (letter : char ≠ 0) (str : List UInt8) :
    mpoolStrndup (char :: str) = char :: mpoolStrndup str := by
  simp [mpoolStrndup, letter]

/-- The copy of a text is the text itself exactly when its zero bytes come last. -/
theorem mpoolStrndup_eq_self_iff (str : List UInt8) :
    mpoolStrndup str = str ↔ ZerosLast str := by
  induction str with
  | nil => exact iff_of_true rfl List.Pairwise.nil
  | cons char str inductionHypothesis =>
      by_cases zero : char = 0
      · subst zero
        rw [mpoolStrndup_zero, List.cons_inj_right, ZerosLast, List.pairwise_cons]
        constructor
        · intro same
          rw [← same]
          exact ⟨fun _ membership _ => List.eq_of_mem_replicate membership,
            List.pairwise_replicate.mpr (Or.inr fun zero => zero)⟩
        · rintro ⟨zeros, _⟩
          exact (List.eq_replicate_iff.mpr ⟨rfl, fun char inside => zeros char inside rfl⟩).symm
      · rw [mpoolStrndup_cons zero, List.cons_inj_right, inductionHypothesis, ZerosLast,
          ZerosLast, List.pairwise_cons]
        exact (and_iff_right fun _ _ isZero => absurd isZero zero).symm

theorem alikePattern_copy_iff (patt : AcPattern) :
    AlikePattern (nodeCopyPattern patt) patt ↔ ZerosLast patt.ptext := by
  rw [← mpoolStrndup_eq_self_iff]
  constructor
  · exact fun alike => alike.ptext
  · exact fun same => ⟨same, rfl, rfl, rfl, length_mpoolStrndup patt.name⟩

/-! ## The reports of both tries -/

/-- What is kept for a word is the copy of what is kept otherwise. -/
theorem dictionary_copying (patts : List AcPattern) :
    dictionary (patts.map (·, true)) =
      fun word => (dictionary (patts.map (·, false)) word).map nodeCopyPattern := by
  funext word
  by_cases allowed : word ≠ [] ∧ word.length ≤ acPattrnMaxLength
  · obtain ⟨nonempty, short⟩ := allowed
    rw [dictionary_eq_find _ nonempty short, dictionary_eq_find _ nonempty short,
      List.find?_map, List.find?_map, Option.map_map, Option.map_map, Option.map_map]
    rfl
  · have absent : ∀ adds, dictionary adds word = none := by
      intro adds
      apply Option.eq_none_iff_forall_not_mem.mpr
      intro found present
      exact allowed (dictionary_length (Option.isSome_of_mem present))
    rw [absent, absent]
    rfl

theorem forall₂_alike_copies_iff (all : List (Nat × List AcPattern)) :
    List.Forall₂ AlikeMatch
        ((all.map fun report => (report.1, report.2.map nodeCopyPattern)).map fun report =>
          ⟨report.2, report.1⟩)
        (all.map fun report => ⟨report.2, report.1⟩) ↔
      ∀ report ∈ all, ∀ patt ∈ report.2, ZerosLast patt.ptext := by
  rw [List.map_map, List.forall₂_map_left_iff, List.forall₂_map_right_iff, List.forall₂_same]
  apply forall₂_congr
  intro report _
  have patterns : List.Forall₂ AlikePattern (report.2.map nodeCopyPattern) report.2 ↔
      ∀ patt ∈ report.2, ZerosLast patt.ptext := by
    rw [List.forall₂_map_left_iff, List.forall₂_same]
    exact forall₂_congr fun patt _ => alikePattern_copy_iff patt
  rw [← patterns]
  exact ⟨fun alike => alike.patterns, fun alike => ⟨rfl, alike⟩⟩

theorem behaveAlike_iff_reported (patts : List AcPattern) (text : List UInt8) :
    BehaveAlike patts text ↔
      ∀ report ∈ reports (dictionary (patts.map (·, false))) [] text 0,
        ∀ patt ∈ report.2, ZerosLast patt.ptext := by
  obtain ⟨copying, copyPath, finishedCopying, searchableCopying, atRoot, _, between⟩ :=
    exists_finalized (patts.map (·, true))
  obtain ⟨keeping, keepPath, finishedKeeping, searchableKeeping, keptAtRoot, _, keptBetween⟩ :=
    exists_finalized (patts.map (·, false))
  have copied := callsMade_eq searchableCopying between text
  have kept := callsMade_eq searchableKeeping keptBetween text
  rw [atRoot, searchableCopying.finalized.spelled.rootPath, dictionary_copying, reports_map]
    at copied
  rw [keptAtRoot, searchableKeeping.finalized.spelled.rootPath] at kept
  rw [← forall₂_alike_copies_iff]
  unfold BehaveAlike
  rw [finishedCopying, finishedKeeping]
  constructor
  · rintro ⟨_, _, _, _, ⟨⟩, ⟨⟩, madeCopying, madeKeeping, same⟩
    rw [copied] at madeCopying
    rw [kept] at madeKeeping
    obtain rfl := Except.ok.inj madeCopying
    obtain rfl := Except.ok.inj madeKeeping
    exact same
  · intro same
    exact ⟨_, _, _, _, rfl, rfl, copied, kept, same⟩

/-! ## Which patterns are reported -/

theorem exists_accepted_iff (patts : List AcPattern) (word : List UInt8) :
    (∃ patt ∈ acceptedOf patts, patt.ptext = word) ↔
      ∃ patt ∈ patts, 1 ≤ patt.ptext.length ∧ patt.ptext.length ≤ acPattrnMaxLength ∧
        patt.ptext = word := by
  rw [acceptedOf, ← dictionary_isSome_iff]
  constructor
  · intro present
    obtain ⟨nonempty, short⟩ := dictionary_length present
    rw [dictionary_eq_find _ nonempty short, Option.isSome_map, List.find?_isSome] at present
    obtain ⟨_, added, same⟩ := present
    obtain ⟨patt, membership, rfl⟩ := List.mem_map.mp added
    obtain rfl := of_decide_eq_true same
    exact ⟨patt, membership, List.length_pos_iff.mpr nonempty, short, rfl⟩
  · rintro ⟨patt, membership, positive, short, rfl⟩
    rw [dictionary_eq_find _ (List.length_pos_iff.mp positive) short, Option.isSome_map,
      List.find?_isSome]
    exact ⟨(patt, false), List.mem_map_of_mem membership, decide_eq_true rfl⟩

theorem exists_reported_iff (patts : List AcPattern) (text : List UInt8) (patt : AcPattern) :
    (∃ report ∈ reports (dictionary (patts.map (·, false))) [] text 0, patt ∈ report.2) ↔
      patt ∈ acceptedOf patts ∧ patt.ptext <:+: text := by
  rw [exists_mem_reports_iff (wellKept_dictionary _).empty]
  simp only [dictionary_eq_some_iff]
  constructor
  · rintro ⟨_, inside, accepted, rfl⟩
    exact ⟨accepted, inside⟩
  · rintro ⟨accepted, inside⟩
    exact ⟨patt.ptext, inside, accepted, rfl⟩

/-- For all patterns and texts, copying makes no difference exactly when no pattern
that is found in the text has another byte behind a zero byte. -/
theorem behaveAlike_iff_zerosLast (patts : List AcPattern) (text : List UInt8) :
    BehaveAlike patts text ↔
      ∀ patt ∈ patts, 1 ≤ patt.ptext.length → patt.ptext.length ≤ acPattrnMaxLength →
        patt.ptext <:+: text → ZerosLast patt.ptext := by
  rw [behaveAlike_iff_reported]
  constructor
  · intro zeros patt membership positive short inside
    obtain ⟨accepted, isAccepted, same⟩ :=
      (exists_accepted_iff patts patt.ptext).mpr ⟨patt, membership, positive, short, rfl⟩
    rw [← same] at inside ⊢
    obtain ⟨report, reported, found⟩ :=
      (exists_reported_iff patts text accepted).mpr ⟨isAccepted, inside⟩
    exact zeros report reported accepted found
  · intro zeros report reported accepted found
    obtain ⟨isAccepted, inside⟩ :=
      (exists_reported_iff patts text accepted).mp ⟨report, reported, found⟩
    obtain ⟨patt, membership, positive, short, same⟩ :=
      (exists_accepted_iff patts accepted.ptext).mp ⟨accepted, isAccepted, rfl⟩
    rw [← same] at inside ⊢
    exact zeros patt membership positive short inside

def patternAZeroB : AcPattern := ⟨[97, 0, 98], none, .number 1, 0, 0, []⟩

/-- Copying turns `a`, zero, `b` into `a`, zero, zero. -/
theorem copying_changes_text :
    ¬ ∀ (patts : List AcPattern) (text : List UInt8), BehaveAlike patts text := by
  intro behaves
  have zeros := (behaveAlike_iff_reported _ _).mp (behaves [patternAZeroB] [97, 0, 98])
  exact absurd zeros (by decide)

end UAFlow.AhoCorasick
