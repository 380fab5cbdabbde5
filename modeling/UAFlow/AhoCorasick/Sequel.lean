import UAFlow.AhoCorasick.Adding
import UAFlow.AhoCorasick.Uses

/-!
# What a search remembers

`ac_trie_search` reads `last_node` before it resets the trie, so a text that is
no sequel is still searched as if it followed what was searched before.
-/

namespace UAFlow.AhoCorasick

open Library

variable {path : Nat → List UInt8} {entry : List UInt8 → Option AcPattern}

def record : AcMatchCallback (List AcMatch) := fun found seen => (seen ++ [found], 0)

def callsMade (thiz : AcTrie) (text : List UInt8) : Except Fault (List AcMatch) :=
  match acTrieSearch thiz text false record [] with
  | .error fault => .error fault
  | .ok (_, seen, _) => .ok seen

/-- No accepted pattern begins in the word of the last node and ends in the
text. -/
def Uncrossed {adds : List (AcPattern × Bool)} (used : Searched adds) (text : List UInt8) : Prop :=
  ∃ word, follow used.state.pool root word = some used.state.lastNode ∧
    ∀ patt ∈ acceptedPatterns acTrieCreate adds, ∀ front back, patt.ptext = front ++ back →
      front ≠ [] → back ≠ [] → front <:+ word → ¬ back <+: text

/-! ## Searching to the end -/

theorem scan_continuing {User : Type} (basePosition : Nat) {callback : AcMatchCallback User}
    (continues : ∀ found user, (callback found user).2 = 0) (word rest : List UInt8)
    (position : Nat) (user : User) :
    scan entry basePosition callback word rest position user =
      ⟨false, position + rest.length, word ++ rest,
        (reports entry word rest position).foldl
          (fun user report => (callback ⟨report.2, report.1 + basePosition⟩ user).1) user⟩ := by
  induction rest generalizing word position user with
  | nil => simp [scan, reports]
  | cons alpha rest inductionHypothesis =>
      have total : position + 1 + rest.length = position + (alpha :: rest).length := by
        rw [List.length_cons]
        omega
      have together : word ++ [alpha] ++ rest = word ++ alpha :: rest := by simp
      by_cases none : occurrences entry (word ++ [alpha]) = []
      · rw [reports_cons_of_none none, ← total, ← together]
        simp only [scan, none, inductionHypothesis]
      · rw [reports_cons_of_some none, ← total, ← together]
        obtain ⟨patt, more, found⟩ := List.exists_cons_of_ne_nil none
        simp only [scan, found, continues, ne_eq, not_true_eq_false, if_false,
          inductionHypothesis, List.foldl_cons]

theorem foldl_record (basePosition : Nat) (all : List (Nat × List AcPattern))
    (seen : List AcMatch) :
    all.foldl (fun seen report => (record ⟨report.2, report.1 + basePosition⟩ seen).1) seen =
      seen ++ all.map fun report => ⟨report.2, report.1 + basePosition⟩ := by
  induction all generalizing seen with
  | nil => simp
  | cons report all inductionHypothesis =>
      rw [List.foldl_cons, inductionHypothesis, record, List.map_cons, List.append_assoc]
      rfl

/-- The calls a search makes are the reports read on from the word of the last
node. -/
theorem callsMade_eq {thiz : AcTrie} (searchable : Searchable thiz path entry)
    (between : thiz.wm = .search) (text : List UInt8) :
    callsMade thiz text =
      .ok ((reports entry (path thiz.lastNode) text 0).map fun report =>
        ⟨report.2, report.1⟩) := by
  obtain ⟨current, _, returned⟩ := acTrieSearch_eq searchable.finalized searchable.closed
    searchable.inside text false record [] rfl rfl rfl
  have start : (if thiz.wm = .findnext then thiz.position else 0) = 0 := by simp [between]
  rw [start, scan_continuing _ (fun _ _ => rfl), foldl_record] at returned
  simp only [callsMade, returned, searched]
  rfl

theorem map_report_inj {first second : List (Nat × List AcPattern)} :
    (first.map fun report => (⟨report.2, report.1⟩ : AcMatch)) =
        second.map (fun report => ⟨report.2, report.1⟩) ↔ first = second := by
  apply (List.map_injective_iff.mpr _).eq_iff
  rintro ⟨place, found⟩ ⟨otherPlace, otherFound⟩ same
  obtain ⟨rfl, rfl⟩ := AcMatch.mk.inj same
  rfl

/-- After any history, a search of a text that is no sequel makes the calls it
would make on the fresh trie exactly when no pattern reaches from the word of
the last node into the text. -/
theorem search_forgets_iff_uncrossed {adds : List (AcPattern × Bool)} (used : Searched adds)
    (text : List UInt8) :
    callsMade used.state text = callsMade used.fresh text ↔ Uncrossed used text := by
  obtain ⟨path, fresh, searchable, atRoot, between, freshBetween, samePool⟩ := used.searchable
  have spelled := searchable.finalized.spelled
  rw [callsMade_eq searchable between, callsMade_eq fresh freshBetween, atRoot,
    fresh.finalized.spelled.rootPath, Except.ok.injEq, map_report_inj, reports_eq_iff]
  have lastWord : ∀ word, follow used.state.pool root word = some used.state.lastNode ↔
      path used.state.lastNode = word := by
    intro word
    rw [spelled.follow_root_iff]
    exact and_iff_right searchable.inside
  simp only [List.nil_append, occurrences_append_eq_iff, Uncrossed, lastWord, exists_eq_left']
  constructor
  · intro forgets patt accepted front back same frontNonempty backNonempty suffix inside
    have absent := forgets back backNonempty inside front frontNonempty suffix
    have present := (dictionary_isSome_iff adds patt.ptext).mpr ⟨patt, accepted, rfl⟩
    rw [same, absent] at present
    simp at present
  · intro uncrossed back backNonempty inside front frontNonempty suffix
    by_contra present
    obtain ⟨patt, accepted, same⟩ := (dictionary_isSome_iff adds (front ++ back)).mp
      (Option.isSome_iff_ne_none.mpr present)
    exact uncrossed patt accepted front back same frontNonempty backNonempty suffix inside

def patternAb : AcPattern := ⟨[97, 98], none, .number 1, 0, 0, []⟩

/-- After a search of `a`, a search of `b` reports the pattern `ab`. -/
theorem search_remembers :
    ¬ ∀ (used : Searched [(patternAb, false)]) (text : List UInt8),
        callsMade used.state text = callsMade used.fresh text := by
  intro forgets
  obtain ⟨fresh, path, finalizes, searchable, lastNode, basePosition, between⟩ :=
    exists_finalized [(patternAb, false)]
  obtain ⟨current, stands, returned⟩ := acTrieSearch_eq searchable.finalized searchable.closed
    searchable.inside [97] false record [] rfl rfl rfl
  have start : (if fresh.wm = .findnext then fresh.position else 0) = 0 := by simp [between]
  have empty : path root = [] := searchable.finalized.spelled.rootPath
  rw [start, scan_continuing _ (fun _ _ => rfl), lastNode, empty] at stands returned
  have later := searchable.search returned
  have same := forgets
    ⟨fresh, finalizes, [.search [97] false record []], _, _, ⟨_, _, returned⟩, rfl⟩ [98]
  rw [callsMade_eq searchable between, callsMade_eq later.1 (later.2.wm.trans between),
    Except.ok.injEq, map_report_inj, lastNode, empty] at same
  have word : path current = longestSuffix (IsPath fresh.pool) [97] := stands.2
  dsimp only at same
  rw [word, reports_longestSuffix (isPath_empty fresh.pool) (isPath_closed fresh.pool)
    searchable.finalized.collecting.known] at same
  exact absurd same (by decide)

end UAFlow.AhoCorasick
