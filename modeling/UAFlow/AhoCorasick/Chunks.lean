import UAFlow.AhoCorasick.Sequel

/-!
# Texts in pieces

A search that is not stopped leaves the node that spells the longest suffix read
so far, and the number of letters read.  That is all the search of a sequel
needs, so a text may be searched piece by piece wherever it is cut.
-/

namespace UAFlow.AhoCorasick

open Library

variable {path : Nat → List UInt8} {entry : List UInt8 → Option AcPattern} {User : Type}

def continuing (tell : AcMatch → User → User) : AcMatchCallback User :=
  fun found user => (tell found user, 0)

/-- What the user's data has become after these reports. -/
def told (tell : AcMatch → User → User) (basePosition : Nat)
    (all : List (Nat × List AcPattern)) (user : User) : User :=
  all.foldl (fun user report => tell ⟨report.2, report.1 + basePosition⟩ user) user

theorem told_append (tell : AcMatch → User → User) (basePosition : Nat)
    (first second : List (Nat × List AcPattern)) (user : User) :
    told tell basePosition (first ++ second) user =
      told tell basePosition second (told tell basePosition first user) :=
  List.foldl_append

theorem told_shift (tell : AcMatch → User → User) (basePosition offset : Nat)
    (all : List (Nat × List AcPattern)) (user : User) :
    told tell basePosition (all.map fun report => (report.1 + offset, report.2)) user =
      told tell (basePosition + offset) all user := by
  simp only [told, List.foldl_map, Nat.add_assoc, Nat.add_comm basePosition]

def searchChunks (callback : AcMatchCallback User) :
    AcTrie → Bool → User → List (List UInt8) → Except Fault (AcTrie × User)
  | thiz, _, user, [] => .ok (thiz, user)
  | thiz, keep, user, chunk :: chunks =>
      match acTrieSearch thiz chunk keep callback user with
      | .error fault => .error fault
      | .ok (thiz, user, _) => searchChunks callback thiz true user chunks

namespace Searchable

variable {thiz : AcTrie}

theorem search_through (searchable : Searchable thiz path entry) (between : thiz.wm = .search)
    (text : List UInt8) (keep : Bool) (tell : AcMatch → User → User) (user : User)
    {start : AcTrie} (starts : start = if keep then thiz else acTrieReset thiz) :
    ∃ current, Stands thiz.pool path current (path thiz.lastNode ++ text) ∧
      acTrieSearch thiz text keep (continuing tell) user =
        .ok ({ start with
            lastNode := current
            basePosition := start.basePosition + text.length },
          told tell start.basePosition (reports entry (path thiz.lastNode) text 0) user, 0) := by
  have begins : 0 = if thiz.wm = .findnext then thiz.position else 0 := by simp [between]
  obtain ⟨current, stands, returned⟩ := acTrieSearch_eq searchable.finalized searchable.closed
    searchable.inside text keep (continuing tell) user starts begins rfl
  rw [List.drop_zero, scan_continuing _ (fun _ _ => rfl)] at stands returned
  refine ⟨current, stands, ?_⟩
  rw [returned, searched, Nat.zero_add]
  rfl

theorem search_append (searchable : Searchable thiz path entry) (between : thiz.wm = .search)
    (first second : List UInt8) (keep : Bool) (tell : AcMatch → User → User) (user : User) :
    ∃ middle userMiddle,
      acTrieSearch thiz first keep (continuing tell) user = .ok (middle, userMiddle, 0) ∧
        Searchable middle path entry ∧ middle.wm = .search ∧
        acTrieSearch middle second true (continuing tell) userMiddle =
          acTrieSearch thiz (first ++ second) keep (continuing tell) user := by
  have spelled := searchable.finalized.spelled
  have empty := isPath_empty thiz.pool
  have closed := isPath_closed thiz.pool
  obtain ⟨start, starts⟩ : ∃ start, start = if keep then thiz else acTrieReset thiz := ⟨_, rfl⟩
  obtain ⟨cut, standsCut, returnedFirst⟩ :=
    searchable.search_through between first keep tell user starts
  obtain ⟨whole, standsWhole, returnedWhole⟩ :=
    searchable.search_through between (first ++ second) keep tell user starts
  obtain ⟨middle, isMiddle⟩ : ∃ middle, middle = { start with
      lastNode := cut
      basePosition := start.basePosition + first.length } := ⟨_, rfl⟩
  rw [← isMiddle] at returnedFirst
  obtain ⟨searchableMiddle, same⟩ := searchable.search returnedFirst
  have betweenMiddle := same.wm.trans between
  refine ⟨middle, _, returnedFirst, searchableMiddle, betweenMiddle, ?_⟩
  obtain ⟨last, standsLast, returnedSecond⟩ := searchableMiddle.search_through betweenMiddle
    second true tell (told tell start.basePosition (reports entry (path thiz.lastNode) first 0) user)
    (if_pos rfl).symm
  have atCut : middle.lastNode = cut := by rw [isMiddle]
  have base : middle.basePosition = start.basePosition + first.length := by rw [isMiddle]
  rw [same.pool, atCut] at standsLast
  rw [returnedSecond, returnedWhole, atCut, base]
  have node : last = whole := by
    apply spelled.path_inj standsLast.1 standsWhole.1
    rw [standsLast.2, standsWhole.2, standsCut.2, longestSuffix_append empty closed,
      List.append_assoc]
  have forgotten := reports_longestSuffix empty closed searchable.finalized.collecting.known
    (path thiz.lastNode ++ first) second 0
  rw [← standsCut.2] at forgotten
  have reported : told tell start.basePosition
        (reports entry (path thiz.lastNode) (first ++ second) 0) user =
      told tell (start.basePosition + first.length) (reports entry (path cut) second 0)
        (told tell start.basePosition (reports entry (path thiz.lastNode) first 0) user) := by
    rw [reports_append, reports_shift, told_append, told_shift, forgotten]
  rw [node, reported, List.length_append, ← Nat.add_assoc, isMiddle]

theorem search_flatten (searchable : Searchable thiz path entry) (between : thiz.wm = .search)
    (first : List UInt8) (rest : List (List UInt8)) (keep : Bool) (tell : AcMatch → User → User)
    (user : User) :
    ∃ after userAfter,
      acTrieSearch thiz (first :: rest).flatten keep (continuing tell) user =
          .ok (after, userAfter, 0) ∧
        searchChunks (continuing tell) thiz keep user (first :: rest) = .ok (after, userAfter) := by
  induction rest generalizing thiz first keep user with
  | nil =>
      obtain ⟨current, _, returned⟩ := searchable.search_through between first keep tell user rfl
      rw [List.flatten_singleton]
      exact ⟨_, _, returned, by simp only [searchChunks, returned]⟩
  | cons second rest inductionHypothesis =>
      obtain ⟨middle, userMiddle, returned, searchableMiddle, betweenMiddle, together⟩ :=
        searchable.search_append between first (second :: rest).flatten keep tell user
      obtain ⟨after, userAfter, whole, pieces⟩ :=
        inductionHypothesis searchableMiddle betweenMiddle second true userMiddle
      refine ⟨after, userAfter, ?_, ?_⟩
      · rw [List.flatten_cons, ← together, whole]
      · rw [searchChunks, returned]
        exact pieces

end Searchable

/-- From every state of a finalized trie, searching a text chunk by chunk tells
the callback what one search of the text tells it, and leaves the same trie. -/
theorem search_chunks {adds : List (AcPattern × Bool)} (used : Searched adds)
    (tell : AcMatch → User → User) (user : User) (first : List UInt8)
    (rest : List (List UInt8)) :
    ∃ after userAfter,
      acTrieSearch used.state (first :: rest).flatten false (continuing tell) user =
          .ok (after, userAfter, 0) ∧
        searchChunks (continuing tell) used.state false user (first :: rest) =
          .ok (after, userAfter) ∧
        after.basePosition = (first :: rest).flatten.length := by
  obtain ⟨path, _, searchable, _, between, _⟩ := used.searchable
  obtain ⟨after, userAfter, whole, pieces⟩ :=
    searchable.search_flatten between first rest false tell user
  obtain ⟨current, _, returned⟩ := searchable.search_through between (first :: rest).flatten false
    tell user rfl
  rw [whole] at returned
  obtain ⟨rfl, _⟩ := Prod.mk.inj (Except.ok.inj returned)
  exact ⟨_, userAfter, whole, pieces, Nat.zero_add _⟩

end UAFlow.AhoCorasick
