import UAFlow.AhoCorasick.Finalized

/-!
# The search loop

The loop walks the trie so that the current node always spells the longest
suffix of the text read that is a word of the trie.  A failure transition reads
nothing and reports nothing, so what the callback sees depends on the text read
only.
-/

namespace UAFlow.AhoCorasick

open Library

variable {pool : Pool} {path : Nat → List UInt8} {entry : List UInt8 → Option AcPattern}

/-- The node spells the longest suffix of `word` that is a word of the trie. -/
def Stands (pool : Pool) (path : Nat → List UInt8) (current : Nat) (word : List UInt8) : Prop :=
  current < pool.used ∧ path current = longestSuffix (IsPath pool) word

theorem Stands.root (spelled : Spelled pool path) : Stands pool path root [] :=
  ⟨spelled.rooted, spelled.rootPath⟩

theorem Stands.self (spelled : Spelled pool path) {n : Nat} (inside : n < pool.used) :
    Stands pool path n (path n) :=
  ⟨inside, (longestSuffix_of_path (spelled.isPath_path inside)).symm⟩

/-! ## The search on words -/

structure ScanEnd (User : Type) where
  stopped : Bool
  position : Nat
  word : List UInt8
  user : User

/-- The calls made while `rest` is read after `word`. -/
def scan {User : Type} (entry : List UInt8 → Option AcPattern) (basePosition : Nat)
    (callback : AcMatchCallback User) :
    List UInt8 → List UInt8 → Nat → User → ScanEnd User
  | word, [], position, user => ⟨false, position, word, user⟩
  | word, alpha :: rest, position, user =>
      match occurrences entry (word ++ [alpha]) with
      | [] => scan entry basePosition callback (word ++ [alpha]) rest (position + 1) user
      | found =>
          let (user, answer) := callback ⟨found, position + 1 + basePosition⟩ user
          if answer ≠ 0 then
            ⟨true, position + 1, word ++ [alpha], user⟩
          else
            scan entry basePosition callback (word ++ [alpha]) rest (position + 1) user

/-- The loop returns and comes to the same as the search on words. -/
def ComesTo {User : Type} (pool : Pool) (path : Nat → List UInt8)
    (result : Except Fault (SearchEnd User)) (scanned : ScanEnd User) : Prop :=
  ∃ current, Stands pool path current scanned.word ∧
    result = .ok
      (if scanned.stopped then
        .stopped scanned.position current scanned.user
      else
        .finished scanned.position current scanned.user)

/-- The node is as good as the word for reading what comes next: it has fallen
back no further than necessary. -/
def Ready (pool : Pool) (path : Nat → List UInt8) (current : Nat) (word : List UInt8)
    (next : Option UInt8) : Prop :=
  match next with
  | none => Stands pool path current word
  | some alpha =>
      current < pool.used ∧
        longestSuffix (IsPath pool) (path current ++ [alpha]) =
          longestSuffix (IsPath pool) (word ++ [alpha])

theorem Stands.ready {current : Nat} {word : List UInt8} (stands : Stands pool path current word)
    (next : Option UInt8) : Ready pool path current word next := by
  cases next with
  | none => exact stands
  | some alpha =>
      refine ⟨stands.1, ?_⟩
      rw [stands.2, longestSuffix_append (isPath_empty pool) (isPath_closed pool)]

/-! ## One letter -/

theorem Ready.stuck_root (finalized : Finalized pool path entry) {word : List UInt8} {alpha : UInt8}
    (ready : Ready pool path root word (some alpha)) (stuck : ¬ IsPath pool (path root ++ [alpha])) :
    Stands pool path root (word ++ [alpha]) ∧ occurrences entry (word ++ [alpha]) = [] := by
  obtain ⟨inside, same⟩ := ready
  rw [finalized.spelled.rootPath, List.nil_append] at stuck same
  have lost : longestSuffix (IsPath pool) (word ++ [alpha]) = [] := by
    rw [← same]
    exact longestSuffix_stuck (isPath_empty pool) stuck
  constructor
  · exact ⟨inside, by rw [finalized.spelled.rootPath, lost]⟩
  · rw [← occurrences_longestSuffix finalized.collecting.known, lost, occurrences,
      finalized.collecting.kept.empty]
    rfl

/-- Elsewhere the failure node is as ready for the letter, and nearer to the root. -/
theorem Ready.failure (finalized : Finalized pool path entry) {current : Nat} {word : List UInt8}
    {alpha : UInt8} (ready : Ready pool path current word (some alpha)) (notRoot : current ≠ root)
    (stuck : ¬ IsPath pool (path current ++ [alpha])) :
    ∃ failure, (pool.node current).failureNode = some failure ∧
      (path failure).length < (path current).length ∧
      Ready pool path failure word (some alpha) := by
  obtain ⟨inside, same⟩ := ready
  obtain ⟨failure, ⟨failureInside, fallen⟩, set⟩ :=
    finalized.collecting.failure current inside notRoot
  have nonempty := (finalized.spelled.path_eq_nil_iff inside).not.mpr notRoot
  refine ⟨failure, set, ?_, failureInside, ?_⟩
  · have bound := (longestSuffix_suffix (IsPath pool) (path current).tail).length_le
    have positive := List.length_pos_iff.mpr nonempty
    rw [List.length_tail] at bound
    rw [fallen]
    omega
  · rw [fallen, longestSuffix_fall (isPath_empty pool) (isPath_closed pool) nonempty stuck, same]

theorem Ready.next (spelled : Spelled pool path) {current next : Nat} {word : List UInt8}
    {alpha : UInt8} (ready : Ready pool path current word (some alpha))
    (found : nodeFindNext pool current alpha = some next) :
    Stands pool path next (word ++ [alpha]) ∧ path next = path current ++ [alpha] := by
  obtain ⟨inside, same⟩ := ready
  obtain ⟨nextInside, nextPath⟩ := (spelled.nodeFindNext_eq_some_iff inside).mp found
  refine ⟨⟨nextInside, ?_⟩, nextPath⟩
  rw [← same, ← nextPath, longestSuffix_of_path (spelled.isPath_path nextInside)]

/-! ## The loop -/

theorem searchLoop_comesTo (finalized : Finalized pool path entry) {User : Type}
    (text : List UInt8) (basePosition : Nat) (callback : AcMatchCallback User) (fuel : Nat)
    {position current : Nat} {word rest : List UInt8} (user : User)
    (reading : text.drop position = rest) (ready : Ready pool path current word rest.head?)
    (enough : 2 * rest.length + (path current).length < fuel) :
    ComesTo pool path (searchLoop pool text basePosition callback fuel position current user)
      (scan entry basePosition callback word rest position user) := by
  have spelled := finalized.spelled
  induction fuel generalizing position current word rest user with
  | zero => exact absurd enough (Nat.not_lt_zero _)
  | succ fuel inductionHypothesis =>
      have letter : text[position]? = rest.head? := by
        rw [← reading, List.head?_drop]
      rw [searchLoop, letter]
      cases rest with
      | nil => exact ⟨current, ready, rfl⟩
      | cons alpha rest =>
          have inside := ready.1
          have further : text.drop (position + 1) = rest := by
            rw [← List.drop_drop, reading]
            rfl
          simp only [List.head?_cons, finalized.findNextBs inside, List.length_cons] at enough ⊢
          cases found : nodeFindNext pool current alpha with
          | none =>
              have stuck := (spelled.nodeFindNext_eq_none_iff inside).mp found
              by_cases isRoot : current = root
              · subst isRoot
                obtain ⟨stands, silent⟩ := ready.stuck_root finalized stuck
                simp only [finalized.collecting.rootFailure, scan, silent]
                exact inductionHypothesis user further (stands.ready _) (by omega)
              · obtain ⟨failure, set, shorter, readyFailure⟩ := ready.failure finalized isRoot stuck
                simp only [set]
                apply inductionHypothesis user reading readyFailure
                rw [List.length_cons]
                omega
          | some next =>
              obtain ⟨stands, nextPath⟩ := ready.next spelled found
              have entries : occurrences entry (path next) = occurrences entry (word ++ [alpha]) := by
                rw [stands.2, occurrences_longestSuffix finalized.collecting.known]
              have room : 2 * rest.length + (path next).length < fuel := by
                rw [nextPath, List.length_append, List.length_singleton]
                omega
              simp only [finalized.final stands.1, finalized.matched stands.1, entries, scan]
              cases some : occurrences entry (word ++ [alpha]) with
              | nil => exact inductionHypothesis user further (stands.ready _) room
              | cons patt more =>
                  simp only [List.isEmpty_cons, Bool.not_false, if_true]
                  split
                  next => exact ⟨next, stands, rfl⟩
                  next => exact inductionHypothesis _ further (stands.ready _) room

end UAFlow.AhoCorasick
