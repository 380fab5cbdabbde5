import Mathlib.Data.List.Basic
import Mathlib.Data.List.Nodup
import Mathlib.Logic.Function.Basic

/-!
Circular doubly linked lists threaded through two pointer maps.

`Path next start cells stop` says that following `next` from `start` visits
`cells` in order and arrives at `stop`.  A `Ring` is a path from the head back
to the head on which `prev` undoes `next`.  The lemmas describe what the two
writes of an insertion before the head do to a path and to a ring, both for a
cell from outside and for a cell that is still linked.
-/

namespace UAFlow.Library

universe u

variable {Cell : Type u}

def Path (next : Cell → Cell) : Cell → List Cell → Cell → Prop
  | start, [], stop => start = stop
  | start, cell :: cells, stop => start = cell ∧ Path next (next cell) cells stop

namespace Path

variable {next : Cell → Cell}

instance decidable [DecidableEq Cell] :
    (start : Cell) → (cells : List Cell) → (stop : Cell) →
      Decidable (Path next start cells stop)
  | start, [], stop => inferInstanceAs (Decidable (start = stop))
  | start, cell :: cells, stop =>
      letI := decidable (next cell) cells stop
      inferInstanceAs (Decidable (start = cell ∧ Path next (next cell) cells stop))

theorem append_iff (start stop : Cell) (first second : List Cell) :
    Path next start (first ++ second) stop ↔
      ∃ middle, Path next start first middle ∧ Path next middle second stop := by
  induction first generalizing start with
  | nil => simp [Path]
  | cons cell cells inductionHypothesis =>
      simp only [List.cons_append, Path, inductionHypothesis]
      constructor
      · rintro ⟨same, middle, first, second⟩
        exact ⟨middle, ⟨same, first⟩, second⟩
      · rintro ⟨middle, ⟨same, first⟩, second⟩
        exact ⟨same, middle, first, second⟩

theorem congr {other : Cell → Cell} {start stop : Cell} {cells : List Cell}
    (agree : ∀ cell ∈ cells, other cell = next cell)
    (path : Path next start cells stop) :
    Path other start cells stop := by
  induction cells generalizing start with
  | nil => exact path
  | cons cell cells inductionHypothesis =>
      refine ⟨path.1, ?_⟩
      rw [agree cell (by simp)]
      exact inductionHypothesis (fun visited membership =>
        agree visited (List.mem_cons_of_mem cell membership)) path.2

theorem unique {start stop : Cell} {left right : List Cell}
    (leftPath : Path next start left stop) (rightPath : Path next start right stop)
    (leftAvoids : stop ∉ left) (rightAvoids : stop ∉ right) :
    left = right := by
  induction left generalizing start right with
  | nil =>
      cases right with
      | nil => rfl
      | cons cell cells =>
          have stopped : stop = cell := leftPath.symm.trans rightPath.1
          exact absurd (by simp [stopped]) rightAvoids
  | cons cell cells inductionHypothesis =>
      cases right with
      | nil =>
          have stopped : stop = cell := rightPath.symm.trans leftPath.1
          exact absurd (by simp [stopped]) leftAvoids
      | cons other others =>
          have same : cell = other := leftPath.1.symm.trans rightPath.1
          subst same
          rw [inductionHypothesis leftPath.2 rightPath.2
            (fun membership => leftAvoids (List.mem_cons_of_mem cell membership))
            (fun membership => rightAvoids (List.mem_cons_of_mem cell membership))]

theorem next_last {head stop : Cell} {cells : List Cell}
    (path : Path next (next head) cells stop) :
    next ((head :: cells).getLast (by simp)) = stop := by
  induction cells generalizing head with
  | nil => exact path
  | cons cell cells inductionHypothesis =>
      rw [List.getLast_cons (by simp)]
      exact inductionHypothesis path.2

theorem next_mem {head stop cell : Cell} {cells : List Cell}
    (path : Path next (next head) cells stop)
    (membership : cell ∈ head :: cells) :
    next cell ∈ cells ∨ next cell = stop := by
  induction cells generalizing head with
  | nil =>
      rw [List.mem_singleton.mp membership]
      exact .inr path
  | cons first cells inductionHypothesis =>
      rcases List.mem_cons.mp membership with same | later
      · subst cell
        exact .inl (by simp [path.1])
      · rcases inductionHypothesis path.2 later with found | stopped
        · exact .inl (List.mem_cons_of_mem first found)
        · exact .inr stopped

theorem stop_of_loop {cell stop : Cell} {cells : List Cell} (loop : next cell = cell)
    (path : Path next cell cells stop) : stop = cell := by
  induction cells with
  | nil => exact path.symm
  | cons first cells inductionHypothesis =>
      obtain ⟨same, rest⟩ := path
      rw [← same, loop] at rest
      exact inductionHypothesis rest

/-- A path that runs into a self-loop visits everything reached from its start. -/
theorem stop_mem_of_loop {start cell stop : Cell} {cells others : List Cell}
    (loop : next cell = cell) (membership : cell ∈ cells)
    (path : Path next start cells cell) (other : Path next start others stop) :
    stop ∈ cells := by
  induction cells generalizing start others with
  | nil => simp at membership
  | cons first cells inductionHypothesis =>
      obtain ⟨here, path⟩ := path
      subst here
      cases others with
      | nil =>
          rw [show stop = start from other.symm]
          simp
      | cons second others =>
          obtain ⟨here, other⟩ := other
          subst here
          rcases List.mem_cons.mp membership with same | later
          · subst same
            rw [loop] at other
            rw [other.stop_of_loop loop]
            simp
          · exact List.mem_cons_of_mem _ (inductionHypothesis later path other)

end Path

/-- A ring through `head`: the forward walk from the head visits `cells`, each
once, and comes back; `prev` undoes `next` at every cell. -/
structure Ring (next prev : Cell → Cell) (head : Cell) (cells : List Cell) : Prop where
  path : Path next (next head) cells head
  nodup : (head :: cells).Nodup
  prev_next : ∀ cell ∈ head :: cells, prev (next cell) = cell

namespace Ring

variable {next prev : Cell → Cell} {head : Cell} {cells : List Cell}

theorem next_mem (ring : Ring next prev head cells) {cell : Cell}
    (membership : cell ∈ head :: cells) : next cell ∈ head :: cells := by
  rcases ring.path.next_mem membership with found | stopped
  · exact List.mem_cons_of_mem head found
  · simp [stopped]

theorem prev_head (ring : Ring next prev head cells) :
    prev head = (head :: cells).getLast (by simp) := by
  have last := ring.prev_next _ (List.getLast_mem (l := head :: cells) (by simp))
  rwa [ring.path.next_last] at last

theorem exists_pred (ring : Ring next prev head cells) {cell : Cell}
    (membership : cell ∈ head :: cells) :
    ∃ pred ∈ head :: cells, next pred = cell := by
  rcases List.mem_cons.mp membership with same | inside
  · refine ⟨_, List.getLast_mem (l := head :: cells) (by simp), ?_⟩
    rw [ring.path.next_last, same]
  · obtain ⟨before, after, split⟩ := List.append_of_mem inside
    have path := ring.path
    rw [split, Path.append_iff] at path
    obtain ⟨middle, first, second⟩ := path
    refine ⟨(head :: before).getLast (by simp), ?_, ?_⟩
    · rw [split]
      have last := List.getLast_mem (l := head :: before) (by simp)
      simp only [List.mem_cons, List.mem_append] at last ⊢
      tauto
    · rw [first.next_last, second.1]

theorem next_prev (ring : Ring next prev head cells) {cell : Cell}
    (membership : cell ∈ head :: cells) : next (prev cell) = cell := by
  obtain ⟨pred, predMembership, successor⟩ := ring.exists_pred membership
  rw [← successor, ring.prev_next pred predMembership]

theorem prev_mem (ring : Ring next prev head cells) {cell : Cell}
    (membership : cell ∈ head :: cells) : prev cell ∈ head :: cells := by
  obtain ⟨pred, predMembership, successor⟩ := ring.exists_pred membership
  rw [← successor, ring.prev_next pred predMembership]
  exact predMembership

theorem mem_of_path (ring : Ring next prev head cells) {start stop : Cell}
    {visited : List Cell} (path : Path next start visited stop)
    (inside : start ∈ head :: cells) {cell : Cell} (membership : cell ∈ visited) :
    cell ∈ head :: cells := by
  induction visited generalizing start with
  | nil => simp at membership
  | cons first visited inductionHypothesis =>
      obtain ⟨here, path⟩ := path
      subst here
      rcases List.mem_cons.mp membership with same | later
      · exact same ▸ inside
      · exact inductionHypothesis path (ring.next_mem inside) later

theorem congr {otherNext otherPrev : Cell → Cell}
    (nextAgree : ∀ cell ∈ head :: cells, otherNext cell = next cell)
    (prevAgree : ∀ cell ∈ head :: cells, otherPrev cell = prev cell)
    (ring : Ring next prev head cells) :
    Ring otherNext otherPrev head cells where
  path := by
    rw [nextAgree head (by simp)]
    exact ring.path.congr (fun cell membership =>
      nextAgree cell (List.mem_cons_of_mem head membership))
  nodup := ring.nodup
  prev_next cell membership := by
    rw [nextAgree cell membership, prevAgree _ (ring.next_mem membership)]
    exact ring.prev_next cell membership

theorem singleton (selfNext : next head = head) (selfPrev : prev head = head) :
    Ring next prev head [] where
  path := selfNext
  nodup := by simp
  prev_next cell membership := by
    rw [List.mem_singleton.mp membership, selfNext, selfPrev]

end Ring

variable [DecidableEq Cell]

/-- Insertion before the head, as the four pointer writes leave the maps:
`last` is the cell the head's `prev` named before. -/
def insertNext (next : Cell → Cell) (cell last head : Cell) : Cell → Cell :=
  Function.update (Function.update next cell head) last cell

def insertPrev (prev : Cell → Cell) (cell last head : Cell) : Cell → Cell :=
  Function.update (Function.update prev head cell) cell last

theorem insertNext_image {Place : Type*} [DecidableEq Place] {name : Place → Cell}
    (injective : Function.Injective name) {next : Cell → Cell} {links : Place → Place}
    (cell last head : Place) {place : Place}
    (named : place ≠ cell → next (name place) = name (links place)) :
    insertNext next (name cell) (name last) (name head) (name place) =
      name (insertNext links cell last head place) := by
  simp only [insertNext, Function.update_apply, injective.eq_iff]
  split_ifs with isLast isCell
  · rfl
  · rfl
  · exact named isCell

theorem insertPrev_image {Place : Type*} [DecidableEq Place] {name : Place → Cell}
    (injective : Function.Injective name) {prev : Cell → Cell} {links : Place → Place}
    (cell last head : Place) {place : Place}
    (named : place ≠ cell → prev (name place) = name (links place)) :
    insertPrev prev (name cell) (name last) (name head) (name place) =
      name (insertPrev links cell last head place) := by
  simp only [insertPrev, Function.update_apply, injective.eq_iff]
  split_ifs with isCell isHead
  · rfl
  · rfl
  · exact named isCell

section Insertion

variable {next prev : Cell → Cell} {head cell last : Cell} {cells : List Cell}

theorem insertNext_of_ne {visited : Cell} (notLast : visited ≠ last)
    (notCell : visited ≠ cell) :
    insertNext next cell last head visited = next visited := by
  simp [insertNext, notLast, notCell]

@[simp]
theorem insertNext_last : insertNext next cell last head last = cell := by
  simp [insertNext]

theorem insertNext_cell (different : cell ≠ last) :
    insertNext next cell last head cell = head := by
  simp [insertNext, different]

@[simp]
theorem insertPrev_cell : insertPrev prev cell last head cell = last := by
  simp [insertPrev]

theorem insertPrev_head (different : head ≠ cell) :
    insertPrev prev cell last head head = cell := by
  simp [insertPrev, different]

theorem insertPrev_of_ne {visited : Cell} (notHead : visited ≠ head)
    (notCell : visited ≠ cell) :
    insertPrev prev cell last head visited = prev visited := by
  simp [insertPrev, notHead, notCell]

theorem Path.insert_fresh
    (path : Path next (next head) cells head)
    (nodup : (head :: cells).Nodup) (fresh : cell ∉ head :: cells) :
    let last := (head :: cells).getLast (by simp)
    Path (insertNext next cell last head) (insertNext next cell last head head)
      (cells ++ [cell]) head := by
  intro last
  have lastMember : last ∈ head :: cells := List.getLast_mem (by simp)
  have different : cell ≠ last := fun same => fresh (same ▸ lastMember)
  rcases List.eq_nil_or_concat cells with empty | ⟨before, final, split⟩
  · subst empty
    have lastHead : last = head := rfl
    rw [lastHead]
    refine ⟨by simp, ?_⟩
    rw [lastHead] at different
    exact insertNext_cell different
  · have lastFinal : last = final := by
      simp only [last, split, List.concat_eq_append]
      rw [List.getLast_cons (by simp), List.getLast_append_singleton]
    rw [List.concat_eq_append] at split
    have finalOutside : final ∉ head :: before := by
      rw [split, ← List.cons_append, List.nodup_append] at nodup
      exact fun membership => nodup.2.2 final membership final (by simp) rfl
    rw [split, Path.append_iff] at path
    obtain ⟨middle, front, back⟩ := path
    have keep : ∀ visited ∈ head :: before,
        insertNext next cell last head visited = next visited := by
      intro visited membership
      apply insertNext_of_ne
      · exact fun same => finalOutside (lastFinal ▸ same ▸ membership)
      · rintro rfl
        apply fresh
        simp only [split, List.mem_cons, List.mem_append] at membership ⊢
        tauto
    rw [split, List.append_assoc, Path.append_iff]
    refine ⟨middle, ?_, back.1, ?_⟩
    · rw [keep head (by simp)]
      exact front.congr (fun visited membership =>
        keep visited (List.mem_cons_of_mem head membership))
    · rw [← lastFinal, insertNext_last]
      exact ⟨rfl, insertNext_cell different⟩

theorem Ring.insert_fresh
    (ring : Ring next prev head cells) (fresh : cell ∉ head :: cells) :
    Ring (insertNext next cell (prev head) head)
      (insertPrev prev cell (prev head) head) head (cells ++ [cell]) := by
  have lastMember : prev head ∈ head :: cells := ring.prev_mem (by simp)
  have different : cell ≠ prev head := fun same => fresh (same ▸ lastMember)
  have headOther : head ≠ cell := fun same => fresh (by simp [← same])
  refine ⟨?_, ?_, ?_⟩
  · rw [ring.prev_head]
    exact ring.path.insert_fresh ring.nodup fresh
  · rw [← List.cons_append, List.nodup_append]
    refine ⟨ring.nodup, by simp, ?_⟩
    intro visited membership other otherMembership same
    rw [List.mem_singleton.mp otherMembership] at same
    exact fresh (same ▸ membership)
  · intro visited membership
    rw [← List.cons_append, List.mem_append, List.mem_singleton] at membership
    rcases membership with inside | same
    · by_cases isLast : visited = prev head
      · rw [isLast, insertNext_last, insertPrev_cell]
      · have notCell : visited ≠ cell := fun same => fresh (same ▸ inside)
        rw [insertNext_of_ne isLast notCell]
        have successor : next visited ≠ head := by
          intro same
          exact isLast (by rw [← same, ring.prev_next visited inside])
        have successorOther : next visited ≠ cell := by
          intro same
          exact fresh (same ▸ ring.next_mem inside)
        rw [insertPrev_of_ne successor successorOther]
        exact ring.prev_next visited inside
    · subst same
      rw [insertNext_cell different, insertPrev_head headOther]

/-- Re-inserting a linked cell leaves the pointers of the cells before it. -/
theorem insertNext_before {before rest : List Cell}
    (nodup : (head :: (before ++ cell :: rest)).Nodup) (behind : last ∈ cell :: rest)
    {visited : Cell} (membership : visited ∈ head :: before) :
    insertNext next cell last head visited = next visited := by
  rw [← List.cons_append, List.nodup_append] at nodup
  apply insertNext_of_ne
  · exact nodup.2.2 visited membership last behind
  · exact nodup.2.2 visited membership cell (by simp)

/-- Re-inserting a linked cell that is not the last one cuts the walk after it:
the cells behind it are no longer reached from the head. -/
theorem Path.insert_linked
    {before after : List Cell} {final : Cell}
    (path : Path next (next head) (before ++ cell :: (after ++ [final])) head)
    (nodup : (head :: (before ++ cell :: (after ++ [final]))).Nodup) :
    Path (insertNext next cell final head) (insertNext next cell final head head)
      (before ++ [cell]) head := by
  have keep : ∀ visited ∈ head :: before,
      insertNext next cell final head visited = next visited :=
    fun visited membership => insertNext_before nodup (by simp) membership
  have cellFinal : cell ≠ final := by
    rw [← List.cons_append, List.nodup_append] at nodup
    intro same
    exact (List.nodup_cons.mp nodup.2.1).1 (by simp [same])
  rw [Path.append_iff] at path
  obtain ⟨middle, front, back⟩ := path
  rw [Path.append_iff]
  refine ⟨middle, ?_, back.1, insertNext_cell cellFinal⟩
  rw [keep head (by simp)]
  exact front.congr (fun visited membership =>
    keep visited (List.mem_cons_of_mem head membership))

/-- Re-inserting the last cell makes it point to itself: the walk never comes
back to the head. -/
theorem Path.insert_last
    {before : List Cell}
    (path : Path next (next head) (before ++ [cell]) head)
    (nodup : (head :: (before ++ [cell])).Nodup) :
    Path (insertNext next cell cell head) (insertNext next cell cell head head)
      (before ++ [cell]) cell := by
  have keep : ∀ visited ∈ head :: before,
      insertNext next cell cell head visited = next visited :=
    fun visited membership => insertNext_before nodup (by simp) membership
  rw [Path.append_iff] at path
  obtain ⟨middle, front, back⟩ := path
  rw [Path.append_iff]
  refine ⟨middle, ?_, back.1, insertNext_last⟩
  rw [keep head (by simp)]
  exact front.congr (fun visited membership =>
    keep visited (List.mem_cons_of_mem head membership))

/-- Re-inserting a linked cell always breaks the ring: its old predecessor still
points to it, but its `prev` now names the cell that was last. -/
theorem not_ring_insert_linked
    {before rest cells : List Cell}
    (path : Path next (next head) (before ++ cell :: rest) head)
    (nodup : (head :: (before ++ cell :: rest)).Nodup)
    (behind : last ∈ cell :: rest) :
    ¬ Ring (insertNext next cell last head) (insertPrev prev cell last head) head cells := by
  intro ring
  have keep : ∀ visited ∈ head :: before,
      insertNext next cell last head visited = next visited :=
    fun visited membership => insertNext_before nodup behind membership
  rw [Path.append_iff] at path
  obtain ⟨middle, front, arrived, _⟩ := path
  rw [arrived] at front
  have frontAfter : Path (insertNext next cell last head)
      (insertNext next cell last head head) before cell := by
    rw [keep head (by simp)]
    exact front.congr (fun visited membership =>
      keep visited (List.mem_cons_of_mem head membership))
  have predMember := List.getLast_mem (l := head :: before) (by simp)
  have predInside : (head :: before).getLast (by simp) ∈ head :: cells := by
    rcases List.mem_cons.mp predMember with isHead | visited
    · rw [isHead]
      simp
    · exact ring.mem_of_path frontAfter (ring.next_mem (by simp)) visited
  have undone := ring.prev_next _ predInside
  rw [frontAfter.next_last, insertPrev_cell] at undone
  rw [← List.cons_append, List.nodup_append] at nodup
  exact nodup.2.2 _ predMember last behind undone.symm

end Insertion

end UAFlow.Library
