import UAFlow.AhoCorasick.Chunks

/-!
# How often the search loop iterates

An iteration reads a letter or falls back to a node nearer to the root.  Twice the
letters that are left and the depth of the node bound what is still to come: an
edge that is followed adds one to the depth and takes a letter away.
-/

namespace UAFlow.AhoCorasick

open Library

variable {pool : Pool} {path : Nat → List UInt8} {entry : List UInt8 → Option AcPattern}
  {User : Type}

/-- The loop before an iteration. -/
structure SearchPlace (User : Type) where
  position : Nat
  current : Nat
  user : User

inductive SearchMove where
  | advance
  | fall
  deriving DecidableEq

def SearchMove.Leads (pool : Pool) (before after : SearchPlace User) : SearchMove → Prop
  | .advance => after.position = before.position + 1
  | .fall =>
      after.position = before.position ∧
        (pool.node before.current).failureNode = some after.current ∧
        (pool.node after.current).depth < (pool.node before.current).depth

def loopFrom (pool : Pool) (text : List UInt8) (basePosition : Nat)
    (callback : AcMatchCallback User) (fuel : Nat) (place : SearchPlace User) :
    Except Fault (SearchEnd User) :=
  searchLoop pool text basePosition callback fuel place.position place.current place.user

structure Iteration (pool : Pool) (text : List UInt8) (basePosition : Nat)
    (callback : AcMatchCallback User) (before : SearchPlace User) (move : SearchMove)
    (after : SearchPlace User) : Prop where
  goesOn : ∀ fuel, loopFrom pool text basePosition callback (fuel + 1) before =
    loopFrom pool text basePosition callback fuel after
  leads : move.Leads pool before after

def SearchPlace.ahead (pool : Pool) (text : List UInt8) (place : SearchPlace User) : Nat :=
  2 * (text.length - place.position) + (pool.node place.current).depth

theorem Finalized.iteration (finalized : Finalized pool path entry) (text : List UInt8)
    (basePosition : Nat) (tell : AcMatch → User → User) (place : SearchPlace User)
    (inside : place.current < pool.used) (further : place.position < text.length) :
    ∃ move after, Iteration pool text basePosition (continuing tell) place move after ∧
      after.current < pool.used ∧ after.ahead pool text < place.ahead pool text := by
  have spelled := finalized.spelled
  obtain ⟨position, current, user⟩ := place
  change current < pool.used at inside
  change position < text.length at further
  have letter := List.getElem?_eq_getElem further
  have depth := spelled.depth current inside
  unfold SearchPlace.ahead
  cases found : nodeFindNext pool current text[position] with
  | none =>
      by_cases isRoot : current = root
      · subst isRoot
        refine ⟨.advance, ⟨position + 1, root, user⟩, ⟨?_, rfl⟩, inside, ?_⟩
        · intro fuel
          simp only [loopFrom, searchLoop, letter, finalized.findNextBs inside, found,
            finalized.collecting.rootFailure]
        · simp only
          omega
      · have stuck := (spelled.nodeFindNext_eq_none_iff inside).mp found
        have ready : Ready pool path current (path current) (some text[position]) := ⟨inside, rfl⟩
        obtain ⟨failure, set, shorter, failureInside, _⟩ := ready.failure finalized isRoot stuck
        have nearer := spelled.depth failure failureInside
        refine ⟨.fall, ⟨position, failure, user⟩, ⟨?_, rfl, set, ?_⟩, failureInside, ?_⟩
        · intro fuel
          simp only [loopFrom, searchLoop, letter, finalized.findNextBs inside, found, set]
        · simp only [nearer, depth]
          exact shorter
        · simp only [nearer, depth]
          omega
  | some next =>
      obtain ⟨nextInside, word⟩ := (spelled.nodeFindNext_eq_some_iff inside).mp found
      have deeper := spelled.depth next nextInside
      have fewer : 2 * (text.length - (position + 1)) + (path next).length <
          2 * (text.length - position) + (path current).length := by
        rw [word, List.length_append, List.length_singleton]
        omega
      by_cases final : (pool.node next).final = true
      · refine ⟨.advance, ⟨position + 1, next, tell ⟨(pool.node next).matched,
          position + 1 + basePosition⟩ user⟩, ⟨?_, rfl⟩, nextInside, ?_⟩
        · intro fuel
          simp [loopFrom, searchLoop, letter, finalized.findNextBs inside, found, final, continuing]
        · simpa only [deeper, depth] using fewer
      · refine ⟨.advance, ⟨position + 1, next, user⟩, ⟨?_, rfl⟩, nextInside, ?_⟩
        · intro fuel
          simp [loopFrom, searchLoop, letter, finalized.findNextBs inside, found, final]
        · simpa only [deeper, depth] using fewer

theorem loopFrom_run {text : List UInt8} {basePosition : Nat} {callback : AcMatchCallback User}
    {start finish : SearchPlace User} {moves : List SearchMove}
    (run : Run (Iteration pool text basePosition callback) start moves finish) (fuel : Nat) :
    loopFrom pool text basePosition callback (fuel + moves.length) start =
      loopFrom pool text basePosition callback fuel finish := by
  induction moves generalizing start with
  | nil => rw [(Run.nil_iff start finish).mp run, List.length_nil, Nat.add_zero]
  | cons move moves inductionHypothesis =>
      obtain ⟨middle, iteration, run⟩ := run
      rw [List.length_cons, ← Nat.add_assoc, iteration.goesOn]
      exact inductionHypothesis run

theorem loopFrom_unfinished {text : List UInt8} {basePosition : Nat}
    {callback : AcMatchCallback User} {start finish : SearchPlace User} {moves : List SearchMove}
    (run : Run (Iteration pool text basePosition callback) start moves finish) {fuel : Nat}
    (short : fuel ≤ moves.length) :
    loopFrom pool text basePosition callback fuel start = .error .unfinished := by
  rw [← List.take_append_drop fuel moves, Run.append_iff] at run
  obtain ⟨middle, first, _⟩ := run
  have used : (moves.take fuel).length = fuel := List.length_take_of_le short
  have reached := loopFrom_run first 0
  rw [used, Nat.zero_add] at reached
  rw [reached]
  rfl

/-- However a trie was built, once it is finalized the loop comes to the end of every
text from every position and node, after at most so many iterations, each of which
reads a letter or falls to a node of smaller depth. -/
theorem search_iterations (adds : List (AcPattern × Bool)) :
    ∃ thiz, acTrieFinalize (acTrieAddAll acTrieCreate adds) = .ok thiz ∧
      ∀ (User : Type) (text : List UInt8) (basePosition : Nat) (tell : AcMatch → User → User)
        (start : SearchPlace User), start.current < thiz.pool.used →
        ∃ moves finish,
          Run (Iteration thiz.pool text basePosition (continuing tell)) start moves finish ∧
          moves.length ≤
            2 * (text.length - start.position) + (thiz.pool.node start.current).depth ∧
          ∀ fuel, loopFrom thiz.pool text basePosition (continuing tell) fuel start =
            if fuel ≤ moves.length then
              .error .unfinished
            else
              .ok (.finished finish.position finish.current finish.user) := by
  obtain ⟨_, path, opened⟩ := open_addAll adds
  obtain ⟨pool, finalizes, finalized, _⟩ := acTrieFinalize_ok opened (wellKept_dictionary adds)
  refine ⟨_, finalizes, ?_⟩
  intro User text basePosition tell start inside
  obtain ⟨moves, finish, run, ended, short⟩ := Run.exists_of_decreasing
    (SearchPlace.ahead pool text) (fun place => place.current < pool.used)
    (fun place => text.length ≤ place.position)
    (fun place within unfinished => finalized.iteration text basePosition tell place within
      (Nat.lt_of_not_le unfinished)) start inside
  refine ⟨moves, finish, run, short, ?_⟩
  intro fuel
  split
  next tooShort => exact loopFrom_unfinished run tooShort
  next enough =>
    obtain ⟨rest, rfl⟩ : ∃ rest, fuel = rest + 1 + moves.length :=
      ⟨fuel - moves.length - 1, by omega⟩
    rw [loopFrom_run run, loopFrom, searchLoop, List.getElem?_eq_none ended]

end UAFlow.AhoCorasick
