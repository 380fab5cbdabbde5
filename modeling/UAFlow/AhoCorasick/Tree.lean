import UAFlow.AhoCorasick.Model
import UAFlow.Library.LongestSuffix

/-!
# The nodes of a trie as a tree of words

Every node handed out spells a word, the letters on the edges from the root to
it, and no two nodes spell the same one.  An open trie holds with each word the
pattern that was accepted for it.
-/

namespace UAFlow.AhoCorasick

open Library

/-- The nodes spell words: `path` is the word of each of them. -/
structure Spelled (pool : Pool) (path : Nat → List UInt8) : Prop where
  rooted : root < pool.used
  rootPath : path root = []
  edges : ∀ n < pool.used, ∀ edge ∈ (pool.node n).outgoing,
    edge.next < pool.used ∧ path edge.next = path n ++ [edge.alpha]
  distinct : ∀ n < pool.used, ((pool.node n).outgoing.map ActEdge.alpha).Nodup
  reached : ∀ n < pool.used, follow pool root (path n) = some n
  depth : ∀ n < pool.used, (pool.node n).depth = (path n).length

def IsPath (pool : Pool) (word : List UInt8) : Prop := (follow pool root word).isSome = true

/-- The letters on the way from the root to `nod` are those of `word`, and there is no
other way. -/
def LeadsTo (pool : Pool) (word : List UInt8) (nod : Nat) : Prop :=
  ∀ other, follow pool root other = some nod ↔ other = word

instance (pool : Pool) : DecidablePred (IsPath pool) :=
  fun _ => inferInstanceAs (Decidable (_ = true))

/-! ## Following edges -/

theorem follow_append (pool : Pool) (n : Nat) (front back : List UInt8) :
    follow pool n (front ++ back) = (follow pool n front).bind (follow pool · back) := by
  induction front generalizing n with
  | nil => rfl
  | cons alpha front inductionHypothesis =>
      simp only [List.cons_append, follow]
      cases nodeFindNext pool n alpha with
      | none => rfl
      | some next => exact inductionHypothesis next

theorem follow_singleton (pool : Pool) (n : Nat) (alpha : UInt8) :
    follow pool n [alpha] = nodeFindNext pool n alpha := by
  simp only [follow]
  cases nodeFindNext pool n alpha <;> rfl

theorem isPath_empty (pool : Pool) : IsPath pool [] := rfl

theorem isPath_closed (pool : Pool) (front back : List UInt8)
    (path : IsPath pool (front ++ back)) : IsPath pool front := by
  unfold IsPath at path ⊢
  rw [follow_append] at path
  cases found : follow pool root front with
  | none => simp [found] at path
  | some n => rfl

theorem nodeFindNext_some {pool : Pool} {n next : Nat} {alpha : UInt8}
    (found : nodeFindNext pool n alpha = some next) :
    ⟨alpha, next⟩ ∈ (pool.node n).outgoing := by
  unfold nodeFindNext at found
  obtain ⟨edge, first, rfl⟩ := Option.map_eq_some_iff.mp found
  have letter : edge.alpha = alpha := by simpa using List.find?_some first
  rw [← letter]
  exact List.mem_of_find?_eq_some first

theorem nodeFindNext_of_mem {pool : Pool} {n : Nat} {edge : ActEdge}
    (distinct : ((pool.node n).outgoing.map ActEdge.alpha).Nodup)
    (membership : edge ∈ (pool.node n).outgoing) :
    nodeFindNext pool n edge.alpha = some edge.next := by
  unfold nodeFindNext
  cases found : (pool.node n).outgoing.find? fun other => other.alpha == edge.alpha with
  | none =>
      have absent := List.find?_eq_none.mp found edge membership
      simp at absent
  | some other =>
      have letter : other.alpha = edge.alpha := by simpa using List.find?_some found
      have same : other = edge :=
        List.inj_on_of_nodup_map distinct (List.mem_of_find?_eq_some found) membership letter
      rw [same]
      rfl

namespace Spelled

variable {pool : Pool} {path : Nat → List UInt8}

theorem follow_some (spelled : Spelled pool path) {n m : Nat} {letters : List UInt8}
    (inside : n < pool.used) (found : follow pool n letters = some m) :
    m < pool.used ∧ path m = path n ++ letters := by
  induction letters generalizing n with
  | nil =>
      obtain rfl : n = m := Option.some.inj found
      exact ⟨inside, (List.append_nil _).symm⟩
  | cons alpha letters inductionHypothesis =>
      rw [follow] at found
      split at found
      next => simp at found
      next next step =>
        obtain ⟨nextInside, nextPath⟩ := spelled.edges n inside _ (nodeFindNext_some step)
        obtain ⟨mInside, mPath⟩ := inductionHypothesis nextInside found
        refine ⟨mInside, ?_⟩
        rw [mPath, nextPath, List.append_assoc]
        rfl

theorem follow_root_iff (spelled : Spelled pool path) {m : Nat} {word : List UInt8} :
    follow pool root word = some m ↔ m < pool.used ∧ path m = word := by
  constructor
  · intro found
    simpa [spelled.rootPath] using spelled.follow_some spelled.rooted found
  · rintro ⟨inside, rfl⟩
    exact spelled.reached m inside

theorem leadsTo (spelled : Spelled pool path) {n : Nat} (inside : n < pool.used) :
    LeadsTo pool (path n) n := by
  intro other
  constructor
  · intro reached
    exact (spelled.follow_root_iff.mp reached).2.symm
  · rintro rfl
    exact spelled.reached n inside

theorem path_inj (spelled : Spelled pool path) {n m : Nat} (nInside : n < pool.used)
    (mInside : m < pool.used) (same : path n = path m) : n = m := by
  have found := spelled.reached n nInside
  rw [same, spelled.reached m mInside] at found
  exact (Option.some.inj found).symm

theorem isPath_iff (spelled : Spelled pool path) {word : List UInt8} :
    IsPath pool word ↔ ∃ n < pool.used, path n = word := by
  rw [IsPath, Option.isSome_iff_exists]
  exact exists_congr fun n => spelled.follow_root_iff

theorem isPath_path (spelled : Spelled pool path) {n : Nat} (inside : n < pool.used) :
    IsPath pool (path n) :=
  spelled.isPath_iff.mpr ⟨n, inside, rfl⟩

theorem path_eq_nil_iff (spelled : Spelled pool path) {n : Nat} (inside : n < pool.used) :
    path n = [] ↔ n = root := by
  constructor
  · intro empty
    exact spelled.path_inj inside spelled.rooted (by rw [empty, spelled.rootPath])
  · rintro rfl
    exact spelled.rootPath

theorem nodeFindNext_eq (spelled : Spelled pool path) {n : Nat} (inside : n < pool.used)
    (alpha : UInt8) : nodeFindNext pool n alpha = follow pool root (path n ++ [alpha]) := by
  rw [follow_append, spelled.reached n inside, Option.bind_some, follow_singleton]

theorem nodeFindNext_eq_some_iff (spelled : Spelled pool path) {n next : Nat}
    (inside : n < pool.used) {alpha : UInt8} :
    nodeFindNext pool n alpha = some next ↔ next < pool.used ∧ path next = path n ++ [alpha] := by
  rw [spelled.nodeFindNext_eq inside, spelled.follow_root_iff]

theorem nodeFindNext_eq_none_iff (spelled : Spelled pool path) {n : Nat}
    (inside : n < pool.used) {alpha : UInt8} :
    nodeFindNext pool n alpha = none ↔ ¬ IsPath pool (path n ++ [alpha]) := by
  rw [spelled.nodeFindNext_eq inside, IsPath, Bool.not_eq_true, Option.isSome_eq_false_iff,
    Option.isNone_iff_eq_none]

theorem mem_outgoing_iff (spelled : Spelled pool path) {n : Nat} (inside : n < pool.used)
    {alpha : UInt8} {next : Nat} :
    ⟨alpha, next⟩ ∈ (pool.node n).outgoing ↔ nodeFindNext pool n alpha = some next :=
  ⟨nodeFindNext_of_mem (spelled.distinct n inside), nodeFindNext_some⟩

end Spelled

/-- The same nodes with the same edges, perhaps in another order. -/
structure SameShape (pool other : Pool) : Prop where
  used : other.used = pool.used
  outgoing : ∀ n < pool.used, (other.node n).outgoing.Perm (pool.node n).outgoing
  depth : ∀ n < pool.used, (other.node n).depth = (pool.node n).depth

namespace SameShape

variable {pool other third : Pool} {path : Nat → List UInt8}

theorem refl (pool : Pool) : SameShape pool pool :=
  ⟨rfl, fun _ _ => List.Perm.refl _, fun _ _ => rfl⟩

theorem trans (first : SameShape pool other) (second : SameShape other third) :
    SameShape pool third where
  used := second.used.trans first.used
  outgoing n inside :=
    (second.outgoing n (first.used.symm ▸ inside)).trans (first.outgoing n inside)
  depth n inside := (second.depth n (first.used.symm ▸ inside)).trans (first.depth n inside)

theorem distinct (same : SameShape pool other) (spelled : Spelled pool path) {n : Nat}
    (inside : n < pool.used) : ((other.node n).outgoing.map ActEdge.alpha).Nodup :=
  ((same.outgoing n inside).map ActEdge.alpha).nodup_iff.mpr (spelled.distinct n inside)

theorem nodeFindNext (same : SameShape pool other) (spelled : Spelled pool path) {n : Nat}
    (inside : n < pool.used) (alpha : UInt8) :
    nodeFindNext other n alpha = AhoCorasick.nodeFindNext pool n alpha := by
  apply Option.ext
  intro next
  rw [← spelled.mem_outgoing_iff inside, ← (same.outgoing n inside).mem_iff]
  exact ⟨nodeFindNext_some, nodeFindNext_of_mem (same.distinct spelled inside)⟩

theorem follow (same : SameShape pool other) (spelled : Spelled pool path) {n : Nat}
    (inside : n < pool.used) (letters : List UInt8) :
    follow other n letters = AhoCorasick.follow pool n letters := by
  induction letters generalizing n with
  | nil => rfl
  | cons alpha letters inductionHypothesis =>
      simp only [AhoCorasick.follow, same.nodeFindNext spelled inside]
      split
      next => rfl
      next next step =>
        exact inductionHypothesis (spelled.edges n inside _ (nodeFindNext_some step)).1

theorem isPath (same : SameShape pool other) (spelled : Spelled pool path) (word : List UInt8) :
    IsPath other word ↔ IsPath pool word := by
  rw [IsPath, same.follow spelled spelled.rooted, IsPath]

theorem spelled (same : SameShape pool other) (spelled : Spelled pool path) :
    Spelled other path where
  rooted := same.used.symm ▸ spelled.rooted
  rootPath := spelled.rootPath
  edges n inside edge membership := by
    rw [same.used] at inside ⊢
    exact spelled.edges n inside edge ((same.outgoing n inside).mem_iff.mp membership)
  distinct n inside := same.distinct spelled (same.used ▸ inside)
  reached n inside := by
    rw [same.follow spelled spelled.rooted]
    exact spelled.reached n (same.used ▸ inside)
  depth n inside := by
    rw [same.used] at inside
    rw [same.depth n inside, spelled.depth n inside]

end SameShape

theorem sameShape_setNode {pool : Pool} {nod : Nat} {value : ActNode}
    (outgoing : value.outgoing.Perm (pool.node nod).outgoing)
    (depth : value.depth = (pool.node nod).depth) :
    SameShape pool (pool.setNode nod value) where
  used := rfl
  outgoing n _ := by
    by_cases here : n = nod
    · subst here
      simpa [Pool.setNode] using outgoing
    · simp [Pool.setNode, here]
  depth n _ := by
    by_cases here : n = nod
    · subst here
      simpa [Pool.setNode] using depth
    · simp [Pool.setNode, here]

/-! ## Adding a pattern -/

/-- An open trie whose nodes spell words, with the pattern accepted for each
word in `entry`. -/
structure Open (pool : Pool) (path : Nat → List UInt8)
    (entry : List UInt8 → Option AcPattern) : Prop where
  spelled : Spelled pool path
  failureNode : ∀ n < pool.used, (pool.node n).failureNode = none
  final : ∀ n < pool.used, (pool.node n).final = (entry (path n)).isSome
  matched : ∀ n < pool.used, (pool.node n).matched = (entry (path n)).toList
  known : ∀ word found, entry word = some found → IsPath pool word
  short : ∀ n < pool.used, (path n).length ≤ acPattrnMaxLength

def grow (pool : Pool) (n : Nat) (alpha : UInt8) : Pool where
  node := Function.update
    (Function.update pool.node n
      { pool.node n with outgoing := (pool.node n).outgoing ++ [⟨alpha, pool.used⟩] })
    pool.used { ActNode.init with depth := (pool.node n).depth + 1 }
  used := pool.used + 1

theorem addLetter_of_some {pool : Pool} {n next : Nat} {alpha : UInt8}
    (found : nodeFindNext pool n alpha = some next) : addLetter pool n alpha = (pool, next) := by
  simp only [addLetter, found]

theorem addLetter_of_none {pool : Pool} {n : Nat} {alpha : UInt8} (inside : n < pool.used)
    (none : nodeFindNext pool n alpha = none) :
    addLetter pool n alpha = (grow pool n alpha, pool.used) := by
  have other : n ≠ pool.used := Nat.ne_of_lt inside
  simp only [addLetter, nodeCreateNext, none, nodeAddEdge, Pool.setNode, Pool.create, grow]
  congr 2
  funext m
  by_cases new : m = pool.used
  · subst new
    simp [Ne.symm other, other]
  · by_cases here : m = n
    · subst here
      simp [other]
    · simp [new, here]

theorem addLetters_of_follow {pool : Pool} {n m : Nat} {letters : List UInt8}
    (found : follow pool n letters = some m) : addLetters pool n letters = (pool, m) := by
  induction letters generalizing n with
  | nil =>
      obtain rfl : n = m := Option.some.inj found
      rfl
  | cons alpha letters inductionHypothesis =>
      rw [follow] at found
      split at found
      next => simp at found
      next next step =>
        rw [addLetters, List.foldl_cons, addLetter_of_some step]
        exact inductionHypothesis found

section Grow

variable {pool : Pool} {path : Nat → List UInt8} {entry : List UInt8 → Option AcPattern}
  {n : Nat} {alpha : UInt8}

theorem grow_new (pool : Pool) (n : Nat) (alpha : UInt8) :
    (grow pool n alpha).node pool.used =
      { ActNode.init with depth := (pool.node n).depth + 1 } := by
  simp [grow]

theorem grow_parent (inside : n < pool.used) (alpha : UInt8) :
    (grow pool n alpha).node n =
      { pool.node n with outgoing := (pool.node n).outgoing ++ [⟨alpha, pool.used⟩] } := by
  simp [grow, Nat.ne_of_lt inside]

theorem grow_other {m : Nat} (new : m ≠ pool.used) (other : m ≠ n) (alpha : UInt8) :
    (grow pool n alpha).node m = pool.node m := by
  simp [grow, new, other]

theorem grow_old {m : Nat} (inside : m < pool.used) (nInside : n < pool.used) (alpha : UInt8) :
    ∃ edges, (∀ edge, edge ∈ edges ↔ m = n ∧ edge = ⟨alpha, pool.used⟩) ∧
      (grow pool n alpha).node m =
        { pool.node m with outgoing := (pool.node m).outgoing ++ edges } := by
  by_cases here : m = n
  · subst here
    exact ⟨[⟨alpha, pool.used⟩], by simp, grow_parent inside alpha⟩
  · refine ⟨[], by simp [here], ?_⟩
    rw [grow_other (Nat.ne_of_lt inside) here]
    simp

theorem nodeFindNext_grow_old {m next : Nat} {letter : UInt8} (inside : m < pool.used)
    (nInside : n < pool.used) (found : nodeFindNext pool m letter = some next) :
    nodeFindNext (grow pool n alpha) m letter = some next := by
  obtain ⟨edges, _, same⟩ := grow_old inside nInside alpha
  unfold nodeFindNext at found ⊢
  obtain ⟨edge, first, rfl⟩ := Option.map_eq_some_iff.mp found
  rw [same]
  simp only [List.find?_append, first, Option.some_or, Option.map_some]

theorem follow_grow (spelled : Spelled pool path) (nInside : n < pool.used) {m last : Nat}
    {letters : List UInt8} (inside : m < pool.used) (found : follow pool m letters = some last) :
    follow (grow pool n alpha) m letters = some last := by
  induction letters generalizing m with
  | nil => exact found
  | cons letter letters inductionHypothesis =>
      rw [follow] at found
      split at found
      next => simp at found
      next next step =>
        have nextInside := (spelled.edges m inside _ (nodeFindNext_some step)).1
        rw [follow, nodeFindNext_grow_old inside nInside step]
        exact inductionHypothesis nextInside found

theorem letter_absent {letter : UInt8} (none : nodeFindNext pool n letter = none) :
    letter ∉ (pool.node n).outgoing.map ActEdge.alpha := by
  intro membership
  obtain ⟨edge, present, same⟩ := List.mem_map.mp membership
  have absent := List.find?_eq_none.mp (Option.map_eq_none_iff.mp none) edge present
  simp [same] at absent

theorem nodeFindNext_grow_new (inside : n < pool.used)
    (none : nodeFindNext pool n alpha = none) :
    nodeFindNext (grow pool n alpha) n alpha = some pool.used := by
  have absent := Option.map_eq_none_iff.mp none
  unfold nodeFindNext
  rw [grow_parent inside]
  simp [List.find?_append, absent]

def growPath (pool : Pool) (path : Nat → List UInt8) (n : Nat) (alpha : UInt8) :
    Nat → List UInt8 :=
  Function.update path pool.used (path n ++ [alpha])

theorem growPath_new (pool : Pool) (path : Nat → List UInt8) (n : Nat) (alpha : UInt8) :
    growPath pool path n alpha pool.used = path n ++ [alpha] :=
  Function.update_self _ _ _

theorem growPath_old {m : Nat} (inside : m < pool.used) :
    growPath pool path n alpha m = path m :=
  Function.update_of_ne (Nat.ne_of_lt inside) _ _

theorem Spelled.grow (spelled : Spelled pool path) (inside : n < pool.used)
    (none : nodeFindNext pool n alpha = none) :
    Spelled (grow pool n alpha) (growPath pool path n alpha) where
  rooted := Nat.lt_succ_of_lt spelled.rooted
  rootPath := (growPath_old spelled.rooted).trans spelled.rootPath
  edges m mInside edge membership := by
    rcases Nat.lt_succ_iff_lt_or_eq.mp mInside with old | rfl
    · obtain ⟨edges, new, same⟩ := grow_old old inside alpha
      rw [same] at membership
      rcases List.mem_append.mp membership with present | added
      · obtain ⟨nextInside, nextPath⟩ := spelled.edges m old edge present
        refine ⟨Nat.lt_succ_of_lt nextInside, ?_⟩
        rw [growPath_old nextInside, growPath_old old, nextPath]
      · obtain ⟨rfl, rfl⟩ := (new edge).mp added
        refine ⟨Nat.lt_succ_self _, ?_⟩
        rw [growPath_new, growPath_old old]
    · rw [grow_new] at membership
      simp [ActNode.init] at membership
  distinct m mInside := by
    rcases Nat.lt_succ_iff_lt_or_eq.mp mInside with old | rfl
    · by_cases here : m = n
      · subst here
        rw [grow_parent inside]
        simp only [List.map_append, List.map_cons, List.map_nil]
        simpa only [List.concat_eq_append] using
          List.Nodup.concat (letter_absent none) (spelled.distinct m old)
      · rw [grow_other (Nat.ne_of_lt old) here]
        exact spelled.distinct m old
    · rw [grow_new]
      exact List.nodup_nil
  reached m mInside := by
    rcases Nat.lt_succ_iff_lt_or_eq.mp mInside with old | rfl
    · rw [growPath_old old]
      exact follow_grow spelled inside spelled.rooted (spelled.reached m old)
    · rw [growPath_new, follow_append,
        follow_grow spelled inside spelled.rooted (spelled.reached n inside), Option.bind_some,
        follow_singleton, nodeFindNext_grow_new inside none]
  depth m mInside := by
    rcases Nat.lt_succ_iff_lt_or_eq.mp mInside with old | rfl
    · obtain ⟨edges, _, same⟩ := grow_old old inside alpha
      rw [same, growPath_old old]
      exact spelled.depth m old
    · rw [grow_new, growPath_new, List.length_append, List.length_singleton]
      exact congrArg (· + 1) (spelled.depth n inside)

theorem Open.grow (opened : Open pool path entry) (inside : n < pool.used)
    (none : nodeFindNext pool n alpha = none)
    (fits : (path n).length + 1 ≤ acPattrnMaxLength) :
    Open (grow pool n alpha) (growPath pool path n alpha) entry := by
  have fresh : entry (path n ++ [alpha]) = Option.none := by
    cases found : entry (path n ++ [alpha]) with
    | none => rfl
    | some value =>
        exact absurd (opened.known _ _ found) ((opened.spelled.nodeFindNext_eq_none_iff inside).mp none)
  refine ⟨opened.spelled.grow inside none, ?_, ?_, ?_, ?_, ?_⟩
  · intro m mInside
    rcases Nat.lt_succ_iff_lt_or_eq.mp mInside with old | rfl
    · obtain ⟨edges, _, same⟩ := grow_old old inside alpha
      rw [same]
      exact opened.failureNode m old
    · rw [grow_new]
      rfl
  · intro m mInside
    rcases Nat.lt_succ_iff_lt_or_eq.mp mInside with old | rfl
    · obtain ⟨edges, _, same⟩ := grow_old old inside alpha
      rw [same, growPath_old old]
      exact opened.final m old
    · rw [grow_new, growPath_new, fresh]
      rfl
  · intro m mInside
    rcases Nat.lt_succ_iff_lt_or_eq.mp mInside with old | rfl
    · obtain ⟨edges, _, same⟩ := grow_old old inside alpha
      rw [same, growPath_old old]
      exact opened.matched m old
    · rw [grow_new, growPath_new, fresh]
      rfl
  · intro word found present
    have before := opened.known word found present
    obtain ⟨m, reached⟩ := Option.isSome_iff_exists.mp before
    exact Option.isSome_iff_exists.mpr
      ⟨m, follow_grow opened.spelled inside opened.spelled.rooted reached⟩
  · intro m mInside
    rcases Nat.lt_succ_iff_lt_or_eq.mp mInside with old | rfl
    · rw [growPath_old old]
      exact opened.short m old
    · rw [growPath_new, List.length_append, List.length_singleton]
      exact fits

theorem Open.addLetters (opened : Open pool path entry) (inside : n < pool.used)
    {letters : List UInt8} (fits : (path n ++ letters).length ≤ acPattrnMaxLength) :
    ∃ pathAfter, Open (addLetters pool n letters).1 pathAfter entry ∧
      (AhoCorasick.addLetters pool n letters).2 <
        (AhoCorasick.addLetters pool n letters).1.used ∧
      pathAfter (AhoCorasick.addLetters pool n letters).2 = path n ++ letters := by
  induction letters generalizing pool path n with
  | nil => exact ⟨path, opened, inside, (List.append_nil _).symm⟩
  | cons letter letters inductionHypothesis =>
      have split : path n ++ letter :: letters = path n ++ [letter] ++ letters := by simp
      rw [split] at fits ⊢
      rw [AhoCorasick.addLetters, List.foldl_cons]
      cases step : nodeFindNext pool n letter with
      | some next =>
          obtain ⟨nextInside, nextPath⟩ :=
            (opened.spelled.nodeFindNext_eq_some_iff inside).mp step
          rw [← nextPath] at fits ⊢
          rw [addLetter_of_some step]
          exact inductionHypothesis opened nextInside fits
      | none =>
          have room : (path n).length + 1 ≤ acPattrnMaxLength := by
            simp only [List.length_append, List.length_singleton] at fits
            omega
          rw [← growPath_new pool path n letter] at fits ⊢
          rw [addLetter_of_none inside step]
          exact inductionHypothesis (opened.grow inside step room) (Nat.lt_succ_self _) fits

end Grow

/-! ## What has been accepted -/

def stored (patt : AcPattern) (copy : Bool) : AcPattern :=
  if copy then nodeCopyPattern patt else patt

theorem length_mpoolStrndup (str : List UInt8) : (mpoolStrndup str).length = str.length := by
  have within := (List.takeWhile_prefix (fun char => decide (char ≠ 0)) (l := str)).length_le
  simp only [mpoolStrndup, List.length_append, List.length_replicate]
  omega

theorem length_stored (patt : AcPattern) (copy : Bool) :
    (stored patt copy).ptext.length = patt.ptext.length := by
  unfold stored
  split
  next => exact length_mpoolStrndup patt.ptext
  next => rfl

/-- `ac_trie_add` takes the pattern when this holds. -/
def Accepts (entry : List UInt8 → Option AcPattern) (patt : AcPattern) : Prop :=
  patt.ptext ≠ [] ∧ patt.ptext.length ≤ acPattrnMaxLength ∧ entry patt.ptext = none

instance (entry : List UInt8 → Option AcPattern) (patt : AcPattern) :
    Decidable (Accepts entry patt) :=
  inferInstanceAs (Decidable (_ ∧ _ ∧ _))

/-- The pattern kept for each word after these calls of `ac_trie_add`. -/
def dictionary (adds : List (AcPattern × Bool)) : List UInt8 → Option AcPattern :=
  adds.foldl
    (fun entry add =>
      if Accepts entry add.1 then
        Function.update entry add.1.ptext (some (stored add.1 add.2))
      else
        entry)
    fun _ => none

theorem Pool.setNode_self (pool : Pool) (nod : Nat) (value : ActNode) :
    (pool.setNode nod value).node nod = value :=
  Function.update_self _ _ _

theorem Pool.setNode_other {n nod : Nat} (other : n ≠ nod) (pool : Pool) (value : ActNode) :
    (pool.setNode nod value).node n = pool.node n :=
  Function.update_of_ne other _ _

section Add

variable {pool : Pool} {path : Nat → List UInt8} {entry : List UInt8 → Option AcPattern}

theorem Open.accept (opened : Open pool path entry) {n : Nat} (inside : n < pool.used)
    (value : AcPattern) :
    Open (pool.setNode n { pool.node n with final := true, matched := [value] }) path
      (Function.update entry (path n) (some value)) := by
  have same : SameShape pool
      (pool.setNode n { pool.node n with final := true, matched := [value] }) :=
    sameShape_setNode (List.Perm.refl _) rfl
  have apart : ∀ m < pool.used, m ≠ n → path m ≠ path n :=
    fun m mInside other samePath => other (opened.spelled.path_inj mInside inside samePath)
  refine ⟨same.spelled opened.spelled, ?_, ?_, ?_, ?_, opened.short⟩
  · intro m mInside
    by_cases here : m = n
    · subst here
      rw [Pool.setNode_self]
      exact opened.failureNode m mInside
    · rw [Pool.setNode_other here]
      exact opened.failureNode m mInside
  · intro m mInside
    by_cases here : m = n
    · subst here
      rw [Pool.setNode_self, Function.update_self]
      rfl
    · rw [Pool.setNode_other here, Function.update_of_ne (apart m mInside here)]
      exact opened.final m mInside
  · intro m mInside
    by_cases here : m = n
    · subst here
      rw [Pool.setNode_self, Function.update_self]
      rfl
    · rw [Pool.setNode_other here, Function.update_of_ne (apart m mInside here)]
      exact opened.matched m mInside
  · intro word found present
    rw [same.isPath opened.spelled]
    by_cases here : word = path n
    · exact here ▸ opened.spelled.isPath_path inside
    · rw [Function.update_of_ne here] at present
      exact opened.known word found present

/-- `ac_trie_add` accepts a pattern of a length allowed for which there is no
entry yet, and adds its entry. -/
theorem acTrieAdd_of_accepts {thiz : AcTrie} (isOpen : thiz.trieOpen = true)
    (opened : Open thiz.pool path entry) {patt : AcPattern} (copy : Bool)
    (accepts : Accepts entry patt) :
    (acTrieAdd thiz patt copy).2 = .success ∧
      (acTrieAdd thiz patt copy).1.trieOpen = true ∧
      ∃ pathAfter, Open (acTrieAdd thiz patt copy).1.pool pathAfter
        (Function.update entry patt.ptext (some (stored patt copy))) := by
  obtain ⟨nonempty, fits, fresh⟩ := accepts
  have wordFits : (path root ++ patt.ptext).length ≤ acPattrnMaxLength := by
    rwa [opened.spelled.rootPath]
  obtain ⟨pathAfter, openedAfter, inside, word⟩ :=
    opened.addLetters opened.spelled.rooted wordFits
  rw [opened.spelled.rootPath, List.nil_append] at word
  have notFinal := openedAfter.final _ inside
  have unmatched := openedAfter.matched _ inside
  rw [word, fresh] at notFinal unmatched
  have accepted := openedAfter.accept inside (stored patt copy)
  rw [word] at accepted
  have long : ¬ patt.ptext.length > acPattrnMaxLength := Nat.not_lt.mpr fits
  have zero : ¬ patt.ptext.length = 0 := by simpa using nonempty
  have opened : ¬ ¬ thiz.trieOpen = true := not_not.mpr isOpen
  unfold acTrieAdd
  rw [if_neg opened, if_neg zero, if_neg long]
  simp only [notFinal, Option.isSome_none, Bool.false_eq_true, if_false]
  refine ⟨trivial, isOpen, pathAfter, ?_⟩
  convert accepted using 2
  simp [nodeAcceptPattern, nodeHasPattern, unmatched, stored]

theorem acTrieAdd_of_not_accepts {thiz : AcTrie} (opened : Open thiz.pool path entry)
    {patt : AcPattern} (copy : Bool) (refused : ¬ Accepts entry patt) :
    (acTrieAdd thiz patt copy).1 = thiz ∧ (acTrieAdd thiz patt copy).2 ≠ .success := by
  unfold acTrieAdd
  split
  next => exact ⟨rfl, by simp⟩
  split
  next => exact ⟨rfl, by simp⟩
  split
  next => exact ⟨rfl, by simp⟩
  next zero long =>
    have known : ∃ value, entry patt.ptext = some value := by
      rw [← Option.ne_none_iff_exists']
      intro fresh
      exact refused ⟨by simpa using zero, Nat.not_lt.mp long, fresh⟩
    obtain ⟨value, present⟩ := known
    obtain ⟨n, reached⟩ := Option.isSome_iff_exists.mp (opened.known _ _ present)
    obtain ⟨inside, word⟩ := opened.spelled.follow_root_iff.mp reached
    have final : (thiz.pool.node n).final = true := by
      rw [opened.final n inside, word, present]
      rfl
    simp [addLetters_of_follow reached, final]

end Add

theorem open_create :
    Open acTrieCreate.pool (fun _ => []) (fun _ => none) := by
  have only : ∀ n < acTrieCreate.pool.used, n = root := fun n inside => Nat.lt_one_iff.mp inside
  refine ⟨⟨Nat.one_pos, rfl, ?_, ?_, ?_, fun _ _ => rfl⟩, fun _ _ => rfl, fun _ _ => rfl,
    fun _ _ => rfl, ?_, fun _ _ => Nat.zero_le _⟩
  · intro n _ edge membership
    simp [acTrieCreate, ActNode.init] at membership
  · intro n _
    exact List.nodup_nil
  · intro n inside
    rw [only n inside]
    rfl
  · intro word found present
    simp at present

theorem open_addAll (adds : List (AcPattern × Bool)) :
    (acTrieAddAll acTrieCreate adds).trieOpen = true ∧
      ∃ path, Open (acTrieAddAll acTrieCreate adds).pool path (dictionary adds) := by
  induction adds using List.reverseRecOn with
  | nil => exact ⟨rfl, _, open_create⟩
  | append_singleton adds add inductionHypothesis =>
      obtain ⟨isOpen, path, opened⟩ := inductionHypothesis
      simp only [acTrieAddAll, dictionary, List.foldl_append, List.foldl_cons, List.foldl_nil]
      by_cases accepts : Accepts (dictionary adds) add.1
      · rw [dictionary] at accepts
        rw [if_pos accepts]
        exact (acTrieAdd_of_accepts isOpen opened add.2 accepts).2
      · have unchanged := (acTrieAdd_of_not_accepts opened add.2 accepts).1
        rw [dictionary] at accepts
        rw [if_neg accepts]
        rw [acTrieAddAll] at unchanged
        rw [unchanged]
        exact ⟨isOpen, path, opened⟩

end UAFlow.AhoCorasick
