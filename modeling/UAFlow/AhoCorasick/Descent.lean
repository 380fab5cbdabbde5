import UAFlow.AhoCorasick.Finalized

/-!
# The descent from the root

One buffer serves all branches of `ac_trie_traverse_setfailure`.  Every call still
finds the letters of its own node in it, and so the failure node of each node is
the one for the longest proper suffix of its word.
-/

namespace UAFlow.AhoCorasick

open Library

variable {pool other : Pool} {path : Nat → List UInt8}

/-- `best` is the longest of the proper suffixes of `word` that the trie spells. -/
structure LongestProperSuffix (pool : Pool) (word best : List UInt8) : Prop where
  suffix : best <:+ word
  proper : best ≠ word
  isPath : IsPath pool best
  longest : ∀ part, part <:+ word → part ≠ word → IsPath pool part → part.length ≤ best.length

theorem longestProperSuffix_tail {word : List UInt8} (nonempty : word ≠ []) :
    LongestProperSuffix pool word (longestSuffix (IsPath pool) word.tail) := by
  obtain ⟨alpha, word, rfl⟩ := List.exists_cons_of_ne_nil nonempty
  have suffix := longestSuffix_suffix (IsPath pool) word
  constructor
  · exact suffix.trans (List.suffix_cons alpha word)
  · intro whole
    have shorter := suffix.length_le
    rw [List.tail_cons] at whole
    rw [whole, List.length_cons] at shorter
    omega
  · exact path_longestSuffix (isPath_empty pool) word
  · intro part isSuffix proper isPath
    rcases List.suffix_cons_iff.mp isSuffix with whole | inTail
    · exact absurd whole proper
    · exact (suffix_longestSuffix isPath inTail).length_le

def FailsToLongestSuffix (pool other : Pool) (nod : Nat) : Prop :=
  ∃ word failure suffix, LeadsTo pool word nod ∧
    (other.node nod).failureNode = some failure ∧ LeadsTo pool suffix failure ∧
    LongestProperSuffix pool word suffix

theorem FailureSet.failsToLongestSuffix {nod : Nat} (spelled : Spelled pool path)
    (refailed : Refailed pool other) (inside : nod < pool.used) (notRoot : nod ≠ root)
    (isSet : FailureSet other path nod) : FailsToLongestSuffix pool other nod := by
  obtain ⟨failure, fails, assigned⟩ := isSet
  obtain ⟨failureInside, suffix⟩ := (refailed.fails_iff spelled nod failure).mp fails
  have nonempty : path nod ≠ [] := (spelled.path_eq_nil_iff inside).not.mpr notRoot
  refine ⟨path nod, failure, path failure, spelled.leadsTo inside, assigned,
    spelled.leadsTo failureInside, ?_⟩
  rw [suffix]
  exact longestProperSuffix_tail nonempty

/-- A call finds the word of its node in `prefix[0 .. depth)`, and a write is inside it. -/
def PrefixEvent.Proper (pool : Pool) : PrefixEvent → Prop
  | .call nod pref =>
      nod < pool.used ∧ LeadsTo pool ((List.range (pool.node nod).depth).map pref) nod
  | .write index => index < acPattrnMaxLength

theorem PrefixEvent.Right.proper {event : PrefixEvent} (spelled : Spelled pool path)
    (right : event.Right pool.used path) : event.Proper pool := by
  cases event with
  | call nod pref =>
      obtain ⟨inside, holds⟩ := right
      unfold Holds at holds
      refine ⟨inside, ?_⟩
      rw [spelled.depth nod inside, List.range_eq_range', holds]
      exact spelled.leadsTo inside
  | write index => exact right

/-- After any calls of `ac_trie_add` and whatever is in `prefix` at first, the descent
from the root returns and gives every node but the root its failure node; no call
finds other letters than those of its node, and no write is past the end. -/
theorem descent_sets_failures (adds : List (AcPattern × Bool)) (pref : Nat → UInt8) :
    ∃ other prefAfter events,
      acTrieTraverseSetfailure (acPattrnMaxLength + 1) (acTrieAddAll acTrieCreate adds).pool
        root pref = .ok (other, prefAfter) ∧
      traverseSetfailureTraced (acPattrnMaxLength + 1) (acTrieAddAll acTrieCreate adds).pool
        root pref = .ok ((other, prefAfter), events) ∧
      (∀ nod < (acTrieAddAll acTrieCreate adds).pool.used, nod ≠ root →
        FailsToLongestSuffix (acTrieAddAll acTrieCreate adds).pool other nod) ∧
      ∀ event ∈ events, event.Proper (acTrieAddAll acTrieCreate adds).pool := by
  obtain ⟨_, path, opened⟩ := open_addAll adds
  have spelled := opened.spelled
  have enough : acPattrnMaxLength < acPattrnMaxLength + 1 + (path root).length := by omega
  have holds : Holds pref (path root) := by
    rw [spelled.rootPath]
    rfl
  obtain ⟨other, prefAfter, events, returned, traced, right, traversed, _⟩ :=
    traverseSetfailureTraced_ok _ spelled opened.partlyFailing opened.short spelled.rooted
      enough holds
  refine ⟨other, prefAfter, events, returned, traced, ?_, ?_⟩
  · intro nod inside notRoot
    have below : path root <+: path nod := by
      rw [spelled.rootPath]
      exact List.nil_prefix
    have isSet := traversed.set nod inside below notRoot
    exact isSet.failsToLongestSuffix spelled traversed.refailed inside notRoot
  · intro event membership
    exact (right event membership).proper spelled

end UAFlow.AhoCorasick
