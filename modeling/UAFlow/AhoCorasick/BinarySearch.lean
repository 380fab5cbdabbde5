import Mathlib.Algebra.Ring.Int.Defs
import Mathlib.Algebra.Ring.Nat
import UAFlow.AhoCorasick.Finalized

/-!
# Binary search in machine words

`node_find_next_bs` keeps its bounds in `int` and its midpoint in `size_t`.  The
bounds of an empty node and of a search that goes on before the first edge pass
through the largest `size_t` on their way to -1.  A node has at most 256 edges,
so no other conversion changes a value.
-/

namespace UAFlow.AhoCorasick

open Library

/-- The loop of `node_find_next_bs`; nothing is returned when it reads an edge
outside the array or has not ended within the steps allowed. -/
def findNextBsWords (outgoing : List ActEdge) (alpha : UInt8) :
    Nat → Int32 → Int32 → Option (Option Nat)
  | 0, _, _ => none
  | fuel + 1, min, max =>
      if min ≤ max then
        let mid : UInt64 := ((min + max) >>> 1).toInt64.toUInt64
        match outgoing[mid.toNat]? with
        | none => none
        | some edge =>
            if charValue alpha > charValue edge.alpha then
              findNextBsWords outgoing alpha fuel (mid + 1).toInt64.toInt32 max
            else if charValue alpha < charValue edge.alpha then
              findNextBsWords outgoing alpha fuel min (mid - 1).toInt64.toInt32
            else
              some (some edge.next)
      else
        some none

def nodeFindNextBsWords (pool : Pool) (nod : Nat) (alpha : UInt8) : Option (Option Nat) :=
  let outgoing := (pool.node nod).outgoing
  findNextBsWords outgoing alpha (outgoing.length + 1) 0
    (UInt64.ofNat outgoing.length - 1).toInt64.toInt32

/-! ## Conversions -/

theorem midpoint_toNat {sum : Nat} (small : sum < 2 ^ 31) :
    ((Int32.ofNat sum) >>> 1).toInt64.toUInt64.toNat = sum / 2 := by
  have halved : ((Int32.ofNat sum) >>> 1).toInt = (sum : Int) / 2 := by
    rw [← Int32.toInt_toBitVec, Int32.toBitVec_shiftRight, BitVec.toInt_sshiftRight',
      Int32.toInt_toBitVec, Int32.toInt_ofNat_of_lt small, Int.shiftRight_eq_div_pow]
    rfl
  have nonnegative : (0 : Int64) ≤ ((Int32.ofNat sum) >>> 1).toInt64 := by
    rw [Int64.le_iff_toInt_le, Int32.toInt_toInt64, halved]
    exact Int.ediv_nonneg (Int.natCast_nonneg _) (by decide)
  rw [Int64.toNat_toUInt64_of_le nonnegative, Int64.toNatClampNeg, Int32.toInt_toInt64, halved]
  omega

theorem before_toInt32 (index : Nat) :
    (UInt64.ofNat index - 1).toInt64.toInt32 = Int32.ofInt (index - 1) := by
  simp [← Int32.ofInt_eq_ofNat]

theorem behind_toInt32 (index : Nat) :
    (UInt64.ofNat index + 1).toInt64.toInt32 = Int32.ofInt (index + 1) := by
  simp [← Int32.ofInt_eq_ofNat]

theorem ofInt_le_iff {min max : Int} (lower : -1 ≤ min) (least : -1 ≤ max) (minSmall : min < 2 ^ 31)
    (maxSmall : max < 2 ^ 31) : Int32.ofInt min ≤ Int32.ofInt max ↔ min ≤ max := by
  rw [Int32.le_iff_toInt_le, Int32.toInt_ofInt_of_le (by omega) minSmall,
    Int32.toInt_ofInt_of_le (by omega) maxSmall]

theorem midpoint_ofInt {min max : Int} (lower : 0 ≤ min) (ordered : min ≤ max)
    (small : max < 2 ^ 30) :
    ((Int32.ofInt min + Int32.ofInt max) >>> 1).toInt64.toUInt64 =
      UInt64.ofNat ((min + max) / 2).toNat := by
  obtain ⟨sum, total⟩ := Int.eq_ofNat_of_zero_le (show 0 ≤ min + max by omega)
  have words : Int32.ofInt min + Int32.ofInt max = Int32.ofNat sum := by
    rw [← Int32.ofInt_add, total, Int32.ofInt_eq_ofNat]
  apply UInt64.toNat_inj.mp
  rw [words, midpoint_toNat (by omega), UInt64.toNat_ofNat_of_lt' (by rw [UInt64.size]; omega)]
  omega

/-! ## The loop -/

/-- In words the loop does what it does on numbers, and reads inside the array. -/
theorem findNextBsWords_eq {outgoing : List ActEdge} (few : outgoing.length ≤ 256) (alpha : UInt8)
    (fuel : Nat) {min max : Int} (lower : 0 ≤ min) (ordered : min ≤ max + 1)
    (upper : max < outgoing.length) (enough : max - min + 1 < fuel) :
    findNextBsWords outgoing alpha fuel (Int32.ofInt min) (Int32.ofInt max) =
      some (findNextBsLoop outgoing alpha fuel min max) := by
  induction fuel generalizing min max with
  | zero => omega
  | succ fuel inductionHypothesis =>
      have compared : Int32.ofInt min ≤ Int32.ofInt max ↔ min ≤ max :=
        ofInt_le_iff (by omega) (by omega) (by omega) (by omega)
      rw [findNextBsWords, findNextBsLoop]
      by_cases range : min ≤ max
      · have inside : ((min + max) / 2).toNat < outgoing.length := by omega
        have index : ((((min + max) / 2).toNat : Nat) : Int) = (min + max) / 2 :=
          Int.toNat_of_nonneg (by omega)
        have word : (UInt64.ofNat ((min + max) / 2).toNat).toNat = ((min + max) / 2).toNat :=
          UInt64.toNat_ofNat_of_lt' (by rw [UInt64.size]; omega)
        simp only [if_pos range, if_pos (compared.mpr range), midpoint_ofInt lower range (by omega),
          word, List.getElem?_eq_getElem inside, before_toInt32, behind_toInt32, index]
        split
        next => exact inductionHypothesis (by omega) (by omega) upper (by omega)
        next =>
          split
          next => exact inductionHypothesis lower (by omega) (by omega) (by omega)
          next => rfl
      · rw [if_neg range, if_neg (mt compared.mp range)]

theorem length_le_of_distinct {outgoing : List ActEdge}
    (distinct : (outgoing.map ActEdge.alpha).Nodup) : outgoing.length ≤ 256 := by
  have values : ((outgoing.map ActEdge.alpha).map UInt8.toNat).Nodup :=
    distinct.map fun _ _ => UInt8.toNat_inj.mp
  have below : (outgoing.map ActEdge.alpha).map UInt8.toNat ⊆ List.range 256 := by
    intro value membership
    obtain ⟨alpha, _, rfl⟩ := List.mem_map.mp membership
    exact List.mem_range.mpr alpha.toNat_lt
  have bound := (List.subperm_of_subset values below).length_le
  rwa [List.length_map, List.length_map, List.length_range] at bound

theorem nodeFindNextBsWords_eq {pool : Pool} {nod : Nat}
    (distinct : ((pool.node nod).outgoing.map ActEdge.alpha).Nodup) (alpha : UInt8) :
    nodeFindNextBsWords pool nod alpha = some (nodeFindNextBs pool nod alpha) := by
  rw [nodeFindNextBsWords, before_toInt32]
  exact findNextBsWords_eq (length_le_of_distinct distinct) alpha _ le_rfl (by omega) (by omega)
    (by omega)

/-- After finalizing, the binary search of any node for any letter finds the child
that the linear one found before, and none where that one found none. -/
theorem binary_search_finds_child (adds : List (AcPattern × Bool)) :
    ∃ thiz, acTrieFinalize (acTrieAddAll acTrieCreate adds) = .ok thiz ∧
      thiz.pool.used = (acTrieAddAll acTrieCreate adds).pool.used ∧
      ∀ nod < thiz.pool.used, ∀ alpha,
        nodeFindNextBsWords thiz.pool nod alpha =
          some (nodeFindNext (acTrieAddAll acTrieCreate adds).pool nod alpha) := by
  obtain ⟨_, path, opened⟩ := open_addAll adds
  obtain ⟨pool, finalizes, finalized, same⟩ :=
    acTrieFinalize_ok opened (wellKept_dictionary adds)
  refine ⟨_, finalizes, same.used, ?_⟩
  intro nod inside alpha
  have before : nod < (acTrieAddAll acTrieCreate adds).pool.used := same.used ▸ inside
  rw [nodeFindNextBsWords_eq (finalized.spelled.distinct nod inside),
    finalized.findNextBs inside, same.nodeFindNext opened.spelled before]

end UAFlow.AhoCorasick
