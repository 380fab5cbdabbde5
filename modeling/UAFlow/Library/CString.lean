import Mathlib.Data.List.Infix
import Mathlib.Data.List.Range
import Mathlib.Data.List.TakeWhile

/-!
# C strings

Memory behind a `char *` as a function from offsets to bytes, with the string
functions of the C library on it.  A `List UInt8` stands for bytes that are
known, such as a literal or a field of a packet.
-/

namespace UAFlow.Library

/-- Memory that starts with the given bytes. -/
def bytesThen (bytes : List UInt8) (behind : Nat → UInt8) (offset : Nat) : UInt8 :=
  if below : offset < bytes.length then bytes[offset] else behind (offset - bytes.length)

def literal (bytes : List UInt8) : Nat → UInt8 := bytesThen bytes fun _ => 0

theorem bytesThen_of_lt {bytes : List UInt8} {offset : Nat} (below : offset < bytes.length)
    (behind : Nat → UInt8) : bytesThen bytes behind offset = bytes[offset] :=
  dif_pos below

def tolower (char : UInt8) : UInt8 :=
  if 65 ≤ char ∧ char ≤ 90 then char + 32 else char

/-- `strncasecmp` from the given offset on. -/
def strncasecmpFrom (first second : Nat → UInt8) : Nat → Nat → Int
  | _, 0 => 0
  | offset, count + 1 =>
      let difference : Int := (tolower (first offset)).toNat - (tolower (second offset)).toNat
      if difference ≠ 0 ∨ first offset = 0 then
        difference
      else
        strncasecmpFrom first second (offset + 1) count

def strncasecmp (first second : Nat → UInt8) (count : Nat) : Int :=
  strncasecmpFrom first second 0 count

/-- `strncpy`: what the destination holds afterwards. -/
def strncpy (destination source : Nat → UInt8) (count offset : Nat) : UInt8 :=
  if offset < count then
    if (List.range (offset + 1)).any fun before => source before == 0 then 0 else source offset
  else
    destination offset

/-- The string a `char` array of the given size holds. -/
def textIn (size : Nat) (buffer : Nat → UInt8) : List UInt8 :=
  ((List.range size).map buffer).takeWhile fun char => char ≠ 0

/-- `strstr`: the first place where the text goes on with `needle`. -/
def strstr (text needle : List UInt8) : Option Nat :=
  text.tails.findIdx? fun rest => needle.isPrefixOf rest

/-- The digits a text begins with, behind those read before. -/
def digitsFrom (value : Nat) : List UInt8 → Nat
  | [] => value
  | char :: text =>
      if 48 ≤ char ∧ char ≤ 57 then digitsFrom (value * 10 + (char.toNat - 48)) text else value

/-- `strtol` in base ten for a `long` of 64 bits: beyond its range the answer is
the nearest `long`. -/
def strtol (text : List UInt8) : Int :=
  let value : Int :=
    match text.dropWhile fun char => char = 32 ∨ (9 ≤ char ∧ char ≤ 13) with
    | 45 :: digits => -(digitsFrom 0 digits : Int)
    | 43 :: digits => digitsFrom 0 digits
    | digits => digitsFrom 0 digits
  max (-9223372036854775808) (min value 9223372036854775807)

/-- `atoi`, which cuts the answer of `strtol` down to an `int`. -/
def atoi (text : List UInt8) : Int :=
  (strtol text).bmod 4294967296

theorem ne_zero_of_all {text : List UInt8} (all : (text.all fun char => char != 0) = true) :
    ∀ char ∈ text, char ≠ 0 := by
  intro char membership
  exact bne_iff_ne.mp (List.all_eq_true.mp all char membership)

theorem tolower_ne_zero {char : UInt8} (nonzero : char ≠ 0) : tolower char ≠ 0 := by
  unfold tolower
  split
  next upper =>
    intro zero
    have sum : (char + 32).toNat = 0 := by rw [zero]; rfl
    rw [UInt8.toNat_add] at sum
    have low := UInt8.le_iff_toNat_le.mp upper.1
    have high := UInt8.le_iff_toNat_le.mp upper.2
    simp only [UInt8.reduceToNat] at low high sum
    omega
  next => exact nonzero

theorem strncpy_of_lt {destination source : Nat → UInt8} {count offset : Nat}
    (below : offset < count) (text : ∀ index ≤ offset, source index ≠ 0) :
    strncpy destination source count offset = source offset := by
  have none : ((List.range (offset + 1)).any fun before => source before == 0) = false := by
    simp only [List.any_eq_false, List.mem_range, beq_iff_eq]
    intro index within
    exact text index (Nat.le_of_lt_succ within)
  unfold strncpy
  simp only [if_pos below, none, Bool.false_eq_true, if_false]

theorem strncpy_of_text {destination source : Nat → UInt8} {count offset : Nat}
    (text : ∀ index < count, source index ≠ 0) :
    strncpy destination source count offset =
      if offset < count then source offset else destination offset := by
  split
  next below => exact strncpy_of_lt below fun index within => text index (within.trans_lt below)
  next outside => exact if_neg outside

theorem strncpy_congr {destination source other : Nat → UInt8} {count : Nat}
    (same : ∀ index < count, source index = other index) :
    strncpy destination source count = strncpy destination other count := by
  funext offset
  unfold strncpy
  split
  next below =>
    have zeros : ((List.range (offset + 1)).any fun before => source before == 0) =
        (List.range (offset + 1)).any fun before => other before == 0 := by
      rw [Bool.eq_iff_iff, List.any_eq_true, List.any_eq_true]
      apply exists_congr
      intro before
      apply and_congr_right
      intro membership
      rw [same before ((List.mem_range.mp membership).trans_le below)]
    rw [zeros, same offset below]
  next beyond => rfl

theorem textIn_eq {size length : Nat} {buffer : Nat → UInt8} (within : length < size)
    (text : ∀ index < length, buffer index ≠ 0) (ended : buffer length = 0) :
    textIn size buffer = (List.range length).map buffer := by
  have cut : List.range size =
      List.range length ++ (List.range (size - length)).map (length + ·) := by
    rw [← List.range_add, Nat.add_sub_cancel' within.le]
  obtain ⟨rest, remaining⟩ : ∃ rest, size - length = rest + 1 :=
    ⟨size - length - 1, by omega⟩
  unfold textIn
  rw [cut, List.map_append, List.takeWhile_append_of_pos, remaining, List.range_succ_eq_map]
  · simp [ended]
  · intro char membership
    obtain ⟨index, below, rfl⟩ := List.mem_map.mp membership
    exact decide_eq_true (text index (List.mem_range.mp below))

/-- `strncasecmp` finds no difference with a text that has no terminator among
the characters compared: they are the same up to case. -/
theorem strncasecmpFrom_eq_zero_iff {first second : Nat → UInt8} {offset count : Nat}
    (text : ∀ index, offset ≤ index → index < offset + count → second index ≠ 0) :
    strncasecmpFrom first second offset count = 0 ↔
      ∀ index, offset ≤ index → index < offset + count →
        tolower (first index) = tolower (second index) := by
  induction count generalizing offset with
  | zero =>
      simp only [strncasecmpFrom, true_iff]
      intro index lower upper
      omega
  | succ count inductionHypothesis =>
      have rest := inductionHypothesis (fun index lower upper =>
        text index (Nat.le_of_succ_le lower) (by omega))
      have here : ∀ index, offset ≤ index → index < offset + (count + 1) →
          index = offset ∨ (offset + 1 ≤ index ∧ index < offset + 1 + count) := by omega
      rw [strncasecmpFrom]
      by_cases same : tolower (first offset) = tolower (second offset)
      · by_cases ended : first offset = 0
        · have mismatch : tolower (second offset) = 0 := by
            rw [← same, ended]
            rfl
          exact absurd mismatch (tolower_ne_zero (text offset le_rfl (by omega)))
        · simp only [same, Int.sub_self, ne_eq, not_true_eq_false, ended, or_self, if_false, rest]
          constructor
          · intro behind index lower upper
            rcases here index lower upper with rfl | ⟨after, before⟩
            · exact same
            · exact behind index after before
          · intro all index lower upper
            exact all index (by omega) (by omega)
      · have different : ((tolower (first offset)).toNat : Int) -
            (tolower (second offset)).toNat ≠ 0 := by
          intro zero
          exact same (UInt8.toNat_inj.mp (by omega))
        simp only [different, ne_eq, not_false_eq_true, true_or, if_true, false_iff]
        intro all
        exact same (all offset le_rfl (by omega))

theorem strncasecmp_literal_eq_zero_iff {memory : Nat → UInt8} {text : List UInt8}
    (nulFree : ∀ char ∈ text, char ≠ 0) :
    strncasecmp memory (literal text) text.length = 0 ↔
      ∀ index (below : index < text.length), tolower (memory index) = tolower text[index] := by
  have known : ∀ index (below : index < text.length), literal text index = text[index] :=
    fun index below => bytesThen_of_lt below _
  rw [strncasecmp, strncasecmpFrom_eq_zero_iff]
  · constructor
    · intro same index below
      rw [← known index below]
      exact same index (Nat.zero_le _) (by rwa [Nat.zero_add])
    · intro same index _ upper
      rw [Nat.zero_add] at upper
      rw [known index upper]
      exact same index upper
  · intro index _ upper
    rw [Nat.zero_add] at upper
    rw [known index upper]
    exact nulFree _ (List.getElem_mem upper)

/-- `needle` begins at this place of the text and at none before. -/
def FirstAt (needle text : List UInt8) (place : Nat) : Prop :=
  needle <+: text.drop place ∧ ∀ earlier < place, ¬ needle <+: text.drop earlier

theorem strstr_eq_some {text needle : List UInt8} {place : Nat} (nonempty : needle ≠ [])
    (first : FirstAt needle text place) : strstr text needle = some place := by
  have inside : place < text.tails.length := by
    have length := first.1.length_le
    rw [List.length_drop] at length
    have positive := List.length_pos_iff.mpr nonempty
    rw [List.length_tails]
    omega
  rw [strstr, List.findIdx?_eq_some_iff_getElem]
  refine ⟨inside, ?_, fun earlier before => ?_⟩
  · rw [List.getElem_tails]
    exact List.isPrefixOf_iff_prefix.mpr first.1
  · rw [List.getElem_tails, List.isPrefixOf_iff_prefix]
    exact first.2 earlier before

theorem strstr_eq_none {text needle : List UInt8} (absent : ¬ needle <:+: text) :
    strstr text needle = none := by
  apply List.findIdx?_eq_none_iff.mpr
  intro rest membership
  apply Bool.eq_false_iff.mpr
  intro starts
  have suffix := (List.mem_tails _ _).mp membership
  exact absent ((List.isPrefixOf_iff_prefix.mp starts).isInfix.trans suffix.isInfix)

end UAFlow.Library
