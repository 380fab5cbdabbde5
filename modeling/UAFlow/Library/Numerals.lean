import Mathlib.Data.List.Basic

/-!
Numerals.

A numeral is read from its first digit on.  A reader with a limit looks at the value so
far before each digit it adds, and so accepts all values up to a bound of its own.
-/

namespace UAFlow.Library

/-- The value of digits behind others that had the value `start`. -/
def valueFrom (base start : Nat) (digits : List Nat) : Nat :=
  digits.foldl (fun value digit => value * base + digit) start

/-- Reads digits as long as the value so far does not exceed the limit. -/
def readDigits (base limit : Nat) : Nat → List Nat → Option Nat
  | value, [] => some value
  | value, digit :: digits =>
      if limit < value then none else readDigits base limit (value * base + digit) digits

variable {base : Nat}

theorem le_valueFrom (positive : 0 < base) (start : Nat) (digits : List Nat) :
    start ≤ valueFrom base start digits := by
  induction digits generalizing start with
  | nil => exact Nat.le_refl start
  | cons digit digits inductionHypothesis =>
      calc start ≤ start * base := Nat.le_mul_of_pos_right start positive
        _ ≤ start * base + digit := Nat.le_add_right _ _
        _ ≤ valueFrom base start (digit :: digits) := inductionHypothesis _

/-- A reader with a limit accepts what is not above the largest number whose digits but
the last are within the limit. -/
theorem readDigits_eq {limit start : Nat} (positive : 0 < base) {digits : List Nat}
    (small : ∀ digit ∈ digits, digit < base) (begins : start ≤ limit * base + (base - 1)) :
    readDigits base limit start digits =
      if valueFrom base start digits ≤ limit * base + (base - 1) then
        some (valueFrom base start digits)
      else
        none := by
  induction digits generalizing start with
  | nil => rw [readDigits, if_pos (show valueFrom base start [] ≤ _ from begins)]; rfl
  | cons digit digits inductionHypothesis =>
      have below := small digit List.mem_cons_self
      have grows := le_valueFrom positive (start * base + digit) digits
      rw [readDigits]
      by_cases beyond : limit < start
      · have large : (limit + 1) * base ≤ start * base := Nat.mul_le_mul_right base beyond
        rw [Nat.succ_mul] at large
        rw [if_pos beyond, if_neg]
        show ¬valueFrom base (start * base + digit) digits ≤ _
        omega
      · have within : start * base ≤ limit * base :=
          Nat.mul_le_mul_right base (Nat.le_of_not_lt beyond)
        rw [if_neg beyond, inductionHypothesis
          (fun other among => small other (List.mem_cons_of_mem digit among)) (by omega)]
        rfl

end UAFlow.Library
