import UAFlow.Library.CString

/-!
# Reading a file line by line

A stream of the C library as what is left to read and the end-of-file flag, which
is set only by an attempt to read beyond the end.  A program that asks `feof`
before it calls `fgets` therefore goes once more through a buffer that was not
filled.  Lines that fit into the buffer are nevertheless seen one by one.
-/

namespace UAFlow.Library

structure Stream where
  rest : List UInt8
  feof : Bool

def newline : UInt8 := 10

/-- At most so many characters, up to and with the first newline. -/
def getline : Nat → List UInt8 → List UInt8 × Stream
  | 0, rest => ([], ⟨rest, false⟩)
  | _ + 1, [] => ([], ⟨[], true⟩)
  | count + 1, char :: rest =>
      if char = newline then
        ([char], ⟨rest, false⟩)
      else
        let (read, stream) := getline count rest
        (char :: read, stream)

def storedIn (buff : Nat → UInt8) (read : List UInt8) (offset : Nat) : UInt8 :=
  (read ++ [0]).getD offset (buff offset)

/-- `fgets`; the buffer is left as it is when there is nothing to read. -/
def fgets (buff : Nat → UInt8) (size : Nat) (stream : Stream) : (Nat → UInt8) × Stream :=
  let (read, stream) := getline (size - 1) stream.rest
  (if read = [] then buff else storedIn buff read, stream)

/-- `while (!feof(fp))` with `fgets` at the top of the body, left as soon as a test
holds of the buffer.  The result is the buffer then, if the loop was left so;
`none` when the loop has not ended within the steps allowed. -/
def readLoop (test : (Nat → UInt8) → Bool) (size : Nat) :
    Nat → (Nat → UInt8) → Stream → Option (Option (Nat → UInt8))
  | 0, _, _ => none
  | fuel + 1, buff, stream =>
      if stream.feof then
        some none
      else
        let (buff, stream) := fgets buff size stream
        if test buff then some (some buff) else readLoop test size fuel buff stream

/-! ## One line -/

theorem storedIn_of_lt {read : List UInt8} {offset : Nat} (below : offset < read.length)
    (buff : Nat → UInt8) : storedIn buff read offset = read[offset] := by
  rw [storedIn, List.getD_eq_getElem?_getD, List.getElem?_append_left below,
    List.getElem?_eq_getElem below]
  rfl

theorem storedIn_length (buff : Nat → UInt8) (read : List UInt8) :
    storedIn buff read read.length = 0 := by
  simp [storedIn]

theorem textIn_storedIn {read : List UInt8} {size : Nat} (nulFree : ∀ char ∈ read, char ≠ 0)
    (fits : read.length < size) (buff : Nat → UInt8) : textIn size (storedIn buff read) = read := by
  rw [textIn_eq fits _ (storedIn_length buff read)]
  · apply List.ext_getElem (by simp)
    intro offset _ inside
    rw [List.getElem_map, List.getElem_range, storedIn_of_lt inside]
  · intro offset below
    rw [storedIn_of_lt below]
    exact nulFree _ (List.getElem_mem below)

theorem strncasecmp_storedIn_eq_zero_iff {read text : List UInt8} {place : Nat}
    (within : place ≤ read.length) (nulFree : ∀ char ∈ text, char ≠ 0) (buff : Nat → UInt8) :
    strncasecmp (fun offset => storedIn buff read (place + offset)) (literal text) text.length = 0 ↔
      text.map tolower <+: (read.drop place).map tolower := by
  rw [strncasecmp_literal_eq_zero_iff nulFree, List.prefix_iff_getElem?]
  constructor
  · intro same index below
    rw [List.length_map] at below
    rcases Nat.lt_or_ge (place + index) read.length with inside | outside
    · have here := same index below
      rw [storedIn_of_lt inside] at here
      rw [List.getElem?_map, List.getElem?_drop, List.getElem?_eq_getElem inside, Option.map_some,
        here, List.getElem_map]
    · -- the terminator of the string is compared with a character of the text
      have last : read.length - place < text.length :=
        Nat.lt_of_le_of_lt (Nat.sub_le_iff_le_add'.mpr outside) below
      have here := same (read.length - place) last
      rw [Nat.add_sub_cancel' within, storedIn_length] at here
      exact absurd here.symm (tolower_ne_zero (nulFree _ (List.getElem_mem last)))
  · intro starts index below
    have here := starts index (by rwa [List.length_map])
    rw [List.getElem?_map, List.getElem?_drop] at here
    obtain ⟨char, there, same⟩ := Option.map_eq_some_iff.mp here
    obtain ⟨inside, rfl⟩ := List.getElem?_eq_some_iff.mp there
    rw [storedIn_of_lt inside, same, List.getElem_map]

theorem getline_terminated {text : List UInt8} (plain : newline ∉ text) {count : Nat}
    (room : text.length < count) (rest : List UInt8) :
    getline count (text ++ newline :: rest) = (text ++ [newline], ⟨rest, false⟩) := by
  induction text generalizing count with
  | nil =>
      obtain ⟨count, rfl⟩ := Nat.exists_eq_add_of_lt room
      simp [getline]
  | cons char text inductionHypothesis =>
      obtain ⟨other, plain⟩ := List.ne_and_not_mem_of_not_mem_cons plain
      cases count with
      | zero => exact absurd room (Nat.not_lt_zero _)
      | succ count =>
          rw [List.cons_append, getline, if_neg (Ne.symm other),
            inductionHypothesis plain (Nat.lt_of_succ_lt_succ room)]
          rfl

/-- A last line without a newline; the end of the file is noticed if there was room
to read on. -/
theorem getline_last {text : List UInt8} (plain : newline ∉ text) {count : Nat}
    (room : text.length ≤ count) :
    getline count text = (text, ⟨[], decide (text.length < count)⟩) := by
  induction text generalizing count with
  | nil => cases count <;> rfl
  | cons char text inductionHypothesis =>
      obtain ⟨other, plain⟩ := List.ne_and_not_mem_of_not_mem_cons plain
      cases count with
      | zero => exact absurd room (Nat.not_succ_le_zero _)
      | succ count =>
          rw [getline, if_neg (Ne.symm other), inductionHypothesis plain (Nat.le_of_succ_le_succ room)]
          simp

/-! ## All lines -/

/-- A line that fits into the buffer; only its last character may be a newline. -/
structure IsLine (size : Nat) (line : List UInt8) : Prop where
  nonempty : line ≠ []
  plain : newline ∉ line.dropLast
  short : line.length < size

/-- All lines but the last one have a newline. -/
structure AreLines (size : Nat) (lines : List (List UInt8)) : Prop where
  each : ∀ line ∈ lines, IsLine size line
  ended : ∀ line ∈ lines.dropLast, line.getLast? = some newline

theorem AreLines.tail {size : Nat} {line : List UInt8} {lines : List (List UInt8)}
    (areLines : AreLines size (line :: lines)) : AreLines size lines where
  each other membership := areLines.each other (List.mem_cons_of_mem line membership)
  ended other membership := by
    cases lines with
    | nil => exact absurd membership List.not_mem_nil
    | cons next lines => exact areLines.ended other (List.mem_cons_of_mem line membership)

theorem AreLines.length_le {size : Nat} {lines : List (List UInt8)} (areLines : AreLines size lines) :
    lines.length ≤ lines.flatten.length := by
  induction lines with
  | nil => exact Nat.le_refl _
  | cons line lines inductionHypothesis =>
      have positive := List.length_pos_iff.mpr (areLines.each line List.mem_cons_self).nonempty
      have rest := inductionHypothesis areLines.tail
      rw [List.flatten_cons, List.length_append, List.length_cons]
      omega

theorem getline_line {size : Nat} {line : List UInt8} {lines : List (List UInt8)}
    (areLines : AreLines size (line :: lines)) :
    getline (size - 1) (line :: lines).flatten = (line, ⟨lines.flatten, false⟩) ∨
      lines = [] ∧ ∃ feof, getline (size - 1) (line :: lines).flatten = (line, ⟨[], feof⟩) := by
  have isLine := areLines.each line List.mem_cons_self
  have short : line.length ≤ size - 1 := Nat.le_pred_of_lt isLine.short
  rw [List.flatten_cons]
  by_cases terminated : line.getLast? = some newline
  · obtain ⟨text, rfl⟩ := List.getLast?_eq_some_iff.mp terminated
    have plain := isLine.plain
    rw [List.dropLast_concat] at plain
    rw [List.length_append] at short
    left
    rw [List.append_assoc]
    exact getline_terminated plain short lines.flatten
  · right
    have last : lines = [] := by
      cases lines with
      | nil => rfl
      | cons next lines => exact absurd (areLines.ended line List.mem_cons_self) terminated
    have plain : newline ∉ line := by
      intro membership
      rw [← List.dropLast_append_getLast isLine.nonempty] at membership
      rcases List.mem_append.mp membership with inside | atEnd
      · exact isLine.plain inside
      · rw [List.mem_singleton.mp atEnd] at terminated
        exact terminated (List.getLast?_eq_getLast_of_ne_nil isLine.nonempty)
    refine ⟨last, decide (line.length < size - 1), ?_⟩
    rw [last, List.flatten_nil, List.append_nil]
    exact getline_last plain short

/-- At the end of the file the loop looks at most once more at what it has seen. -/
theorem readLoop_end {test : (Nat → UInt8) → Bool} {size : Nat} (room : 2 ≤ size)
    {buff : Nat → UInt8} (seen : test buff = false) (feof : Bool) {fuel : Nat} (enough : 2 ≤ fuel) :
    readLoop test size fuel buff ⟨[], feof⟩ = some none := by
  obtain ⟨fuel, rfl⟩ := Nat.exists_eq_add_of_le' enough
  obtain ⟨count, rfl⟩ := Nat.exists_eq_add_of_le' room
  cases feof with
  | true => rfl
  | false => simp [readLoop, fgets, getline, seen]

theorem readLoop_round {test : (Nat → UInt8) → Bool} {size : Nat} {rest line : List UInt8}
    {stream : Stream} (read : getline (size - 1) rest = (line, stream)) (nonempty : line ≠ [])
    (fuel : Nat) (buff : Nat → UInt8) :
    readLoop test size (fuel + 1) buff ⟨rest, false⟩ =
      if test (storedIn buff line) then some (some (storedIn buff line))
      else readLoop test size fuel (storedIn buff line) stream := by
  simp [readLoop, fgets, read, nonempty]

/-- The loop finds the first line for which the test holds. -/
theorem readLoop_lines {test : (Nat → UInt8) → Bool} {judge : List UInt8 → Bool} {size : Nat}
    (room : 2 ≤ size) {lines : List (List UInt8)} (areLines : AreLines size lines)
    (judges : ∀ line ∈ lines, ∀ buff, test (storedIn buff line) = judge line)
    {buff : Nat → UInt8} (seen : test buff = false) {fuel : Nat} (enough : lines.length + 2 ≤ fuel) :
    ∃ stale, readLoop test size fuel buff ⟨lines.flatten, false⟩ =
      some ((lines.find? judge).map (storedIn stale)) := by
  induction lines generalizing buff fuel with
  | nil => exact ⟨buff, readLoop_end room seen false enough⟩
  | cons line lines inductionHypothesis =>
      rw [List.length_cons] at enough
      obtain ⟨fuel, rfl⟩ : ∃ less, fuel = less + 1 := ⟨fuel - 1, by omega⟩
      have nonempty := (areLines.each line List.mem_cons_self).nonempty
      have judged := judges line List.mem_cons_self buff
      cases decided : judge line with
      | true =>
          rw [decided] at judged
          refine ⟨buff, ?_⟩
          rw [List.find?_cons_of_pos decided]
          rcases getline_line areLines with read | ⟨_, feof, read⟩
          · rw [readLoop_round read nonempty, if_pos judged]
            rfl
          · rw [readLoop_round read nonempty, if_pos judged]
            rfl
      | false =>
          rw [decided] at judged
          have fails : ¬ test (storedIn buff line) = true := Bool.eq_false_iff.mp judged
          rw [List.find?_cons_of_neg (Bool.eq_false_iff.mp decided)]
          rcases getline_line areLines with read | ⟨rfl, feof, read⟩
          · rw [readLoop_round read nonempty, if_neg fails]
            exact inductionHypothesis areLines.tail
              (fun other membership => judges other (List.mem_cons_of_mem line membership))
              judged (Nat.le_of_succ_le_succ enough)
          · rw [readLoop_round read nonempty, if_neg fails]
            exact ⟨buff, readLoop_end room judged feof (Nat.le_of_succ_le_succ enough)⟩

end UAFlow.Library
