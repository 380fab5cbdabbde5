import UAFlow.Http.Names
import UAFlow.Http.Loops
import UAFlow.Library.Numerals

/-!
# Values

What the parser makes of the value of a header that tells how long the body is.
-/

namespace UAFlow.Http

open Library

variable {parser : HttpParser} {text : List UInt8} {ch : UInt8}

def Rejected (scanned : Scanned HttpParser UInt8 Symbol) (errno : HttpErrno) : Prop :=
  ∃ state rest, scanned.ending = .failed state rest ∧ state.httpErrno = errno

theorem Rejected.put {scanned : Scanned HttpParser UInt8 Symbol} {errno : HttpErrno}
    (rejected : Rejected scanned errno) (symbols : List Symbol) :
    Rejected (scanned.put symbols) errno :=
  rejected

theorem scan_valueChar (here : parser.state = .sHeaderValue) (line : ¬(ch = cr ∨ ch = lf))
    {next : HttpParser} {hState : HeaderState}
    (good : valueChar parser parser.headerState ch = .ok (some (next, hState)))
    (rest : List UInt8) :
    httpScanner.scan parser (ch :: rest) =
      (httpScanner.scan { next with headerState := hState } rest).put
        [.letter .headerValue ch] :=
  Scanner.scan_read (react_value_read here line good)

theorem scan_valueEnd (here : parser.state = .sHeaderValue) (rest : List UInt8) :
    httpScanner.scan parser (cr :: rest) =
      (httpScanner.scan { parser with state := .sHeaderAlmostDone } rest).put
        [.closed .headerValue] :=
  Scanner.scan_read ((react_valueEnd here (Or.inl rfl)).trans (if_pos rfl))

/-! ## Lengths -/

def digit (ch : UInt8) : Nat := ch.toNat - (byte '0').toNat

theorem isNum_iff : isNum ch = true ↔ 48 ≤ ch.toNat ∧ ch.toNat ≤ 57 := by
  simp [isNum, UInt8.le_iff_toNat_le, show (byte '0').toNat = 48 from rfl,
    show (byte '9').toNat = 57 from rfl]

theorem digit_lt (num : isNum ch = true) : digit ch < 10 := by
  have := isNum_iff.mp num
  unfold digit
  rw [show (byte '0').toNat = 48 from rfl]
  omega

theorem toNat_digit (num : isNum ch = true) : (ch - byte '0').toUInt64.toNat = digit ch := by
  have := isNum_iff.mp num
  unfold digit
  rw [UInt8.toNat_toUInt64, UInt8.toNat_sub_of_le]
  rw [UInt8.le_iff_toNat_le, show (byte '0').toNat = 48 from rfl]
  exact this.1

def lengthLimit : Nat := 1844674407370955160

theorem lengthLimit_iff (length : UInt64) :
    (ullongMax - 10) / 10 < length ↔ lengthLimit < length.toNat := by
  rw [UInt64.lt_iff_toNat_lt]
  rfl

/-- The characters of a length: digits, and blanks that are passed over. -/
def lengthText (text : List UInt8) : Bool := text.all fun ch => ch = byte ' ' || isNum ch

def lengthDigits (text : List UInt8) : List Nat :=
  (text.filter fun ch => ch ≠ byte ' ').map digit

/-- What a text adds to a length. -/
def lengthFrom (value : Nat) (text : List UInt8) : Option Nat :=
  if lengthText text then readDigits 10 lengthLimit value (lengthDigits text) else none

/-- The largest length that is accepted is six short of what fits. -/
def lengthMax : Nat := 18446744073709551609

theorem lengthFrom_eq (text : List UInt8) :
    lengthFrom 0 text =
      if lengthText text = true ∧ valueFrom 10 0 (lengthDigits text) ≤ lengthMax then
        some (valueFrom 10 0 (lengthDigits text))
      else
        none := by
  unfold lengthFrom
  by_cases digits : lengthText text = true
  · have small : ∀ digit ∈ lengthDigits text, digit < 10 := by
      intro number among
      obtain ⟨ch, kept, rfl⟩ := List.mem_map.mp among
      obtain ⟨among, notBlank⟩ := List.mem_filter.mp kept
      have num := List.all_eq_true.mp digits ch among
      rw [Bool.or_eq_true] at num
      exact digit_lt (num.resolve_left (by simpa using notBlank))
    rw [if_pos digits, readDigits_eq (by decide) small (Nat.zero_le _)]
    simp only [digits, true_and]
    rfl
  · rw [if_neg digits, if_neg fun both => digits both.1]

theorem lengthFrom_blank (value : Nat) (text : List UInt8) :
    lengthFrom value (byte ' ' :: text) = lengthFrom value text := rfl

theorem lengthFrom_bad {value : Nat} (notBlank : ch ≠ byte ' ') (notNum : isNum ch = false)
    (text : List UInt8) : lengthFrom value (ch :: text) = none := by
  unfold lengthFrom lengthText
  rw [List.all_cons, notNum, decide_eq_false notBlank]
  rfl

theorem lengthFrom_digit {value : Nat} (notBlank : ch ≠ byte ' ') (num : isNum ch = true)
    (text : List UInt8) :
    lengthFrom value (ch :: text) =
      if lengthLimit < value then none else lengthFrom (value * 10 + digit ch) text := by
  have first : lengthDigits (ch :: text) = digit ch :: lengthDigits text := by
    unfold lengthDigits
    rw [List.filter_cons_of_pos (by simpa using notBlank), List.map_cons]
  unfold lengthFrom
  rw [first, readDigits]
  unfold lengthText
  rw [List.all_cons, num, Bool.or_true, Bool.true_and]
  split_ifs <;> rfl

theorem scan_lengthRest (here : parser.state = .sHeaderValue)
    (length : parser.headerState = .hContentLength)
    (inLine : ∀ ch ∈ text, ch ≠ cr ∧ ch ≠ lf) (rest : List UInt8) :
    match lengthFrom parser.contentLength.toNat text with
    | some value =>
        httpScanner.scan parser (text ++ rest) =
          (httpScanner.scan { parser with contentLength := UInt64.ofNat value } rest).put
            (text.map (.letter .headerValue))
    | none => Rejected (httpScanner.scan parser (text ++ rest)) .invalidContentLength := by
  induction text generalizing parser with
  | nil =>
      show httpScanner.scan parser rest = _
      rw [UInt64.ofNat_toNat]
      rfl
  | cons ch text inductionHypothesis =>
      obtain ⟨notCr, notLf⟩ := inLine ch List.mem_cons_self
      have line : ¬(ch = cr ∨ ch = lf) := by
        rintro (same | same)
        · exact notCr same
        · exact notLf same
      have inRest := fun other among => inLine other (List.mem_cons_of_mem ch among)
      have step : valueChar parser parser.headerState ch =
          valueChar parser .hContentLength ch := by rw [length]
      have rejects : valueChar parser .hContentLength ch = .ok none →
          Rejected (httpScanner.scan parser (ch :: text ++ rest)) .invalidContentLength := by
        intro bad
        rw [List.cons_append, Scanner.scan_fail (react_value_bad here line (step.trans bad))]
        exact ⟨_, _, rfl, rfl⟩
      by_cases blank : ch = byte ' '
      · subst blank
        have good : valueChar parser parser.headerState (byte ' ') =
            .ok (some (parser, .hContentLength)) := step
        have kept : { parser with headerState := .hContentLength } = parser := by rw [← length]
        have going := inductionHypothesis here length inRest
        rw [lengthFrom_blank]
        rw [List.cons_append, scan_valueChar here line good, kept]
        cases found : lengthFrom parser.contentLength.toNat text with
        | none =>
            rw [found] at going
            exact going.put _
        | some value =>
            rw [found] at going
            dsimp only at going ⊢
            rw [going, Scanned.put_put]
            rfl
      cases num : isNum ch with
      | false =>
          rw [lengthFrom_bad blank num]
          apply rejects
          unfold valueChar
          dsimp only
          rw [if_neg blank, if_pos (by rw [num]; rfl)]
      | true =>
          rw [lengthFrom_digit blank num]
          by_cases beyond : lengthLimit < parser.contentLength.toNat
          · rw [if_pos beyond]
            apply rejects
            unfold valueChar
            dsimp only
            rw [if_neg blank, if_neg (by rw [num]; decide),
              if_pos ((lengthLimit_iff _).mpr beyond)]
          · rw [if_neg beyond]
            have good : valueChar parser parser.headerState ch =
                .ok (some ({ parser with
                  contentLength :=
                    parser.contentLength * 10 + (ch - byte '0').toUInt64 }, .hContentLength)) := by
              rw [step]
              unfold valueChar
              dsimp only
              rw [if_neg blank, if_neg (by rw [num]; decide),
                if_neg fun large => beyond ((lengthLimit_iff _).mp large)]
            have next : (parser.contentLength * 10 + (ch - byte '0').toUInt64).toNat =
                parser.contentLength.toNat * 10 + digit ch := by
              have small := digit_lt num
              rw [UInt64.toNat_add, UInt64.toNat_mul, toNat_digit num]
              simp only [UInt64.reduceToNat]
              unfold lengthLimit at beyond
              omega
            have going := @inductionHypothesis
              { parser with
                headerState := .hContentLength
                contentLength := parser.contentLength * 10 + (ch - byte '0').toUInt64 }
              here rfl inRest
            rw [List.cons_append, scan_valueChar here line good]
            rw [show ({ parser with
                headerState := .hContentLength
                contentLength := parser.contentLength * 10 + (ch - byte '0').toUInt64 } :
                  HttpParser).contentLength.toNat = _ from next] at going
            cases found : lengthFrom (parser.contentLength.toNat * 10 + digit ch) text with
            | none =>
                rw [found] at going
                exact going.put _
            | some value =>
                rw [found] at going
                dsimp only at going ⊢
                rw [going, Scanned.put_put, ← length]
                rfl

/-! ## The beginning of a value -/

def blankOrTab (ch : UInt8) : Prop := ch = byte ' ' ∨ ch = tab

instance (ch : UInt8) : Decidable (blankOrTab ch) := inferInstanceAs (Decidable (_ ∨ _))

theorem scan_blanks (here : parser.state = .sHeaderValueDiscardWs) {blanks : List UInt8}
    (blank : ∀ ch ∈ blanks, blankOrTab ch) (rest : List UInt8) :
    httpScanner.scan parser (blanks ++ rest) = httpScanner.scan parser rest := by
  induction blanks with
  | nil => rfl
  | cons ch blanks inductionHypothesis =>
      have reacts : httpScanner.react parser ch = .read parser [] := by
        show react parser ch = _
        rw [react_single (by rw [here]; rfl)]
        have step : charStep parser ch = .read parser .quiet := by
          unfold charStep
          rw [here]
          exact if_pos (blank ch List.mem_cons_self)
        rw [step, Verdict.reaction, Action.symbols, here]
        rfl
      rw [List.cons_append, Scanner.scan_read reacts]
      exact inductionHypothesis fun other among => blank other (List.mem_cons_of_mem ch among)

/-- A value that is not empty, and begins with no blank. -/
structure Value (value : List UInt8) : Prop where
  notEmpty : value ≠ []
  inLine : ∀ ch ∈ value, ch ≠ cr ∧ ch ≠ lf
  begins : ∀ ch ∈ value.head?, ¬blankOrTab ch

theorem react_valueStart (here : parser.state = .sHeaderValueDiscardWs) (blank : ¬blankOrTab ch)
    (notCr : ch ≠ cr) (notLf : ch ≠ lf) :
    react parser ch = (headerValueStart parser ch).reaction parser ch := by
  rw [react_single (by rw [here]; rfl)]
  congr 1
  unfold charStep
  rw [here]
  dsimp only
  rw [if_neg (show ¬(ch = byte ' ' ∨ ch = tab) from blank), if_neg notCr, if_neg notLf]

theorem scan_length (here : parser.state = .sHeaderValueDiscardWs)
    (length : parser.headerState = .hContentLength) {value : List UInt8} (written : Value value)
    (rest : List UInt8) :
    match lengthFrom 0 value with
    | some number =>
        httpScanner.scan parser (value ++ rest) =
          (httpScanner.scan
            { parser with
              state := .sHeaderValue
              index := 0
              contentLength := UInt64.ofNat number } rest).put
            (value.map (.letter .headerValue))
    | none => Rejected (httpScanner.scan parser (value ++ rest)) .invalidContentLength := by
  obtain ⟨ch, text, rfl⟩ := List.exists_cons_of_ne_nil written.notEmpty
  obtain ⟨notCr, notLf⟩ := written.inLine ch List.mem_cons_self
  have blank := written.begins ch rfl
  have notBlank : ch ≠ byte ' ' := fun same => blank (Or.inl same)
  have starts : headerValueStart parser ch =
      if !isNum ch then
        failWith { parser with state := .sHeaderValue, index := 0 } .invalidContentLength
      else
        .read
          { parser with
            state := .sHeaderValue
            index := 0
            contentLength := (ch - byte '0').toUInt64 } (.mark .headerValue) := by
    unfold headerValueStart
    rw [length]
  have reacts := react_valueStart here blank notCr notLf
  rw [starts] at reacts
  cases num : isNum ch with
  | false =>
      rw [lengthFrom_bad notBlank num]
      rw [if_pos (by rw [num]; rfl)] at reacts
      rw [List.cons_append, Scanner.scan_fail reacts]
      exact ⟨_, _, rfl, rfl⟩
  | true =>
      rw [lengthFrom_digit notBlank num, if_neg (Nat.not_lt_zero _), Nat.zero_mul, Nat.zero_add]
      rw [if_neg (by rw [num]; decide)] at reacts
      have going := @scan_lengthRest
        { parser with
          state := .sHeaderValue
          index := 0
          contentLength := (ch - byte '0').toUInt64 } text rfl length
        (fun other among => written.inLine other (List.mem_cons_of_mem ch among)) rest
      rw [show ({ parser with
          state := .sHeaderValue
          index := 0
          contentLength := (ch - byte '0').toUInt64 } : HttpParser).contentLength.toNat = _
            from toNat_digit num] at going
      rw [List.cons_append, Scanner.scan_read reacts]
      cases found : lengthFrom (digit ch) text with
      | none =>
          rw [found] at going
          exact going.put _
      | some number =>
          rw [found] at going
          dsimp only at going ⊢
          rw [going, Scanned.put_put]
          rfl

/-- A length is taken for what its digits say, blanks passed over, or rejected. -/
theorem content_length_exact (here : parser.state = .sHeaderValueDiscardWs)
    (length : parser.headerState = .hContentLength) {value : List UInt8} (written : Value value) :
    if lengthText value = true ∧ valueFrom 10 0 (lengthDigits value) ≤ lengthMax then
      httpScanner.scan parser (value ++ [cr]) =
        ⟨value.map (.letter .headerValue) ++ [.closed .headerValue],
          .reached { parser with
            state := .sHeaderAlmostDone
            index := 0
            contentLength := UInt64.ofNat (valueFrom 10 0 (lengthDigits value)) }⟩
    else
      Rejected (httpScanner.scan parser (value ++ [cr])) .invalidContentLength := by
  have scans := scan_length here length written [cr]
  rw [lengthFrom_eq] at scans
  split_ifs with reads
  · rw [if_pos reads] at scans
    dsimp only at scans
    rw [scans, scan_valueEnd rfl, Scanner.scan_nil]
    simp [Scanned.put]
  · rw [if_neg reads] at scans
    exact scans

/-- The digits of `1 2`, with a blank between them, are those of 12. -/
theorem content_length_exact_twelve :
    httpScanner.scan
        { httpParserInit .httpRequest with
          state := .sHeaderValueDiscardWs
          headerState := .hContentLength }
        (ascii ['1', ' ', '2'] ++ [cr]) =
      ⟨(ascii ['1', ' ', '2']).map (.letter .headerValue) ++ [.closed .headerValue],
        .reached
          { httpParserInit .httpRequest with
            state := .sHeaderAlmostDone
            headerState := .hContentLength
            contentLength := 12 }⟩ := by
  have reads := @content_length_exact
    { httpParserInit .httpRequest with
      state := .sHeaderValueDiscardWs
      headerState := .hContentLength }
    rfl rfl (ascii ['1', ' ', '2']) ⟨by decide, by decide +kernel, by decide +kernel⟩
  rw [if_pos (by decide)] at reads
  exact reads

end UAFlow.Http
