import UAFlow.Http.Scanner

/-!
# The bytes of a header

What `COUNT_HEADER_SIZE` comes to when the bytes are looked at one by one.  The count
begins anew behind a header and behind each size of a chunk, and a line feed behind a
value counts the value again.
-/

namespace UAFlow.Http

open Library

variable {parser next : HttpParser} {ch : UInt8} {symbols : List Symbol}

/-! ## Counts -/

/-- The bytes of a header counted so far, those of the name or value that is being
read among them, and the most that was counted at any time. -/
structure HeaderCount where
  nread : Nat
  run : Nat
  most : Nat
  within : nread ≤ most

/-- Behind a byte that is read in these states the count begins anew. -/
def State.countsAnew : State → Bool
  | .sHeadersDone | .sChunkSizeAlmostDone | .sChunkDataDone => true
  | _ => false

/-- The loops over names and values go on behind these bytes. -/
def State.runs (state : State) (ch : UInt8) : Bool :=
  match state with
  | .sHeaderField => token ch ≠ 0
  | .sHeaderValue => ch ≠ cr ∧ ch ≠ lf
  | _ => false

theorem runs_field : State.sHeaderField.runs ch = true ↔ token ch ≠ 0 := decide_eq_true_iff

theorem runs_value : State.sHeaderValue.runs ch = true ↔ ch ≠ cr ∧ ch ≠ lf := decide_eq_true_iff

namespace HeaderCount

/-- A look at a byte of a header counts one.  The line feed behind a value counts what the
loop has read before it; when that is nothing, the parser counts one and takes it back
behind its callback. -/
def amount (count : HeaderCount) (state : State) (ch : UInt8) : Nat :=
  if state.parsingHeader then
    if state = .sHeaderValue ∧ ch = lf then max 1 count.run else 1
  else 0

def look (count : HeaderCount) (state : State) (ch : UInt8) : HeaderCount where
  nread := if state.countsAnew then 0 else count.nread + count.amount state ch
  run := if state.runs ch then count.run + 1 else 0
  most := max count.most (count.nread + count.amount state ch)
  within := by
    split_ifs
    · exact Nat.zero_le _
    · exact Nat.le_max_right _ _

def begun (nread : Nat) : HeaderCount := ⟨nread, 0, nread, Nat.le_refl nread⟩

/-- Behind the last byte of a call; a name or value that goes on counts for one more. -/
def cut (count : HeaderCount) : HeaderCount where
  nread := count.nread + min 1 count.run
  run := 0
  most := max count.most (count.nread + min 1 count.run)
  within := Nat.le_max_right _ _

/-- A count is at most another, but for some bytes. -/
structure AtMost (slack : Nat) (count other : HeaderCount) : Prop where
  nread : count.nread ≤ other.nread + slack
  run : count.run ≤ other.run
  most : count.most ≤ other.most + slack

variable {slack : Nat} {count other : HeaderCount} {state : State}

theorem AtMost.refl (count : HeaderCount) : count.AtMost 0 count :=
  ⟨Nat.le_refl _, Nat.le_refl _, Nat.le_refl _⟩

theorem le_amount (count : HeaderCount) (state : State) (ch : UInt8) :
    (if state.parsingHeader then 1 else 0) ≤ count.amount state ch := by
  unfold HeaderCount.amount
  split_ifs <;> omega

theorem AtMost.look (atMost : count.AtMost slack other) (state : State) (ch : UInt8) :
    (count.look state ch).AtMost slack (other.look state ch) := by
  obtain ⟨nread, run, most⟩ := atMost
  have amount : count.amount state ch ≤ other.amount state ch := by
    unfold HeaderCount.amount
    split_ifs <;> omega
  refine ⟨?_, ?_, ?_⟩ <;> dsimp only [HeaderCount.look]
  · split_ifs <;> omega
  · split_ifs <;> omega
  · omega

theorem AtMost.cut (atMost : count.AtMost slack other) : count.cut.AtMost slack other.cut := by
  obtain ⟨nread, run, most⟩ := atMost
  refine ⟨?_, Nat.le_refl 0, ?_⟩ <;> dsimp only [HeaderCount.cut] <;> omega

theorem cut_atMost (count : HeaderCount) : count.cut.AtMost 1 count := by
  have within := count.within
  refine ⟨?_, Nat.zero_le _, ?_⟩ <;> dsimp only [HeaderCount.cut] <;> omega

theorem begun_atMost {nread : Nat} (counted : nread ≤ count.nread + slack) :
    (begun nread).AtMost slack count :=
  ⟨counted, Nat.zero_le _, Nat.le_trans counted (Nat.add_le_add_right count.within slack)⟩

theorem AtMost.trans {more : Nat} {last : HeaderCount} (first : count.AtMost slack other)
    (second : other.AtMost more last) : count.AtMost (more + slack) last := by
  refine ⟨?_, Nat.le_trans first.run second.run, ?_⟩
  · have := first.nread
    have := second.nread
    omega
  · have := first.most
    have := second.most
    omega

/-! ## Runs -/

def letters (count : HeaderCount) (length : Nat) : HeaderCount where
  nread := count.nread + length
  run := count.run + length
  most := max count.most (count.nread + length)
  within := Nat.le_max_right _ _

theorem letters_zero (count : HeaderCount) : count.letters 0 = count := by
  obtain ⟨nread, run, most, within⟩ := count
  simp [letters, within]

theorem amount_runs (runs : state.runs ch = true) (count : HeaderCount) :
    count.amount state ch = 1 := by
  unfold amount
  cases state <;> try exact absurd runs Bool.false_ne_true
  case sHeaderField => simp [State.parsingHeader]
  case sHeaderValue => simp [State.parsingHeader, (runs_value.mp runs).2]

theorem look_letters (runs : state.runs ch = true) (count : HeaderCount) (length : Nat) :
    (count.look state ch).letters length = count.letters (length + 1) := by
  have goes : state.countsAnew = false := by
    cases state <;> first | rfl | exact absurd runs Bool.false_ne_true
  have within := count.within
  simp only [letters, look, goes, runs, amount_runs runs, if_true, if_false, mk.injEq,
    Bool.false_eq_true]
  omega

theorem look_body (body : state.parsingHeader = false) (goes : state.countsAnew = false)
    (still : count.run = 0) (ch : UInt8) : count.look state ch = count := by
  have quiet : state.runs ch = false := by
    cases state <;> first | rfl | cases body
  obtain ⟨nread, run, most, within⟩ := count
  simp_all [look, amount]

end HeaderCount

/-! ## Scans -/

abbrev metered (parser : HttpParser) (text : List UInt8) (count : HeaderCount) : HeaderCount :=
  httpScanner.meter (fun parser ch count => count.look parser.state ch) parser text count

/-- What is counted of a header in a call. -/
def HttpParser.headerCount (parser : HttpParser) (text : List UInt8) : HeaderCount :=
  (metered parser.uncounted text (.begun parser.nread.toNat)).cut

variable {slack : Nat} {count other : HeaderCount} {text : List UInt8}

theorem metered_atMost (atMost : count.AtMost slack other) (parser : HttpParser)
    (text : List UInt8) : (metered parser text count).AtMost slack (metered parser text other) :=
  Scanner.meter_related (fun parser ch _ _ less => less.look parser.state ch) parser text atMost

theorem most_le_metered (count : HeaderCount) (parser : HttpParser) (text : List UInt8) :
    count.most ≤ (metered parser text count).most :=
  @Scanner.meter_keeps _ _ _ httpScanner _ _ (fun later : HeaderCount => count.most ≤ later.most)
    (fun _ _ _ before => Nat.le_trans before (Nat.le_max_left _ _)) parser text _ (Nat.le_refl _)

theorem look_le_metered (count : HeaderCount) (parser : HttpParser) (ch : UInt8)
    (rest : List UInt8) :
    (count.look parser.state ch).most ≤ (metered parser (ch :: rest) count).most := by
  unfold metered
  cases reacts : httpScanner.react parser ch with
  | read next symbols =>
      rw [Scanner.meter_read reacts]
      exact most_le_metered _ next rest
  | again next symbols =>
      rw [Scanner.meter_again reacts]
      exact most_le_metered _ next (ch :: rest)
  | leave next symbols =>
      simp only [Scanner.meter_leave reacts, Nat.le_refl]
  | fail next =>
      simp only [Scanner.meter_fail reacts, Nat.le_refl]

/-- Behind the first piece of a text no more has been counted than behind all of it, but for
the cut. -/
theorem HttpParser.headerCount_piece (parser : HttpParser) (piece rest : List UInt8) :
    (parser.headerCount piece).most ≤ (parser.headerCount (piece ++ rest)).most + 1 := by
  have cut := (metered parser.uncounted piece (.begun parser.nread.toNat)).cut_atMost.most
  have more : (metered parser.uncounted piece (.begun parser.nread.toNat)).most ≤
      (metered parser.uncounted (piece ++ rest) (.begun parser.nread.toNat)).most := by
    rw [metered, metered, Scanner.meter_append]
    split
    · exact most_le_metered _ _ _
    · exact Nat.le_refl _
  have whole : (metered parser.uncounted (piece ++ rest) (.begun parser.nread.toNat)).most ≤
      (parser.headerCount (piece ++ rest)).most := Nat.le_max_left _ _
  have piece : (parser.headerCount piece).most ≤
      (metered parser.uncounted piece (.begun parser.nread.toNat)).most + 1 := cut
  omega

/-- Where a text is cut at most one byte more is counted. -/
theorem headerCount_atMost {piece rest : List UInt8}
    (reached : (httpScanner.scan parser.uncounted piece).ending = .reached next.uncounted)
    (light : next.nread.toNat ≤ (parser.headerCount piece).nread) :
    (next.headerCount rest).AtMost 1 (parser.headerCount (piece ++ rest)) := by
  have cut := (metered parser.uncounted piece (.begun parser.nread.toNat)).cut_atMost.nread
  rw [HttpParser.headerCount, HttpParser.headerCount, metered, metered, Scanner.meter_append,
    reached]
  exact (metered_atMost (HeaderCount.begun_atMost (Nat.le_trans light cut)) _ _).cut

/-- Where the count begins anew the parser sets it to zero. -/
theorem charStep_anew {action : Action} (anew : parser.state.countsAnew = true) :
    (charStep parser ch = .read next action → next.nread = 0) ∧
      charStep parser ch ≠ .again next action := by
  unfold charStep
  cases here : parser.state <;> rw [here] at anew <;> try cases anew
  case sHeadersDone =>
    dsimp only
    unfold headersDone goTo failWith
    dsimp only
    split_ifs <;> refine ⟨fun reads => ?_, nofun⟩ <;> cases reads <;> rfl
  case sChunkSizeAlmostDone =>
    dsimp only
    unfold chunkSizeAlmostDone goTo failWith
    dsimp only
    split_ifs <;> refine ⟨fun reads => ?_, nofun⟩ <;> cases reads <;> rfl
  case sChunkDataDone =>
    dsimp only
    unfold goTo failWith
    split_ifs
    · exact ⟨nofun, nofun⟩
    · refine ⟨fun reads => ?_, nofun⟩
      cases reads
      rfl

/-! ## A bound -/

theorem fieldChar_state {c : UInt8} (reads : fieldChar parser ch c = .ok next) :
    next.state = parser.state := by
  unfold fieldChar matching at reads
  dsimp only at reads
  cases here : parser.headerState <;> rw [here] at reads <;> dsimp only at reads <;>
    (try split_ifs at reads) <;> cases reads <;> rfl

theorem valueChar_state {hState hState' : HeaderState}
    (reads : valueChar parser hState ch = .ok (some (next, hState'))) :
    next.state = parser.state := by
  unfold valueChar matching at reads
  dsimp only at reads
  cases hState <;> dsimp only at reads <;> (try split_ifs at reads) <;> cases reads <;> rfl

theorem react_runs (runs : parser.state.runs ch = true) :
    (∃ next symbols, react parser ch = .read next symbols ∧ next.state = parser.state) ∨
      ∃ next, react parser ch = .fail next := by
  cases here : parser.state <;> rw [here] at runs <;>
    try exact absurd runs Bool.false_ne_true
  case sHeaderField =>
    unfold react
    rw [here]
    dsimp only
    rw [if_neg (runs_field.mp runs)]
    cases made : fieldChar parser ch (token ch) with
    | error fault => exact Or.inr ⟨parser, rfl⟩
    | ok later => exact Or.inl ⟨later, _, rfl, (fieldChar_state made).trans here⟩
  case sHeaderValue =>
    obtain ⟨notCr, notLf⟩ := runs_value.mp runs
    unfold react
    rw [here]
    dsimp only
    rw [if_neg notCr, if_neg notLf]
    cases made : valueChar parser parser.headerState ch with
    | error fault => exact Or.inr ⟨parser, rfl⟩
    | ok read =>
        cases read with
        | none => exact Or.inr ⟨_, rfl⟩
        | some read => exact Or.inl ⟨_, _, rfl, (valueChar_state made).trans here⟩

theorem HeaderCount.look_le (count : HeaderCount) (state : State) (ch : UInt8) :
    (count.look state ch).most ≤ max count.most (count.nread + count.run + 1) ∧
      (count.look state ch).nread + (count.look state ch).run ≤
        count.nread + count.run + 1 + if state.runs ch then 1 else 0 := by
  have amount : count.amount state ch ≤ count.run + 1 := by
    unfold HeaderCount.amount
    split_ifs <;> omega
  refine ⟨?_, ?_⟩ <;> dsimp only [HeaderCount.look]
  · omega
  · by_cases runs : state.runs ch = true
    · rw [if_pos runs, if_pos runs, HeaderCount.amount_runs runs]
      split_ifs <;> omega
    · rw [if_neg runs, if_neg runs]
      split_ifs <;> omega

/-- A byte counts for at most four. -/
theorem metered_le {bound : Nat} (most : count.most ≤ bound)
    (fits : count.nread + count.run + (4 * text.length + parser.state.rank) ≤ bound) :
    (metered parser text count).most ≤ bound ∧
      (metered parser text count).nread + (metered parser text count).run ≤ bound := by
  unfold metered
  induction parser, text using httpScanner.scan_induction generalizing count with
  | nil parser =>
      rw [Scanner.meter_nil]
      exact ⟨most, by omega⟩
  | cons parser ch rest onRead onAgain =>
      obtain ⟨lookMost, lookRun⟩ := count.look_le parser.state ch
      rw [List.length_cons] at fits
      have run : (if parser.state.runs ch then 1 else 0) ≤ 1 := by split_ifs <;> decide
      have runs := @react_runs parser ch
      cases reacts : httpScanner.react parser ch with
      | read next symbols =>
          rw [show react parser ch = _ from reacts] at runs
          have low : next.state.rank ≤ 3 := by cases next.state <;> decide
          have level : (if parser.state.runs ch then 1 else 0) + next.state.rank ≤
              3 + parser.state.rank := by
            split_ifs with running
            · obtain ⟨_, _, ⟨⟩, same⟩ | ⟨_, ⟨⟩⟩ := runs running
              rw [same]
              omega
            · omega
          rw [Scanner.meter_read reacts]
          exact onRead next symbols reacts (by omega) (by omega)
      | again next symbols =>
          rw [show react parser ch = _ from reacts] at runs
          have lower : next.state.rank < parser.state.rank := react_descends reacts
          rw [if_neg fun running => by
            obtain ⟨_, _, ⟨⟩, -⟩ | ⟨_, ⟨⟩⟩ := runs running] at lookRun
          rw [Scanner.meter_again reacts]
          refine onAgain next symbols reacts (by omega) ?_
          rw [List.length_cons]
          omega
      | leave next symbols =>
          rw [Scanner.meter_leave reacts]
          exact ⟨by omega, by omega⟩
      | fail next =>
          rw [Scanner.meter_fail reacts]
          exact ⟨by omega, by omega⟩

theorem HttpParser.headerCount_le (parser : HttpParser) (text : List UInt8) :
    (parser.headerCount text).most ≤
      parser.nread.toNat + (4 * text.length + parser.state.rank) := by
  obtain ⟨most, run⟩ := @metered_le parser.uncounted (.begun parser.nread.toNat) text
    (parser.nread.toNat + (4 * text.length + parser.state.rank)) (Nat.le_add_right _ _)
    (Nat.le_refl _)
  simp only [HttpParser.headerCount, HeaderCount.cut]
  omega

end UAFlow.Http
