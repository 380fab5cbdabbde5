import UAFlow.Http.Loops
import UAFlow.Http.Marks

/-!
# One iteration

An iteration of the loop stands for a piece of the scan.  `iteration_answers` says so
once for all states; the loop needs nothing else about them.
-/

namespace UAFlow.Http

open Library

/-- What an iteration may come to. -/
def Outcome.Answers (data : List UInt8) (frame : Frame) (pending : Pending) : Outcome → Prop
  | .next later => ∃ after, Reads data frame later pending after [] ∧
      (later.count data).AtMost 0 (frame.count data)
  | .call due returned later follow =>
      returned = later.place ∧ (∀ call ∈ due, call.Inside data) ∧
        match follow with
        | .resume => Reads data frame later pending none (due.map (Call.event data)).toList ∧
            (later.count data).AtMost 0 (frame.count data)
        | .leave result => result = later.place ∧ Ready data later none ∧
            later.parser.upgrade = true ∧ ∃ symbols,
              frame.scanned data =
                  ⟨symbols, .left later.parser.uncounted (data.drop later.place)⟩ ∧
                absorb pending symbols = ((due.map (Call.event data)).toList, none)
        | .count amount result =>
            Reads data frame later pending none (due.map (Call.event data)).toList ∧
              (later.count data).AtMost 0 (frame.count data) ∧
              later.parser.state = .sHeaderAlmostDone ∧
              ((∃ place : Nat, result = place ∧ place ≤ data.length) ∨ amount < 0) ∧
              ∃ total : Nat, (later.parser.nread.toNat : Int) + amount = total ∧
                total < 4294967296 ∧ total ≤ (frame.count data).most ∧
                ∀ nread : UInt32, nread.toNat = total →
                  (Frame.count data { later with parser := { later.parser with nread := nread } }
                    ).AtMost 0 (frame.count data)
  | .stop parser returned => ∃ place : Nat, returned = place ∧ place ≤ data.length ∧
      (parser.httpErrno = .headerOverflow ∧ httpMaxHeaderSize < (frame.count data).most ∨
        parser.httpErrno.rejecting = true ∧ ∃ symbols,
          frame.scanned data = ⟨symbols, .failed parser.uncounted (data.drop place)⟩ ∧
            (absorb pending symbols).1 = [])
  | .fault _ => False

variable {data : List UInt8} {frame later : Frame} {pending : Pending} {parser : HttpParser}

/-! ## Counting -/

def Frame.metered (data : List UInt8) (frame : Frame) : HeaderCount :=
  Http.metered frame.parser.uncounted (data.drop frame.place) (.begun frame.parser.nread.toNat)

theorem most_le_count : (frame.metered data).most ≤ (frame.count data).most :=
  Nat.le_max_left _ _

theorem count_atMost {count : HeaderCount}
    (counts : frame.metered data =
      metered later.parser.uncounted (data.drop later.place) count)
    (nread : later.parser.nread.toNat ≤ count.nread) :
    (later.count data).AtMost 0 (frame.count data) := by
  show (metered _ _ _).cut.AtMost 0 (frame.metered data).cut
  rw [counts]
  exact (metered_atMost (HeaderCount.begun_atMost nread) _ _).cut

theorem letters_lt_most (header : parser.state.parsingHeader = true) {rest : List UInt8}
    (nread : Nat) {length : Nat} (notEmpty : rest = [] → 0 < length) :
    nread + length < (metered parser rest ((HeaderCount.begun nread).letters length)).cut.most := by
  cases rest with
  | nil =>
      have positive := notEmpty rfl
      rw [metered, Scanner.meter_nil]
      simp only [HeaderCount.cut, HeaderCount.letters, HeaderCount.begun]
      omega
  | cons ch rest =>
      have looks := look_le_metered ((HeaderCount.begun nread).letters length) parser ch rest
      have one := ((HeaderCount.begun nread).letters length).le_amount parser.state ch
      rw [if_pos header] at one
      refine Nat.lt_of_lt_of_le ?_ (Nat.le_trans looks (Nat.le_max_left _ _))
      dsimp only [HeaderCount.look, HeaderCount.letters, HeaderCount.begun] at one ⊢
      omega

theorem count_atMost_end (beyond : data.drop later.place = [])
    (nread : later.parser.nread.toNat ≤ (frame.count data).nread) :
    (later.count data).AtMost 0 (frame.count data) := by
  have within := (frame.count data).within
  show (Http.metered _ _ _).cut.AtMost 0 _
  rw [beyond, Http.metered, Scanner.meter_nil]
  refine ⟨?_, Nat.zero_le _, ?_⟩ <;> simp only [HeaderCount.cut, HeaderCount.begun] <;> omega

theorem toNat_add_ofInt {count : UInt32} {amount : Int} {total : Nat}
    (sum : (count.toNat : Int) + amount = total) (bound : total < 4294967296) :
    (count + UInt32.ofInt amount).toNat = total := by
  rw [UInt32.toNat_add, UInt32.ofInt, UInt32.toNat_ofNat']
  omega

theorem countHeaderSize_cases {amount : Int} {total : Nat}
    (sum : (parser.nread.toNat : Int) + amount = total) (bound : total < 4294967296) :
    ((countHeaderSize parser amount).httpErrno = .headerOverflow ∧ httpMaxHeaderSize < total) ∨
      ∃ nread : UInt32, nread.toNat = total ∧ total ≤ httpMaxHeaderSize ∧
        countHeaderSize parser amount = { parser with nread := nread } := by
  have counted := toNat_add_ofInt sum bound
  unfold countHeaderSize
  dsimp only
  rw [counted]
  split_ifs with large
  · exact Or.inl ⟨rfl, large⟩
  · exact Or.inr ⟨_, counted, Nat.le_of_not_lt large, rfl⟩

/-- The parser behind the first `COUNT_HEADER_SIZE`. -/
def HttpParser.counted (parser : HttpParser) : HttpParser :=
  if parser.state.parsingHeader then countHeaderSize parser 1 else parser

theorem counted_cases (idle : parser.Idle) :
    (parser.counted.httpErrno = .headerOverflow ∧ parser.state.parsingHeader = true ∧
        httpMaxHeaderSize < parser.nread.toNat + 1) ∨
      ∃ nread : UInt32, nread.toNat ≤ httpMaxHeaderSize ∧
        nread.toNat = parser.nread.toNat + (if parser.state.parsingHeader then 1 else 0) ∧
        parser.counted = { parser with nread := nread } := by
  have small := idle.small
  have limit : httpMaxHeaderSize = 81920 := rfl
  unfold HttpParser.counted
  split_ifs with header
  · have sum : (parser.nread.toNat : Int) + 1 = (parser.nread.toNat + 1 : Nat) := rfl
    rcases countHeaderSize_cases sum (by omega) with ⟨errno, large⟩ | ⟨nread, total, most, counted⟩
    · exact Or.inl ⟨errno, header, large⟩
    · exact Or.inr ⟨nread, by omega, by rw [total], counted⟩
  · exact Or.inr ⟨parser.nread, small, rfl, rfl⟩

theorem asserted_of_idle (idle : parser.Idle) {nread : UInt32}
    (counts : nread.toNat = parser.nread.toNat + (if parser.state.parsingHeader then 1 else 0)) :
    asserted { parser with nread := nread } = true := by
  have fits := idle.sound.fits
  unfold HttpParser.Fits at fits
  unfold asserted
  cases here : parser.state <;> rw [here] at fits counts <;> dsimp only
  case sChunkSizeStart =>
    have anew := idle.counts here
    have one : nread = 1 := by
      apply UInt32.toNat_inj.mp
      rw [counts, anew]
      rfl
    simp [one, HttpParser.hasFlag] at fits ⊢
    exact fits
  all_goals simp_all [HttpParser.hasFlag]

/-! ## One character -/

theorem Behind.idle {next : HttpParser} (behind : Behind parser next)
    (small : parser.nread.toNat ≤ httpMaxHeaderSize) : next.Idle := by
  refine ⟨behind.sound, behind.counts, ?_⟩
  rcases behind.nread with same | none
  · rw [same]
    exact small
  · rw [none]
    exact Nat.zero_le _

theorem Behind.nread_le {next : HttpParser} (behind : Behind parser next) :
    next.nread.toNat ≤ parser.nread.toNat := by
  rcases behind.nread with same | none
  · exact Nat.le_of_eq (congrArg UInt32.toNat same)
  · rw [none]
    exact Nat.zero_le _

theorem charOutcome_answers (ready : Ready data frame pending) {ch : UInt8} {rest : List UInt8}
    (here : data.drop frame.place = ch :: rest) (single : frame.parser.state.single = true)
    {nread : UInt32} (small : nread.toNat ≤ httpMaxHeaderSize)
    (counts : nread.toNat =
      frame.parser.nread.toNat + (if frame.parser.state.parsingHeader then 1 else 0)) :
    (charOutcome { frame with parser := { frame.parser with nread := nread } } ch).Answers data frame
      pending := by
  have more : data.drop (frame.place + 1) = rest := by
    rw [← List.drop_drop, here]
    rfl
  have inside : frame.place < data.length := by
    have := congrArg List.length here
    simp only [List.length_drop, List.length_cons] at this
    omega
  obtain ⟨parser, before, place⟩ := frame
  dsimp only at *
  set counted : HttpParser := { parser with nread := nread } with countedIs
  have behaves : Behaves counted (charStep counted ch) :=
    @charStep_behaves counted ⟨ready.idle.sound.errno, ready.idle.sound.fits⟩ single ch
  have reacts : httpScanner.react parser.uncounted ch =
      (charStep counted ch).uncounted.reaction parser.uncounted ch := by
    rw [← charStep_uncounted]
    exact @react_single parser.uncounted single ch
  have scanned : Frame.scanned data ⟨parser, before, place⟩ =
      httpScanner.scan parser.uncounted (ch :: rest) := by
    rw [Frame.scanned, here]
  have metered : Frame.metered data ⟨parser, before, place⟩ =
      Http.metered parser.uncounted (ch :: rest) (.begun parser.nread.toNat) := by
    rw [Frame.metered, here]
  have looks : ∀ next : HttpParser, next.nread.toNat ≤ nread.toNat →
      (parser.state.countsAnew = true → next.nread = 0) →
      next.nread.toNat ≤ ((HeaderCount.begun parser.nread.toNat).look parser.state ch).nread := by
    intro next less zero
    have amount := (HeaderCount.begun parser.nread.toNat).le_amount parser.state ch
    dsimp only [HeaderCount.look]
    split_ifs with anew
    · rw [zero anew]
      exact Nat.zero_le _
    · show _ ≤ parser.nread.toNat + _
      omega
  unfold charOutcome
  cases verdict : charStep counted ch with
  | read next action =>
      rw [verdict] at behaves reacts
      obtain ⟨behind, reads⟩ := behaves
      have idle := behind.idle small
      have count : next.nread.toNat ≤ nread.toNat := behind.nread_le
      have low : next.state.rank ≤ 3 := by cases next.state <;> decide
      rw [Scanner.scan_read reacts] at scanned
      rw [Http.metered, Scanner.meter_read reacts] at metered
      have scans : ∀ marks, (Frame.scanned data ⟨next, marks, place + 1⟩) =
          httpScanner.scan next.uncounted rest := by
        intro marks
        rw [Frame.scanned, more]
      have atMost : ∀ marks, (Frame.count data ⟨next, marks, place + 1⟩).AtMost 0
          (Frame.count data ⟨parser, before, place⟩) := fun marks =>
        count_atMost (metered.trans (congrArg (Http.metered next.uncounted · _) more.symm))
          (looks next count fun anew => (@charStep_anew counted _ _ _ anew).1 verdict)
      rcases perform_read ⟨next, before, place⟩ here ready.within ready.holds
          ready.suits single reads (place + 1 : Nat) .resume with
        ⟨marks, after, performs, absorbs, holds, suits⟩ | ⟨due, performs, absorbs, insides, closed⟩
      · dsimp only at performs ⊢
        refine performs ▸ ⟨after, ⟨⟨_, by rw [scanned, scans]; rfl, absorbs⟩,
          ⟨idle, inside, holds, suits⟩, ?_⟩, atMost marks⟩
        simp only [Frame.left]
        omega
      · dsimp only at performs ⊢
        refine performs ▸ ⟨rfl, insides, ⟨⟨_, by rw [scanned, scans]; rfl, absorbs⟩,
          ⟨idle, inside, rfl, suits_none (openField_of_mayHold_none closed)⟩, ?_⟩, atMost _⟩
        simp only [Frame.left]
        omega
  | again next action =>
      have lower : next.state.rank < counted.state.rank := (charStep_again verdict).1
      change _ < parser.state.rank at lower
      rw [verdict] at behaves reacts
      obtain ⟨behind, rereads⟩ := behaves
      have idle := behind.idle small
      have count : next.nread.toNat ≤ nread.toNat := behind.nread_le
      rw [Scanner.scan_again reacts] at scanned
      rw [Http.metered, Scanner.meter_again reacts] at metered
      have scans : ∀ marks, (Frame.scanned data ⟨next, marks, place⟩) =
          httpScanner.scan next.uncounted (ch :: rest) := by
        intro marks
        rw [Frame.scanned, here]
      have atMost : ∀ marks, (Frame.count data ⟨next, marks, place⟩).AtMost 0
          (Frame.count data ⟨parser, before, place⟩) := fun marks =>
        count_atMost (metered.trans (congrArg (Http.metered next.uncounted · _) here.symm))
          (looks next count fun anew => absurd verdict (@charStep_anew counted _ _ _ anew).2)
      obtain ⟨rfl, closed, performed⟩ := perform_again ⟨next, before, place⟩ ready.within
        ready.holds ready.suits rereads (place : Nat) place .resume
      have nothing := suits_none (openField_of_mayHold_none closed)
      rcases performed with ⟨-, performs, absorbs⟩ | ⟨due, performs, absorbs, insides⟩
      · dsimp only at performs ⊢
        refine performs ▸ ⟨none, ⟨⟨_, by rw [scanned, scans], absorbs⟩,
          ⟨idle, ready.within, rfl, nothing⟩, ?_⟩, atMost _⟩
        simp only [Frame.left]
        omega
      · dsimp only at performs ⊢
        refine performs ▸ ⟨rfl, insides, ⟨⟨_, by rw [scanned, scans], absorbs⟩,
          ⟨idle, ready.within, rfl, nothing⟩, ?_⟩, atMost _⟩
        simp only [Frame.left]
        omega
  | leave next action =>
      rw [verdict] at behaves reacts
      obtain ⟨behind, rereads, upgrades, notice, rfl⟩ := behaves
      have idle := behind.idle small
      rw [Scanner.scan_leave reacts] at scanned
      obtain ⟨rfl, closed, performed⟩ := perform_again ⟨next, before, place⟩ ready.within
        ready.holds ready.suits rereads (place + 1 : Nat) (place + 1) (.leave (place + 1 : Nat))
      rcases performed with ⟨⟨⟩, -⟩ | ⟨due, performs, absorbs, insides⟩
      dsimp only at performs ⊢
      exact performs ▸ ⟨rfl, insides, rfl,
        ⟨idle, inside, rfl, suits_none (openField_of_mayHold_none closed)⟩, upgrades,
        ⟨_, by rw [scanned, more], absorbs⟩⟩
  | fail next =>
      rw [verdict] at behaves reacts
      rw [Scanner.scan_fail reacts] at scanned
      refine ⟨place, rfl, ready.within, Or.inr ⟨behaves, _, by rw [scanned, here], rfl⟩⟩
  | fault kind =>
      rw [verdict] at behaves
      exact absurd behaves id

/-! ## Names -/

theorem headerFieldOutcome_answers (ready : Ready data frame pending) {ch : UInt8}
    {text : List UInt8} (here : data.drop frame.place = ch :: text)
    (state : frame.parser.state = .sHeaderField)
    (short : data.length + httpMaxHeaderSize < 4294967296) {nread : UInt32}
    (small : nread.toNat ≤ httpMaxHeaderSize) (counts : nread.toNat = frame.parser.nread.toNat + 1) :
    (headerFieldOutcome { frame with parser := { frame.parser with nread := nread } }
      (ch :: text)).Answers data frame pending := by
  obtain ⟨parser, marks, place⟩ := frame
  dsimp only at *
  have naming : parser.headerState.naming = true := by
    have fits := ready.idle.sound.fits
    unfold HttpParser.Fits at fits
    rwa [state] at fits
  obtain ⟨before, rfl⟩ := ready.suits.opened .headerField (by rw [state]; rfl)
  have same : ∀ other more, some (Field.headerField, before) = some (other, more) →
      other = .headerField := by
    rintro other more ⟨⟩
    rfl
  set counted : HttpParser := { parser with nread := nread }
  obtain ⟨next, letters, rest, scan⟩ := @headerFieldLoop_scan counted state naming (ch :: text)
  obtain ⟨index, headerState, nextIs⟩ := scan.kept
  have length : data.length - place = letters.length + rest.length := by
    rw [← List.length_drop, here, scan.whole, List.length_append]
  have lengths : (ch :: text).length = letters.length + rest.length := by
    rw [scan.whole, List.length_append]
  have inside : 1 ≤ data.length - place := by
    rw [← List.length_drop, here]
    exact Nat.le_add_left 1 _
  have onward : data.drop (place + letters.length) = rest := by
    rw [← List.drop_drop, here, scan.whole, List.drop_left]
  have holds := holds_more ready.holds same (here.trans scan.whole)
  rw [set_eq_self ready.holds ⟨before, rfl⟩] at holds
  have scanned : Frame.scanned data ⟨parser, marks, place⟩ =
      (httpScanner.scan next.uncounted rest).put (letters.map (.letter .headerField)) := by
    rw [Frame.scanned, here]
    exact scan.scans
  have count : Frame.count data ⟨parser, marks, place⟩ =
      (metered next.uncounted rest
        ((HeaderCount.begun parser.nread.toNat).letters letters.length)).cut := by
    rw [Frame.count, HttpParser.headerCount, here]
    exact congrArg HeaderCount.cut (scan.counts _)
  have sum : (next.nread.toNat : Int) + ((ch :: text).length - rest.length) =
      (nread.toNat + letters.length : Nat) := by
    rw [nextIs, lengths]
    show (nread.toNat : Int) + _ = _
    omega
  have limit : httpMaxHeaderSize = 81920 := rfl
  unfold headerFieldOutcome
  dsimp only
  rw [scan.loops]
  dsimp only
  rw [show (ch :: text).length - rest.length = letters.length by omega]
  have nextState : next.state = .sHeaderField := by rw [nextIs]; exact state
  have light : parser.nread.toNat + letters.length <
      (Frame.count data ⟨parser, marks, place⟩).most := by
    rw [count]
    refine letters_lt_most (by rw [show next.uncounted.state = _ from nextState]; rfl) _ ?_
    rintro rfl
    rw [List.length_nil] at length
    omega
  rcases countHeaderSize_cases sum (by omega) with ⟨beyond, large⟩ | ⟨total, totalIs, most, done⟩
  · rw [if_pos (by rw [beyond]; decide)]
    exact ⟨place + letters.length, rfl, by omega, Or.inl ⟨beyond, by omega⟩⟩
  · have errno : next.httpErrno = .ok := by rw [nextIs]; exact ready.idle.sound.errno
    rw [done, if_neg fun bad => bad errno]
    have absorbs : absorb (some (Field.headerField, before))
        (letters.map (.letter .headerField) : List Symbol) =
          ([], some (Field.headerField, before ++ letters)) := absorb_letters _ _ _
    cases rest with
    | nil =>
        have fits : ({ next with nread := total } : HttpParser).Fits := by
          unfold HttpParser.Fits
          rw [show ({ next with nread := total } : HttpParser).state = _ from nextState]
          exact scan.naming
        refine ⟨_, ⟨⟨_, ?_, absorbs⟩, ⟨⟨⟨errno, fits⟩, ?_, by rw [totalIs]; exact most⟩, ?_, holds,
          ?_⟩, ?_⟩, count_atMost_end onward ?_⟩
        · rw [scanned, Frame.scanned, onward]
          rfl
        · intro start
          rw [show ({ next with nread := total } : HttpParser).state = _ from nextState] at start
          cases start
        · show place + letters.length ≤ data.length
          omega
        · show Suits next.state _
          rw [nextState]
          exact suits_some rfl
        · simp only [Frame.left, nextState, state]
          simp only [List.length_nil] at length
          omega
        · rw [count, metered, Scanner.meter_nil]
          show total.toNat ≤ parser.nread.toNat + letters.length + min 1 (0 + letters.length)
          simp only [List.length_nil] at length
          omega
    | cons ch' rest =>
        have noToken := scan.stops ch' rfl
        have more : data.drop (place + letters.length + 1) = rest := by
          rw [← List.drop_drop, onward]
          rfl
        rw [List.length_cons] at length
        dsimp only
        have reaction := @react_nameEnd next.uncounted nextState ch' noToken
        split_ifs with colon
        · rw [if_pos colon] at reaction
          obtain ⟨due, called, event, insides⟩ := dataCall_eq
            { next with nread := total, state := .sHeaderValueDiscardWs } holds
            (fun _ _ => Pending.more_field)
            (by show place + letters.length ≤ data.length; omega) place
            (place + letters.length + 1 : Nat) (place + letters.length + 1) .resume
          refine called ▸ ⟨rfl, insides, ⟨⟨letters.map (.letter .headerField) ++
            [.closed .headerField], ?_, ?_⟩, ⟨⟨⟨errno, trivial⟩, by rintro ⟨⟩, by rw [totalIs]; exact most⟩,
            ?_, rfl, suits_none rfl⟩, ?_⟩, ?_⟩
          · rw [scanned, Scanner.scan_read reaction, Scanned.put_put, Frame.scanned, more]
            rfl
          · rw [absorb_append, absorbs, event]
            rfl
          · show place + letters.length + 1 ≤ data.length
            omega
          · simp only [Frame.left, State.rank, state]
            omega
          · have one := ((HeaderCount.begun parser.nread.toNat).letters letters.length).le_amount
              .sHeaderField ch'
            refine @count_atMost _ _ _ (((HeaderCount.begun parser.nread.toNat).letters
              letters.length).look .sHeaderField ch') ?_ ?_
            · rw [Frame.metered, here]
              refine (scan.counts _).trans ?_
              rw [metered, Scanner.meter_read reaction, more,
                show next.uncounted.state = _ from nextState]
              rfl
            · show total.toNat ≤ parser.nread.toNat + letters.length + _
              rw [totalIs, counts]
              change 1 ≤ _ at one
              omega
        · rw [if_neg colon] at reaction
          refine ⟨place + letters.length, rfl, by omega, Or.inr ⟨rfl, _, ?_,
            congrArg Prod.fst absorbs⟩⟩
          rw [scanned, Scanner.scan_fail reaction, onward]
          simp only [Scanned.put, List.append_nil]
          rfl

/-! ## Values -/

/-- Behind the loop over a value, which has read `letters` and stands in front of `rest`. -/
structure ValueRead (data : List UInt8) (frame : Frame) (nread : UInt32) (before : List UInt8)
    (next : HttpParser) (hState : HeaderState) (letters rest : List UInt8) : Prop where
  here : frame.parser.state = .sHeaderValue
  counts : nread.toNat = frame.parser.nread.toNat + 1
  small : nread.toNat ≤ httpMaxHeaderSize
  inside : 1 ≤ data.length - frame.place
  length : data.length - frame.place = letters.length + rest.length
  onward : data.drop (frame.place + letters.length) = rest
  holds : Holds data frame.marks (frame.place + letters.length)
    (Pending.more (some (.headerValue, before)) .headerValue letters)
  state : next.state = .sHeaderValue
  errno : next.httpErrno = .ok
  nread : next.nread = nread
  valued : hState.valued
  scanned : frame.scanned data =
    (httpScanner.scan (next.valuing hState) rest).put (letters.map (.letter .headerValue))
  metered : frame.metered data = metered (next.valuing hState) rest
    ((HeaderCount.begun frame.parser.nread.toNat).letters letters.length)

namespace ValueRead

variable {nread total : UInt32} {before letters rest : List UInt8} {next : HttpParser}
  {hState : HeaderState}

theorem light (read : ValueRead data frame nread before next hState letters rest) :
    frame.parser.nread.toNat + letters.length < (frame.count data).most := by
  show _ < (frame.metered data).cut.most
  rw [read.metered]
  refine letters_lt_most (by rw [show (next.valuing hState).state = _ from read.state]; rfl) _ ?_
  rintro rfl
  have inside := read.inside
  rw [read.length, List.length_nil] at inside
  omega

theorem within (read : ValueRead data frame nread before next hState letters rest) :
    frame.place + letters.length ≤ data.length := by
  have inside := read.inside
  have length := read.length
  omega

theorem absorbs (before letters : List UInt8) : absorb (some (Field.headerValue, before))
    (letters.map (.letter .headerValue) : List Symbol) =
      ([], some (Field.headerValue, before ++ letters)) := absorb_letters _ _ _

/-- The data ends in the value. -/
theorem endsData (read : ValueRead data frame nread before next hState letters [])
    (totalIs : total.toNat = nread.toNat + letters.length)
    (most : nread.toNat + letters.length ≤ httpMaxHeaderSize) :
    (Outcome.next { frame with
      parser := { next with headerState := hState, nread := total }
      place := frame.place + letters.length }).Answers data frame
        (some (.headerValue, before)) := by
  have counts := read.counts
  have inside := read.inside
  have length := read.length
  rw [List.length_nil] at length
  have same : ({ next with headerState := hState, nread := total } : HttpParser).state =
      .sHeaderValue := read.state
  have fits : ({ next with headerState := hState, nread := total } : HttpParser).Fits := by
    unfold HttpParser.Fits
    rw [same]
    exact read.valued
  refine ⟨_, ⟨⟨_, ?_, absorbs before letters⟩, ⟨⟨⟨read.errno, fits⟩, ?_, by rw [totalIs]; exact most⟩,
    read.within, read.holds, ?_⟩, ?_⟩, count_atMost_end read.onward ?_⟩
  · rw [read.scanned, Frame.scanned, read.onward]
    rfl
  · intro start
    rw [same] at start
    cases start
  · show Suits next.state _
    rw [read.state]
    exact suits_some rfl
  · simp only [Frame.left, read.state, read.here]
    omega
  · show _ ≤ (frame.metered data).cut.nread
    rw [read.metered, Http.metered, Scanner.meter_nil]
    show total.toNat ≤ frame.parser.nread.toNat + letters.length + min 1 (0 + letters.length)
    omega

/-- A carriage return ends the value. -/
theorem endsLine (read : ValueRead data frame nread before next hState letters (cr :: rest))
    (short : data.length + httpMaxHeaderSize < 4294967296) :
    (dataCall { frame with
      parser := { next with state := .sHeaderAlmostDone, headerState := hState } } .headerValue
        (frame.place + letters.length) (frame.place + letters.length + 1 : Nat)
        (frame.place + letters.length + 1)
        (.count letters.length (frame.place + letters.length : Nat))).Answers data frame
          (some (.headerValue, before)) := by
  have counts := read.counts
  have small := read.small
  have light := read.light
  have within := read.within
  have length := read.length
  rw [List.length_cons] at length
  have limit : httpMaxHeaderSize = 81920 := rfl
  have reaction := @react_valueEnd (next.valuing hState) read.state cr (.inl rfl)
  rw [if_pos rfl] at reaction
  have more : data.drop (frame.place + letters.length + 1) = rest := by
    rw [← List.drop_drop, read.onward]
    rfl
  have sum : (next.nread.toNat : Int) + letters.length = (nread.toNat + letters.length : Nat) := by
    rw [read.nread]
    rfl
  have atMost : ∀ nread : UInt32, nread.toNat ≤ frame.parser.nread.toNat + letters.length + 1 →
      (Frame.count data ⟨{ next with
          state := .sHeaderAlmostDone
          headerState := hState
          nread := nread }, fun _ => none, frame.place + letters.length + 1⟩).AtMost 0
        (frame.count data) := by
    intro nread le
    refine @count_atMost _ _ _ (((HeaderCount.begun frame.parser.nread.toNat).letters
      letters.length).look .sHeaderValue cr) ?_ le
    rw [read.metered, Http.metered, Scanner.meter_read reaction, more,
      show (next.valuing hState).state = _ from read.state]
    rfl
  obtain ⟨due, called, event, insides⟩ := dataCall_eq
    { next with state := .sHeaderAlmostDone, headerState := hState } read.holds
    (fun _ _ => Pending.more_field) within frame.place
    (frame.place + letters.length + 1 : Nat) (frame.place + letters.length + 1)
    (.count letters.length (frame.place + letters.length : Nat))
  refine called ▸ ⟨rfl, insides, ⟨⟨letters.map (.letter .headerValue) ++
    [.closed .headerValue], ?_, ?_⟩, ⟨⟨⟨read.errno, trivial⟩, (fun bad => by cases bad), ?_⟩,
    ?_, rfl, suits_none rfl⟩, ?_⟩, atMost next.nread ?_, rfl,
    Or.inl ⟨frame.place + letters.length, rfl, by omega⟩, _, sum, by omega, by omega,
    fun nread total => atMost nread ?_⟩
  · rw [read.scanned, Scanner.scan_read reaction, Scanned.put_put, Frame.scanned, more]
    rfl
  · rw [absorb_append, absorbs, event]
    rfl
  · show next.nread.toNat ≤ _
    rw [read.nread]
    exact small
  · show frame.place + letters.length + 1 ≤ data.length
    omega
  · simp only [Frame.left, State.rank, read.here]
    omega
  · rw [read.nread]
    omega
  · omega

/-- A line feed ends the value and is looked at again; the letters are counted twice. -/
theorem endsBare (read : ValueRead data frame nread before next hState letters (lf :: rest))
    (totalIs : total.toNat = nread.toNat + letters.length)
    (most : nread.toNat + letters.length ≤ httpMaxHeaderSize)
    (short : data.length + httpMaxHeaderSize < 4294967296) :
    (dataCall { frame with
      parser := { next with
        state := .sHeaderAlmostDone
        headerState := hState
        nread := total } } .headerValue
        (frame.place + letters.length) (frame.place + letters.length : Nat)
        (frame.place + letters.length)
        (.count (letters.length - 1) ((frame.place + letters.length : Nat) - 1))).Answers data frame
          (some (.headerValue, before)) := by
  have counts := read.counts
  have within := read.within
  have length := read.length
  rw [List.length_cons] at length
  have limit : httpMaxHeaderSize = 81920 := rfl
  have reaction := @react_valueEnd (next.valuing hState) read.state lf (.inr rfl)
  rw [if_neg (by decide)] at reaction
  have atMost : ∀ nread : UInt32, nread.toNat ≤
        frame.parser.nread.toNat + letters.length + max 1 (0 + letters.length) →
      (Frame.count data ⟨{ next with
          state := .sHeaderAlmostDone
          headerState := hState
          nread := nread }, fun _ => none, frame.place + letters.length⟩).AtMost 0
        (frame.count data) := by
    intro nread le
    refine @count_atMost _ _ _ (((HeaderCount.begun frame.parser.nread.toNat).letters
      letters.length).look .sHeaderValue lf) ?_ le
    rw [read.metered, Http.metered, Scanner.meter_again reaction, read.onward,
      show (next.valuing hState).state = _ from read.state]
    rfl
  have twice : frame.parser.nread.toNat + letters.length + max 1 (0 + letters.length) ≤
      (frame.count data).most := by
    refine Nat.le_trans ?_ most_le_count
    rw [read.metered]
    refine Nat.le_trans ?_ (look_le_metered _ (next.valuing hState) lf rest)
    rw [show (next.valuing hState).state = _ from read.state]
    exact Nat.le_max_right _ _
  obtain ⟨due, called, event, insides⟩ := dataCall_eq
    { next with state := .sHeaderAlmostDone, headerState := hState, nread := total } read.holds
    (fun _ _ => Pending.more_field) within frame.place
    (frame.place + letters.length : Nat) (frame.place + letters.length)
    (.count (letters.length - 1) ((frame.place + letters.length : Nat) - 1))
  have again : (total.toNat : Int) + (letters.length - 1) =
      (total.toNat + letters.length - 1 : Nat) := by omega
  refine called ▸ ⟨rfl, insides, ⟨⟨letters.map (.letter .headerValue) ++
    [.closed .headerValue], ?_, ?_⟩, ⟨⟨⟨read.errno, trivial⟩, (fun bad => by cases bad), ?_⟩,
    within, rfl, suits_none rfl⟩, ?_⟩, atMost total ?_, rfl, ?_, _, again, by omega, by omega,
    fun nread count => atMost nread ?_⟩
  · rw [read.scanned, Scanner.scan_again reaction, Scanned.put_put, Frame.scanned, read.onward]
    rfl
  · rw [absorb_append, absorbs, event]
    rfl
  · show total.toNat ≤ _
    omega
  · simp only [Frame.left, State.rank, read.here]
    omega
  · omega
  · cases letters with
    | nil => exact Or.inr (by decide)
    | cons letter letters =>
        rw [List.length_cons] at length ⊢
        exact Or.inl ⟨frame.place + letters.length, by omega, by omega⟩
  · omega

end ValueRead

theorem headerValueOutcome_answers (ready : Ready data frame pending) {ch : UInt8}
    {text : List UInt8} (here : data.drop frame.place = ch :: text)
    (state : frame.parser.state = .sHeaderValue)
    (short : data.length + httpMaxHeaderSize < 4294967296) {nread : UInt32}
    (small : nread.toNat ≤ httpMaxHeaderSize) (counts : nread.toNat = frame.parser.nread.toNat + 1) :
    (headerValueOutcome { frame with parser := { frame.parser with nread := nread } }
      (ch :: text)).Answers data frame pending := by
  obtain ⟨parser, marks, place⟩ := frame
  dsimp only at *
  have valued : parser.headerState.valued := by
    have fits := ready.idle.sound.fits
    unfold HttpParser.Fits at fits
    rwa [state] at fits
  obtain ⟨before, rfl⟩ := ready.suits.opened .headerValue (by rw [state]; rfl)
  have same : ∀ other more, some (Field.headerValue, before) = some (other, more) →
      other = .headerValue := by
    rintro other more ⟨⟩
    rfl
  set counted : HttpParser := { parser with nread := nread }
  obtain ⟨next, hState, letters, rest, scan⟩ :=
    @headerValueLoop_scan counted state parser.headerState valued (ch :: text)
  obtain ⟨flags, index, contentLength, nextIs⟩ := scan.kept
  have length : data.length - place = letters.length + rest.length := by
    rw [← List.length_drop, here, scan.whole, List.length_append]
  have lengths : (ch :: text).length = letters.length + rest.length := by
    rw [scan.whole, List.length_append]
  have inside : 1 ≤ data.length - place := by
    rw [← List.length_drop, here]
    exact Nat.le_add_left 1 _
  have onward : data.drop (place + letters.length) = rest := by
    rw [← List.drop_drop, here, scan.whole, List.drop_left]
  have holds := holds_more ready.holds same (here.trans scan.whole)
  rw [set_eq_self ready.holds ⟨before, rfl⟩] at holds
  have limit : httpMaxHeaderSize = 81920 := rfl
  have nextState : next.state = .sHeaderValue := by rw [nextIs]; exact state
  have errno : next.httpErrno = .ok := by rw [nextIs]; exact ready.idle.sound.errno
  have nextCount : next.nread = nread := by rw [nextIs]
  have scanned : Frame.scanned data ⟨parser, marks, place⟩ =
      httpScanner.scan (counted.valuing parser.headerState) (ch :: text) := by
    rw [Frame.scanned, here]
    rfl
  have metered : Frame.metered data ⟨parser, marks, place⟩ =
      Http.metered (counted.valuing parser.headerState) (ch :: text)
        (.begun parser.nread.toNat) := by
    rw [Frame.metered, here]
    rfl
  have sum : (next.nread.toNat : Int) + letters.length = (nread.toNat + letters.length : Nat) := by
    rw [nextCount]
    rfl
  unfold headerValueOutcome
  dsimp only
  rcases scan.ends with ⟨loops, stops, scans⟩ | ⟨loops, scans⟩
  · rw [show headerValueLoop counted counted.headerState (ch :: text) = _ from loops]
    dsimp only
    rw [show (ch :: text).length - rest.length = letters.length by omega]
    rcases scans with ⟨reads, reads'⟩ | ⟨rfl, long, large⟩
    · have read : ValueRead data ⟨parser, marks, place⟩ nread before next hState letters rest :=
        ⟨state, counts, small, inside, length, onward, holds, nextState, errno, nextCount,
          scan.valued, scanned.trans reads, metered.trans (reads' _)⟩
      have light : parser.nread.toNat + letters.length <
          (Frame.count data ⟨parser, marks, place⟩).most := read.light
      cases rest with
      | nil =>
          dsimp only
          rcases @countHeaderSize_cases { next with headerState := hState } letters.length _ sum
            (by omega) with ⟨beyond, large⟩ | ⟨total, totalIs, most, done⟩
          · rw [if_pos (by rw [beyond]; decide)]
            exact ⟨place + letters.length, rfl, read.within, Or.inl ⟨beyond, by omega⟩⟩
          · rw [done, if_neg fun bad => bad errno]
            exact read.endsData totalIs most
      | cons ch' rest =>
          dsimp only
          rcases stops ch' rfl with rfl | rfl
          · rw [if_pos rfl]
            exact read.endsLine short
          · rw [if_neg (by decide)]
            rcases @countHeaderSize_cases { next with state := .sHeaderAlmostDone } letters.length _
              sum (by omega) with ⟨beyond, large⟩ | ⟨total, totalIs, most, done⟩
            · rw [if_pos (by rw [beyond]; decide)]
              exact ⟨place + letters.length, rfl, read.within, Or.inl ⟨beyond, by omega⟩⟩
            · rw [done, if_neg fun bad => bad errno]
              exact read.endsBare totalIs most short
    · rw [List.length_nil] at length lengths
      dsimp only
      rcases @countHeaderSize_cases { next with headerState := hState } letters.length _ sum
        (by omega) with ⟨beyond, -⟩ | ⟨total, totalIs, most, -⟩
      · rw [if_pos (by rw [beyond]; decide)]
        exact ⟨place + letters.length, rfl, by omega,
          Or.inl ⟨beyond, Nat.lt_of_lt_of_le (metered ▸ large _) most_le_count⟩⟩
      · omega
  · rw [show headerValueLoop counted counted.headerState (ch :: text) = _ from loops]
    dsimp only
    rw [show (ch :: text).length - rest.length = letters.length by omega]
    refine ⟨place + letters.length, rfl, by omega,
      Or.inr ⟨rfl, _, ?_, congrArg Prod.fst (ValueRead.absorbs before letters)⟩⟩
    rw [scanned, scans, onward]
    rfl

/-! ## Bodies -/

theorem body_same (suits : Suits parser.state pending) (held : parser.state.mayHold = some .body) :
    ∀ other text, pending = some (other, text) → other = .body := by
  rintro other text rfl
  have := suits.held other text rfl
  rw [held] at this
  exact (Option.some.inj this).symm

theorem body_part (ready : Ready data frame pending) {ch : UInt8} {text : List UInt8}
    (here : data.drop frame.place = ch :: text) (held : frame.parser.state.mayHold = some .body)
    {next : HttpParser} (state : next.state = frame.parser.state)
    (nread : next.nread = frame.parser.nread) (sound : next.Sound)
    (counts : metered frame.parser.uncounted (ch :: text) (.begun frame.parser.nread.toNat) =
      .begun frame.parser.nread.toNat)
    (scans : httpScanner.scan frame.parser.uncounted (ch :: text) =
      (httpScanner.scan next.uncounted []).put ((ch :: text).map (.letter .body))) :
    (Outcome.next ⟨next, frame.marks.set .body frame.place,
      frame.place + (ch :: text).length⟩).Answers data frame pending := by
  have same := body_same ready.suits held
  have length : data.length - frame.place = (ch :: text).length := by
    rw [← List.length_drop, here]
  have inside : 1 ≤ (ch :: text).length := Nat.le_add_left 1 _
  have within := ready.within
  have onward : data.drop (frame.place + (ch :: text).length) = [] := by
    rw [List.drop_eq_nil_iff]
    omega
  have after : ∃ before, pending.more .body (ch :: text) = some (Field.body, before) := by
    cases pending with
    | none => exact ⟨_, rfl⟩
    | some part => exact ⟨_, rfl⟩
  obtain ⟨before, afterIs⟩ := after
  refine ⟨_, ⟨⟨_, ?_, absorb_more same (List.cons_ne_nil ch text)⟩, ⟨⟨sound, ?_, ?_⟩, ?_,
    holds_more ready.holds same (here.trans (List.append_nil _).symm), ?_⟩, ?_⟩,
    count_atMost_end onward ?_⟩
  · rw [Frame.scanned, here, scans, Frame.scanned, onward]
  · intro start
    rw [show next.state = _ from start] at state
    rw [← state] at held
    cases held
  · rw [nread]
    exact ready.idle.small
  · show frame.place + (ch :: text).length ≤ data.length
    omega
  · rw [afterIs]
    exact suits_some (by rw [← held, ← state])
  · simp only [Frame.left, state]
    omega
  · rw [Frame.count, HttpParser.headerCount, here, counts]
    exact Nat.le_of_eq (congrArg UInt32.toNat nread)

theorem body_bounds (sound : parser.Sound)
    (state : parser.state = .sBodyIdentity ∨ parser.state = .sChunkData) :
    0 < parser.contentLength.toNat ∧ parser.contentLength ≠ ullongMax := by
  have fits := sound.fits
  unfold HttpParser.Fits at fits
  have positive : parser.contentLength ≠ 0 → 0 < parser.contentLength.toNat := by
    intro notZero
    apply Nat.pos_of_ne_zero
    intro zero
    exact notZero (UInt64.toNat_inj.mp zero)
  rcases state with state | state
  · rw [state] at fits
    exact ⟨positive fits.1, fits.2⟩
  · rw [state] at fits
    exact ⟨positive fits.2.1, fits.2.2⟩

/-- A body that is not there whole. -/
theorem bodyBytes_sound (sound : parser.Sound)
    (state : parser.state = .sBodyIdentity ∨ parser.state = .sChunkData) {count : Nat}
    (part : count < parser.contentLength.toNat) :
    (parser.bodyBytes count).Sound ∧ (parser.bodyBytes count).contentLength ≠ 0 := by
  have remains := toNat_bodyBytes (Nat.le_of_lt part)
  have bound := parser.contentLength.toNat_lt
  have notZero : (parser.bodyBytes count).contentLength ≠ 0 := by
    intro zero
    have := congrArg UInt64.toNat zero
    rw [remains] at this
    have : parser.contentLength.toNat - count = 0 := this
    omega
  have notMost : (parser.bodyBytes count).contentLength ≠ ullongMax := by
    intro most
    apply (body_bounds sound state).2
    apply UInt64.toNat_inj.mp
    have := congrArg UInt64.toNat most
    rw [remains] at this
    have top : ullongMax.toNat = 18446744073709551615 := by decide
    rw [top] at this ⊢
    omega
  have fits := sound.fits
  unfold HttpParser.Fits at fits
  refine ⟨⟨sound.errno, ?_⟩, notZero⟩
  unfold HttpParser.Fits
  rcases state with state | state
  · rw [show (parser.bodyBytes count).state = _ from state]
    exact ⟨notZero, notMost⟩
  · rw [state] at fits
    rw [show (parser.bodyBytes count).state = _ from state]
    exact ⟨fits.1, notZero, notMost⟩

theorem bodyIdentityOutcome_answers (ready : Ready data frame pending) {ch : UInt8}
    {text : List UInt8} (here : data.drop frame.place = ch :: text)
    (state : frame.parser.state = .sBodyIdentity) :
    (bodyIdentityOutcome frame (ch :: text)).Answers data frame pending := by
  have held : frame.parser.state.mayHold = some .body := by
    rw [state]
    rfl
  have inside : 1 ≤ (ch :: text).length := Nat.le_add_left 1 _
  have positive := (body_bounds ready.idle.sound (Or.inl state)).1
  obtain ⟨count, total⟩ : ∃ count, frame.parser.contentLength.toNat = count := ⟨_, rfl⟩
  unfold bodyIdentityOutcome takeBody
  dsimp only
  rw [total] at positive ⊢
  by_cases whole : count ≤ (ch :: text).length
  · obtain ⟨front, last, takes, drops, lastByte, scans, counts⟩ :=
      @scan_bodyWhole frame.parser.uncounted (Or.inl state) _ total positive (ch :: text) whole
    have empty := bodyBytes_all total
    have length : data.length - frame.place = (ch :: text).length := by
      rw [← List.length_drop, here]
    have reaction := @react_bodyIdentity_last (frame.parser.uncounted.bodyBytes front.length) state
      (by rw [lastByte]; exact empty) last
    rw [lastByte] at reaction
    have same := body_same ready.suits held
    have split : data.drop frame.place = (ch :: text).take count ++ (ch :: text).drop count := by
      rw [List.take_append_drop, here]
    have holds := holds_more ready.holds same split
    rw [List.length_take, Nat.min_eq_left whole] at holds
    have onward : data.drop (frame.place + count - 1) = last :: (ch :: text).drop count := by
      rw [show frame.place + count - 1 = frame.place + (count - 1) by omega, ← List.drop_drop, here]
      exact drops
    have within := ready.within
    have absorbs : absorb pending (((ch :: text).take count).map (.letter .body) : List Symbol) =
        ([], pending.more .body ((ch :: text).take count)) :=
      absorb_more same (by rw [takes]; simp)
    rw [Nat.min_eq_left whole, if_pos (by exact empty),
      show frame.place + count - 1 + 1 = frame.place + count by omega]
    obtain ⟨due, called, event, insides⟩ := dataCall_eq
      { frame.parser.bodyBytes count with state := .sMessageDone } holds
      (fun _ _ => Pending.more_field)
      (by omega) frame.place (frame.place + count - 1 : Nat) (frame.place + count - 1) .resume
    refine called ▸ ⟨rfl, insides, ⟨⟨((ch :: text).take count).map (.letter .body) ++
      [.closed .body], ?_, ?_⟩, ⟨⟨⟨ready.idle.sound.errno, trivial⟩, nofun, ready.idle.small⟩,
      ?_, rfl, suits_none rfl⟩, ?_⟩, @count_atMost _ _ _ (.begun frame.parser.nread.toNat) ?_
        (Nat.le_refl _)⟩
    · rw [Frame.scanned, here, scans, Scanner.scan_again reaction, Scanned.put_put, Frame.scanned,
        onward, takes, List.map_append, List.append_assoc]
      rfl
    · rw [absorb_append, absorbs, event]
      simp [absorb, absorbOne]
    · show frame.place + count - 1 ≤ data.length
      omega
    · simp only [Frame.left, State.rank, state]
      omega
    · rw [Frame.metered, here, counts _ rfl, metered, Scanner.meter_again reaction, onward,
        show (frame.parser.uncounted.bodyBytes front.length).state = _ from state,
        HeaderCount.look_body rfl rfl rfl]
      rfl
  · rw [Nat.min_eq_right (Nat.le_of_not_le whole)]
    obtain ⟨sound, notZero⟩ := bodyBytes_sound ready.idle.sound (Or.inl state)
      (total ▸ Nat.lt_of_not_le whole)
    rw [if_neg (by exact notZero),
      show frame.place + (ch :: text).length - 1 + 1 = frame.place + (ch :: text).length by omega]
    have scans := @scan_body frame.parser.uncounted (Or.inl state) (ch :: text)
      (total ▸ Nat.lt_of_not_le whole) []
    have counts := @metered_body frame.parser.uncounted (Or.inl state) (ch :: text)
      (total ▸ Nat.lt_of_not_le whole) [] (.begun frame.parser.nread.toNat) rfl
    rw [List.append_nil] at scans counts
    exact body_part ready here held rfl rfl sound (counts.trans (Scanner.meter_nil _ _)) scans

theorem chunkDataOutcome_answers (ready : Ready data frame pending) {ch : UInt8}
    {text : List UInt8} (here : data.drop frame.place = ch :: text)
    (state : frame.parser.state = .sChunkData) :
    (chunkDataOutcome frame (ch :: text)).Answers data frame pending := by
  have held : frame.parser.state.mayHold = some .body := by
    rw [state]
    rfl
  have positive := (body_bounds ready.idle.sound (Or.inr state)).1
  obtain ⟨count, total⟩ : ∃ count, frame.parser.contentLength.toNat = count := ⟨_, rfl⟩
  unfold chunkDataOutcome takeBody
  dsimp only
  rw [total] at positive ⊢
  by_cases whole : count ≤ (ch :: text).length
  · obtain ⟨front, last, takes, drops, lastByte, scans, counts⟩ :=
      @scan_bodyWhole frame.parser.uncounted (Or.inr state) _ total positive (ch :: text) whole
    have empty := bodyBytes_all total
    have chunks : frame.parser.hasFlag .chunked = true := by
      have fits := ready.idle.sound.fits
      unfold HttpParser.Fits at fits
      rw [state] at fits
      exact fits.1
    have length : data.length - frame.place = (ch :: text).length := by
      rw [← List.length_drop, here]
    have reaction := @react_chunkData_last (frame.parser.uncounted.bodyBytes front.length) state
      (by rw [lastByte]; exact empty) last
    rw [lastByte] at reaction
    have same := body_same ready.suits held
    have split : data.drop frame.place = (ch :: text).take count ++ (ch :: text).drop count := by
      rw [List.take_append_drop, here]
    have holds := holds_more ready.holds same split
    rw [List.length_take, Nat.min_eq_left whole] at holds
    have onward : data.drop (frame.place + count) = (ch :: text).drop count := by
      rw [← List.drop_drop, here]
    have within := ready.within
    have absorbs : absorb pending (((ch :: text).take count).map (.letter .body) : List Symbol) =
        ([], pending.more .body ((ch :: text).take count)) :=
      absorb_more same (by rw [takes]; simp)
    rw [Nat.min_eq_left whole, if_pos (by exact empty)]
    refine ⟨_, ⟨⟨((ch :: text).take count).map (.letter .body), ?_, absorbs⟩,
      ⟨⟨⟨ready.idle.sound.errno, chunks, empty⟩, nofun, ready.idle.small⟩, ?_, holds, ?_⟩, ?_⟩,
      @count_atMost _ _ _ (.begun frame.parser.nread.toNat) ?_ (Nat.le_refl _)⟩
    · rw [Frame.scanned, here, scans, Scanner.scan_read reaction, Scanned.put_put, Frame.scanned,
        onward, takes, List.map_append]
      rfl
    · show frame.place + count ≤ data.length
      omega
    · cases pending with
      | none => exact suits_some rfl
      | some part => exact suits_some rfl
    · simp only [Frame.left, State.rank, state]
      omega
    · rw [Frame.metered, here, counts _ rfl, metered, Scanner.meter_read reaction, onward,
        show (frame.parser.uncounted.bodyBytes front.length).state = _ from state,
        HeaderCount.look_body rfl rfl rfl]
      rfl
  · rw [Nat.min_eq_right (Nat.le_of_not_le whole)]
    obtain ⟨sound, notZero⟩ := bodyBytes_sound ready.idle.sound (Or.inr state)
      (total ▸ Nat.lt_of_not_le whole)
    rw [if_neg (by exact notZero)]
    have scans := @scan_body frame.parser.uncounted (Or.inr state) (ch :: text)
      (total ▸ Nat.lt_of_not_le whole) []
    have counts := @metered_body frame.parser.uncounted (Or.inr state) (ch :: text)
      (total ▸ Nat.lt_of_not_le whole) [] (.begun frame.parser.nread.toNat) rfl
    rw [List.append_nil] at scans counts
    exact body_part ready here held rfl rfl sound (counts.trans (Scanner.meter_nil _ _)) scans

/-! ## All states -/

/-- An iteration stands for a piece of the scan. -/
theorem iteration_answers (ready : Ready data frame pending) {ch : UInt8} {rest : List UInt8}
    (here : data.drop frame.place = ch :: rest)
    (short : data.length + httpMaxHeaderSize < 4294967296) :
    (iteration frame ch rest).Answers data frame pending := by
  have inside : 1 ≤ data.length - frame.place := by
    rw [← List.length_drop, here]
    exact Nat.le_add_left 1 _
  unfold iteration
  rcases counted_cases ready.idle with ⟨beyond, header, large⟩ | ⟨nread, small, counts, counted⟩
  · unfold HttpParser.counted at beyond
    dsimp only
    rw [if_pos (by rw [beyond]; decide)]
    refine ⟨frame.place, rfl, ready.within, Or.inl ⟨beyond, Nat.lt_of_lt_of_le ?_ most_le_count⟩⟩
    rw [Frame.metered, here]
    refine Nat.lt_of_lt_of_le ?_ (look_le_metered _ _ _ _)
    have one := (HeaderCount.begun frame.parser.nread.toNat).le_amount frame.parser.state ch
    rw [if_pos header] at one
    refine Nat.lt_of_lt_of_le large (Nat.le_trans ?_ (Nat.le_max_right _ _))
    exact Nat.add_le_add_left one _
  unfold HttpParser.counted at counted
  have errno : ({ frame.parser with nread := nread } : HttpParser).httpErrno = .ok :=
    ready.idle.sound.errno
  dsimp only
  rw [counted, if_neg fun bad => bad errno, asserted_of_idle ready.idle counts]
  obtain ⟨parser, parserIs⟩ : ∃ parser : HttpParser, parser = { frame.parser with nread := nread } :=
    ⟨_, rfl⟩
  have same : parser.state = frame.parser.state := by rw [parserIs]
  have uncounting : frame.parser.state.parsingHeader = false → parser = frame.parser := by
    intro body
    rw [if_neg (by rw [body]; exact Bool.false_ne_true)] at counted
    rw [parserIs, ← counted]
  rw [← parserIs]
  cases state : parser.state <;> rw [state] at same
  case sHeaderField =>
    subst parserIs
    rw [← same] at counts
    exact headerFieldOutcome_answers ready here same.symm short small counts
  case sHeaderValue =>
    subst parserIs
    rw [← same] at counts
    exact headerValueOutcome_answers ready here same.symm short small counts
  case sBodyIdentity =>
    rw [uncounting (by rw [← same]; rfl)]
    exact bodyIdentityOutcome_answers ready here same.symm
  case sChunkData =>
    rw [uncounting (by rw [← same]; rfl)]
    exact chunkDataOutcome_answers ready here same.symm
  case sBodyIdentityEof =>
    rw [uncounting (by rw [← same]; rfl)]
    have scans := @scan_bodyEof frame.parser.uncounted same.symm (ch :: rest)
    refine body_part ready here (by rw [← same]; rfl) rfl rfl ready.idle.sound
      (@metered_bodyEof frame.parser.uncounted same.symm _ _ rfl) ?_
    rw [scans, Scanner.scan_nil]
    simp [Scanned.put]
  all_goals
    subst parserIs
    exact charOutcome_answers ready here (by rw [← same]; rfl) small counts

end UAFlow.Http
