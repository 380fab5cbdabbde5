import UAFlow.Http.Options

/-!
# Header lines

A header is a line of its own.  Where it ends shows at the first character of the next
line, which may go on with the value.
-/

namespace UAFlow.Http

open Library

variable {parser : HttpParser} {ch : UInt8}

/-- A header, as it may be written. -/
structure Line where
  name : List UInt8
  blanks : List UInt8
  value : List UInt8
  named : name ≠ []
  tokens : ∀ ch ∈ name, token ch ≠ 0
  blank : ∀ ch ∈ blanks, blankOrTab ch
  inLine : ∀ ch ∈ value, ch ≠ cr ∧ ch ≠ lf
  begins : ∀ ch ∈ value.head?, ¬blankOrTab ch

namespace Line

def text (line : Line) : List UInt8 :=
  line.name ++ byte ':' :: (line.blanks ++ (line.value ++ [cr, lf]))

def nameSymbols (line : Line) : List Symbol :=
  line.name.map (.letter .headerField) ++ [.closed .headerField]

/-- An empty value is reported too. -/
def valueSymbols (line : Line) : List Symbol :=
  if line.value = [] then [.opened .headerValue, .closed .headerValue]
  else line.value.map (.letter .headerValue) ++ [.closed .headerValue]

def symbols (line : Line) : List Symbol := line.nameSymbols ++ line.valueSymbols

def events (line : Line) : List Event :=
  [.text .headerField line.name, .text .headerValue line.value]

theorem value_written (line : Line) (notEmpty : line.value ≠ []) : Value line.value :=
  ⟨notEmpty, line.inLine, line.begins⟩

end Line

/-! ## What headers tell -/

/-- What the headers of a message tell about it. -/
structure Told where
  flags : BitVec 6
  length : UInt64
  deriving DecidableEq

namespace Told

def setFlag (told : Told) (flag : Flag) : Told :=
  { told with flags := (told.flags.setWidth 32 ||| flag.mask).setWidth 6 }

def hasFlag (told : Told) (flag : Flag) : Bool :=
  told.flags.setWidth 32 &&& flag.mask != 0

end Told

def HttpParser.told (parser : HttpParser) : Told := ⟨parser.flags, parser.contentLength⟩

/-- The header the parser looks for under this name. -/
def knownOf (name : List UInt8) : Option Known :=
  [.connection, .proxyConnection, .contentLength, .transferEncoding, .upgrade].find? fun known =>
    name.map tolower = known.name

theorem knownOf_eq_some {name : List UInt8} {known : Known} (found : knownOf name = some known) :
    name.map tolower = known.name := by
  have holds := @List.find?_some _ (fun known : Known => decide (name.map tolower = known.name)) _ _
    found
  exact of_decide_eq_true holds

theorem knownOf_eq_none {name : List UInt8} (unknown : knownOf name = none) (known : Known) :
    name.map tolower ≠ known.name := by
  intro same
  have missing := List.find?_eq_none.mp unknown known (by cases known <;> decide)
  exact missing (decide_eq_true same)

namespace Line

/-- What a line adds to what the headers have told.  Of several lengths the last one stands,
and a body in chunks is one however many options there are. -/
def tells (line : Line) (told : Told) : Told :=
  if line.value = [] then
    told
  else
    match knownOf line.name with
    | some .connection => (listed .start (line.value.splitOn (byte ','))).foldl Told.setFlag told
    | some .proxyConnection =>
        (listed .start (line.value.splitOn (byte ','))).foldl Told.setFlag told
    | some .contentLength =>
        match lengthFrom 0 line.value with
        | some length => { told with length := UInt64.ofNat length }
        | none => told
    | some .transferEncoding => if IsChunked line.value then told.setFlag .chunked else told
    | some .upgrade => told.setFlag .upgrade
    | none => told

/-- A length must be one. -/
def Accepted (line : Line) : Prop :=
  line.value ≠ [] → knownOf line.name = some .contentLength → lengthFrom 0 line.value ≠ none

instance (line : Line) : Decidable line.Accepted := inferInstanceAs (Decidable (_ → _))

end Line

/-! ## The end of a line -/

theorem scan_lineEnd (here : parser.state = .sHeaderAlmostDone) (blank : ¬blankOrTab ch)
    (rest : List UInt8) :
    httpScanner.scan parser (lf :: ch :: rest) =
      httpScanner.scan { parser.leaveFlag parser.headerState with state := .sHeaderFieldStart }
        (ch :: rest) := by
  have lineFeed : httpScanner.react parser lf = .read { parser with state := .sHeaderValueLws } [] := by
    show react parser lf = _
    rw [react_single (by rw [here]; rfl)]
    have step : charStep parser lf = goTo parser .sHeaderValueLws := by
      unfold charStep
      rw [here]
      rfl
    rw [step, goTo, Verdict.reaction, Action.symbols, here]
    rfl
  have next : httpScanner.react { parser with state := .sHeaderValueLws } ch =
      .again { parser.leaveFlag parser.headerState with state := .sHeaderFieldStart } [] := by
    show Verdict.reaction _ ch (headerValueLws { parser with state := .sHeaderValueLws } ch) = _
    unfold headerValueLws
    rw [if_neg (show ¬(ch = byte ' ' ∨ ch = tab) from blank)]
    unfold HttpParser.leaveFlag
    cases flagOf parser.headerState <;> rfl
  rw [Scanner.scan_read lineFeed, Scanned.put_nil, Scanner.scan_again next, Scanned.put_nil]

theorem scan_noValue (here : parser.state = .sHeaderValueDiscardWs) (blank : ¬blankOrTab ch)
    (rest : List UInt8) :
    httpScanner.scan parser (cr :: lf :: ch :: rest) =
      (httpScanner.scan { parser.leaveFlag parser.headerState with state := .sHeaderFieldStart }
        (ch :: rest)).put [.opened .headerValue, .closed .headerValue] := by
  have carriage : httpScanner.react parser cr =
      .read { parser with state := .sHeaderValueDiscardWsAlmostDone } [] := by
    show react parser cr = _
    rw [react_single (by rw [here]; rfl)]
    have step : charStep parser cr = goTo parser .sHeaderValueDiscardWsAlmostDone := by
      unfold charStep
      rw [here]
      rfl
    rw [step, goTo, Verdict.reaction, Action.symbols, here]
    rfl
  have lineFeed : httpScanner.react { parser with state := .sHeaderValueDiscardWsAlmostDone } lf =
      .read { parser with state := .sHeaderValueDiscardLws } [] := rfl
  have next : httpScanner.react { parser with state := .sHeaderValueDiscardLws } ch =
      .again { parser.leaveFlag parser.headerState with state := .sHeaderFieldStart }
        [.opened .headerValue, .closed .headerValue] := by
    show Verdict.reaction _ ch
      (headerValueDiscardLws { parser with state := .sHeaderValueDiscardLws } ch) = _
    unfold headerValueDiscardLws
    rw [if_neg (show ¬(ch = byte ' ' ∨ ch = tab) from blank)]
    unfold HttpParser.leaveFlag
    cases flagOf parser.headerState <;> rfl
  rw [Scanner.scan_read carriage, Scanned.put_nil, Scanner.scan_read lineFeed, Scanned.put_nil,
    Scanner.scan_again next]

/-! ## A line -/

theorem Line.scan_name (line : Line) (here : parser.state = .sHeaderFieldStart) (rest : List UInt8) :
    ∃ index headerState,
      httpScanner.scan parser (line.text ++ rest) =
          (httpScanner.scan
            { parser with
              state := .sHeaderValueDiscardWs
              index := index
              headerState := headerState } (line.value ++ cr :: lf :: rest)).put
            line.nameSymbols ∧
        Spelled headerState index (line.name.map tolower) := by
  obtain ⟨index, headerState, scans, spelled⟩ :=
    Http.scan_name here line.named line.tokens (line.blanks ++ (line.value ++ cr :: lf :: rest))
  refine ⟨index, headerState, ?_, spelled⟩
  rw [scan_blanks rfl line.blank] at scans
  rw [← show line.name ++ byte ':' :: (line.blanks ++ (line.value ++ cr :: lf :: rest)) =
    line.text ++ rest by simp [Line.text]]
  exact scans

theorem Spelled.flagOf {headerState : HeaderState} {index : UInt8} {text : List UInt8}
    (spelled : Spelled headerState index text) : flagOf headerState = none := by
  cases headerState <;> first | rfl | exact absurd spelled id

theorem leaveFlag_none {hState : HeaderState} (flagless : flagOf hState = none) (parser : HttpParser) :
    parser.leaveFlag hState = parser := by
  unfold HttpParser.leaveFlag
  rw [flagless]

theorem headerValueStart_plain {text : List UInt8}
    (spelled : Spelled parser.headerState parser.index text)
    (plain : ∀ known : Known, text ≠ known.name) (ch : UInt8) :
    headerValueStart parser ch =
      .read { parser with state := .sHeaderValue, index := 0, headerState := .hGeneral }
        (.mark .headerValue) := by
  unfold headerValueStart
  cases here : parser.headerState <;> rw [here] at spelled <;> try rfl
  case hConnection =>
    rcases spelled with same | same
    · exact absurd same (plain .connection)
    · exact absurd same (plain .proxyConnection)
  case hContentLength => exact absurd spelled (plain .contentLength)
  case hTransferEncoding => exact absurd spelled (plain .transferEncoding)
  case hUpgrade => exact absurd spelled (plain .upgrade)
  case hMatchingConnectionTokenStart => exact absurd spelled id

/-- Where lines have led that told this. -/
def Lined (parser : HttpParser) (told : Told) (next : HttpParser) : Prop :=
  ∃ index headerState,
    next = { parser with
      flags := told.flags
      state := .sHeaderFieldStart
      index := index
      headerState := headerState
      contentLength := told.length }

theorem setFlags_told (parser : HttpParser) (flags : List Flag) :
    (parser.setFlags flags).flags = (flags.foldl Told.setFlag parser.told).flags ∧
      (flags.foldl Told.setFlag parser.told).length = parser.contentLength := by
  induction flags generalizing parser with
  | nil => exact ⟨rfl, rfl⟩
  | cons flag flags inductionHypothesis => exact inductionHypothesis (parser.setFlag flag)

theorem Line.scan_value (line : Line) (notEmpty : line.value ≠ []) {index : UInt8}
    {headerState : HeaderState} (spelled : Spelled headerState index (line.name.map tolower))
    (accepted : line.Accepted) (rest : List UInt8) :
    ∃ next index' headerState',
      httpScanner.scan
          { parser with
            state := .sHeaderValueDiscardWs
            index := index
            headerState := headerState } (line.value ++ rest) =
        (httpScanner.scan next rest).put (line.value.map (.letter .headerValue)) ∧
      next.state = .sHeaderValue ∧
      next.leaveFlag next.headerState =
        { parser with
          flags := (line.tells parser.told).flags
          state := .sHeaderValue
          index := index'
          headerState := headerState'
          contentLength := (line.tells parser.told).length } := by
  have written := line.value_written notEmpty
  let named : HttpParser :=
    { parser with state := .sHeaderValueDiscardWs, index := index, headerState := headerState }
  have found : ∀ known : Known, knownOf line.name = some known → headerState = known.found :=
    fun known isKnown => (spelled.found_iff known).mpr ⟨known, rfl, knownOf_eq_some isKnown⟩
  have options : headerState = .hConnection →
      ∃ next index' headerState',
        httpScanner.scan named (line.value ++ rest) =
          (httpScanner.scan next rest).put (line.value.map (.letter .headerValue)) ∧
        next.state = .sHeaderValue ∧
        next.leaveFlag next.headerState =
          { parser with
            flags := ((listed .start (line.value.splitOn (byte ','))).foldl Told.setFlag
              parser.told).flags
            state := .sHeaderValue
            index := index'
            headerState := headerState'
            contentLength := ((listed .start (line.value.splitOn (byte ','))).foldl Told.setFlag
              parser.told).length } := by
    intro connection
    obtain ⟨next, index', headerState', scans, state, leaves⟩ :=
      @scan_connection named line.value rfl connection written rest
    obtain ⟨flags, length⟩ :=
      setFlags_told named (listed .start (line.value.splitOn (byte ',')))
    refine ⟨next, index', headerState', scans, state, ?_⟩
    rw [leaves, setFlags_eq named, flags, ← show named.told = parser.told from rfl, length]
  obtain ⟨first, text, valueIs⟩ := List.exists_cons_of_ne_nil notEmpty
  have begins := valueIs ▸ written.begins
  have inLine := valueIs ▸ written.inLine
  obtain ⟨⟨notCr, notLf⟩, later⟩ := List.forall_mem_cons.mp inLine
  have reacts := @react_valueStart named first rfl (begins first rfl) notCr notLf
  -- A value that is only passed on, behind its first letter.
  have passed : ∀ started : HttpParser, started.state = .sHeaderValue →
      started.headerState = .hGeneral →
      headerValueStart named first = .read started (.mark .headerValue) →
      httpScanner.scan named (line.value ++ rest) =
        (httpScanner.scan started rest).put (line.value.map (.letter .headerValue)) := by
    intro started here general starts
    rw [starts] at reacts
    rw [valueIs, List.cons_append, Scanner.scan_read reacts, scan_general here general later,
      Scanned.put_put]
    rfl
  cases isKnown : knownOf line.name with
  | none =>
      have tells : line.tells parser.told = parser.told := by
        unfold Line.tells
        rw [if_neg notEmpty, isKnown]
      rw [tells]
      exact ⟨_, 0, .hGeneral,
        passed _ rfl rfl (@headerValueStart_plain named _ spelled (knownOf_eq_none isKnown) first),
        rfl, rfl⟩
  | some known =>
      have here := found known isKnown
      cases known with
      | connection =>
          unfold Line.tells
          rw [if_neg notEmpty, isKnown]
          exact options here
      | proxyConnection =>
          unfold Line.tells
          rw [if_neg notEmpty, isKnown]
          exact options here
      | contentLength =>
          have reads := @Http.scan_length named rfl here line.value written rest
          cases value : lengthFrom 0 line.value with
          | none => exact absurd value (accepted notEmpty isKnown)
          | some length =>
              have tells : line.tells parser.told =
                  { parser.told with length := UInt64.ofNat length } := by
                unfold Line.tells
                rw [if_neg notEmpty, isKnown]
                dsimp only
                rw [value]
              rw [value] at reads
              refine ⟨_, 0, headerState, reads, rfl, ?_⟩
              rw [tells]
              exact leaveFlag_none (show flagOf headerState = none by rw [here]; rfl) _
      | transferEncoding =>
          obtain ⟨index', headerState', reads, flag⟩ :=
            @Http.scan_encoding named line.value rfl here written rest
          refine ⟨_, index', headerState', reads, rfl, ?_⟩
          unfold Line.tells HttpParser.leaveFlag
          rw [if_neg notEmpty, isKnown]
          dsimp only
          rw [flag]
          split_ifs <;> rfl
      | upgrade =>
          have tells : line.tells parser.told = parser.told.setFlag .upgrade := by
            unfold Line.tells
            rw [if_neg notEmpty, isKnown]
          have starts : headerValueStart named first =
              .read
                { named.setFlag .upgrade with
                  state := .sHeaderValue
                  index := 0
                  headerState := .hGeneral } (.mark .headerValue) := by
            unfold headerValueStart
            rw [show named.headerState = .hUpgrade from here]
            rfl
          rw [tells]
          exact ⟨_, 0, .hGeneral, passed _ rfl rfl starts, rfl, rfl⟩

/-- A line is read whole, up to the character that shows its end. -/
theorem Line.scan (line : Line) (accepted : line.Accepted) (here : parser.state = .sHeaderFieldStart)
    (blank : ¬blankOrTab ch) (rest : List UInt8) :
    ∃ next, Lined parser (line.tells parser.told) next ∧
      httpScanner.scan parser (line.text ++ ch :: rest) =
        (httpScanner.scan next (ch :: rest)).put line.symbols := by
  obtain ⟨index, headerState, scans, spelled⟩ := line.scan_name here (ch :: rest)
  rw [scans]
  by_cases empty : line.value = []
  · have tells : line.tells parser.told = parser.told := if_pos empty
    refine ⟨{ parser with state := .sHeaderFieldStart, index := index, headerState := headerState },
      ⟨index, headerState, by rw [tells]; rfl⟩, ?_⟩
    rw [empty, List.nil_append, scan_noValue rfl blank, leaveFlag_none spelled.flagOf, Line.symbols,
      Line.valueSymbols, if_pos empty, Scanned.put_put]
  · obtain ⟨next, index', headerState', reads, state, leaves⟩ :=
      @Line.scan_value parser line empty _ _ spelled accepted (cr :: lf :: ch :: rest)
    refine ⟨{ next.leaveFlag next.headerState with state := .sHeaderFieldStart },
      ⟨index', headerState', by rw [leaves]⟩, ?_⟩
    have ends := @scan_lineEnd { next with state := .sHeaderAlmostDone } ch rfl blank rest
    have leaveFlag_state : ∀ hState : HeaderState,
        { ({ next with state := .sHeaderAlmostDone } : HttpParser).leaveFlag hState with
          state := .sHeaderFieldStart } =
        { next.leaveFlag hState with state := .sHeaderFieldStart } := by
      intro hState
      unfold HttpParser.leaveFlag
      cases flagOf hState <;> rfl
    rw [leaveFlag_state] at ends
    rw [reads, scan_valueEnd state, ends, Line.symbols, Line.valueSymbols, if_neg empty]
    simp only [Scanned.put_put]

theorem Line.scan_refused (line : Line) (refused : ¬line.Accepted)
    (here : parser.state = .sHeaderFieldStart) (rest : List UInt8) :
    Rejected (httpScanner.scan parser (line.text ++ rest)) .invalidContentLength := by
  unfold Line.Accepted at refused
  push Not at refused
  obtain ⟨notEmpty, isKnown, bad⟩ := refused
  obtain ⟨index, headerState, scans, spelled⟩ := line.scan_name here rest
  have found : headerState = .hContentLength :=
    (spelled.found_iff .contentLength).mpr ⟨.contentLength, rfl, knownOf_eq_some isKnown⟩
  subst found
  have reads := @Http.scan_length
    { parser with state := .sHeaderValueDiscardWs, index := index, headerState := .hContentLength }
    rfl rfl _ (line.value_written notEmpty) (cr :: lf :: rest)
  rw [bad] at reads
  rw [scans]
  exact reads.put _

end UAFlow.Http
