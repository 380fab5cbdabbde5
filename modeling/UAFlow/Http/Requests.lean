import UAFlow.Http.Lines
import UAFlow.Http.Pauses

/-!
# Requests

A request is written as a text and read back: the parser reports its parts, in their
order, and is then where it was before.
-/

namespace UAFlow.Http

open Library

variable {parser : HttpParser} {ch : UInt8}

/-! ## The request line -/

def State.endsUrl : State → Bool
  | .sReqServer | .sReqServerWithAt | .sReqPath | .sReqQueryStringStart | .sReqQueryString
  | .sReqFragmentStart | .sReqFragment => true
  | _ => false

/-- Where `parse_url_char` gets to in a text. -/
def urlState (start : State) (url : List UInt8) : State := url.foldl parseUrlChar start

theorem parseUrlChar_dead (ch : UInt8) : parseUrlChar .sDead ch = .sDead := by
  unfold parseUrlChar
  dsimp only
  split_ifs <;> rfl

theorem urlState_dead (url : List UInt8) : urlState .sDead url = .sDead := by
  induction url with
  | nil => rfl
  | cons ch url inductionHypothesis =>
      rw [urlState, List.foldl_cons, parseUrlChar_dead]
      exact inductionHypothesis

theorem parseUrlChar_alive {state : State} (alive : parseUrlChar state ch ≠ .sDead) :
    ch ≠ byte ' ' ∧ ch ≠ cr ∧ ch ≠ lf := by
  refine ⟨?_, ?_, ?_⟩ <;> rintro rfl <;> exact alive (if_pos (by decide))

theorem react_url (here : parser.state.openField = some .url)
    (alive : parseUrlChar parser.state ch ≠ .sDead) :
    react parser ch =
      .read { parser with state := parseUrlChar parser.state ch } [.letter .url ch] := by
  obtain ⟨notBlank, notCr, notLf⟩ := parseUrlChar_alive alive
  have symbols : Action.quiet.symbols parser.state ch = [.letter .url ch] := by
    rw [Action.symbols, here]
  have step : charStep parser ch = goTo parser (parseUrlChar parser.state ch) := by
    have schema : reqSchema parser ch = goTo parser (parseUrlChar parser.state ch) := by
      unfold reqSchema
      dsimp only
      rw [if_neg (by rintro (same | same | same); exacts [notBlank same, notCr same, notLf same]),
        if_neg alive]
    have url : reqUrl parser ch = goTo parser (parseUrlChar parser.state ch) := by
      unfold reqUrl
      dsimp only
      rw [if_neg notBlank, if_neg (by rintro (same | same); exacts [notCr same, notLf same]),
        if_neg alive]
    unfold charStep
    cases state : parser.state <;> rw [state] at here schema url
    case sReqSchema | sReqSchemaSlash | sReqSchemaSlashSlash | sReqServerStart => exact schema
    case sReqServer | sReqServerWithAt | sReqPath | sReqQueryStringStart | sReqQueryString
        | sReqFragmentStart | sReqFragment => exact url
    all_goals cases here
  have single : parser.state.single = true := by
    cases state : parser.state <;> rw [state] at here <;> first | rfl | cases here
  rw [react_single single, step, goTo, Verdict.reaction, symbols]

theorem scan_urlRest (here : parser.state.openField = some .url) {url : List UInt8}
    (ends : (urlState parser.state url).endsUrl = true) (rest : List UInt8) :
    httpScanner.scan parser (url ++ rest) =
      (httpScanner.scan { parser with state := urlState parser.state url } rest).put
        (url.map (.letter .url)) := by
  induction url generalizing parser with
  | nil => rfl
  | cons ch url inductionHypothesis =>
      have alive : parseUrlChar parser.state ch ≠ .sDead := by
        intro dead
        rw [urlState, List.foldl_cons, dead] at ends
        rw [show url.foldl parseUrlChar .sDead = .sDead from urlState_dead url] at ends
        cases ends
      have onward := ((parseUrlChar_url parser.state ch).resolve_left alive).1
      rw [List.cons_append, Scanner.scan_read (react_url here alive),
        @inductionHypothesis { parser with state := parseUrlChar parser.state ch } onward ends,
        Scanned.put_put]
      rfl

theorem react_urlEnd (ends : parser.state.endsUrl = true) :
    react parser (byte ' ') = .read { parser with state := .sReqHttpStart } [.closed .url] := by
  have step : charStep parser (byte ' ') =
      .read { parser with state := .sReqHttpStart } (.flush .url) := by
    unfold charStep
    cases state : parser.state <;> rw [state] at ends <;> first | rfl | cases ends
  have single : parser.state.single = true := by
    cases state : parser.state <;> rw [state] at ends <;> first | rfl | cases ends
  rw [react_single single, step]
  rfl

/-- A text is a URL when `parse_url_char` can take it all and it may end there. -/
structure IsUrl (method : HttpMethod) (url : List UInt8) : Prop where
  notEmpty : url ≠ []
  ends : (urlState (if method = .connect then .sReqServerStart else .sReqSpacesBeforeUrl)
    url).endsUrl = true

theorem scan_url (here : parser.state = .sReqSpacesBeforeUrl) {url : List UInt8}
    (isUrl : IsUrl parser.method url) (rest : List UInt8) :
    httpScanner.scan parser (url ++ byte ' ' :: rest) =
      (httpScanner.scan { parser with state := .sReqHttpStart } rest).put
        (url.map (.letter .url) ++ [.closed .url]) := by
  obtain ⟨ch, url, rfl⟩ := List.exists_cons_of_ne_nil isUrl.notEmpty
  have ends := isUrl.ends
  let start := if parser.method = .connect then State.sReqServerStart else .sReqSpacesBeforeUrl
  have alive : parseUrlChar start ch ≠ .sDead := by
    intro dead
    rw [urlState, List.foldl_cons, show parseUrlChar _ ch = _ from dead] at ends
    rw [show url.foldl parseUrlChar .sDead = .sDead from urlState_dead url] at ends
    cases ends
  obtain ⟨notBlank, -, -⟩ := parseUrlChar_alive alive
  have starts : httpScanner.react parser ch =
      .read { parser with state := parseUrlChar start ch } [.letter .url ch] := by
    show react parser ch = _
    have step : charStep parser ch = reqSpacesBeforeUrl parser ch := by
      unfold charStep
      rw [here]
    rw [react_single (by rw [here]; rfl), step]
    unfold reqSpacesBeforeUrl
    rw [if_neg notBlank]
    have same : (if parser.method = .connect then .sReqServerStart else parser.state) = start := by
      rw [here]
    dsimp only
    rw [same, if_neg alive]
    rfl
  have onward := ((parseUrlChar_url start ch).resolve_left alive).1
  rw [List.cons_append, Scanner.scan_read starts,
    @scan_urlRest { parser with state := parseUrlChar start ch } onward url ends,
    Scanner.scan_read (react_urlEnd ends)]
  simp only [Scanned.put_put]
  rfl

theorem scan_version {major minor : UInt8} (majorDigit : byte '1' ≤ major ∧ major ≤ byte '9')
    (minorDigit : isNum minor = true) (rest : List UInt8) :
    httpScanner.scan { parser with state := .sReqHttpStart }
        (ascii ['H', 'T', 'T', 'P', '/'] ++ major :: byte '.' :: minor :: cr :: lf :: rest) =
      httpScanner.scan
        { parser with
          state := .sHeaderFieldStart
          httpMajor := (major - byte '0').toUInt16
          httpMinor := (minor - byte '0').toUInt16 } rest := by
  have first : httpScanner.react { parser with state := .sReqFirstHttpMajor } major =
      .read
        { parser with
          state := .sReqHttpMajor
          httpMajor := (major - byte '0').toUInt16 } [] := by
    show Verdict.reaction _ major (if major < byte '1' ∨ major > byte '9' then _ else _) = _
    rw [if_neg (by
      rintro (low | high)
      · exact absurd majorDigit.1 (UInt8.not_le.mpr low)
      · exact absurd majorDigit.2 (UInt8.not_le.mpr high))]
    rfl
  have second : httpScanner.react
      { parser with
        state := .sReqFirstHttpMinor
        httpMajor := (major - byte '0').toUInt16 } minor =
      .read
        { parser with
          state := .sReqHttpMinor
          httpMajor := (major - byte '0').toUInt16
          httpMinor := (minor - byte '0').toUInt16 } [] := by
    show Verdict.reaction _ minor (firstMinor _ minor .sReqHttpMinor) = _
    unfold firstMinor
    rw [if_neg (by rw [minorDigit]; decide)]
    rfl
  simp only [ascii, List.map_cons, List.map_nil, List.cons_append, List.nil_append]
  rw [@Scanner.scan_read _ _ _ httpScanner _ { parser with state := .sReqHttpH } _ _ [] rfl,
    @Scanner.scan_read _ _ _ httpScanner _ { parser with state := .sReqHttpHT } _ _ [] rfl,
    @Scanner.scan_read _ _ _ httpScanner _ { parser with state := .sReqHttpHTT } _ _ [] rfl,
    @Scanner.scan_read _ _ _ httpScanner _ { parser with state := .sReqHttpHTTP } _ _ [] rfl,
    @Scanner.scan_read _ _ _ httpScanner _ { parser with state := .sReqFirstHttpMajor } _ _ [] rfl,
    Scanner.scan_read first,
    @Scanner.scan_read _ _ _ httpScanner _
      { parser with
        state := .sReqFirstHttpMinor
        httpMajor := (major - byte '0').toUInt16 } _ _ [] rfl,
    Scanner.scan_read second,
    @Scanner.scan_read _ _ _ httpScanner _
      { parser with
        state := .sReqLineAlmostDone
        httpMajor := (major - byte '0').toUInt16
        httpMinor := (minor - byte '0').toUInt16 } _ _ [] rfl,
    @Scanner.scan_read _ _ _ httpScanner _
      { parser with
        state := .sHeaderFieldStart
        httpMajor := (major - byte '0').toUInt16
        httpMinor := (minor - byte '0').toUInt16 } _ _ [] rfl]
  simp only [Scanned.put_nil]

/-! ## The header -/

theorem Lined.refl (here : parser.state = .sHeaderFieldStart) : Lined parser parser.told parser :=
  ⟨parser.index, parser.headerState, by rw [← here]; rfl⟩

theorem Lined.trans {next last : HttpParser} {told told' : Told} (first : Lined parser told next)
    (second : Lined next told' last) : Lined parser told' last := by
  obtain ⟨index, headerState, rfl⟩ := first
  obtain ⟨index', headerState', rfl⟩ := second
  exact ⟨index', headerState', rfl⟩

theorem Lined.state {next : HttpParser} {told : Told} (lined : Lined parser told next) :
    next.state = .sHeaderFieldStart := by
  obtain ⟨index, headerState, rfl⟩ := lined
  rfl

theorem Lined.told {next : HttpParser} {told : Told} (lined : Lined parser told next) :
    next.told = told := by
  obtain ⟨index, headerState, rfl⟩ := lined
  rfl

theorem Line.head (line : Line) (rest : List UInt8) :
    ∃ ch more, line.text ++ rest = ch :: more ∧ ¬blankOrTab ch := by
  obtain ⟨ch, name, named⟩ := List.exists_cons_of_ne_nil line.named
  refine ⟨ch, name ++ byte ':' :: (line.blanks ++ (line.value ++ [cr, lf])) ++ rest, ?_, ?_⟩
  · rw [Line.text, named]
    rfl
  · have isToken := line.tokens ch (named ▸ List.mem_cons_self)
    rintro (rfl | rfl) <;> exact isToken (by decide)

theorem lines_head (lines : List Line) (blank : ¬blankOrTab ch) (rest : List UInt8) :
    ∃ first more, lines.flatMap Line.text ++ ch :: rest = first :: more ∧ ¬blankOrTab first := by
  cases lines with
  | nil => exact ⟨ch, rest, rfl, blank⟩
  | cons line lines =>
      rw [List.flatMap_cons, List.append_assoc]
      exact line.head _

def tellAll (lines : List Line) (told : Told) : Told :=
  lines.foldl (fun told line => line.tells told) told

/-- Lines are read one after the other, and each adds to what is told. -/
theorem scan_lines {lines : List Line} (accepted : ∀ line ∈ lines, line.Accepted)
    (here : parser.state = .sHeaderFieldStart) (blank : ¬blankOrTab ch) (rest : List UInt8) :
    ∃ next, Lined parser (tellAll lines parser.told) next ∧
      httpScanner.scan parser (lines.flatMap Line.text ++ ch :: rest) =
        (httpScanner.scan next (ch :: rest)).put (lines.flatMap Line.symbols) := by
  induction lines generalizing parser with
  | nil => exact ⟨parser, Lined.refl here, rfl⟩
  | cons line lines inductionHypothesis =>
      obtain ⟨isAccepted, later⟩ := List.forall_mem_cons.mp accepted
      obtain ⟨second, more, following, notBlank⟩ := lines_head lines blank rest
      obtain ⟨next, lined, scans⟩ := line.scan isAccepted here notBlank more
      obtain ⟨last, lined', scans'⟩ := inductionHypothesis later lined.state
      rw [lined.told] at lined'
      refine ⟨last, lined.trans lined', ?_⟩
      rw [List.flatMap_cons, List.flatMap_cons, List.append_assoc, following, scans, ← following,
        scans', Scanned.put_put]

/-- What a header of lines comes to: it is read whole and tells what its lines tell, or it is
refused for a length that is none, and for nothing else. -/
theorem headers_exact (lines : List Line) (here : parser.state = .sHeaderFieldStart)
    (blank : ¬blankOrTab ch) (rest : List UInt8) :
    if ∀ line ∈ lines, line.Accepted then
      ∃ next, Lined parser (tellAll lines parser.told) next ∧
        httpScanner.scan parser (lines.flatMap Line.text ++ ch :: rest) =
          (httpScanner.scan next (ch :: rest)).put (lines.flatMap Line.symbols)
    else
      Rejected (httpScanner.scan parser (lines.flatMap Line.text ++ ch :: rest))
        .invalidContentLength := by
  by_cases accepted : ∀ line ∈ lines, line.Accepted
  · rw [if_pos accepted]
    exact scan_lines accepted here blank rest
  · rw [if_neg accepted]
    induction lines generalizing parser with
    | nil => exact absurd (fun line among => absurd among List.not_mem_nil) accepted
    | cons line lines inductionHypothesis =>
        rw [List.flatMap_cons, List.append_assoc]
        by_cases isAccepted : line.Accepted
        · have later : ¬∀ line ∈ lines, line.Accepted := fun later =>
            accepted (List.forall_mem_cons.mpr ⟨isAccepted, later⟩)
          obtain ⟨second, more, following, notBlank⟩ := lines_head lines blank rest
          obtain ⟨next, lined, scans⟩ := line.scan isAccepted here notBlank more
          rw [following, scans, ← following]
          exact (inductionHypothesis lined.state later).put _
        · exact line.scan_refused isAccepted here _

theorem unspaced : ∀ ch ∈ ([] : List UInt8), blankOrTab ch := List.forall_mem_nil _

/-- No header makes the parser believe it is behind a body. -/
theorem tells_trailing (line : Line) (told : Told) :
    (line.tells told).hasFlag .trailing = told.hasFlag .trailing := by
  have kept : ∀ (told : Told) (flag : Flag), flag ≠ .trailing →
      (told.setFlag flag).hasFlag .trailing = told.hasFlag .trailing := by
    rintro ⟨flags, length⟩ flag other
    have same : ∀ flags : BitVec 6,
        ((flags.setWidth 32 ||| flag.mask).setWidth 6).setWidth 32 &&& Flag.mask .trailing =
          flags.setWidth 32 &&& Flag.mask .trailing := by
      cases flag <;> first | decide | exact absurd rfl other
    unfold Told.hasFlag Told.setFlag
    rw [same]
  have options : ∀ (flags : List Flag) (told : Told), (∀ flag ∈ flags, flag ≠ .trailing) →
      (flags.foldl Told.setFlag told).hasFlag .trailing = told.hasFlag .trailing := by
    intro flags
    induction flags with
    | nil => exact fun _ _ => rfl
    | cons flag flags inductionHypothesis =>
        intro told others
        obtain ⟨other, others⟩ := List.forall_mem_cons.mp others
        rw [List.foldl_cons, inductionHypothesis _ others, kept told flag other]
  have untrailing : ∀ flag ∈ listed .start (line.value.splitOn (byte ',')), flag ≠ .trailing := by
    intro flag among
    obtain ⟨option, rfl⟩ := listed_flags among
    cases option <;> decide
  unfold Line.tells
  by_cases empty : line.value = []
  · rw [if_pos empty]
  · rw [if_neg empty]
    cases knownOf line.name with
    | none => rfl
    | some known =>
        cases known with
        | connection => exact options _ told untrailing
        | proxyConnection => exact options _ told untrailing
        | contentLength =>
            dsimp only
            cases lengthFrom 0 line.value <;> rfl
        | transferEncoding =>
            dsimp only
            split_ifs
            · exact kept told .chunked (by decide)
            · rfl
        | upgrade => exact kept told .upgrade (by decide)

theorem tellAll_trailing (lines : List Line) (told : Told) :
    (tellAll lines told).hasFlag .trailing = told.hasFlag .trailing := by
  unfold tellAll
  induction lines generalizing told with
  | nil => rfl
  | cons line lines inductionHypothesis =>
      rw [List.foldl_cons, inductionHypothesis, tells_trailing]

/-- `NEW_MESSAGE` for requests: what decides is the version and the options of the
connection. -/
theorem newMessage_eq (request : parser.type = .httpRequest) :
    parser.newMessage =
      if (if parser.httpMajor > 0 ∧ parser.httpMinor > 0 then !parser.hasFlag .connectionClose
        else parser.hasFlag .connectionKeepAlive) then .sStartReq else .sDead := by
  have eof : httpMessageNeedsEof parser = false := if_pos request
  have start : parser.startState = .sStartReq := if_pos request
  unfold HttpParser.newMessage httpShouldKeepAlive
  rw [eof, start]
  by_cases version : parser.httpMajor > 0 ∧ parser.httpMinor > 0
  · rw [if_pos version, if_pos version]
    cases parser.hasFlag .connectionClose <;> rfl
  · rw [if_neg version, if_neg version]
    cases parser.hasFlag .connectionKeepAlive <;> rfl

theorem react_emptyLine (here : parser.state = .sHeaderFieldStart) :
    react parser cr = .read { parser with state := .sHeadersAlmostDone } [] := by
  have step : charStep parser cr = goTo parser .sHeadersAlmostDone := by
    unfold charStep
    rw [here]
    rfl
  rw [react_single (by rw [here]; rfl), step, goTo, Verdict.reaction, Action.symbols, here]
  rfl

/-- Whether the connection is to be one of another protocol. -/
def HttpParser.upgrades (parser : HttpParser) : Bool :=
  (parser.hasFlag .upgrade && parser.hasFlag .connectionUpgrade) || parser.method = .connect

theorem scan_emptyLine (here : parser.state = .sHeaderFieldStart)
    (untrailing : parser.hasFlag .trailing = false) (rest : List UInt8) :
    httpScanner.scan parser (cr :: lf :: rest) =
      (httpScanner.scan { parser with state := .sHeadersDone, upgrade := parser.upgrades }
        (lf :: rest)).put [.notice .headersComplete] := by
  have carriage : httpScanner.react parser cr =
      .read { parser with state := .sHeadersAlmostDone } [] := react_emptyLine here
  have step : headersAlmostDone { parser with state := .sHeadersAlmostDone } lf =
      .again { parser with state := .sHeadersDone, upgrade := parser.upgrades }
        (.notify .headersComplete) := by
    have same : ({ parser with state := .sHeadersAlmostDone } : HttpParser).hasFlag .trailing =
        false := untrailing
    unfold headersAlmostDone
    rw [if_neg (by decide), if_neg (by rw [same]; decide)]
    rfl
  have lineFeed : httpScanner.react { parser with state := .sHeadersAlmostDone } lf =
      .again { parser with state := .sHeadersDone, upgrade := parser.upgrades }
        [.notice .headersComplete] := by
    show Verdict.reaction _ lf (headersAlmostDone { parser with state := .sHeadersAlmostDone } lf) = _
    rw [step]
    rfl
  rw [Scanner.scan_read carriage, Scanned.put_nil, Scanner.scan_again lineFeed]

end UAFlow.Http
