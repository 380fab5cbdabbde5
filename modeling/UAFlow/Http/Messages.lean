import UAFlow.Http.Bodies

/-!
# Messages

A connection of requests, as they may be written, and what is reported of it.
-/

namespace UAFlow.Http

open Library

variable {parser : HttpParser}

/-! ## Requests as they are written -/

/-- A request up to the empty line. -/
structure Head where
  method : HttpMethod
  url : List UInt8
  major : UInt8
  minor : UInt8
  lines : List Line
  isUrl : IsUrl method url
  majorDigit : byte '1' ≤ major ∧ major ≤ byte '9'
  minorDigit : isNum minor = true
  accepted : ∀ line ∈ lines, line.Accepted

namespace Head

def requestLine (head : Head) : List UInt8 :=
  methodStrings head.method ++ byte ' ' :: (head.url ++ byte ' ' ::
    (ascii ['H', 'T', 'T', 'P', '/'] ++ [head.major, byte '.', head.minor, cr, lf]))

def text (head : Head) : List UInt8 :=
  head.requestLine ++ (head.lines.flatMap Line.text ++ [cr, lf])

def lineSymbols (head : Head) : List Symbol :=
  .notice .messageBegin :: (head.url.map (.letter .url) ++ [.closed .url])

def symbols (head : Head) : List Symbol :=
  head.lineSymbols ++ (head.lines.flatMap Line.symbols ++ [.notice .headersComplete])

def events (head : Head) : List Event :=
  [.notice .messageBegin, .text .url head.url] ++
    (head.lines.flatMap Line.events ++ [.notice .headersComplete])

def told (head : Head) : Told := tellAll head.lines ⟨0, ullongMax⟩

/-- What follows is no longer for this parser. -/
def upgrades (head : Head) : Bool :=
  (head.told.hasFlag .upgrade && head.told.hasFlag .connectionUpgrade) || head.method = .connect

def staysOpen (head : Head) (told : Told) : Bool :=
  if byte '0' < head.minor then !told.hasFlag .connectionClose
  else told.hasFlag .connectionKeepAlive

end Head

/-- The body of a request. -/
inductive Body where
  | none
  | sized (bytes : List UInt8)
  | chunked (chunks : List Chunk) (last : ChunkLine 0) (trailer : List Line)

namespace Body

def text : Body → List UInt8
  | none => []
  | sized bytes => bytes
  | chunked chunks last trailer =>
      chunks.flatMap Chunk.text ++ (last.text ++ (trailer.flatMap Line.text ++ [cr, lf]))

def symbols : Body → List Symbol
  | none => []
  | sized bytes => bytes.map (.letter .body) ++ [.closed .body]
  | chunked chunks _ trailer => chunks.flatMap Chunk.symbols ++ trailer.flatMap Line.symbols

def events : Body → List Event
  | none => []
  | sized bytes => [.text .body bytes]
  | chunked chunks _ trailer => chunks.flatMap Chunk.events ++ trailer.flatMap Line.events

def trailer : Body → List Line
  | chunked _ _ trailer => trailer
  | _ => []

/-- The body is what the headers told: chunks whatever the length, or as many bytes as
announced. -/
def Framed (told : Told) : Body → Prop
  | none => told.hasFlag .chunked = false ∧ (told.length = 0 ∨ told.length = ullongMax)
  | sized bytes =>
      told.hasFlag .chunked = false ∧ told.length ≠ ullongMax ∧ bytes ≠ [] ∧
        told.length.toNat = bytes.length
  | chunked _ _ trailer => told.hasFlag .chunked = true ∧ ∀ line ∈ trailer, line.Accepted

def told (before : Told) : Body → Told
  | chunked _ _ trailer => tellAll trailer { before.setFlag .trailing with length := 0 }
  | _ => before

end Body

structure Message where
  head : Head
  body : Body
  stays : head.upgrades = false
  framed : body.Framed head.told

namespace Message

def text (message : Message) : List UInt8 := message.head.text ++ message.body.text

def symbols (message : Message) : List Symbol :=
  message.head.symbols ++ (message.body.symbols ++ [.notice .messageComplete])

def events (message : Message) : List Event :=
  message.head.events ++ (message.body.events ++ [.notice .messageComplete])

def staysOpen (message : Message) : Bool :=
  message.head.staysOpen (message.body.told message.head.told)

end Message

inductive Last where
  | none
  | closes (message : Message) (closing : message.staysOpen = false)
  | upgrades (head : Head) (upgrading : head.upgrades = true) (rest : List UInt8)

namespace Last

def text : Last → List UInt8
  | none => []
  | closes message _ => message.text
  | upgrades head _ rest => head.text ++ rest

/-- What is not for this parser. -/
def rest : Last → List UInt8
  | upgrades _ _ rest => rest
  | _ => []

def symbols : Last → List Symbol
  | none => []
  | closes message _ => message.symbols
  | upgrades head _ _ => head.symbols ++ [.notice .messageComplete]

def events : Last → List Event
  | none => []
  | closes message _ => message.events
  | upgrades head _ _ => head.events ++ [.notice .messageComplete]

end Last

/-- Requests one after the other. -/
structure Connection where
  messages : List Message
  last : Last
  stays : ∀ message ∈ messages, message.staysOpen = true

namespace Connection

def text (connection : Connection) : List UInt8 :=
  connection.messages.flatMap Message.text ++ connection.last.text

def symbols (connection : Connection) : List Symbol :=
  connection.messages.flatMap Message.symbols ++ connection.last.symbols

def events (connection : Connection) : List Event :=
  connection.messages.flatMap Message.events ++ connection.last.events

end Connection

/-! ## Reading them -/

structure Ahead (parser : HttpParser) : Prop where
  state : parser.state = .sStartReq
  type : parser.type = .httpRequest

/-- A parser in a request with this line, that has been told this. -/
structure Within (head : Head) (told : Told) (parser : HttpParser) : Prop where
  type : parser.type = .httpRequest
  method : parser.method = head.method
  major : 0 < parser.httpMajor
  minor : 0 < parser.httpMinor ↔ byte '0' < head.minor
  told : parser.told = told

variable {head : Head} {told : Told}

theorem Within.hasFlag (within : Within head told parser) (flag : Flag) :
    parser.hasFlag flag = told.hasFlag flag := by
  rw [← within.told]
  rfl

theorem Within.lined {next : HttpParser} {told' : Told} (within : Within head told parser)
    (lined : Lined parser told' next) : Within head told' next := by
  obtain ⟨index, headerState, rfl⟩ := lined
  exact ⟨within.type, within.method, within.major, within.minor, rfl⟩

theorem Within.newMessage (within : Within head told parser) :
    parser.newMessage = if head.staysOpen told then .sStartReq else .sDead := by
  rw [newMessage_eq within.type, within.hasFlag, within.hasFlag]
  unfold Head.staysOpen
  by_cases minor : byte '0' < head.minor
  · rw [if_pos (show parser.httpMajor > 0 ∧ parser.httpMinor > 0 from
      ⟨within.major, within.minor.mpr minor⟩), if_pos minor]
  · rw [if_neg (show ¬(parser.httpMajor > 0 ∧ parser.httpMinor > 0) from
      fun version => minor (within.minor.mp version.2)), if_neg minor]

theorem toNat_minor {ch : UInt8} (digit : isNum ch = true) :
    (0 < (ch - byte '0').toUInt16 ↔ byte '0' < ch) := by
  have low : (byte '0').toNat ≤ ch.toNat := (isNum_iff.mp digit).1
  rw [UInt16.lt_iff_toNat_lt, UInt8.toNat_toUInt16, UInt8.lt_iff_toNat_lt,
    UInt8.toNat_sub_of_le _ _ (UInt8.le_iff_toNat_le.mpr low)]
  exact Nat.sub_pos_iff_lt

theorem Head.scan_requestLine (head : Head) (ahead : Ahead parser) (rest : List UInt8) :
    ∃ next, next.state = .sHeaderFieldStart ∧ Within head ⟨0, ullongMax⟩ next ∧
      httpScanner.scan parser (head.requestLine ++ rest) =
        (httpScanner.scan next rest).put head.lineSymbols := by
  have word : byte ' ' ∉ methodStrings head.method := by
    cases head.method <;> decide
  have starts : ∀ ch ∈ (methodStrings head.method).head?, ch ≠ cr ∧ ch ≠ lf := by
    cases head.method <;> decide +kernel
  have notEmpty : methodStrings head.method ≠ [] := by
    cases head.method <;> decide
  have names := scan_method ahead.state word starts notEmpty
    (head.url ++ byte ' ' :: (ascii ['H', 'T', 'T', 'P', '/'] ++
      head.major :: byte '.' :: head.minor :: cr :: lf :: rest))
  rw [methodNamed_methodStrings] at names
  obtain ⟨index, names⟩ := names
  have majorNum : isNum head.major = true := by
    rw [isNum, decide_eq_true_iff]
    exact ⟨Nat.le_trans (by decide : (byte '0').toNat ≤ (byte '1').toNat) head.majorDigit.1,
      head.majorDigit.2⟩
  have major : 0 < (head.major - byte '0').toUInt16 :=
    (toNat_minor majorNum).mpr
      (Nat.lt_of_lt_of_le (by decide : (byte '0').toNat < (byte '1').toNat) head.majorDigit.1)
  let named : HttpParser :=
    { parser with
      flags := 0
      contentLength := ullongMax
      method := head.method
      state := .sReqSpacesBeforeUrl
      index := index }
  refine ⟨
    { named with
      state := .sHeaderFieldStart
      httpMajor := (head.major - byte '0').toUInt16
      httpMinor := (head.minor - byte '0').toUInt16 },
    rfl, ⟨ahead.type, rfl, major, toNat_minor head.minorDigit, rfl⟩, ?_⟩
  have text : head.requestLine ++ rest =
      methodStrings head.method ++ byte ' ' :: (head.url ++ byte ' ' ::
        (ascii ['H', 'T', 'T', 'P', '/'] ++
          head.major :: byte '.' :: head.minor :: cr :: lf :: rest)) := by
    simp [Head.requestLine]
  rw [text, names, @scan_url named rfl _ head.isUrl,
    @scan_version named _ _ head.majorDigit head.minorDigit, Scanned.put_put]
  rfl

/-- A head is read up to the line feed that ends it, which the parser looks at twice. -/
theorem Head.scan (head : Head) (ahead : Ahead parser) (rest : List UInt8) :
    ∃ next, next.state = .sHeadersDone ∧ Within head head.told next ∧
      next.upgrade = head.upgrades ∧
      httpScanner.scan parser (head.text ++ rest) =
        (httpScanner.scan next (lf :: rest)).put head.symbols := by
  obtain ⟨started, here, within, scans⟩ := head.scan_requestLine ahead
    (head.lines.flatMap Line.text ++ cr :: lf :: rest)
  obtain ⟨lined, isLined, scans'⟩ :=
    scan_lines head.accepted here (show ¬blankOrTab cr by decide) (lf :: rest)
  rw [within.told] at isLined
  have within' : Within head head.told lined := within.lined isLined
  have untrailing : lined.hasFlag .trailing = false := by
    rw [within'.hasFlag, Head.told, tellAll_trailing]
    rfl
  have upgrades : lined.upgrades = head.upgrades := by
    unfold HttpParser.upgrades Head.upgrades
    rw [within'.hasFlag, within'.hasFlag, within'.method]
  refine ⟨{ lined with state := .sHeadersDone, upgrade := lined.upgrades }, rfl,
    ⟨within'.type, within'.method, within'.major, within'.minor, within'.told⟩, upgrades, ?_⟩
  have text : head.text ++ rest =
      head.requestLine ++ (head.lines.flatMap Line.text ++ cr :: lf :: rest) := by
    simp [Head.text]
  rw [text, scans, scans', scan_emptyLine isLined.state untrailing, Head.symbols]
  simp only [Scanned.put_put]

/-- Behind a head that upgrades the connection the parser leaves off. -/
theorem Head.scan_upgrades (head : Head) (upgrading : head.upgrades = true) (ahead : Ahead parser)
    (rest : List UInt8) :
    ∃ next, next.upgrade = true ∧
      httpScanner.scan parser (head.text ++ rest) =
        ⟨head.symbols ++ [.notice .messageComplete], .left next rest⟩ := by
  obtain ⟨done, here, -, upgrade, scans⟩ := head.scan ahead rest
  rw [upgrading] at upgrade
  refine ⟨{ done with state := done.newMessage, nread := 0 }, upgrade, ?_⟩
  have step : charStep done lf =
      .leave { done with state := done.newMessage, nread := 0 } (.notify .messageComplete) := by
    unfold charStep
    rw [here]
    dsimp only
    unfold headersDone
    dsimp only
    rw [if_neg (by decide), if_pos upgrade]
    rfl
  have leaves : httpScanner.react done lf =
      .leave { done with state := done.newMessage, nread := 0 } [.notice .messageComplete] := by
    show react done lf = _
    rw [react_single (by rw [here]; rfl), step]
    rfl
  rw [scans, Scanner.scan_leave leaves]
  rfl

theorem Body.scan (body : Body) (framed : body.Framed told) (here : parser.state = .sHeadersDone)
    (within : Within head told parser) (stays : parser.upgrade = false) (rest : List UInt8) :
    ∃ next, next.type = .httpRequest ∧
      next.state = (if head.staysOpen (body.told told) then .sStartReq else .sDead) ∧
      httpScanner.scan parser (lf :: (body.text ++ rest)) =
        (httpScanner.scan next rest).put (body.symbols ++ [.notice .messageComplete]) := by
  cases body with
  | none =>
      obtain ⟨unchunked, length⟩ := framed
      rw [← within.hasFlag] at unchunked
      rw [← within.told] at length
      refine ⟨{ parser with state := parser.newMessage, nread := 0 }, within.type,
        within.newMessage, ?_⟩
      exact scan_noBody here within.type stays unchunked length rest
  | sized bytes =>
      obtain ⟨unchunked, known, notEmpty, length⟩ := framed
      rw [← within.hasFlag] at unchunked
      rw [← within.told] at known length
      have positive : parser.contentLength ≠ 0 := by
        intro zero
        have whole : parser.contentLength.toNat = bytes.length := length
        rw [zero] at whole
        exact notEmpty (List.length_eq_zero_iff.mp whole.symm)
      let started : HttpParser := { parser with state := .sBodyIdentity, nread := 0 }
      have within' : Within head told started :=
        ⟨within.type, within.method, within.major, within.minor, within.told⟩
      refine ⟨{ started with state := started.newMessage, contentLength := 0 }, within.type,
        within'.newMessage, ?_⟩
      rw [show (Body.sized bytes).text = bytes from rfl,
        scan_bodyStart here stays unchunked ⟨positive, known⟩,
        @scan_identity started rfl within.type bytes notEmpty length]
      simp [Body.symbols]
  | chunked chunks last trailer =>
      obtain ⟨isChunked, accepted⟩ := framed
      rw [← within.hasFlag] at isChunked
      obtain ⟨length, scans⟩ := @scan_chunks parser chunks
        (last.text ++ (trailer.flatMap Line.text ++ cr :: lf :: rest))
      let behind : HttpParser :=
        { parser.setFlag .trailing with
          state := .sHeaderFieldStart
          contentLength := 0
          nread := 0 }
      have within' : Within head { told.setFlag .trailing with length := 0 } behind := by
        refine ⟨within.type, within.method, within.major, within.minor, ?_⟩
        rw [← within.told]
        rfl
      obtain ⟨next, lined, scans'⟩ :=
        @scan_lines behind cr trailer accepted rfl (by decide) (lf :: rest)
      rw [within'.told] at lined
      have within'' := within'.lined lined
      have trailing : next.hasFlag .trailing = true := by
        have set : ∀ flags : BitVec 6,
            ((flags.setWidth 32 ||| Flag.mask .trailing).setWidth 6).setWidth 32 &&&
              Flag.mask .trailing != 0 := by
          decide
        rw [within''.hasFlag, tellAll_trailing]
        exact set told.flags
      refine ⟨{ next with state := next.newMessage }, within''.type, within''.newMessage, ?_⟩
      have text : (Body.chunked chunks last trailer).text ++ rest =
          chunks.flatMap Chunk.text ++
            (last.text ++ (trailer.flatMap Line.text ++ cr :: lf :: rest)) := by
        simp [Body.text]
      have ends : httpScanner.scan
          { parser with state := .sChunkSizeStart, contentLength := length, nread := 0 }
          (last.text ++ (trailer.flatMap Line.text ++ cr :: lf :: rest)) =
            httpScanner.scan behind (trailer.flatMap Line.text ++ cr :: lf :: rest) :=
        @scan_lastChunk { parser with contentLength := length, nread := 0 } last _
      rw [text, scan_chunksStart here stays isChunked, scans, ends, scans',
        scan_trailerEnd lined.state trailing, Body.symbols]
      simp

theorem Message.scan (message : Message) (ahead : Ahead parser) (rest : List UInt8) :
    ∃ next, next.type = .httpRequest ∧
      next.state = (if message.staysOpen then .sStartReq else .sDead) ∧
      httpScanner.scan parser (message.text ++ rest) =
        (httpScanner.scan next rest).put message.symbols := by
  obtain ⟨done, here, within, upgrade, scans⟩ :=
    message.head.scan ahead (message.body.text ++ rest)
  rw [message.stays] at upgrade
  obtain ⟨next, type, state, scans'⟩ :=
    message.body.scan message.framed here within upgrade rest
  refine ⟨next, type, state, ?_⟩
  rw [Message.text, List.append_assoc, scans, scans', Scanned.put_put, Message.symbols]

/-- What a connection leaves of the parser. -/
def Last.Leaves (last : Last) (parser : HttpParser) : Prop :=
  match last with
  | .none => Ahead parser
  | .closes _ _ => parser.state = .sDead
  | .upgrades _ _ _ => parser.upgrade = true

/-- Where the scan of a connection ends. -/
inductive Last.Ends : Last → Ending HttpParser UInt8 → Prop
  | none {next : HttpParser} (leaves : Last.none.Leaves next) : Last.none.Ends (.reached next)
  | closes {message : Message} {closing : message.staysOpen = false} {next : HttpParser}
      (leaves : (Last.closes message closing).Leaves next) :
      (Last.closes message closing).Ends (.reached next)
  | upgrades {head : Head} {upgrading : head.upgrades = true} {rest : List UInt8}
      {next : HttpParser} (leaves : (Last.upgrades head upgrading rest).Leaves next) :
      (Last.upgrades head upgrading rest).Ends (.left next rest)

theorem Connection.scan (connection : Connection) (ahead : Ahead parser) :
    ∃ ending, connection.last.Ends ending ∧
      httpScanner.scan parser connection.text = ⟨connection.symbols, ending⟩ := by
  obtain ⟨messages, last, stays⟩ := connection
  unfold Connection.text Connection.symbols
  dsimp only
  induction messages generalizing parser with
  | nil =>
      cases last with
      | none => exact ⟨_, .none ahead, Scanner.scan_nil parser⟩
      | closes message closing =>
          obtain ⟨next, -, state, scans⟩ := message.scan ahead []
          rw [closing] at state
          refine ⟨_, .closes state, ?_⟩
          rw [List.append_nil, Scanner.scan_nil] at scans
          show httpScanner.scan parser message.text = ⟨message.symbols, _⟩
          rw [scans]
          simp [Scanned.put]
      | upgrades head upgrading rest =>
          obtain ⟨next, upgrade, scans⟩ := head.scan_upgrades upgrading ahead rest
          exact ⟨_, .upgrades upgrade, scans⟩
  | cons message messages inductionHypothesis =>
      obtain ⟨staysOpen, stays⟩ := List.forall_mem_cons.mp stays
      obtain ⟨second, type, state, scans⟩ :=
        message.scan ahead (messages.flatMap Message.text ++ last.text)
      rw [staysOpen] at state
      obtain ⟨ending, ends, scans'⟩ := inductionHypothesis ⟨state, type⟩ stays
      refine ⟨ending, ends, ?_⟩
      rw [List.flatMap_cons, List.flatMap_cons, List.append_assoc, scans, scans', List.append_assoc]
      rfl

/-! ## What is reported -/

theorem assembles_notice (kind : Notice) : Assembles [(.notice kind : Symbol)] [.notice kind] := rfl

theorem Line.assembles (line : Line) : Assembles line.symbols line.events := by
  have value : Assembles line.valueSymbols [.text .headerValue line.value] := by
    unfold Line.valueSymbols
    split_ifs with empty
    · rw [empty]
      rfl
    · exact assembles_text Field.headerValue empty
  exact Assembles.append (assembles_text Field.headerField line.named) value

theorem Chunk.assembles (chunk : Chunk) : Assembles chunk.symbols chunk.events :=
  assembles_text Field.body chunk.notEmpty

theorem Head.assembles (head : Head) : Assembles head.symbols head.events := by
  have first : Assembles head.lineSymbols [.notice .messageBegin, .text .url head.url] :=
    Assembles.append (assembles_notice .messageBegin) (assembles_text Field.url head.isUrl.notEmpty)
  exact first.append ((assembles_flatMap fun line _ => line.assembles).append
    (assembles_notice .headersComplete))

theorem Body.assembles {body : Body} (framed : body.Framed told) :
    Assembles body.symbols body.events := by
  cases body with
  | none => rfl
  | sized bytes => exact assembles_text Field.body framed.2.2.1
  | chunked chunks last trailer =>
      exact Assembles.append (assembles_flatMap fun chunk _ => chunk.assembles)
        (assembles_flatMap fun line _ => line.assembles)

theorem Message.assembles (message : Message) : Assembles message.symbols message.events :=
  message.head.assembles.append
    ((Body.assembles message.framed).append (assembles_notice .messageComplete))

theorem Last.assembles (last : Last) : Assembles last.symbols last.events := by
  cases last with
  | none => rfl
  | closes message closing => exact message.assembles
  | upgrades head upgrading rest => exact head.assembles.append (assembles_notice .messageComplete)

theorem Connection.assembles (connection : Connection) :
    Assembles connection.symbols connection.events :=
  (assembles_flatMap fun message _ => message.assembles).append connection.last.assembles

theorem Last.Ends.good {last : Last} {ending : Ending HttpParser UInt8} (ends : last.Ends ending) :
    ending.isFailed = false ∧ last.Leaves ending.state ∧ ending.rest = last.rest := by
  cases ends with
  | none leaves => exact ⟨rfl, leaves, rfl⟩
  | closes leaves => exact ⟨rfl, leaves, rfl⟩
  | upgrades leaves => exact ⟨rfl, leaves, rfl⟩

theorem reported_connection (connection : Connection) (ahead : Ahead parser) :
    connection.last.Ends (httpScanner.scan parser connection.text).ending ∧
      reported none (httpScanner.scan parser connection.text) = connection.events := by
  obtain ⟨ending, ends, scans⟩ := connection.scan ahead
  rw [scans]
  refine ⟨ends, ?_⟩
  rw [reported_of_not_failed none ends.good.1]
  exact connection.assembles.assemble

/-! ## Calls -/

variable {User : Type}

theorem Ahead.uncounted (ahead : Ahead parser) : Ahead parser.uncounted :=
  ⟨ahead.state, ahead.type⟩

theorem Ahead.begun (ahead : Ahead parser) : parser.state.begun = none := by
  rw [ahead.state]
  rfl

/-- A call with a header of lines reads it whole and goes on behind it with what its lines
tell, or gives it up for a length that is none or because there is more of it than a header
may have, and for nothing else. -/
theorem httpParserExecute_headers {settings : HttpParserSettings User} (agrees : settings.Agrees)
    (lines : List Line) {ch : UInt8} (blank : ¬blankOrTab ch) (rest : List UInt8)
    (idle : parser.Idle) (here : parser.state = .sHeaderFieldStart)
    (short : (lines.flatMap Line.text ++ ch :: rest).length + httpMaxHeaderSize < 4294967296)
    (user : User) :
    ∃ next returned last events,
      httpParserExecute settings parser (lines.flatMap Line.text ++ ch :: rest) user =
          .ok ⟨next, returned, last⟩ ∧
        Made settings (lines.flatMap Line.text ++ ch :: rest) user events last ∧
        (Overflows parser (lines.flatMap Line.text ++ ch :: rest) 0 next ∨
          if ∀ line ∈ lines, line.Accepted then
            ∃ behind, Lined parser.uncounted (tellAll lines parser.told) behind ∧
              next.uncounted = (httpScanner.scan behind (ch :: rest)).ending.state ∧
              events = lines.flatMap Line.events ++
                reported none (httpScanner.scan behind (ch :: rest))
          else next.httpErrno = .invalidContentLength) := by
  obtain ⟨next, returned, last, events, runs, made, call⟩ :=
    httpParserExecute_scan agrees idle (by simp) short user
  refine ⟨next, returned, last, events, runs, made, call.imp And.left ?_⟩
  rintro ⟨⟨uncounted, -⟩, -, same⟩
  have exact := @headers_exact parser.uncounted ch lines here blank rest
  split_ifs at exact ⊢ with accepted
  · obtain ⟨behind, lined, scans⟩ := exact
    have begun : parser.state.begun = none := by
      rw [here]
      rfl
    have assembles : absorb none (lines.flatMap Line.symbols) =
        (lines.flatMap Line.events, none) := assembles_flatMap fun line _ => line.assembles
    refine ⟨behind, lined, by rw [uncounted, scans, Scanned.put_ending], ?_⟩
    rw [same, begun, scans, reported_put, assembles]
  · obtain ⟨state, rest, ending, errno⟩ := exact
    rw [ending] at uncounted
    have kept : next.uncounted.httpErrno = state.httpErrno := congrArg _ uncounted
    exact kept.trans errno

def lengthLine (digit : UInt8) (isDigit : isNum digit = true) : Line where
  name := ascii ['C', 'o', 'n', 't', 'e', 'n', 't', '-', 'L', 'e', 'n', 'g', 't', 'h']
  blanks := []
  value := [digit]
  named := by decide
  tokens := by decide +kernel
  blank := unspaced
  inLine := by
    have := isNum_iff.mp isDigit
    rintro ch among
    obtain rfl := List.mem_singleton.mp among
    constructor <;> rintro rfl <;> revert this <;> decide
  begins := by
    have := isNum_iff.mp isDigit
    rintro ch ⟨⟩
    rintro (rfl | rfl) <;> revert this <;> decide

/-- Of two lengths the second one stands. -/
theorem httpParserExecute_headers_lengths :
    ∃ next returned last events,
      httpParserExecute (heed tally ([lengthLine (byte '5') rfl, lengthLine (byte '7') rfl].flatMap
            Line.text ++ [cr])) { httpParserInit .httpRequest with state := .sHeaderFieldStart }
          ([lengthLine (byte '5') rfl, lengthLine (byte '7') rfl].flatMap Line.text ++ [cr]) 0 =
        .ok ⟨next, returned, last⟩ ∧
      (Overflows { httpParserInit .httpRequest with state := .sHeaderFieldStart }
          ([lengthLine (byte '5') rfl, lengthLine (byte '7') rfl].flatMap Line.text ++ [cr]) 0 next ∨
        ∃ behind,
          Lined { httpParserInit .httpRequest with state := .sHeaderFieldStart } ⟨0, 7⟩ behind ∧
            next.uncounted = (httpScanner.scan behind [cr]).ending.state ∧
            events = [lengthLine (byte '5') rfl, lengthLine (byte '7') rfl].flatMap Line.events ++
              reported none (httpScanner.scan behind [cr])) := by
  obtain ⟨next, returned, last, events, runs, -, call⟩ :=
    @httpParserExecute_headers { httpParserInit .httpRequest with state := .sHeaderFieldStart } _
      (heed tally ([lengthLine (byte '5') rfl, lengthLine (byte '7') rfl].flatMap
        Line.text ++ [cr])) (heed_agrees tally _)
      [lengthLine (byte '5') rfl, lengthLine (byte '7') rfl] cr (by decide) []
      ⟨⟨rfl, trivial⟩, nofun, by decide⟩ rfl (by decide) 0
  rw [if_pos (by decide)] at call
  exact ⟨next, returned, last, events, runs, call⟩

theorem Last.leaves_uncounted {last : Last} {next : HttpParser} (leaves : last.Leaves next.uncounted) :
    last.Leaves next := by
  cases last with
  | none => exact ⟨leaves.state, leaves.type⟩
  | closes message closing => exact leaves
  | upgrades head upgrading rest => exact leaves

/-- A call with requests reports them, unless there is more than a header may have. -/
theorem httpParserExecute_connection {settings : HttpParserSettings User} (agrees : settings.Agrees)
    (connection : Connection) (notEmpty : connection.text ≠ []) (idle : parser.Idle)
    (ahead : Ahead parser)
    (short : connection.text.length + httpMaxHeaderSize < 4294967296) (user : User) :
    ∃ next returned last events,
      httpParserExecute settings parser connection.text user = .ok ⟨next, returned, last⟩ ∧
        Made settings connection.text user events last ∧
        ((Overflows parser connection.text 0 next ∧ events <+: connection.events) ∨
          (next.httpErrno = .ok ∧ connection.last.Leaves next ∧
            returned = connection.text.length - connection.last.rest.length ∧
            events = connection.events)) := by
  obtain ⟨next, returned, last, events, runs, call, made⟩ :=
    httpParserExecute_ends settings idle notEmpty short user
  have outcome := call.agreed agrees
  obtain ⟨ends, reports⟩ := reported_connection connection ahead.uncounted
  rw [ahead.begun, reports] at outcome
  refine ⟨next, returned, last, events, runs, made, outcome.imp_right ?_⟩
  rintro ⟨⟨uncounted, left⟩, rfl, rfl⟩
  obtain ⟨-, leaves, rest⟩ := ends.good
  rw [← uncounted] at leaves
  have errno : next.httpErrno = .ok := by
    generalize (httpScanner.scan parser.uncounted connection.text).ending = ending at ends left
    generalize connection.last = final at ends
    cases ends with
    | none _ => exact left.1.sound.errno
    | closes _ => exact left.1.sound.errno
    | upgrades _ => exact left.1
  exact ⟨errno, connection.last.leaves_uncounted leaves, by rw [rest], rfl⟩

def hostLine : Line where
  name := ascii ['H', 'o', 's', 't']
  blanks := [byte ' ']
  value := [byte 'a']
  named := by decide
  tokens := by decide +kernel
  blank := by decide +kernel
  inLine := by decide +kernel
  begins := by decide +kernel

def chunkedPost : Message where
  head :=
    { method := .post
      url := [byte '/']
      major := byte '1'
      minor := byte '1'
      lines :=
        [{ name := ascii ['T', 'r', 'a', 'n', 's', 'f', 'e', 'r', '-', 'E', 'n', 'c', 'o', 'd', 'i',
             'n', 'g']
           blanks := []
           value := ascii ['C', 'h', 'u', 'n', 'k', 'e', 'd']
           named := by decide
           tokens := by decide +kernel
           blank := unspaced
           inLine := by decide +kernel
           begins := by decide +kernel }]
      isUrl := ⟨by decide, by decide⟩
      majorDigit := by decide
      minorDigit := by decide
      accepted := by decide }
  body := .chunked
    [{ data := ascii ['a', 'b', 'c']
       line := ⟨[byte '3'], [], by decide, by decide +kernel, by decide, by decide +kernel,
         by decide⟩
       notEmpty := by decide }]
    ⟨[byte '0'], [], by decide, by decide +kernel, by decide, by decide +kernel, by decide⟩
    [hostLine]
  stays := by decide
  framed := ⟨by decide, by decide⟩

def closingGet : Message where
  head :=
    { method := .get
      url := [byte '/']
      major := byte '1'
      minor := byte '1'
      lines :=
        [{ name := ascii ['C', 'o', 'n', 'n', 'e', 'c', 't', 'i', 'o', 'n']
           blanks := [byte ' ']
           value := ascii ['T', 'E', ',', 'c', 'l', 'o', 's', 'e']
           named := by decide
           tokens := by decide +kernel
           blank := by decide +kernel
           inLine := by decide +kernel
           begins := by decide +kernel }]
      isUrl := ⟨by decide, by decide⟩
      majorDigit := by decide
      minorDigit := by decide
      accepted := by decide }
  body := .none
  stays := by decide
  framed := ⟨by decide, Or.inr (by decide)⟩

def shortConnection : Connection where
  messages := [chunkedPost]
  last := .closes closingGet (by decide)
  stays := by decide

theorem httpParserExecute_connection_short :
    ∃ next returned last events,
      httpParserExecute (heed tally shortConnection.text) (httpParserInit .httpRequest)
          shortConnection.text 0 = .ok ⟨next, returned, last⟩ ∧
        Made (heed tally shortConnection.text) shortConnection.text 0 events last ∧
        ((Overflows (httpParserInit .httpRequest) shortConnection.text 0 next ∧
            events <+: shortConnection.events) ∨
          (next.httpErrno = .ok ∧ shortConnection.last.Leaves next ∧
            returned = shortConnection.text.length - shortConnection.last.rest.length ∧
            events = shortConnection.events)) :=
  httpParserExecute_connection (heed_agrees tally _) shortConnection (by decide)
    (init_idle .httpRequest) ⟨rfl, rfl⟩ (by decide) 0

/-- Wherever a connection is cut, a handler that takes a text in pieces comes to what the
requests say. -/
theorem feed_connection {step : User → Event → User} (seamless : Seamless step)
    (connection : Connection) {pieces : List (List UInt8)}
    (cut : pieces.flatten = connection.text) (notEmpty : pieces ≠ [])
    (nonempty : ∀ piece ∈ pieces, piece ≠ []) (idle : parser.Idle) (plain : parser.upgrade = false)
    (ahead : Ahead parser) (short : connection.text.length + httpMaxHeaderSize < 4294967296)
    (user : User) :
    ∃ fed, feed (heed step) parser pieces user = .ok fed ∧
      (Overflows parser connection.text (pieces.length - 1) fed.parser ∨
        (connection.last.Leaves fed.parser ∧
          fed.returned = connection.text.length - connection.last.rest.length ∧
          fed.user = connection.events.foldl step user)) := by
  rw [← cut] at short
  obtain ⟨next, returned, events, runs, outcome⟩ := feed_scan step notEmpty nonempty idle plain short user
  obtain ⟨ends, reports⟩ := reported_connection connection ahead.uncounted
  refine ⟨_, runs, ?_⟩
  rw [cut] at outcome
  refine outcome.imp_right ?_
  rintro ⟨uncounted, rfl, same⟩
  obtain ⟨good, leaves, rest⟩ := ends.good
  rw [← uncounted] at leaves
  refine ⟨connection.last.leaves_uncounted leaves, by rw [rest], ?_⟩
  rw [ahead.begun, reports] at same
  exact seamless.foldl_eq user (same good)

/-- The connection in pieces of one byte. -/
theorem feed_connection_short :
    ∃ fed, feed (heed tally) (httpParserInit .httpRequest) (shortConnection.text.map ([·])) 0 =
        .ok fed ∧
      (Overflows (httpParserInit .httpRequest) shortConnection.text
          (shortConnection.text.length - 1) fed.parser ∨
        (shortConnection.last.Leaves fed.parser ∧
          fed.returned = shortConnection.text.length - shortConnection.last.rest.length ∧
          fed.user = shortConnection.events.foldl tally 0)) :=
  feed_connection tally_seamless shortConnection (by decide) (by decide) (by decide)
    (init_idle .httpRequest) rfl ⟨rfl, rfl⟩ (by decide) 0

end UAFlow.Http
