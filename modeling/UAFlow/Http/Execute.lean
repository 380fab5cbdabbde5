import UAFlow.Http.Characters

/-!
# `http_parser_execute`

One call goes through the bytes it is given and calls back with what it has
recognised.  `p_state` and `parser->state` are one here: they are the same wherever
a callback or the caller can look.  A pointer into the data is its offset.
-/

namespace UAFlow.Http

/-! ## Callbacks -/

/-- What a callback returns, and whether it has paused the parser. -/
structure Response (User : Type) where
  value : Int
  paused : Bool
  user : User

/-- `http_parser_settings`; a callback is null when it is `none`.  Of the parser's
own functions a callback calls at most `http_parser_pause`. -/
structure HttpParserSettings (User : Type) where
  notice : Notice → Option (HttpParser → User → Response User)
  data : Field → Option (HttpParser → Nat → Nat → User → Response User)

/-- A callback that is due, with the text it is about. -/
inductive Call where
  | notice (notice : Notice)
  | data (field : Field) (start length : Nat)
  deriving DecidableEq

/-- The parser behind a callback that returned `value`. -/
def answered (call : Call) (value : Int) (parser : HttpParser) : HttpParser :=
  match call with
  | .notice .headersComplete =>
      if value = 0 then parser
      else if value = 1 then parser.setFlag .skipbody
      else { parser with httpErrno := .cbNotice .headersComplete }
  | .notice notice =>
      if value ≠ 0 then { parser with httpErrno := .cbNotice notice } else parser
  | .data field _ _ =>
      if value ≠ 0 then { parser with httpErrno := .cbData field } else parser

def respond {User : Type} (call : Call) (parser : HttpParser) (response : Response User) :
    HttpParser × User :=
  let parser := if response.paused then httpParserPause parser true else parser
  (answered call response.value parser, response.user)

def invoke {User : Type} (settings : HttpParserSettings User) (call : Call)
    (parser : HttpParser) (user : User) : HttpParser × User :=
  match call with
  | .notice notice =>
      match settings.notice notice with
      | none => (parser, user)
      | some callback => respond call parser (callback parser user)
  | .data field start length =>
      match settings.data field with
      | none => (parser, user)
      | some callback => respond call parser (callback parser start length user)

def invokeDue {User : Type} (settings : HttpParserSettings User) (due : Option Call)
    (parser : HttpParser) (user : User) : HttpParser × User :=
  match due with
  | none => (parser, user)
  | some call => invoke settings call parser user

/-! ## One iteration -/

abbrev Marks := Field → Option Nat

namespace Marks

def set (marks : Marks) (field : Field) (place : Nat) : Marks :=
  fun other => if other = field then some ((marks field).getD place) else marks other

def clear (marks : Marks) (field : Field) : Marks :=
  fun other => if other = field then none else marks other

end Marks

/-- The parser, the marks, and the place of the character to read next. -/
structure Frame where
  parser : HttpParser
  marks : Marks
  place : Nat

/-- What follows a callback that lets the parser go on: the next iteration, `RETURN`,
or `COUNT_HEADER_SIZE`, which may end in an error, and then the next iteration. -/
inductive After where
  | resume
  | leave (returned : Int)
  | count (amount : Int) (returned : Int)
  deriving DecidableEq

/-- How an iteration ends.  A callback is not due where there is no mark; one that does
not let the parser go on makes it return `returned`. -/
inductive Outcome where
  | next (frame : Frame)
  | call (call : Option Call) (returned : Int) (frame : Frame) (after : After)
  | stop (parser : HttpParser) (returned : Int)
  | fault (fault : Fault)

/-- `COUNT_HEADER_SIZE`, which sets `http_errno` when there is too much. -/
def countHeaderSize (parser : HttpParser) (amount : Int) : HttpParser :=
  let parser := { parser with nread := parser.nread + UInt32.ofInt amount }
  if parser.nread.toNat > httpMaxHeaderSize then
    { parser with httpErrno := .headerOverflow }
  else
    parser

/-- `CALLBACK_DATA_` with the text up to `stop`. -/
def dataCall (frame : Frame) (field : Field) (stop : Nat) (returned : Int) (next : Nat)
    (after : After) : Outcome :=
  .call ((frame.marks field).map fun mark => .data field mark (stop - mark)) returned
    { frame with marks := frame.marks.clear field, place := next } after

/-- What an action comes to: the parser goes on at `next` or does what `after` says,
or returns `returned` behind a callback. -/
def perform (frame : Frame) (action : Action) (returned : Int) (next : Nat) (after : After) :
    Outcome :=
  match action with
  | .quiet => .next { frame with place := next }
  | .mark field => .next { frame with marks := frame.marks.set field frame.place, place := next }
  | .notify notice => .call (some (.notice notice)) returned { frame with place := next } after
  | .flush field => dataCall frame field frame.place returned next after
  | .markFlush field =>
      dataCall { frame with marks := frame.marks.set field frame.place } field frame.place returned
        next after

/-- A case that looks at one character. -/
def charOutcome (frame : Frame) (ch : UInt8) : Outcome :=
  match charStep frame.parser ch with
  | .read parser action =>
      perform { frame with parser := parser } action (frame.place + 1) (frame.place + 1) .resume
  | .again parser action =>
      perform { frame with parser := parser } action frame.place frame.place .resume
  | .leave parser action =>
      perform { frame with parser := parser } action (frame.place + 1) (frame.place + 1)
        (.leave (frame.place + 1))
  | .fail parser => .stop parser frame.place
  | .fault fault => .fault fault

/-- The loop of `s_header_field`: it stops at a character that is no token. -/
def headerFieldLoop : HttpParser → List UInt8 → Except Fault (HttpParser × List UInt8)
  | parser, [] => .ok (parser, [])
  | parser, ch :: rest =>
      let c := token ch
      if c = 0 then
        .ok (parser, ch :: rest)
      else
        match fieldChar parser ch c with
        | .error fault => .error fault
        | .ok parser => headerFieldLoop parser rest

/-- `s_header_field`, with the characters from `p` on. -/
def headerFieldOutcome (frame : Frame) (text : List UInt8) : Outcome :=
  match headerFieldLoop frame.parser text with
  | .error fault => .fault fault
  | .ok (parser, rest) =>
      let place := frame.place + (text.length - rest.length)
      let parser := countHeaderSize parser (text.length - rest.length)
      if parser.httpErrno ≠ .ok then
        .stop parser place
      else
        match rest with
        | [] => .next { frame with parser := parser, place := place }
        | ch :: _ =>
            if ch = byte ':' then
              dataCall
                { frame with parser := { parser with state := .sHeaderValueDiscardWs } }
                .headerField place (place + 1) (place + 1) .resume
            else
              .stop { parser with httpErrno := .invalidHeaderToken } place

/-- Where `memchr` for CR and LF sends `p` in `h_general`: to the first of them, or
to the end of the data when there is none within the limit. -/
def lineEnd (text : List UInt8) : List UInt8 :=
  let limit := min text.length httpMaxHeaderSize
  match (text.take limit).findIdx? fun ch => ch = cr ∨ ch = lf with
  | some offset => text.drop offset
  | none => []

/-- How the loop of `s_header_value` ends. -/
inductive ValueEnd where
  | stopped (parser : HttpParser) (hState : HeaderState) (rest : List UInt8)
  | badLength (parser : HttpParser) (hState : HeaderState) (rest : List UInt8)
  deriving DecidableEq

/-- The loop of `s_header_value`: it stops at CR, at LF, at the end of the data, and at
a character that cannot stand in a length. -/
def headerValueLoop : HttpParser → HeaderState → List UInt8 → Except Fault ValueEnd
  | parser, hState, [] => .ok (.stopped parser hState [])
  | parser, hState, ch :: rest =>
      if ch = cr ∨ ch = lf then
        .ok (.stopped parser hState (ch :: rest))
      else if hState = .hGeneral then
        .ok (.stopped parser hState (lineEnd (ch :: rest)))
      else
        match valueChar parser hState ch with
        | .error fault => .error fault
        | .ok none => .ok (.badLength parser hState (ch :: rest))
        | .ok (some (parser, hState)) => headerValueLoop parser hState rest

/-- `s_header_value`.  At LF the characters are counted twice, the second time with
`p` one place back. -/
def headerValueOutcome (frame : Frame) (text : List UInt8) : Outcome :=
  match headerValueLoop frame.parser frame.parser.headerState text with
  | .error fault => .fault fault
  | .ok (.badLength parser hState rest) =>
      .stop { parser with headerState := hState, httpErrno := .invalidContentLength }
        (frame.place + (text.length - rest.length) : Nat)
  | .ok (.stopped parser hState rest) =>
      let count := text.length - rest.length
      let place := frame.place + count
      match rest with
      | [] =>
          let parser := countHeaderSize { parser with headerState := hState } count
          if parser.httpErrno ≠ .ok then .stop parser place
          else .next { frame with parser := parser, place := place }
      | ch :: _ =>
          let parser := { parser with state := .sHeaderAlmostDone }
          if ch = cr then
            dataCall { frame with parser := { parser with headerState := hState } } .headerValue
              place (place + 1) (place + 1) (.count count place)
          else
            let parser := countHeaderSize parser count
            if parser.httpErrno ≠ .ok then
              .stop parser place
            else
              dataCall { frame with parser := { parser with headerState := hState } } .headerValue
                place place place (.count (count - 1) (place - 1))

/-- `s_body_identity` and `s_chunk_data`: the characters of the body that are there. -/
def takeBody (frame : Frame) (text : List UInt8) : HttpParser × Nat :=
  let toRead := min frame.parser.contentLength.toNat text.length
  ({ frame.parser with contentLength := frame.parser.contentLength - UInt64.ofNat toRead }, toRead)

def bodyIdentityOutcome (frame : Frame) (text : List UInt8) : Outcome :=
  let (parser, toRead) := takeBody frame text
  let marks := frame.marks.set .body frame.place
  let last := frame.place + toRead - 1
  if parser.contentLength = 0 then
    dataCall { frame with parser := { parser with state := .sMessageDone }, marks := marks } .body
      (last + 1) last last .resume
  else
    .next ⟨parser, marks, last + 1⟩

def chunkDataOutcome (frame : Frame) (text : List UInt8) : Outcome :=
  let (parser, toRead) := takeBody frame text
  let parser :=
    if parser.contentLength = 0 then { parser with state := .sChunkDataAlmostDone } else parser
  .next ⟨parser, frame.marks.set .body frame.place, frame.place + toRead⟩

/-- The body of the loop over the data, with the characters from `p` on. -/
def iteration (frame : Frame) (ch : UInt8) (rest : List UInt8) : Outcome :=
  let parser :=
    if frame.parser.state.parsingHeader then countHeaderSize frame.parser 1 else frame.parser
  let frame := { frame with parser := parser }
  if parser.httpErrno ≠ .ok then
    .stop parser frame.place
  else if !asserted parser then
    .fault .assertion
  else
    match parser.state with
    | .sHeaderField => headerFieldOutcome frame (ch :: rest)
    | .sHeaderValue => headerValueOutcome frame (ch :: rest)
    | .sBodyIdentity => bodyIdentityOutcome frame (ch :: rest)
    | .sChunkData => chunkDataOutcome frame (ch :: rest)
    | .sBodyIdentityEof =>
        .next ⟨parser, frame.marks.set .body frame.place, frame.place + (rest.length + 1)⟩
    | _ => charOutcome frame ch

/-! ## The loop -/

structure Executed (User : Type) where
  parser : HttpParser
  returned : Int
  user : User
  deriving DecidableEq

def flushMarks {User : Type} (settings : HttpParserSettings User) (length : Nat) (marks : Marks) :
    List Field → HttpParser → User → Executed User
  | [], parser, user => ⟨parser, length, user⟩
  | field :: fields, parser, user =>
      match marks field with
      | none => flushMarks settings length marks fields parser user
      | some mark =>
          let (parser, user) := invoke settings (.data field mark (length - mark)) parser user
          if parser.httpErrno ≠ .ok then ⟨parser, length, user⟩
          else flushMarks settings length marks fields parser user

def fieldOrder : List Field := [.headerField, .headerValue, .url, .body, .status]

def finish {User : Type} (settings : HttpParserSettings User) (length : Nat) (frame : Frame)
    (user : User) : Except Fault (Executed User) :=
  if (fieldOrder.countP fun field => (frame.marks field).isSome) > 1 ∨
      frame.parser.httpErrno ≠ .ok then
    .error .assertion
  else
    .ok (flushMarks settings length frame.marks fieldOrder frame.parser user)

def executeLoop {User : Type} (settings : HttpParserSettings User) (data : List UInt8) :
    Nat → Frame → User → Except Fault (Executed User)
  | 0, _, _ => .error .unfinished
  | fuel + 1, frame, user =>
      match data.drop frame.place with
      | [] => finish settings data.length frame user
      | ch :: rest =>
          match iteration frame ch rest with
          | .fault fault => .error fault
          | .stop parser returned => .ok ⟨parser, returned, user⟩
          | .next frame => executeLoop settings data fuel frame user
          | .call call returned frame after =>
              if frame.parser.httpErrno ≠ .ok then
                .error .assertion
              else
                let (parser, user) := invokeDue settings call frame.parser user
                if parser.httpErrno ≠ .ok then
                  .ok ⟨parser, returned, user⟩
                else
                  match after with
                  | .resume => executeLoop settings data fuel { frame with parser := parser } user
                  | .leave returned => .ok ⟨parser, returned, user⟩
                  | .count amount returned =>
                      let parser := countHeaderSize parser amount
                      if parser.httpErrno ≠ .ok then .ok ⟨parser, returned, user⟩
                      else executeLoop settings data fuel { frame with parser := parser } user

/-- The field a state is in the middle of. -/
def State.openField : State → Option Field
  | .sHeaderField => some .headerField
  | .sHeaderValue => some .headerValue
  | .sReqPath | .sReqSchema | .sReqSchemaSlash | .sReqSchemaSlashSlash | .sReqServerStart
  | .sReqServer | .sReqServerWithAt | .sReqQueryStringStart | .sReqQueryString
  | .sReqFragmentStart | .sReqFragment => some .url
  | .sResStatus => some .status
  | _ => none

def startMarks (state : State) : Marks :=
  fun field => if state.openField = some field then some 0 else none

/-- `http_parser_execute` without data, which stands for the end of the stream. -/
def executeEof {User : Type} (settings : HttpParserSettings User) (parser : HttpParser)
    (user : User) : Executed User :=
  match parser.state with
  | .sBodyIdentityEof =>
      let (parser, user) := invoke settings (.notice .messageComplete) parser user
      ⟨parser, 0, user⟩
  | .sDead | .sStartReqOrRes | .sStartRes | .sStartReq => ⟨parser, 0, user⟩
  | _ => ⟨{ parser with httpErrno := .invalidEofState }, 1, user⟩

/-- No character takes more than four iterations. -/
def enough (length : Nat) : Nat := 4 * length + 4

def httpParserExecute {User : Type} (settings : HttpParserSettings User) (parser : HttpParser)
    (data : List UInt8) (user : User) : Except Fault (Executed User) :=
  if parser.httpErrno ≠ .ok then
    .ok ⟨parser, 0, user⟩
  else if data = [] then
    .ok (executeEof settings parser user)
  else
    executeLoop settings data (enough data.length) ⟨parser, startMarks parser.state, 0⟩ user

end UAFlow.Http
