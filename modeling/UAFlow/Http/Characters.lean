import UAFlow.Http.Model

/-!
# One character

What a case of the big `switch` does with the character under `p`, for the states
that look at one character at a time.
-/

namespace UAFlow.Http

/-- Ways a call can go wrong: an assertion fails, a literal is read behind its
terminator, or the loop has not ended within the steps allowed. -/
inductive Fault where
  | assertion
  | outside
  | unfinished
  deriving DecidableEq

/-- What a case does besides changing the parser: nothing, `MARK`, `CALLBACK_NOTIFY`,
`CALLBACK_DATA`, or `MARK` and `CALLBACK_DATA_NOADVANCE` one after the other. -/
inductive Action where
  | quiet
  | mark (field : Field)
  | notify (notice : Notice)
  | flush (field : Field)
  | markFlush (field : Field)
  deriving DecidableEq

/-- How a case ends: with `break`, with `REEXECUTE`, with `RETURN` behind the
character, or with `goto error`. -/
inductive Verdict where
  | read (parser : HttpParser) (action : Action)
  | again (parser : HttpParser) (action : Action)
  | leave (parser : HttpParser) (action : Action)
  | fail (parser : HttpParser)
  | fault (fault : Fault)
  deriving DecidableEq

def failWith (parser : HttpParser) (errno : HttpErrno) : Verdict :=
  .fail { parser with httpErrno := errno }

def goTo (parser : HttpParser) (state : State) : Verdict :=
  .read { parser with state := state } .quiet

/-- `STRICT_CHECK(ch != expected)`, then `UPDATE_STATE` and `break`. -/
def expect (parser : HttpParser) (ch expected : UInt8) (state : State) : Verdict :=
  if ch ≠ expected then failWith parser .strict else goTo parser state

/-! ## The request line -/

/-- The method the first letter stands for. -/
def methodOf (ch : UInt8) : Option HttpMethod :=
  if ch = byte 'C' then some .connect
  else if ch = byte 'D' then some .delete
  else if ch = byte 'G' then some .get
  else if ch = byte 'H' then some .head
  else if ch = byte 'L' then some .lock
  else if ch = byte 'M' then some .mkcol
  else if ch = byte 'N' then some .notify
  else if ch = byte 'O' then some .options
  else if ch = byte 'P' then some .post
  else if ch = byte 'R' then some .report
  else if ch = byte 'S' then some .subscribe
  else if ch = byte 'T' then some .trace
  else if ch = byte 'U' then some .unlock
  else none

/-- The method to go on with at a letter that does not belong to this one. -/
def otherMethod (method : HttpMethod) (index : Nat) (ch : UInt8) : Option HttpMethod :=
  if method = .connect then
    if index = 1 ∧ ch = byte 'H' then some .checkout
    else if index = 2 ∧ ch = byte 'P' then some .copy
    else none
  else if method = .mkcol then
    if index = 1 ∧ ch = byte 'O' then some .move
    else if index = 1 ∧ ch = byte 'E' then some .merge
    else if index = 1 ∧ ch = byte '-' then some .msearch
    else if index = 2 ∧ ch = byte 'A' then some .mkactivity
    else if index = 3 ∧ ch = byte 'A' then some .mkcalendar
    else none
  else if method = .subscribe then
    if index = 1 ∧ ch = byte 'E' then some .search else none
  else if index = 1 ∧ method = .post then
    if ch = byte 'R' then some .propfind
    else if ch = byte 'U' then some .put
    else if ch = byte 'A' then some .patch
    else none
  else if index = 2 then
    if method = .put then
      if ch = byte 'R' then some .purge else none
    else if method = .unlock then
      if ch = byte 'S' then some .unsubscribe else none
    else
      none
  else if index = 4 ∧ method = .propfind ∧ ch = byte 'P' then
    some .proppatch
  else
    none

def startReq (parser : HttpParser) (ch : UInt8) : Verdict :=
  if ch = cr ∨ ch = lf then
    .read parser .quiet
  else
    let parser := { parser with flags := 0, contentLength := ullongMax }
    if !isAlpha ch then
      failWith parser .invalidMethod
    else
      match methodOf ch with
      | none => failWith { parser with method := .delete, index := 1 } .invalidMethod
      | some method =>
          .read { parser with method := method, index := 1, state := .sReqMethod }
            (.notify .messageBegin)

def reqMethod (parser : HttpParser) (ch : UInt8) : Verdict :=
  if ch = 0 then
    failWith parser .invalidMethod
  else
    match (methodStrings parser.method ++ [0])[parser.index.toNat]? with
    | none => .fault .outside
    | some expected =>
        if ch = byte ' ' ∧ expected = 0 then
          .read { parser with state := .sReqSpacesBeforeUrl, index := parser.index + 1 } .quiet
        else if ch = expected then
          .read { parser with index := parser.index + 1 } .quiet
        else
          match otherMethod parser.method parser.index.toNat ch with
          | none => failWith parser .invalidMethod
          | some method => .read { parser with method := method, index := parser.index + 1 } .quiet

def reqSpacesBeforeUrl (parser : HttpParser) (ch : UInt8) : Verdict :=
  if ch = byte ' ' then
    .read parser .quiet
  else
    let start := if parser.method = .connect then .sReqServerStart else parser.state
    let next := parseUrlChar start ch
    if next = .sDead then
      failWith { parser with state := .sDead } .invalidUrl
    else
      .read { parser with state := next } (.mark .url)

def reqSchema (parser : HttpParser) (ch : UInt8) : Verdict :=
  if ch = byte ' ' ∨ ch = cr ∨ ch = lf then
    failWith parser .invalidUrl
  else
    let next := parseUrlChar parser.state ch
    if next = .sDead then
      failWith { parser with state := .sDead } .invalidUrl
    else
      goTo parser next

def reqUrl (parser : HttpParser) (ch : UInt8) : Verdict :=
  if ch = byte ' ' then
    .read { parser with state := .sReqHttpStart } (.flush .url)
  else if ch = cr ∨ ch = lf then
    .read
      { parser with
        httpMajor := 0
        httpMinor := 9
        state := if ch = cr then .sReqLineAlmostDone else .sHeaderFieldStart }
      (.flush .url)
  else
    let next := parseUrlChar parser.state ch
    if next = .sDead then
      failWith { parser with state := .sDead } .invalidUrl
    else
      goTo parser next

def firstMajor (parser : HttpParser) (ch : UInt8) (next : State) : Verdict :=
  .read { parser with httpMajor := (ch - byte '0').toUInt16, state := next } .quiet

def moreMajor (parser : HttpParser) (ch : UInt8) (next : State) : Verdict :=
  if ch = byte '.' then
    goTo parser next
  else if !isNum ch then
    failWith parser .invalidVersion
  else
    let parser :=
      { parser with httpMajor := parser.httpMajor * 10 + (ch - byte '0').toUInt16 }
    if parser.httpMajor > 999 then failWith parser .invalidVersion else .read parser .quiet

def firstMinor (parser : HttpParser) (ch : UInt8) (next : State) : Verdict :=
  if !isNum ch then
    failWith parser .invalidVersion
  else
    .read { parser with httpMinor := (ch - byte '0').toUInt16, state := next } .quiet

def moreMinor (parser : HttpParser) (ch : UInt8) : Verdict :=
  if !isNum ch then
    failWith parser .invalidVersion
  else
    let parser :=
      { parser with httpMinor := parser.httpMinor * 10 + (ch - byte '0').toUInt16 }
    if parser.httpMinor > 999 then failWith parser .invalidVersion else .read parser .quiet

/-! ## The status line -/

/-- `s_start_res`; the callback is made for an empty line too. -/
def startRes (parser : HttpParser) (ch : UInt8) : Verdict :=
  let parser := { parser with flags := 0, contentLength := ullongMax }
  if ch = byte 'H' then
    .read { parser with state := .sResH } (.notify .messageBegin)
  else if ch = cr ∨ ch = lf then
    .read parser (.notify .messageBegin)
  else
    failWith parser .invalidConstant

def resStatusCode (parser : HttpParser) (ch : UInt8) : Verdict :=
  if !isNum ch then
    if ch = byte ' ' then goTo parser .sResStatusStart
    else if ch = cr then goTo parser .sResLineAlmostDone
    else if ch = lf then goTo parser .sHeaderFieldStart
    else failWith parser .invalidStatus
  else
    let parser :=
      { parser with statusCode := parser.statusCode * 10 + (ch - byte '0').toUInt16 }
    if parser.statusCode > 999 then failWith parser .invalidStatus else .read parser .quiet

/-! ## Headers -/

def connection : List UInt8 := ascii ['c', 'o', 'n', 'n', 'e', 'c', 't', 'i', 'o', 'n']

def proxyConnection : List UInt8 := ascii ['p', 'r', 'o', 'x', 'y', '-'] ++ connection

def contentLength : List UInt8 :=
  ascii ['c', 'o', 'n', 't', 'e', 'n', 't', '-', 'l', 'e', 'n', 'g', 't', 'h']

def transferEncoding : List UInt8 :=
  ascii ['t', 'r', 'a', 'n', 's', 'f', 'e', 'r', '-', 'e', 'n', 'c', 'o', 'd', 'i', 'n', 'g']

def upgrade : List UInt8 := ascii ['u', 'p', 'g', 'r', 'a', 'd', 'e']

def chunked : List UInt8 := ascii ['c', 'h', 'u', 'n', 'k', 'e', 'd']

def keepAlive : List UInt8 := ascii ['k', 'e', 'e', 'p', '-', 'a', 'l', 'i', 'v', 'e']

def close : List UInt8 := ascii ['c', 'l', 'o', 's', 'e']

def headerFieldStart (parser : HttpParser) (ch : UInt8) : Verdict :=
  if ch = cr then
    goTo parser .sHeadersAlmostDone
  else if ch = lf then
    .again { parser with state := .sHeadersAlmostDone } .quiet
  else
    let c := token ch
    if c = 0 then
      failWith parser .invalidHeaderToken
    else
      let headerState :=
        if c = byte 'c' then .hC
        else if c = byte 'p' then .hMatchingProxyConnection
        else if c = byte 't' then .hMatchingTransferEncoding
        else if c = byte 'u' then .hMatchingUpgrade
        else .hGeneral
      .read { parser with index := 0, state := .sHeaderField, headerState := headerState }
        (.mark .headerField)

/-- `parser->index++` and the comparison with a character of a literal, whose length
is `sizeof - 1`. -/
def matching (parser : HttpParser) (text : List UInt8) (c : UInt8)
    (here matched missed : HeaderState) : HttpParser × HeaderState :=
  let index := parser.index + 1
  let parser := { parser with index := index }
  if index.toNat > text.length ∨ c ≠ (text ++ [0]).getD index.toNat 0 then (parser, missed)
  else if index.toNat = text.length - 1 then (parser, matched)
  else (parser, here)

def fieldChar (parser : HttpParser) (ch c : UInt8) : Except Fault HttpParser :=
  let next (headerState : HeaderState) : HttpParser :=
    { parser with index := parser.index + 1, headerState := headerState }
  let compare (text : List UInt8) (matched : HeaderState) : HttpParser :=
    let (parser, headerState) := matching parser text c parser.headerState matched .hGeneral
    { parser with headerState := headerState }
  match parser.headerState with
  | .hGeneral => .ok parser
  | .hC => .ok (next (if c = byte 'o' then .hCO else .hGeneral))
  | .hCO => .ok (next (if c = byte 'n' then .hCON else .hGeneral))
  | .hCON =>
      .ok (next
        (if c = byte 'n' then .hMatchingConnection
        else if c = byte 't' then .hMatchingContentLength
        else .hGeneral))
  | .hMatchingConnection => .ok (compare connection .hConnection)
  | .hMatchingProxyConnection => .ok (compare proxyConnection .hConnection)
  | .hMatchingContentLength => .ok (compare contentLength .hContentLength)
  | .hMatchingTransferEncoding => .ok (compare transferEncoding .hTransferEncoding)
  | .hMatchingUpgrade => .ok (compare upgrade .hUpgrade)
  | .hConnection | .hContentLength | .hTransferEncoding | .hUpgrade =>
      .ok (if ch ≠ byte ' ' then { parser with headerState := .hGeneral } else parser)
  | _ => .error .assertion

/-- `s_header_value_start`. -/
def headerValueStart (parser : HttpParser) (ch : UInt8) : Verdict :=
  let parser := { parser with state := .sHeaderValue, index := 0 }
  let c := lower ch
  match parser.headerState with
  | .hUpgrade =>
      .read { parser.setFlag .upgrade with headerState := .hGeneral } (.mark .headerValue)
  | .hTransferEncoding =>
      .read
        { parser with
          headerState :=
            if c = byte 'c' then .hMatchingTransferEncodingChunked else .hGeneral }
        (.mark .headerValue)
  | .hContentLength =>
      if !isNum ch then
        failWith parser .invalidContentLength
      else
        .read { parser with contentLength := (ch - byte '0').toUInt64 } (.mark .headerValue)
  | .hConnection =>
      .read
        { parser with
          headerState :=
            if c = byte 'k' then .hMatchingConnectionKeepAlive
            else if c = byte 'c' then .hMatchingConnectionClose
            else if c = byte 'u' then .hMatchingConnectionUpgrade
            else .hMatchingConnectionToken }
        (.mark .headerValue)
  | .hMatchingConnectionTokenStart => .read parser (.mark .headerValue)
  | _ => .read { parser with headerState := .hGeneral } (.mark .headerValue)

/-- The flag that a value leaves which ends in this state. -/
def flagOf : HeaderState → Option Flag
  | .hConnectionKeepAlive => some .connectionKeepAlive
  | .hConnectionClose => some .connectionClose
  | .hTransferEncodingChunked => some .chunked
  | .hConnectionUpgrade => some .connectionUpgrade
  | _ => none

def HttpParser.leaveFlag (parser : HttpParser) (hState : HeaderState) : HttpParser :=
  match flagOf hState with
  | some flag => parser.setFlag flag
  | none => parser

/-- A character of a header's value other than CR and LF, with the local variable
`h_state`; `none` when it cannot stand in a length.  In `h_general` the source does
not look at characters one by one. -/
def valueChar (parser : HttpParser) (hState : HeaderState) (ch : UInt8) :
    Except Fault (Option (HttpParser × HeaderState)) :=
  let c := lower ch
  match hState with
  | .hGeneral => .ok (some (parser, .hGeneral))
  | .hConnection | .hTransferEncoding => .error .assertion
  | .hContentLength =>
      if ch = byte ' ' then
        .ok (some (parser, hState))
      else if !isNum ch then
        .ok none
      else if (ullongMax - 10) / 10 < parser.contentLength then
        .ok none
      else
        .ok (some
          ({ parser with
              contentLength := parser.contentLength * 10 + (ch - byte '0').toUInt64 },
            hState))
  | .hMatchingTransferEncodingChunked =>
      .ok (some (matching parser chunked c hState .hTransferEncodingChunked .hGeneral))
  | .hMatchingConnectionTokenStart =>
      .ok (some (parser,
        if c = byte 'k' then .hMatchingConnectionKeepAlive
        else if c = byte 'c' then .hMatchingConnectionClose
        else if c = byte 'u' then .hMatchingConnectionUpgrade
        else if token c ≠ 0 then .hMatchingConnectionToken
        else .hGeneral))
  | .hMatchingConnectionKeepAlive =>
      .ok (some (matching parser keepAlive c hState .hConnectionKeepAlive
        .hMatchingConnectionToken))
  | .hMatchingConnectionClose =>
      .ok (some (matching parser close c hState .hConnectionClose .hMatchingConnectionToken))
  | .hMatchingConnectionUpgrade =>
      .ok (some (matching parser upgrade c hState .hConnectionUpgrade .hMatchingConnectionToken))
  | .hMatchingConnectionToken =>
      if ch = byte ',' then
        .ok (some ({ parser with index := 0 }, .hMatchingConnectionTokenStart))
      else
        .ok (some (parser, hState))
  | .hTransferEncodingChunked =>
      .ok (some (parser, if ch ≠ byte ' ' then .hGeneral else hState))
  | .hConnectionKeepAlive | .hConnectionClose | .hConnectionUpgrade =>
      if ch = byte ',' then
        .ok (some ({ parser.leaveFlag hState with index := 0 }, .hMatchingConnectionTokenStart))
      else
        .ok (some (parser, if ch ≠ byte ' ' then .hMatchingConnectionToken else hState))
  | _ => .ok (some (parser, .hGeneral))

/-- `s_header_value_lws`; the next line goes on with the value or begins a header. -/
def headerValueLws (parser : HttpParser) (ch : UInt8) : Verdict :=
  if ch = byte ' ' ∨ ch = tab then
    .again { parser with state := .sHeaderValueStart } .quiet
  else
    .again { parser.leaveFlag parser.headerState with state := .sHeaderFieldStart } .quiet

def headerValueDiscardLws (parser : HttpParser) (ch : UInt8) : Verdict :=
  if ch = byte ' ' ∨ ch = tab then
    goTo parser .sHeaderValueDiscardWs
  else
    .again { parser.leaveFlag parser.headerState with state := .sHeaderFieldStart }
      (.markFlush .headerValue)

/-! ## The end of the headers -/

def headersAlmostDone (parser : HttpParser) (ch : UInt8) : Verdict :=
  if ch ≠ lf then
    failWith parser .strict
  else if parser.hasFlag .trailing then
    .read { parser with state := parser.newMessage } (.notify .messageComplete)
  else
    .again
      { parser with
        state := .sHeadersDone
        upgrade := (parser.hasFlag .upgrade && parser.hasFlag .connectionUpgrade) ||
          parser.method = .connect }
      (.notify .headersComplete)

def headersDone (parser : HttpParser) (ch : UInt8) : Verdict :=
  if ch ≠ lf then
    failWith parser .strict
  else
    let parser := { parser with nread := 0 }
    let complete := { parser with state := parser.newMessage }
    if parser.upgrade then
      .leave complete (.notify .messageComplete)
    else if parser.hasFlag .skipbody then
      .read complete (.notify .messageComplete)
    else if parser.hasFlag .chunked then
      goTo parser .sChunkSizeStart
    else if parser.contentLength = 0 then
      .read complete (.notify .messageComplete)
    else if parser.contentLength ≠ ullongMax then
      goTo parser .sBodyIdentity
    else if parser.type = .httpRequest ∨ !httpMessageNeedsEof parser then
      .read complete (.notify .messageComplete)
    else
      goTo parser .sBodyIdentityEof

/-! ## Chunks -/

def chunkSizeStart (parser : HttpParser) (ch : UInt8) : Verdict :=
  if unhex ch = -1 then
    failWith parser .invalidChunkSize
  else
    .read { parser with contentLength := UInt64.ofInt (unhex ch), state := .sChunkSize } .quiet

def chunkSize (parser : HttpParser) (ch : UInt8) : Verdict :=
  if ch = cr then
    goTo parser .sChunkSizeAlmostDone
  else if unhex ch = -1 then
    if ch = byte ';' ∨ ch = byte ' ' then
      goTo parser .sChunkParameters
    else
      failWith parser .invalidChunkSize
  else if (ullongMax - 16) / 16 < parser.contentLength then
    failWith parser .invalidContentLength
  else
    .read { parser with contentLength := parser.contentLength * 16 + UInt64.ofInt (unhex ch) } .quiet

def chunkSizeAlmostDone (parser : HttpParser) (ch : UInt8) : Verdict :=
  if ch ≠ lf then
    failWith parser .strict
  else
    let parser := { parser with nread := 0 }
    if parser.contentLength = 0 then
      goTo (parser.setFlag .trailing) .sHeaderFieldStart
    else
      goTo parser .sChunkData

/-! ## The switch -/

/-- The `switch` without the cases that run over several characters at once. -/
def charStep (parser : HttpParser) (ch : UInt8) : Verdict :=
  match parser.state with
  | .sDead =>
      if ch = cr ∨ ch = lf then .read parser .quiet else failWith parser .closedConnection
  | .sStartReqOrRes =>
      if ch = cr ∨ ch = lf then
        .read parser .quiet
      else
        let parser := { parser with flags := 0, contentLength := ullongMax }
        if ch = byte 'H' then
          .read { parser with state := .sResOrRespH } (.notify .messageBegin)
        else
          .again { parser with type := .httpRequest, state := .sStartReq } .quiet
  | .sResOrRespH =>
      if ch = byte 'T' then
        .read { parser with type := .httpResponse, state := .sResHT } .quiet
      else if ch ≠ byte 'E' then
        failWith parser .invalidConstant
      else
        .read
          { parser with type := .httpRequest, method := .head, index := 2, state := .sReqMethod }
          .quiet
  | .sStartRes => startRes parser ch
  | .sResH => expect parser ch (byte 'T') .sResHT
  | .sResHT => expect parser ch (byte 'T') .sResHTT
  | .sResHTT => expect parser ch (byte 'P') .sResHTTP
  | .sResHTTP => expect parser ch (byte '/') .sResFirstHttpMajor
  | .sResFirstHttpMajor =>
      if ch < byte '0' ∨ ch > byte '9' then
        failWith parser .invalidVersion
      else
        firstMajor parser ch .sResHttpMajor
  | .sResHttpMajor => moreMajor parser ch .sResFirstHttpMinor
  | .sResFirstHttpMinor => firstMinor parser ch .sResHttpMinor
  | .sResHttpMinor =>
      if ch = byte ' ' then goTo parser .sResFirstStatusCode else moreMinor parser ch
  | .sResFirstStatusCode =>
      if !isNum ch then
        if ch = byte ' ' then .read parser .quiet else failWith parser .invalidStatus
      else
        .read { parser with statusCode := (ch - byte '0').toUInt16, state := .sResStatusCode } .quiet
  | .sResStatusCode => resStatusCode parser ch
  | .sResStatusStart =>
      if ch = cr then goTo parser .sResLineAlmostDone
      else if ch = lf then goTo parser .sHeaderFieldStart
      else .read { parser with state := .sResStatus, index := 0 } (.mark .status)
  | .sResStatus =>
      if ch = cr then .read { parser with state := .sResLineAlmostDone } (.flush .status)
      else if ch = lf then .read { parser with state := .sHeaderFieldStart } (.flush .status)
      else .read parser .quiet
  | .sResLineAlmostDone => expect parser ch lf .sHeaderFieldStart
  | .sStartReq => startReq parser ch
  | .sReqMethod => reqMethod parser ch
  | .sReqSpacesBeforeUrl => reqSpacesBeforeUrl parser ch
  | .sReqSchema | .sReqSchemaSlash | .sReqSchemaSlashSlash | .sReqServerStart =>
      reqSchema parser ch
  | .sReqServer | .sReqServerWithAt | .sReqPath | .sReqQueryStringStart | .sReqQueryString
  | .sReqFragmentStart | .sReqFragment => reqUrl parser ch
  | .sReqHttpStart =>
      if ch = byte 'H' then goTo parser .sReqHttpH
      else if ch = byte ' ' then .read parser .quiet
      else failWith parser .invalidConstant
  | .sReqHttpH => expect parser ch (byte 'T') .sReqHttpHT
  | .sReqHttpHT => expect parser ch (byte 'T') .sReqHttpHTT
  | .sReqHttpHTT => expect parser ch (byte 'P') .sReqHttpHTTP
  | .sReqHttpHTTP => expect parser ch (byte '/') .sReqFirstHttpMajor
  | .sReqFirstHttpMajor =>
      if ch < byte '1' ∨ ch > byte '9' then
        failWith parser .invalidVersion
      else
        firstMajor parser ch .sReqHttpMajor
  | .sReqHttpMajor => moreMajor parser ch .sReqFirstHttpMinor
  | .sReqFirstHttpMinor => firstMinor parser ch .sReqHttpMinor
  | .sReqHttpMinor =>
      if ch = cr then goTo parser .sReqLineAlmostDone
      else if ch = lf then goTo parser .sHeaderFieldStart
      else moreMinor parser ch
  | .sReqLineAlmostDone =>
      if ch ≠ lf then failWith parser .lfExpected else goTo parser .sHeaderFieldStart
  | .sHeaderFieldStart => headerFieldStart parser ch
  | .sHeaderValueDiscardWs =>
      if ch = byte ' ' ∨ ch = tab then .read parser .quiet
      else if ch = cr then goTo parser .sHeaderValueDiscardWsAlmostDone
      else if ch = lf then goTo parser .sHeaderValueDiscardLws
      else headerValueStart parser ch
  | .sHeaderValueStart => headerValueStart parser ch
  | .sHeaderAlmostDone => expect parser ch lf .sHeaderValueLws
  | .sHeaderValueLws => headerValueLws parser ch
  | .sHeaderValueDiscardWsAlmostDone => expect parser ch lf .sHeaderValueDiscardLws
  | .sHeaderValueDiscardLws => headerValueDiscardLws parser ch
  | .sHeadersAlmostDone => headersAlmostDone parser ch
  | .sHeadersDone => headersDone parser ch
  | .sMessageDone => .read { parser with state := parser.newMessage } (.notify .messageComplete)
  | .sChunkSizeStart => chunkSizeStart parser ch
  | .sChunkSize => chunkSize parser ch
  | .sChunkParameters =>
      if ch = cr then goTo parser .sChunkSizeAlmostDone else .read parser .quiet
  | .sChunkSizeAlmostDone => chunkSizeAlmostDone parser ch
  | .sChunkDataAlmostDone =>
      if ch ≠ cr then failWith parser .strict
      else .read { parser with state := .sChunkDataDone } (.flush .body)
  | .sChunkDataDone =>
      if ch ≠ lf then failWith parser .strict
      else goTo { parser with nread := 0 } .sChunkSizeStart
  | .sHeaderField | .sHeaderValue | .sBodyIdentity | .sBodyIdentityEof | .sChunkData =>
      .fault .assertion

/-- The assertions a case begins with. -/
def asserted (parser : HttpParser) : Bool :=
  match parser.state with
  | .sBodyIdentity => parser.contentLength ≠ 0 ∧ parser.contentLength ≠ ullongMax
  | .sChunkSizeStart => parser.nread = 1 ∧ parser.hasFlag .chunked
  | .sChunkSize | .sChunkParameters | .sChunkSizeAlmostDone | .sChunkDataDone =>
      parser.hasFlag .chunked
  | .sChunkData =>
      parser.hasFlag .chunked ∧ parser.contentLength ≠ 0 ∧ parser.contentLength ≠ ullongMax
  | .sChunkDataAlmostDone => parser.hasFlag .chunked ∧ parser.contentLength = 0
  | _ => true

end UAFlow.Http
