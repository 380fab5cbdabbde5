import Mathlib.Data.List.Basic

/-!
# The data of `flow_http_parser.c`

The parser is compiled in its strict mode.  A byte of a request is a `char`, but
no comparison the parser makes depends on its sign: the characters it knows are
below 128.
-/

namespace UAFlow.Http

def byte (char : Char) : UInt8 := UInt8.ofNat char.toNat

def ascii (text : List Char) : List UInt8 := text.map byte

def cr : UInt8 := 13
def lf : UInt8 := 10
def tab : UInt8 := 9

/-! ## Enumerations -/

inductive HttpParserType where
  | httpRequest
  | httpResponse
  | httpBoth
  deriving DecidableEq

inductive HttpMethod where
  | delete
  | get
  | head
  | post
  | put
  | connect
  | options
  | trace
  | copy
  | lock
  | mkcol
  | move
  | propfind
  | proppatch
  | search
  | unlock
  | report
  | mkactivity
  | checkout
  | merge
  | msearch
  | notify
  | subscribe
  | unsubscribe
  | patch
  | purge
  | mkcalendar
  deriving DecidableEq

def methodStrings : HttpMethod → List UInt8
  | .delete => ascii ['D', 'E', 'L', 'E', 'T', 'E']
  | .get => ascii ['G', 'E', 'T']
  | .head => ascii ['H', 'E', 'A', 'D']
  | .post => ascii ['P', 'O', 'S', 'T']
  | .put => ascii ['P', 'U', 'T']
  | .connect => ascii ['C', 'O', 'N', 'N', 'E', 'C', 'T']
  | .options => ascii ['O', 'P', 'T', 'I', 'O', 'N', 'S']
  | .trace => ascii ['T', 'R', 'A', 'C', 'E']
  | .copy => ascii ['C', 'O', 'P', 'Y']
  | .lock => ascii ['L', 'O', 'C', 'K']
  | .mkcol => ascii ['M', 'K', 'C', 'O', 'L']
  | .move => ascii ['M', 'O', 'V', 'E']
  | .propfind => ascii ['P', 'R', 'O', 'P', 'F', 'I', 'N', 'D']
  | .proppatch => ascii ['P', 'R', 'O', 'P', 'P', 'A', 'T', 'C', 'H']
  | .search => ascii ['S', 'E', 'A', 'R', 'C', 'H']
  | .unlock => ascii ['U', 'N', 'L', 'O', 'C', 'K']
  | .report => ascii ['R', 'E', 'P', 'O', 'R', 'T']
  | .mkactivity => ascii ['M', 'K', 'A', 'C', 'T', 'I', 'V', 'I', 'T', 'Y']
  | .checkout => ascii ['C', 'H', 'E', 'C', 'K', 'O', 'U', 'T']
  | .merge => ascii ['M', 'E', 'R', 'G', 'E']
  | .msearch => ascii ['M', '-', 'S', 'E', 'A', 'R', 'C', 'H']
  | .notify => ascii ['N', 'O', 'T', 'I', 'F', 'Y']
  | .subscribe => ascii ['S', 'U', 'B', 'S', 'C', 'R', 'I', 'B', 'E']
  | .unsubscribe => ascii ['U', 'N', 'S', 'U', 'B', 'S', 'C', 'R', 'I', 'B', 'E']
  | .patch => ascii ['P', 'A', 'T', 'C', 'H']
  | .purge => ascii ['P', 'U', 'R', 'G', 'E']
  | .mkcalendar => ascii ['M', 'K', 'C', 'A', 'L', 'E', 'N', 'D', 'A', 'R']

/-- The callbacks without and with a text. -/
inductive Notice where
  | messageBegin
  | headersComplete
  | messageComplete
  deriving DecidableEq

inductive Field where
  | url
  | status
  | headerField
  | headerValue
  | body
  deriving DecidableEq

inductive HttpErrno where
  | ok
  | cbNotice (notice : Notice)
  | cbData (field : Field)
  | invalidEofState
  | headerOverflow
  | closedConnection
  | invalidVersion
  | invalidStatus
  | invalidMethod
  | invalidUrl
  | lfExpected
  | invalidHeaderToken
  | invalidContentLength
  | invalidChunkSize
  | invalidConstant
  | strict
  | paused
  deriving DecidableEq

inductive State where
  | sDead
  | sStartReqOrRes
  | sResOrRespH
  | sStartRes
  | sResH
  | sResHT
  | sResHTT
  | sResHTTP
  | sResFirstHttpMajor
  | sResHttpMajor
  | sResFirstHttpMinor
  | sResHttpMinor
  | sResFirstStatusCode
  | sResStatusCode
  | sResStatusStart
  | sResStatus
  | sResLineAlmostDone
  | sStartReq
  | sReqMethod
  | sReqSpacesBeforeUrl
  | sReqSchema
  | sReqSchemaSlash
  | sReqSchemaSlashSlash
  | sReqServerStart
  | sReqServer
  | sReqServerWithAt
  | sReqPath
  | sReqQueryStringStart
  | sReqQueryString
  | sReqFragmentStart
  | sReqFragment
  | sReqHttpStart
  | sReqHttpH
  | sReqHttpHT
  | sReqHttpHTT
  | sReqHttpHTTP
  | sReqFirstHttpMajor
  | sReqHttpMajor
  | sReqFirstHttpMinor
  | sReqHttpMinor
  | sReqLineAlmostDone
  | sHeaderFieldStart
  | sHeaderField
  | sHeaderValueDiscardWs
  | sHeaderValueDiscardWsAlmostDone
  | sHeaderValueDiscardLws
  | sHeaderValueStart
  | sHeaderValue
  | sHeaderValueLws
  | sHeaderAlmostDone
  | sChunkSizeStart
  | sChunkSize
  | sChunkParameters
  | sChunkSizeAlmostDone
  | sHeadersAlmostDone
  | sHeadersDone
  | sChunkData
  | sChunkDataAlmostDone
  | sChunkDataDone
  | sBodyIdentity
  | sBodyIdentityEof
  | sMessageDone
  deriving DecidableEq

/-- `PARSING_HEADER`: the state is `s_headers_done` or one before it. -/
def State.parsingHeader : State → Bool
  | .sChunkData | .sChunkDataAlmostDone | .sChunkDataDone
  | .sBodyIdentity | .sBodyIdentityEof | .sMessageDone => false
  | _ => true

inductive HeaderState where
  | hGeneral
  | hC
  | hCO
  | hCON
  | hMatchingConnection
  | hMatchingProxyConnection
  | hMatchingContentLength
  | hMatchingTransferEncoding
  | hMatchingUpgrade
  | hConnection
  | hContentLength
  | hTransferEncoding
  | hUpgrade
  | hMatchingTransferEncodingChunked
  | hMatchingConnectionTokenStart
  | hMatchingConnectionKeepAlive
  | hMatchingConnectionClose
  | hMatchingConnectionUpgrade
  | hMatchingConnectionToken
  | hTransferEncodingChunked
  | hConnectionKeepAlive
  | hConnectionClose
  | hConnectionUpgrade
  deriving DecidableEq

inductive Flag where
  | chunked
  | connectionKeepAlive
  | connectionClose
  | connectionUpgrade
  | trailing
  | upgrade
  | skipbody
  deriving DecidableEq

/-- `F_CHUNKED = 1 << 0` up to `F_SKIPBODY = 1 << 6`. -/
def Flag.mask : Flag → BitVec 32
  | .chunked => 1#32 <<< 0
  | .connectionKeepAlive => 1#32 <<< 1
  | .connectionClose => 1#32 <<< 2
  | .connectionUpgrade => 1#32 <<< 3
  | .trailing => 1#32 <<< 4
  | .upgrade => 1#32 <<< 5
  | .skipbody => 1#32 <<< 6

/-! ## The parser -/

def httpMaxHeaderSize : Nat := 80 * 1024

def ullongMax : UInt64 := 0xffffffffffffffff

/-- `struct http_parser` without `data`, which the parser only passes on.  The
flags are a bit field of six bits. -/
structure HttpParser where
  type : HttpParserType
  flags : BitVec 6
  state : State
  headerState : HeaderState
  index : UInt8
  nread : UInt32
  contentLength : UInt64
  httpMajor : UInt16
  httpMinor : UInt16
  statusCode : UInt16
  method : HttpMethod
  httpErrno : HttpErrno
  upgrade : Bool
  deriving DecidableEq

def httpParserInit (t : HttpParserType) : HttpParser where
  type := t
  flags := 0
  state :=
    match t with
    | .httpRequest => .sStartReq
    | .httpResponse => .sStartRes
    | .httpBoth => .sStartReqOrRes
  headerState := .hGeneral
  index := 0
  nread := 0
  contentLength := 0
  httpMajor := 0
  httpMinor := 0
  statusCode := 0
  method := .delete
  httpErrno := .ok
  upgrade := false

namespace HttpParser

/-- `parser->flags |= flag`, as far as it fits. -/
def setFlag (parser : HttpParser) (flag : Flag) : HttpParser :=
  { parser with flags := (parser.flags.setWidth 32 ||| flag.mask).setWidth 6 }

/-- `parser->flags & flag`. -/
def hasFlag (parser : HttpParser) (flag : Flag) : Bool :=
  parser.flags.setWidth 32 &&& flag.mask != 0

def startState (parser : HttpParser) : State :=
  if parser.type = .httpRequest then .sStartReq else .sStartRes

end HttpParser

/-- A parser in an error state, or paused before. -/
def httpParserPause (parser : HttpParser) (paused : Bool) : HttpParser :=
  if parser.httpErrno = .ok ∨ parser.httpErrno = .paused then
    { parser with httpErrno := if paused then .paused else .ok }
  else
    parser

def httpMessageNeedsEof (parser : HttpParser) : Bool :=
  if parser.type = .httpRequest then
    false
  else if parser.statusCode / 100 = 1 ∨ parser.statusCode = 204 ∨ parser.statusCode = 304 ∨
      parser.hasFlag .skipbody then
    false
  else if parser.hasFlag .chunked ∨ parser.contentLength ≠ ullongMax then
    false
  else
    true

def httpShouldKeepAlive (parser : HttpParser) : Bool :=
  if parser.httpMajor > 0 ∧ parser.httpMinor > 0 then
    if parser.hasFlag .connectionClose then false else !httpMessageNeedsEof parser
  else
    if parser.hasFlag .connectionKeepAlive then !httpMessageNeedsEof parser else false

def HttpParser.newMessage (parser : HttpParser) : State :=
  if httpShouldKeepAlive parser then parser.startState else .sDead

/-! ## Characters -/

def lower (ch : UInt8) : UInt8 := ch ||| 0x20

def isAlpha (ch : UInt8) : Bool := byte 'a' ≤ lower ch ∧ lower ch ≤ byte 'z'

def isNum (ch : UInt8) : Bool := byte '0' ≤ ch ∧ ch ≤ byte '9'

def isAlphanum (ch : UInt8) : Bool := isAlpha ch || isNum ch

/-- The apostrophe is 39. -/
def isMark (ch : UInt8) : Bool := ch = 39 ∨ ch ∈ ascii ['-', '_', '.', '!', '~', '*', '(', ')']

def isUserinfoChar (ch : UInt8) : Bool :=
  isAlphanum ch || isMark ch || ch ∈ ascii ['%', ';', ':', '&', '=', '+', '$', ',']

/-- The first half of `tokens`; the rest is zero.  39 and 96 are the two quotes. -/
def tokens : List UInt8 :=
  [0, 0, 0, 0, 0, 0, 0, 0,
   0, 0, 0, 0, 0, 0, 0, 0,
   0, 0, 0, 0, 0, 0, 0, 0,
   0, 0, 0, 0, 0, 0, 0, 0,
   0, byte '!', 0, byte '#', byte '$', byte '%', byte '&', 39,
   0, 0, byte '*', byte '+', 0, byte '-', byte '.', 0,
   byte '0', byte '1', byte '2', byte '3', byte '4', byte '5', byte '6', byte '7',
   byte '8', byte '9', 0, 0, 0, 0, 0, 0,
   0, byte 'a', byte 'b', byte 'c', byte 'd', byte 'e', byte 'f', byte 'g',
   byte 'h', byte 'i', byte 'j', byte 'k', byte 'l', byte 'm', byte 'n', byte 'o',
   byte 'p', byte 'q', byte 'r', byte 's', byte 't', byte 'u', byte 'v', byte 'w',
   byte 'x', byte 'y', byte 'z', 0, 0, 0, byte '^', byte '_',
   96, byte 'a', byte 'b', byte 'c', byte 'd', byte 'e', byte 'f', byte 'g',
   byte 'h', byte 'i', byte 'j', byte 'k', byte 'l', byte 'm', byte 'n', byte 'o',
   byte 'p', byte 'q', byte 'r', byte 's', byte 't', byte 'u', byte 'v', byte 'w',
   byte 'x', byte 'y', byte 'z', 0, byte '|', 0, byte '~', 0]

/-- `TOKEN` and `STRICT_TOKEN`. -/
def token (ch : UInt8) : UInt8 := tokens.getD ch.toNat 0

/-- The rows of `unhex` that are written out; the rest of the array is zero. -/
def unhexRows : List Int :=
  [-1, -1, -1, -1, -1, -1, -1, -1, -1, -1, -1, -1, -1, -1, -1, -1,
   -1, -1, -1, -1, -1, -1, -1, -1, -1, -1, -1, -1, -1, -1, -1, -1,
   -1, -1, -1, -1, -1, -1, -1, -1, -1, -1, -1, -1, -1, -1, -1, -1,
   0, 1, 2, 3, 4, 5, 6, 7, 8, 9, -1, -1, -1, -1, -1, -1,
   -1, 10, 11, 12, 13, 14, 15, -1, -1, -1, -1, -1, -1, -1, -1, -1,
   -1, -1, -1, -1, -1, -1, -1, -1, -1, -1, -1, -1, -1, -1, -1, -1,
   -1, 10, 11, 12, 13, 14, 15, -1, -1, -1, -1, -1, -1, -1, -1, -1,
   -1, -1, -1, -1, -1, -1, -1, -1, -1, -1, -1, -1, -1, -1, -1, -1]

def unhex (ch : UInt8) : Int := unhexRows.getD ch.toNat 0

/-- The first half of `normal_url_char`, where `T` of the strict mode is 0; the rest
is zero. -/
def normalUrlChar : List UInt8 :=
  [0,
   0 ||| 0 ||| 0 ||| 0 ||| 0 ||| 0 ||| 0 ||| 0,
   0,
   0,
   0 ||| 2 ||| 4 ||| 0 ||| 16 ||| 32 ||| 64 ||| 128,
   1 ||| 2 ||| 4 ||| 8 ||| 16 ||| 32 ||| 64 ||| 128,
   1 ||| 2 ||| 4 ||| 8 ||| 16 ||| 32 ||| 64 ||| 128,
   1 ||| 2 ||| 4 ||| 8 ||| 16 ||| 32 ||| 64 ||| 0,
   1 ||| 2 ||| 4 ||| 8 ||| 16 ||| 32 ||| 64 ||| 128,
   1 ||| 2 ||| 4 ||| 8 ||| 16 ||| 32 ||| 64 ||| 128,
   1 ||| 2 ||| 4 ||| 8 ||| 16 ||| 32 ||| 64 ||| 128,
   1 ||| 2 ||| 4 ||| 8 ||| 16 ||| 32 ||| 64 ||| 128,
   1 ||| 2 ||| 4 ||| 8 ||| 16 ||| 32 ||| 64 ||| 128,
   1 ||| 2 ||| 4 ||| 8 ||| 16 ||| 32 ||| 64 ||| 128,
   1 ||| 2 ||| 4 ||| 8 ||| 16 ||| 32 ||| 64 ||| 128,
   1 ||| 2 ||| 4 ||| 8 ||| 16 ||| 32 ||| 64 ||| 0]

def isUrlChar (ch : UInt8) : Bool :=
  normalUrlChar.getD (ch.toNat / 8) 0 &&& (1 <<< (ch &&& 7)) != 0

/-! ## URLs -/

/-- `parse_url_char`; `s_dead` is the answer to a character that cannot stand here. -/
def parseUrlChar (s : State) (ch : UInt8) : State :=
  if ch = byte ' ' ∨ ch = cr ∨ ch = lf then
    .sDead
  else if ch = tab ∨ ch = 12 then
    .sDead
  else
    let server :=
      if ch = byte '/' then
        .sReqPath
      else if ch = byte '?' then
        .sReqQueryStringStart
      else if ch = byte '@' then
        .sReqServerWithAt
      else if isUserinfoChar ch ∨ ch = byte '[' ∨ ch = byte ']' then
        .sReqServer
      else
        .sDead
    match s with
    | .sReqSpacesBeforeUrl =>
        if ch = byte '/' ∨ ch = byte '*' then .sReqPath
        else if isAlpha ch then .sReqSchema
        else .sDead
    | .sReqSchema =>
        if isAlpha ch then s
        else if ch = byte ':' then .sReqSchemaSlash
        else .sDead
    | .sReqSchemaSlash => if ch = byte '/' then .sReqSchemaSlashSlash else .sDead
    | .sReqSchemaSlashSlash => if ch = byte '/' then .sReqServerStart else .sDead
    | .sReqServerWithAt => if ch = byte '@' then .sDead else server
    | .sReqServerStart => server
    | .sReqServer => server
    | .sReqPath =>
        if isUrlChar ch then s
        else if ch = byte '?' then .sReqQueryStringStart
        else if ch = byte '#' then .sReqFragmentStart
        else .sDead
    | .sReqQueryStringStart | .sReqQueryString =>
        if isUrlChar ch then .sReqQueryString
        else if ch = byte '?' then .sReqQueryString
        else if ch = byte '#' then .sReqFragmentStart
        else .sDead
    | .sReqFragmentStart =>
        if isUrlChar ch then .sReqFragment
        else if ch = byte '?' then .sReqFragment
        else if ch = byte '#' then s
        else .sDead
    | .sReqFragment =>
        if isUrlChar ch then s
        else if ch = byte '?' ∨ ch = byte '#' then s
        else .sDead
    | _ => .sDead

end UAFlow.Http
