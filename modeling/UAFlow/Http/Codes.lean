import UAFlow.Http.Model

/-!
# The numbers of the enumerations

`struct http_parser` keeps its enumerations in bit fields, as numbers.
-/

namespace UAFlow.Http

/-- The number of an enumerator, when they are numbered from `first` on. -/
def numberOf {Name : Type} [DecidableEq Name] (first : Nat) (names : List Name) (name : Name) :
    UInt8 :=
  UInt8.ofNat (first + names.idxOf name)

def ofNumber {Name : Type} (first : Nat) (names : List Name) (number : UInt8) : Option Name :=
  if number.toNat < first then none else names[number.toNat - first]?

theorem ofNumber_numberOf {Name : Type} [DecidableEq Name] {first : Nat} {names : List Name}
    (few : first + names.length ≤ 256) {name : Name} (among : name ∈ names) :
    ofNumber first names (numberOf first names name) = some name := by
  have below := List.idxOf_lt_length_iff.mpr among
  have number : (numberOf first names name).toNat = first + names.idxOf name := by
    rw [numberOf, UInt8.toNat_ofNat']
    exact Nat.mod_eq_of_lt (by omega)
  unfold ofNumber
  rw [number, if_neg (by omega), Nat.add_sub_cancel_left]
  exact List.getElem?_idxOf among

/-- `enum state`, from 1 on. -/
def states : List State :=
  [.sDead, .sStartReqOrRes, .sResOrRespH, .sStartRes, .sResH, .sResHT, .sResHTT, .sResHTTP,
   .sResFirstHttpMajor, .sResHttpMajor, .sResFirstHttpMinor, .sResHttpMinor,
   .sResFirstStatusCode, .sResStatusCode, .sResStatusStart, .sResStatus, .sResLineAlmostDone,
   .sStartReq, .sReqMethod, .sReqSpacesBeforeUrl, .sReqSchema, .sReqSchemaSlash,
   .sReqSchemaSlashSlash, .sReqServerStart, .sReqServer, .sReqServerWithAt, .sReqPath,
   .sReqQueryStringStart, .sReqQueryString, .sReqFragmentStart, .sReqFragment, .sReqHttpStart,
   .sReqHttpH, .sReqHttpHT, .sReqHttpHTT, .sReqHttpHTTP, .sReqFirstHttpMajor, .sReqHttpMajor,
   .sReqFirstHttpMinor, .sReqHttpMinor, .sReqLineAlmostDone, .sHeaderFieldStart, .sHeaderField,
   .sHeaderValueDiscardWs, .sHeaderValueDiscardWsAlmostDone, .sHeaderValueDiscardLws,
   .sHeaderValueStart, .sHeaderValue, .sHeaderValueLws, .sHeaderAlmostDone, .sChunkSizeStart,
   .sChunkSize, .sChunkParameters, .sChunkSizeAlmostDone, .sHeadersAlmostDone, .sHeadersDone,
   .sChunkData, .sChunkDataAlmostDone, .sChunkDataDone, .sBodyIdentity, .sBodyIdentityEof,
   .sMessageDone]

def headerStates : List HeaderState :=
  [.hGeneral, .hC, .hCO, .hCON, .hMatchingConnection, .hMatchingProxyConnection,
   .hMatchingContentLength, .hMatchingTransferEncoding, .hMatchingUpgrade, .hConnection,
   .hContentLength, .hTransferEncoding, .hUpgrade, .hMatchingTransferEncodingChunked,
   .hMatchingConnectionTokenStart, .hMatchingConnectionKeepAlive, .hMatchingConnectionClose,
   .hMatchingConnectionUpgrade, .hMatchingConnectionToken, .hTransferEncodingChunked,
   .hConnectionKeepAlive, .hConnectionClose, .hConnectionUpgrade]

def methods : List HttpMethod :=
  [.delete, .get, .head, .post, .put, .connect, .options, .trace, .copy, .lock, .mkcol, .move,
   .propfind, .proppatch, .search, .unlock, .report, .mkactivity, .checkout, .merge, .msearch,
   .notify, .subscribe, .unsubscribe, .patch, .purge, .mkcalendar]

/-- `enum http_errno`; the numbers this code never sets stand for nothing here. -/
def errnos : List (Option HttpErrno) :=
  [some .ok, some (.cbNotice .messageBegin), some (.cbData .url), some (.cbData .headerField),
   some (.cbData .headerValue), some (.cbNotice .headersComplete), some (.cbData .body),
   some (.cbNotice .messageComplete), some (.cbData .status), some .invalidEofState,
   some .headerOverflow, some .closedConnection, some .invalidVersion, some .invalidStatus,
   some .invalidMethod, some .invalidUrl, none, none, none, none, none, some .lfExpected,
   some .invalidHeaderToken, some .invalidContentLength, some .invalidChunkSize,
   some .invalidConstant, none, some .strict, some .paused, none]

theorem state_among (state : State) : state ∈ states := by
  cases state <;> decide

theorem headerState_among (headerState : HeaderState) : headerState ∈ headerStates := by
  cases headerState <;> decide

theorem method_among (method : HttpMethod) : method ∈ methods := by
  cases method <;> decide

theorem errno_among (errno : HttpErrno) : some errno ∈ errnos := by
  cases errno with
  | cbNotice notice => cases notice <;> decide
  | cbData field => cases field <;> decide
  | _ => decide

end UAFlow.Http
