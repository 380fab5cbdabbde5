import UAFlow.Http.Codes
import UAFlow.Http.Messages
import UAFlow.Http.Related
import UAFlow.UserAgent.Dispatch
import UAFlow.UserAgent.Leftovers

/-!
# The handler and its parser

The handler with the parser of the repository in place of any parser, and what it
makes of a packet of requests.
-/

namespace UAFlow.UserAgent

open Library Config

/-! ## The fields of a parser -/

def HttpParserType.decoded : HttpParserType → Http.HttpParserType
  | .httpRequest => .httpRequest
  | .httpResponse => .httpResponse
  | .httpBoth => .httpBoth

def encodedType : Http.HttpParserType → HttpParserType
  | .httpRequest => .httpRequest
  | .httpResponse => .httpResponse
  | .httpBoth => .httpBoth

/-- What the numbers of a parser stand for, when they stand for something. -/
def HttpParser.decoded (parser : HttpParser) : Option Http.HttpParser :=
  match Http.ofNumber 1 Http.states parser.state,
      Http.ofNumber 0 Http.headerStates parser.headerState,
      Http.ofNumber 0 Http.methods parser.method,
      (Http.ofNumber 0 Http.errnos parser.httpErrno).join with
  | some state, some headerState, some method, some httpErrno =>
      some
        { type := parser.type.decoded
          flags := parser.flags.toBitVec.setWidth 6
          state := state
          headerState := headerState
          index := parser.index
          nread := parser.nread
          contentLength := parser.contentLength
          httpMajor := parser.httpMajor
          httpMinor := parser.httpMinor
          statusCode := parser.statusCode
          method := method
          httpErrno := httpErrno
          upgrade := parser.upgrade }
  | _, _, _, _ => none

def encoded (parser : Http.HttpParser) (data : Nat) : HttpParser where
  type := encodedType parser.type
  flags := UInt8.ofBitVec (parser.flags.setWidth 8)
  state := Http.numberOf 1 Http.states parser.state
  headerState := Http.numberOf 0 Http.headerStates parser.headerState
  index := parser.index
  nread := parser.nread
  contentLength := parser.contentLength
  httpMajor := parser.httpMajor
  httpMinor := parser.httpMinor
  statusCode := parser.statusCode
  method := Http.numberOf 0 Http.methods parser.method
  httpErrno := Http.numberOf 0 Http.errnos (some parser.httpErrno)
  upgrade := parser.upgrade
  data := data

theorem decoded_encoded (parser : Http.HttpParser) (data : Nat) :
    (encoded parser data).decoded = some parser := by
  have type : (encodedType parser.type).decoded = parser.type := by
    cases parser.type <;> rfl
  have flags : ∀ flags : BitVec 6,
      (UInt8.ofBitVec (flags.setWidth 8)).toBitVec.setWidth 6 = flags := by
    decide
  unfold HttpParser.decoded encoded
  dsimp only
  rw [Http.ofNumber_numberOf (by decide) (Http.state_among _),
    Http.ofNumber_numberOf (by decide) (Http.headerState_among _),
    Http.ofNumber_numberOf (by decide) (Http.method_among _),
    Http.ofNumber_numberOf (by decide) (Http.errno_among _), type, flags]
  rfl

theorem decoded_init (parser : HttpParser) :
    (httpParserInit parser .httpRequest).decoded = some (Http.httpParserInit .httpRequest) :=
  rfl

/-! ## The parser embedded -/

namespace Event

/-- The callbacks of the handler; four of them return at once. -/
def ofCall : Http.Call → Event
  | .notice .messageBegin => .messageBegin
  | .notice .headersComplete => .ignored
  | .notice .messageComplete => .ignored
  | .data .url start length => .url start length
  | .data .status _ _ => .ignored
  | .data .headerField start length => .headerField start length
  | .data .headerValue start length => .headerValue start length
  | .data .body _ _ => .ignored

theorem ofCall_inside {text : List UInt8} {call : Http.Call} (inside : call.Inside text) :
    (ofCall call).Inside text.length := by
  cases call with
  | notice kind => cases kind <;> trivial
  | data field start length => cases field <;> first | exact inside | trivial

end Event

/-- `http_parser_execute` on the fields of a parser, with the calls it makes. -/
def parsed (parser : HttpParser) (text : List UInt8) : HttpParser × List Event :=
  match parser.decoded with
  | none => (parser, [])
  | some decoded =>
      match Http.httpParserExecute Http.recording decoded text [] with
      | .error _ => (parser, [])
      | .ok executed =>
          let events := executed.user.map Event.ofCall
          if ∀ event ∈ events, event.Inside text.length then
            (encoded executed.parser parser.data, events)
          else
            (parser, [])

/-- The parser of the repository is one for the handler. -/
def embedded : HttpParserExecute where
  run := parsed
  data parser node text := by
    unfold parsed
    rw [show ({ parser with data := node } : HttpParser).decoded = parser.decoded from rfl]
    cases parser.decoded with
    | none => rfl
    | some decoded =>
        dsimp only
        cases Http.httpParserExecute Http.recording decoded text [] with
        | error fault => rfl
        | ok executed =>
            dsimp only
            split_ifs <;> rfl
  inside parser text := by
    unfold parsed
    split
    · exact fun event among => absurd among (List.not_mem_nil)
    · split
      · exact fun event among => absurd among (List.not_mem_nil)
      · dsimp only
        split_ifs with inside
        · exact inside
        · exact fun event among => absurd among (List.not_mem_nil)

/-- `flow_ua_common_parser_settings`, for a node and the memory from the data on. -/
def flowUaCommonParserSettings (memory : Nat → UInt8) :
    Http.HttpParserSettings FlowUaCommonNode where
  notice kind := some fun _ node =>
    match kind with
    | .messageBegin => ⟨0, false, onMessageBegin node⟩
    | .headersComplete => ⟨0, false, node⟩
    | .messageComplete => ⟨0, false, node⟩
  data field := some fun _ start length node =>
    let textAt := fun offset => memory (start + offset)
    match field with
    | .url => ⟨0, false, onUrl node length⟩
    | .status => ⟨0, false, node⟩
    | .headerField => ⟨0, false, onHeaderField node textAt length⟩
    | .headerValue => ⟨0, false, onHeaderValue node textAt length⟩
    | .body => ⟨0, false, node⟩

theorem flowUaCommonParserSettings_plainly (memory : Nat → UInt8) :
    flowUaCommonParserSettings memory =
      Http.plainly fun node call => called node ((Event.ofCall call).callback memory) := by
  unfold flowUaCommonParserSettings Http.plainly
  congr 1
  · funext kind
    cases kind <;> rfl
  · funext field
    cases field <;> rfl

theorem parsed_init (parser : HttpParser) {text : List UInt8}
    (short : text.length + Http.httpMaxHeaderSize < 4294967296) :
    ∃ next returned calls,
      Http.httpParserExecute Http.recording (Http.httpParserInit .httpRequest) text [] =
          .ok ⟨next, returned, calls⟩ ∧
        embedded.run (httpParserInit parser .httpRequest) text =
          (encoded next parser.data, calls.map Event.ofCall) := by
  obtain ⟨next, returned, calls, events, runs, -, -, -, made⟩ :=
    Http.httpParserExecute_cases Http.recording (Http.init_idle .httpRequest).resting short []
  obtain ⟨_, rfl, rfl, insides⟩ := made.recorded
  refine ⟨next, returned, calls, runs, ?_⟩
  have inside : ∀ event ∈ calls.map Event.ofCall, event.Inside text.length :=
    List.forall_mem_map.mpr fun call among => Event.ofCall_inside (insides call among)
  rw [show embedded.run = parsed from rfl]
  unfold parsed
  rw [decoded_init]
  dsimp only
  rw [runs]
  exact if_pos inside

/-- The parser makes of a payload and the handler's own callbacks what the handler makes of
the embedded parser, whatever was parsed before. -/
theorem httphandle_node (parser : HttpParser) {payload : Payload}
    (short : payload.text.length + Http.httpMaxHeaderSize < 4294967296) :
    ∃ next returned,
      Http.httpParserExecute (flowUaCommonParserSettings payload.memory)
          (Http.httpParserInit .httpRequest) payload.text FlowUaCommonNode.zero =
        .ok ⟨next, returned, httpParserExecute
          ((embedded.run (httpParserInit parser .httpRequest) payload.text).2.map
            (Event.callback payload.memory))⟩ ∧
      (embedded.run (httpParserInit parser .httpRequest) payload.text).1 =
        encoded next parser.data := by
  obtain ⟨next, returned, calls, runs, same⟩ := parsed_init parser short
  refine ⟨next, returned, ?_, by rw [same]⟩
  rw [same, flowUaCommonParserSettings_plainly,
    Http.httpParserExecute_recording _ FlowUaCommonNode.zero runs]
  unfold httpParserExecute
  rw [List.map_map, List.foldl_map]
  rfl

/-- A request, for the parser that two requests in a packet before it have left. -/
theorem httphandle_node_agentGet :
    ∃ next returned,
      Http.httpParserExecute
          (flowUaCommonParserSettings (Payload.memory ⟨Http.agentGet, fun _ => 0, 4096⟩))
          (Http.httpParserInit .httpRequest) Http.agentGet FlowUaCommonNode.zero =
        .ok ⟨next, returned, httpParserExecute
          ((embedded.run (httpParserInit (embedded.run (httpParserInit HttpParser.zero .httpRequest)
              Http.shortConnection.text).1 .httpRequest) Http.agentGet).2.map
            (Event.callback (Payload.memory ⟨Http.agentGet, fun _ => 0, 4096⟩)))⟩ ∧
      (embedded.run (httpParserInit (embedded.run (httpParserInit HttpParser.zero .httpRequest)
          Http.shortConnection.text).1 .httpRequest) Http.agentGet).1 =
        encoded next (embedded.run (httpParserInit HttpParser.zero .httpRequest)
          Http.shortConnection.text).1.data :=
  @httphandle_node (embedded.run (httpParserInit HttpParser.zero .httpRequest)
    Http.shortConnection.text).1 ⟨Http.agentGet, fun _ => 0, 4096⟩
    (show Http.agentGet.length + _ < _ by decide)

/-! ## Requests -/

def valueOf : Http.Event → Option (List UInt8)
  | .text .headerValue value => some value
  | _ => none

theorem SameCapture.onHeaderValue {node other : FlowUaCommonNode} (same : SameCapture node other)
    {text otherText : Nat → UInt8} {length : Nat}
    (reads : ∀ index < length, text index = otherText index) :
    SameCapture (onHeaderValue node text length) (onHeaderValue other otherText length) := by
  unfold UserAgent.onHeaderValue
  by_cases positive : length > 0
  · rw [if_pos positive, if_pos positive]
    refine ⟨rfl, ?_⟩
    dsimp only
    rw [same.2]
    apply strncpy_congr
    intro index below
    apply reads
    split_ifs at below <;> omega
  · rw [if_neg positive, if_neg positive]
    exact same

/-- A capture of calls is one of the values among them. -/
theorem sameCapture_calls {text : List UInt8} {calls : List Http.Call}
    (insides : ∀ call ∈ calls, call.Inside text) {values : List HeaderValue}
    (reported : values.map HeaderValue.text =
      (calls.map (Http.Call.event text)).filterMap valueOf)
    {node other : FlowUaCommonNode} (same : SameCapture node other) :
    SameCapture
      (((calls.map Event.ofCall).map (Event.callback fun offset => text.getD offset 0)).foldl
        called node)
      ((values.map HeaderValue.callback).foldl called other) := by
  induction calls generalizing values node other with
  | nil =>
      rw [List.map_nil, List.filterMap_nil, List.map_eq_nil_iff] at reported
      rw [reported]
      exact same
  | cons call calls inductionHypothesis =>
      obtain ⟨inside, later⟩ := List.forall_mem_cons.mp insides
      have kept : ∀ next, SameCapture next other → valueOf (call.event text) = none →
          called node ((Event.ofCall call).callback fun offset => text.getD offset 0) = next →
          SameCapture
            ((((call :: calls).map Event.ofCall).map
              (Event.callback fun offset => text.getD offset 0)).foldl called node)
            ((values.map HeaderValue.callback).foldl called other) := by
        rintro next same' silent rfl
        rw [List.map_cons, List.filterMap_cons_none silent] at reported
        exact inductionHypothesis later reported same'
      cases call with
      | notice kind =>
          cases kind with
          | messageBegin => exact kept _ (show SameCapture (onMessageBegin node) other from same) rfl rfl
          | headersComplete => exact kept _ same rfl rfl
          | messageComplete => exact kept _ same rfl rfl
      | data field start length =>
          cases field with
          | status => exact kept _ same rfl rfl
          | body => exact kept _ same rfl rfl
          | url =>
              refine kept (onUrl node length) ?_ rfl rfl
              unfold onUrl
              split_ifs <;> exact same
          | headerField =>
              refine kept (onHeaderField node _ length) ?_ rfl rfl
              exact ⟨(onHeaderField_oncplt ..).trans same.1, (onHeaderField_ua ..).trans same.2⟩
          | headerValue =>
              have speaks : valueOf (Http.Call.event text (.data .headerValue start length)) =
                  some ((text.drop start).take length) := rfl
              rw [List.map_cons, List.filterMap_cons_some speaks] at reported
              obtain ⟨value, values, rfl, spoken, reported⟩ := List.map_eq_cons_iff.mp reported
              apply inductionHypothesis later reported
              have within : start + length ≤ text.length := inside
              have size : value.text.length = length := by
                rw [spoken, List.length_take, List.length_drop]
                omega
              show SameCapture (onHeaderValue node _ length)
                (onHeaderValue other (bytesThen value.text value.behind) value.text.length)
              rw [size]
              apply same.onHeaderValue
              intro index below
              rw [bytesThen_of_lt (by omega)]
              simp only [spoken, List.getElem_take, List.getElem_drop]
              rw [List.getD_eq_getElem?_getD, List.getElem?_eq_getElem (by omega)]
              rfl

theorem capturedText_embedded {text : List UInt8} {next : Http.HttpParser} {returned : Int}
    {calls : List Http.Call}
    (runs : Http.httpParserExecute Http.recording (Http.httpParserInit .httpRequest) text [] =
      .ok ⟨next, returned, calls⟩)
    (short : text.length + Http.httpMaxHeaderSize < 4294967296)
    (insides : ∀ call ∈ calls, call.Inside text) {values : List HeaderValue}
    (reported : values.map HeaderValue.text =
      (calls.map (Http.Call.event text)).filterMap valueOf) :
    capturedText embedded text = searchedText (afterValues values) := by
  obtain ⟨_, _, _, runs', same⟩ := parsed_init HttpParser.zero short
  rw [runs] at runs'
  cases runs'
  unfold capturedText callbacksOf
  rw [same]
  exact (sameCapture_calls insides reported ⟨rfl, rfl⟩).searchedText

/-- What a packet makes the handler search for is what its header values leave in the buffer,
one after the other. -/
theorem capturedText_scan {text : List UInt8} (notEmpty : text ≠ [])
    (small : 4 * text.length ≤ Http.httpMaxHeaderSize) {values : List HeaderValue}
    (reported : values.map HeaderValue.text =
      (Http.reported none
        (Http.httpScanner.scan (Http.httpParserInit .httpRequest) text)).filterMap valueOf) :
    capturedText embedded text = searchedText (afterValues values) := by
  have limit : Http.httpMaxHeaderSize = 81920 := rfl
  have short : text.length + Http.httpMaxHeaderSize < 4294967296 := by omega
  have agrees : Http.recording.Agrees :=
    ⟨by rintro kind _ ⟨⟩ parser calls; exact ⟨rfl, Or.inl rfl⟩,
      by rintro field _ ⟨⟩ parser start length calls; exact ⟨rfl, rfl⟩⟩
  obtain ⟨next, returned, calls, events, runs, ends, made⟩ :=
    Http.httpParserExecute_ends Http.recording (Http.init_idle .httpRequest) notEmpty short []
  obtain ⟨⟨-, beyond⟩, -⟩ | ⟨-, -, same⟩ := ends.agreed agrees
  · have counted := (Http.httpParserInit .httpRequest).headerCount_le text
    have start : (Http.httpParserInit .httpRequest).nread.toNat +
        (4 * text.length + (Http.httpParserInit .httpRequest).state.rank) = 4 * text.length :=
      Nat.zero_add _
    omega
  · obtain ⟨_, rfl, rfl, insides⟩ := made.recorded
    apply capturedText_embedded runs short insides
    rw [reported, same]
    rfl

/-- The header values of requests, those behind their bodies included. -/
def messageValues (message : Http.Message) : List (List UInt8) :=
  (message.head.lines ++ message.body.trailer).map Http.Line.value

def headerValues (connection : Http.Connection) : List (List UInt8) :=
  connection.messages.flatMap messageValues ++
    match connection.last with
    | .none => []
    | .closes message _ => messageValues message
    | .upgrades head _ _ => head.lines.map Http.Line.value

theorem filterMap_valueOf_lines (lines : List Http.Line) :
    (lines.flatMap Http.Line.events).filterMap valueOf = lines.map Http.Line.value := by
  induction lines with
  | nil => rfl
  | cons line lines inductionHypothesis =>
      rw [List.flatMap_cons, List.filterMap_append, inductionHypothesis]
      rfl

theorem filterMap_valueOf_chunks (chunks : List Http.Chunk) :
    (chunks.flatMap Http.Chunk.events).filterMap valueOf = [] := by
  induction chunks with
  | nil => rfl
  | cons chunk chunks inductionHypothesis =>
      rw [List.flatMap_cons, List.filterMap_append, inductionHypothesis]
      rfl

theorem filterMap_valueOf_body (body : Http.Body) :
    body.events.filterMap valueOf = body.trailer.map Http.Line.value := by
  cases body with
  | none => rfl
  | sized bytes => rfl
  | chunked chunks last trailer =>
      dsimp only [Http.Body.events, Http.Body.trailer]
      rw [List.filterMap_append, filterMap_valueOf_chunks, filterMap_valueOf_lines, List.nil_append]

theorem filterMap_valueOf_head (head : Http.Head) :
    head.events.filterMap valueOf = head.lines.map Http.Line.value := by
  unfold Http.Head.events
  rw [List.filterMap_append, List.filterMap_append, filterMap_valueOf_lines]
  show [] ++ (_ ++ []) = _
  rw [List.nil_append, List.append_nil]

theorem filterMap_valueOf_message (message : Http.Message) :
    message.events.filterMap valueOf = messageValues message := by
  unfold Http.Message.events messageValues
  rw [List.filterMap_append, List.filterMap_append, filterMap_valueOf_head,
    filterMap_valueOf_body, List.map_append]
  exact congrArg _ (List.append_nil _)

theorem filterMap_valueOf_connection (connection : Http.Connection) :
    connection.events.filterMap valueOf = headerValues connection := by
  unfold Http.Connection.events headerValues
  rw [List.filterMap_append, List.filterMap_flatMap]
  congr 1
  · exact List.flatMap_congr fun message _ => filterMap_valueOf_message message
  · cases connection.last with
    | none => rfl
    | closes message closing => exact filterMap_valueOf_message message
    | upgrades head upgrading rest =>
        dsimp only [Http.Last.events]
        rw [List.filterMap_append, filterMap_valueOf_head]
        exact List.append_nil _

theorem searchedText_afterValues {values : List HeaderValue}
    (spoken : ∃ value ∈ values, value.text ≠ []) :
    searchedText (afterValues values) = some (textIn sizeofUa (afterValues values).ua) := by
  have stays : ∀ (values : List HeaderValue) (node : FlowUaCommonNode), node.oncplt = true →
      ((values.map HeaderValue.callback).foldl called node).oncplt = true := by
    intro values
    induction values with
    | nil => exact fun _ complete => complete
    | cons value values inductionHypothesis =>
        intro node complete
        apply inductionHypothesis
        show (onHeaderValue node _ _).oncplt = true
        unfold onHeaderValue
        by_cases positive : value.text.length > 0
        · rw [if_pos positive]
        · rw [if_neg positive]
          exact complete
  obtain ⟨value, among, nonempty⟩ := spoken
  obtain ⟨before, after, rfl⟩ := List.append_of_mem among
  have complete : (afterValues (before ++ value :: after)).oncplt = true := by
    unfold afterValues httpParserExecute
    rw [List.map_append, List.map_cons, List.foldl_append, List.foldl_cons]
    apply stays
    show (onHeaderValue _ _ value.text.length).oncplt = true
    unfold onHeaderValue
    rw [if_pos (List.length_pos_iff.mpr nonempty)]
  unfold searchedText
  rw [if_pos complete]

theorem afterValues_quiet (before : List HeaderValue) {after : List HeaderValue}
    (quiet : ∀ later ∈ after, later.text = []) : afterValues (before ++ after) = afterValues before := by
  unfold afterValues httpParserExecute
  rw [List.map_append, List.foldl_append]
  generalize (before.map HeaderValue.callback).foldl called FlowUaCommonNode.zero = node
  induction after with
  | nil => rfl
  | cons later after inductionHypothesis =>
      obtain ⟨empty, quiet⟩ := List.forall_mem_cons.mp quiet
      rw [List.map_cons, List.foldl_cons]
      have same : called node later.callback = node := by
        show onHeaderValue node _ later.text.length = node
        rw [empty]
        rfl
      rw [same]
      exact inductionHypothesis quiet

section Packets

variable {connection : Http.Connection} (notEmpty : connection.text ≠ [])
  (small : 4 * connection.text.length ≤ Http.httpMaxHeaderSize)

include notEmpty small

theorem capturedText_connection {values : List HeaderValue}
    (reported : values.map HeaderValue.text = headerValues connection) :
    capturedText embedded connection.text = searchedText (afterValues values) := by
  apply capturedText_scan notEmpty small
  rw [(Http.reported_connection connection ⟨rfl, rfl⟩).2, filterMap_valueOf_connection, reported]

/-- The handler searches for the last value that is not empty, whatever header that is of,
exactly when none before it is longer. -/
theorem capturedText_last_iff {before after : List HeaderValue} {value : HeaderValue}
    (reported : (before ++ value :: after).map HeaderValue.text = headerValues connection)
    (nonempty : value.text ≠ []) (last : ∀ later ∈ after, later.text = []) :
    capturedText embedded connection.text = some value.cut ↔
      ∀ earlier ∈ before, earlier.cut.length ≤ value.cut.length := by
  have spoken : ∃ other ∈ before ++ value :: after, other.text ≠ [] :=
    ⟨value, List.mem_append_right before List.mem_cons_self, nonempty⟩
  rw [capturedText_connection notEmpty small reported, ← textIn_eq_cut_iff,
    searchedText_afterValues spoken, List.append_cons, afterValues_quiet _ last,
    Option.some_inj]

omit notEmpty small in
/-- The option of the last request is searched for. -/
theorem capturedText_last_iff_short :
    capturedText embedded Http.shortConnection.text =
        some (Http.ascii ['T', 'E', ',', 'c', 'l', 'o', 's', 'e']) ↔
      ∀ earlier ∈ [HeaderValue.mk (Http.ascii ['C', 'h', 'u', 'n', 'k', 'e', 'd']) (fun _ => 0)
          (by decide +kernel), HeaderValue.mk (Http.ascii ['a']) (fun _ => 0) (by decide +kernel)],
        earlier.cut.length ≤ 8 :=
  @capturedText_last_iff Http.shortConnection (by decide) (by decide) _ []
    (HeaderValue.mk (Http.ascii ['T', 'E', ',', 'c', 'l', 'o', 's', 'e']) (fun _ => 0) (by decide +kernel))
    (by decide) (by decide) (by decide)

/-- What becomes of a packet of requests, after any packets: it goes to the device of the key
that is found in what the header values leave in the buffer. -/
theorem httphandle_connection {configured : Configured} (reached : Reached embedded configured)
    (lcoreId : Fin flowLcoreMaxSlot) (behind : Nat → UInt8) (node : Nat)
    {values : List HeaderValue}
    (reported : values.map HeaderValue.text = headerValues connection)
    (spoken : ∃ value ∈ values, value.text ≠ []) :
    ∃ after portid,
      reached.state.httphandle embedded lcoreId ⟨connection.text, behind, node⟩ =
        .ok (after, ⟨senderTo portid, lcoreId - 1⟩) ∧
      Reported configured.attach configured.root (textIn sizeofUa (afterValues values).ua)
        portid := by
  obtain ⟨path, entry, ready, answers⟩ := configured.reached_answers embedded
  obtain ⟨after, -, handled⟩ := httphandle_eq embedded (ready reached) lcoreId
    ⟨connection.text, behind, node⟩
  refine ⟨after, _, ?_, answers (textIn sizeofUa (afterValues values).ua)⟩
  rw [handled]
  unfold decided
  rw [capturedText_connection notEmpty small reported, searchedText_afterValues spoken]
  rfl

omit notEmpty small in
/-- A configuration of one key, before any packet. -/
theorem httphandle_connection_short :
    ∃ (configured : Configured) (reached : Reached embedded configured) (values : List HeaderValue),
      values.map HeaderValue.text = headerValues Http.shortConnection ∧
        ∃ after portid,
          reached.state.httphandle embedded 1 ⟨Http.shortConnection.text, fun _ => 0, 4096⟩ =
            .ok (after, ⟨senderTo portid, (1 : Fin flowLcoreMaxSlot) - 1⟩) ∧
          Reported configured.attach configured.root (textIn sizeofUa (afterValues values).ua)
            portid := by
  obtain ⟨loaded, accepted, _⟩ := load_ok halfConfiguration
  obtain ⟨built, path, entry, builds, ready⟩ := build_ready accepted
  let configured : Configured := ⟨_, _, loaded, built, accepted, builds⟩
  let values : List HeaderValue :=
    [⟨Http.ascii ['C', 'h', 'u', 'n', 'k', 'e', 'd'], fun _ => 0, by decide +kernel⟩,
      ⟨Http.ascii ['a'], fun _ => 0, by decide +kernel⟩,
      ⟨Http.ascii ['T', 'E', ',', 'c', 'l', 'o', 's', 'e'], fun _ => 0, by decide +kernel⟩]
  have reported : values.map HeaderValue.text = headerValues Http.shortConnection := by decide
  exact ⟨configured, ⟨[], _, rfl⟩, values, reported,
    @httphandle_connection Http.shortConnection (by decide) (by decide) configured ⟨[], _, rfl⟩ 1
      (fun _ => 0) 4096 values reported ⟨_, List.mem_cons_self, by decide⟩⟩

end Packets

end UAFlow.UserAgent
