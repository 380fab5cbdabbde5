import UAFlow.Config.Selection
import UAFlow.UserAgent.Capture

/-!
# The handler on its lcore

`flow_ua_common_module_httphandle` works with two statics of its lcore and leaves
both in the middle of their work: the parser somewhere in a request, the trie
behind the first match.  None of it reaches the decision on a later packet, and
neither does what the buffer holds behind the payload.
-/

namespace UAFlow.UserAgent

open Library AhoCorasick Config

/-! ## The parser -/

inductive HttpParserType where
  | httpRequest
  | httpResponse
  | httpBoth
  deriving DecidableEq

/-- `struct http_parser`; `data` is an address. -/
structure HttpParser where
  type : HttpParserType
  flags : UInt8
  state : UInt8
  headerState : UInt8
  index : UInt8
  nread : UInt32
  contentLength : UInt64
  httpMajor : UInt16
  httpMinor : UInt16
  statusCode : UInt16
  method : UInt8
  httpErrno : UInt8
  upgrade : Bool
  data : Nat
  deriving DecidableEq

/-- All bytes zero, as the statics are before `main` and after `memset`. -/
def HttpParser.zero : HttpParser :=
  ⟨.httpRequest, 0, 0, 0, 0, 0, 0, 0, 0, 0, 0, 0, false, 0⟩

def sStartReqOrRes : UInt8 := 2
def sStartRes : UInt8 := 4
def sStartReq : UInt8 := 18
def hpeOk : UInt8 := 0

def httpParserInit (parser : HttpParser) (t : HttpParserType) : HttpParser :=
  { HttpParser.zero with
    data := parser.data
    type := t
    state :=
      match t with
      | .httpRequest => sStartReq
      | .httpResponse => sStartRes
      | .httpBoth => sStartReqOrRes
    httpErrno := hpeOk }

/-- A callback `http_parser_execute` makes; a text is a part of the data it was
given. -/
inductive Event where
  | messageBegin
  | url (start length : Nat)
  | headerField (start length : Nat)
  | headerValue (start length : Nat)
  | ignored
  deriving DecidableEq

namespace Event

def Inside (bound : Nat) : Event → Prop
  | .url start length => start + length ≤ bound
  | .headerField start length => start + length ≤ bound
  | .headerValue start length => start + length ≤ bound
  | .messageBegin => True
  | .ignored => True

instance (bound : Nat) (event : Event) : Decidable (event.Inside bound) := by
  cases event <;> unfold Inside <;> infer_instance

/-- The callback with its pointer into the memory from the data on. -/
def callback (memory : Nat → UInt8) : Event → Callback
  | .messageBegin => .onMessageBegin
  | .url start length => .onUrl (fun offset => memory (start + offset)) length
  | .headerField start length => .onHeaderField (fun offset => memory (start + offset)) length
  | .headerValue start length => .onHeaderValue (fun offset => memory (start + offset)) length
  | .ignored => .ignored

end Event

/-- `http_parser_execute` of the vendored parser, for callbacks that return 0.
It has no state but the parser, passes `data` on without looking at it, and
reads and calls back with nothing but the bytes it was given. -/
structure HttpParserExecute where
  run : HttpParser → List UInt8 → HttpParser × List Event
  data : ∀ parser node text, (run { parser with data := node } text).2 = (run parser text).2
  inside : ∀ parser text, ∀ event ∈ (run parser text).2, event.Inside text.length

/-! ## The handler -/

/-- A payload, what the buffer holds behind it, and the address of the handler's
own node. -/
structure Payload where
  text : List UInt8
  behind : Nat → UInt8
  node : Nat

def Payload.memory (payload : Payload) (offset : Nat) : UInt8 :=
  payload.text.getD offset (payload.behind offset)

/-- `flow_ua_common_parser`, and the statics of the configuration module. -/
structure HandlerState where
  parser : Fin flowLcoreMaxSlot → HttpParser
  config : FlowConfigState

/-- The sender, and the transmit queue if it is `flow_forward_module.send`. -/
structure Decision where
  sender : Sender
  queueid : Int
  deriving DecidableEq

def senderTo (portid : Int) : Sender :=
  if portid ≤ 0 then .push else .send portid

/-- `flow_ua_common_module_httphandle` on the statics. -/
def HandlerState.httphandle (execute : HttpParserExecute) (state : HandlerState)
    (lcoreId : Fin flowLcoreMaxSlot) (payload : Payload) :
    Except AhoCorasick.Fault (HandlerState × Decision) :=
  let queueid : Int := lcoreId - 1
  let parser := { state.parser lcoreId with data := payload.node }
  let parser := httpParserInit parser .httpRequest
  let (parser, events) := execute.run parser payload.text
  let state := { state with parser := Function.update state.parser lcoreId parser }
  let node := httpParserExecute (events.map (Event.callback payload.memory))
  match searchedText node with
  | none => .ok (state, ⟨senderTo 0, queueid⟩)
  | some text =>
      match flowConfigModuleSearch state.config text lcoreId with
      | .error fault => .error fault
      | .ok (config, portid) => .ok ({ state with config := config }, ⟨senderTo portid, queueid⟩)

def HandleStep (execute : HttpParserExecute) (state : HandlerState)
    (packet : Fin flowLcoreMaxSlot × Payload) (after : HandlerState) : Prop :=
  ∃ decision, state.httphandle execute packet.1 packet.2 = .ok (after, decision)

structure Configured where
  attach : List UInt8 → UInt8
  root : XmlNode
  loaded : FlowConfigState
  built : FlowConfigState
  accepted : flowConfigModuleLoadInsideParse attach flowConfigModuleInit root = .ok loaded
  builds : flowConfigModuleBuild loaded = .ok built

/-- A state after any packets, on this lcore and on others. -/
structure Reached (execute : HttpParserExecute) (configured : Configured) where
  packets : List (Fin flowLcoreMaxSlot × Payload)
  state : HandlerState
  run : Run (HandleStep execute) ⟨fun _ => HttpParser.zero, configured.built⟩ packets state

/-! ## What the decision reads -/

theorem httpParserInit_eq (parser other : HttpParser) (t : HttpParserType) :
    httpParserInit parser t = { httpParserInit other t with data := parser.data } :=
  rfl

/-- The callbacks of a request from a parser never used before. -/
def callbacksOf (execute : HttpParserExecute) (text : List UInt8) : List Event :=
  (execute.run (httpParserInit HttpParser.zero .httpRequest) text).2

theorem run_httpParserInit (execute : HttpParserExecute) (parser : HttpParser)
    (text : List UInt8) :
    (execute.run (httpParserInit parser .httpRequest) text).2 = callbacksOf execute text := by
  rw [httpParserInit_eq parser HttpParser.zero, execute.data]
  rfl

/-- The nodes have captured the same text so far. -/
def SameCapture (node other : FlowUaCommonNode) : Prop :=
  node.oncplt = other.oncplt ∧ node.ua = other.ua

/-- A callback reads no further than the text it is given, as far as the capture
is concerned; the comparison of a field's name may, but nothing comes of it. -/
theorem SameCapture.called {node other : FlowUaCommonNode} (same : SameCapture node other)
    {event : Event} {bound : Nat} (inside : event.Inside bound) {memory otherMemory : Nat → UInt8}
    (agree : ∀ offset < bound, memory offset = otherMemory offset) :
    SameCapture (called node (event.callback memory))
      (called other (event.callback otherMemory)) := by
  obtain ⟨complete, text⟩ := same
  cases event with
  | messageBegin => exact ⟨complete, text⟩
  | ignored => exact ⟨complete, text⟩
  | url start length =>
      simp only [Event.callback, UserAgent.called, onUrl]
      split <;> exact ⟨complete, text⟩
  | headerField start length =>
      constructor
      · simp [Event.callback, UserAgent.called, complete]
      · simp [Event.callback, UserAgent.called, text]
  | headerValue start length =>
      simp only [Event.callback, UserAgent.called, onHeaderValue]
      split
      next nonempty =>
        refine ⟨rfl, ?_⟩
        dsimp only
        rw [text]
        apply strncpy_congr
        intro index below
        apply agree
        have within : start + length ≤ bound := inside
        split at below <;> omega
      next empty => exact ⟨complete, text⟩

theorem sameCapture_foldl {events : List Event} {bound : Nat}
    (inside : ∀ event ∈ events, event.Inside bound) {memory otherMemory : Nat → UInt8}
    (agree : ∀ offset < bound, memory offset = otherMemory offset)
    {node other : FlowUaCommonNode} (same : SameCapture node other) :
    SameCapture ((events.map (Event.callback memory)).foldl called node)
      ((events.map (Event.callback otherMemory)).foldl called other) := by
  induction events generalizing node other with
  | nil => exact same
  | cons event events inductionHypothesis =>
      apply inductionHypothesis fun later membership =>
        inside later (List.mem_cons_of_mem event membership)
      exact same.called (inside event List.mem_cons_self) agree

theorem SameCapture.searchedText {node other : FlowUaCommonNode} (same : SameCapture node other) :
    searchedText node = searchedText other := by
  unfold UserAgent.searchedText
  rw [same.1, same.2]

/-- The text a payload makes the handler search for. -/
def capturedText (execute : HttpParserExecute) (text : List UInt8) : Option (List UInt8) :=
  searchedText (httpParserExecute
    ((callbacksOf execute text).map (Event.callback fun offset => text.getD offset 0)))

/-- What the handler searches for does not depend on what lies behind the payload. -/
theorem searchedText_memory (execute : HttpParserExecute) (payload : Payload) :
    searchedText (httpParserExecute
        ((callbacksOf execute payload.text).map (Event.callback payload.memory))) =
      capturedText execute payload.text := by
  apply SameCapture.searchedText
  apply sameCapture_foldl (execute.inside _ payload.text) _ ⟨rfl, rfl⟩
  intro offset below
  simp [Payload.memory, List.getD_eq_getElem?_getD, List.getElem?_eq_getElem below]

def portFound (entry : List UInt8 → Option AcPattern) : Option (List UInt8) → Int
  | none => 0
  | some text => reportedDevice (reports entry [] text 0)

/-- What is decided for a payload with this dictionary in the tries. -/
def decided (execute : HttpParserExecute) (entry : List UInt8 → Option AcPattern)
    (lcoreId : Fin flowLcoreMaxSlot) (text : List UInt8) : Decision :=
  ⟨senderTo (portFound entry (capturedText execute text)), lcoreId - 1⟩

theorem decided_sender (execute : HttpParserExecute) (entry : List UInt8 → Option AcPattern)
    (lcoreId : Fin flowLcoreMaxSlot) (payload : Payload) :
    (decided execute entry lcoreId payload.text).sender =
      flowUaCommonModuleHttphandle (fun text => reportedDevice (reports entry [] text 0))
        ((callbacksOf execute payload.text).map (Event.callback payload.memory)) := by
  unfold decided flowUaCommonModuleHttphandle
  dsimp only
  rw [searchedText_memory]
  cases capturedText execute payload.text with
  | none => rfl
  | some text => rfl

theorem httphandle_eq (execute : HttpParserExecute) {path : Nat → List UInt8}
    {entry : List UInt8 → Option AcPattern} {state : HandlerState}
    (ready : Ready path entry state.config) (lcoreId : Fin flowLcoreMaxSlot) (payload : Payload) :
    ∃ after, Ready path entry after.config ∧
      state.httphandle execute lcoreId payload =
        .ok (after, decided execute entry lcoreId payload.text) := by
  have captured := searchedText_memory execute payload
  have events := run_httpParserInit execute
    { state.parser lcoreId with data := payload.node } payload.text
  unfold HandlerState.httphandle decided
  dsimp only
  rw [events, captured]
  cases capturedText execute payload.text with
  | none =>
      refine ⟨_, ?_, rfl⟩
      exact ready
  | some text =>
      obtain ⟨config, kept, found⟩ := flowConfigModuleSearch_eq ready text lcoreId
      dsimp only
      rw [found]
      refine ⟨_, ?_, rfl⟩
      exact kept

/-- The step lemma of the handler. -/
theorem ready_handled {execute : HttpParserExecute} {path : Nat → List UInt8}
    {entry : List UInt8 → Option AcPattern} (state : HandlerState)
    (packet : Fin flowLcoreMaxSlot × Payload) (after : HandlerState)
    (ready : Ready path entry state.config) (handled : HandleStep execute state packet after) :
    Ready path entry after.config := by
  obtain ⟨decision, returned⟩ := handled
  obtain ⟨later, kept, same⟩ := httphandle_eq execute ready packet.1 packet.2
  rw [returned] at same
  obtain ⟨rfl, _⟩ := Prod.mk.inj (Except.ok.inj same)
  exact kept

theorem Reached.ready {execute : HttpParserExecute} {configured : Configured}
    {path : Nat → List UInt8} {entry : List UInt8 → Option AcPattern}
    (ready : Ready path entry configured.built) (reached : Reached execute configured) :
    Ready path entry reached.state.config :=
  Run.invariant (fun state => Ready path entry state.config) ready_handled reached.run ready

theorem Configured.reached_ready (configured : Configured) (execute : HttpParserExecute) :
    ∃ path entry, ∀ reached : Reached execute configured,
      Ready path entry reached.state.config := by
  obtain ⟨built, path, entry, builds, ready⟩ := build_ready configured.accepted
  obtain rfl : built = configured.built := Except.ok.inj (builds.symm.trans configured.builds)
  exact ⟨path, entry, Reached.ready ready⟩

/-- Two states of the statics under one configuration, after any packets on any
lcores, decide alike about a payload, whatever lies behind it. -/
theorem decision_forgets_history (execute : HttpParserExecute) (configured : Configured)
    (first second : Reached execute configured) (lcoreId : Fin flowLcoreMaxSlot)
    (text : List UInt8) (behind otherBehind : Nat → UInt8) (node otherNode : Nat) :
    ∃ decision after otherAfter,
      first.state.httphandle execute lcoreId ⟨text, behind, node⟩ = .ok (after, decision) ∧
        second.state.httphandle execute lcoreId ⟨text, otherBehind, otherNode⟩ =
          .ok (otherAfter, decision) := by
  obtain ⟨path, entry, ready⟩ := configured.reached_ready execute
  obtain ⟨after, _, handled⟩ := httphandle_eq execute (ready first) lcoreId ⟨text, behind, node⟩
  obtain ⟨otherAfter, _, otherHandled⟩ :=
    httphandle_eq execute (ready second) lcoreId ⟨text, otherBehind, otherNode⟩
  exact ⟨_, after, otherAfter, handled, otherHandled⟩

/-- A request that stops in the middle of its header. -/
def halfRequest : List UInt8 :=
  [71, 69, 84, 32, 47, 32, 72, 84, 84, 80, 47, 49, 46, 49, 13, 10, 65, 58, 32, 97, 98, 13, 10]

def halfRequestExecute : HttpParserExecute where
  run parser text :=
    if parser.state = sStartReq ∧ text = halfRequest then
      ({ parser with
          state := 49
          nread := 23
          contentLength := 0xffffffffffffffff
          httpMajor := 1
          httpMinor := 1
          method := 1 },
        [.messageBegin, .url 4 1, .headerField 16 1, .headerValue 19 2])
    else
      (parser, [])
  data parser node text := by
    dsimp only
    split <;> rfl
  inside parser text := by
    split
    next here =>
      rw [here.2]
      simp [Event.Inside, halfRequest]
    next => simp

def halfConfiguration : Configuration where
  root := .mk "UAFlow" []
    [.mk "Capmode" [] [.mk "Item" [("name", [48]), ("type", [116, 120]), ("ID", [49])] []],
      .mk "Flow" [] [.mk "UAKey" [("ItemID", [49]), ("key", [97, 98])] []]]
  attach _ := 3
  someItem := by decide
  fits type := by cases type <;> decide

theorem decision_forgets_history_half :
    ∃ (configured : Configured) (first second : Reached halfRequestExecute configured),
      configured.root = halfConfiguration.root ∧ first.packets = [] ∧
        second.packets = [(1, ⟨halfRequest, fun _ => 0, 4096⟩)] ∧
        ∃ decision after otherAfter,
          first.state.httphandle halfRequestExecute 1 ⟨halfRequest, fun _ => 0, 4096⟩ =
            .ok (after, decision) ∧
          second.state.httphandle halfRequestExecute 1 ⟨halfRequest, fun _ => 1, 8192⟩ =
            .ok (otherAfter, decision) := by
  obtain ⟨loaded, accepted, _⟩ := load_ok halfConfiguration
  obtain ⟨built, path, entry, builds, ready⟩ := build_ready accepted
  obtain ⟨after, _, handled⟩ := httphandle_eq halfRequestExecute
    (show Ready path entry (HandlerState.mk (fun _ => HttpParser.zero) built).config from ready) 1
    ⟨halfRequest, fun _ => 0, 4096⟩
  let configured : Configured := ⟨_, _, loaded, built, accepted, builds⟩
  let first : Reached halfRequestExecute configured := ⟨[], _, rfl⟩
  let second : Reached halfRequestExecute configured :=
    ⟨[(1, ⟨halfRequest, fun _ => 0, 4096⟩)], after, after, ⟨_, handled⟩, rfl⟩
  exact ⟨configured, first, second, rfl, rfl, rfl,
    decision_forgets_history halfRequestExecute configured first second 1 halfRequest
      (fun _ => 0) (fun _ => 1) 4096 8192⟩

end UAFlow.UserAgent
