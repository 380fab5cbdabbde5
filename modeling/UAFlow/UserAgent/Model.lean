import UAFlow.Library.CString

/-!
# The HTTP handler of `flow_ua_common.c`

The HTTP parser reads one request and calls back into this code, which keeps a
node of four flags and a text buffer.  A callback is given a pointer into the
packet and a length; the pointer is never null.
-/

namespace UAFlow.UserAgent

open Library

def flowUaCommonPatternString : List UInt8 :=
  [85, 115, 101, 114, 45, 65, 103, 101, 110, 116, 58]

def sizeofUa : Nat := 1024

structure FlowUaCommonNode where
  onbeg : Bool
  onurl : Bool
  onua : Bool
  oncplt : Bool
  ua : Nat → UInt8
  uaLen : Nat

/-- The node after `memset`. -/
def FlowUaCommonNode.zero : FlowUaCommonNode :=
  ⟨false, false, false, false, fun _ => 0, 0⟩

/-- A call from the parser; the four callbacks that return at once are one. -/
inductive Callback where
  | onMessageBegin
  | onUrl (text : Nat → UInt8) (length : Nat)
  | onHeaderField (text : Nat → UInt8) (length : Nat)
  | onHeaderValue (text : Nat → UInt8) (length : Nat)
  | ignored

def onMessageBegin (node : FlowUaCommonNode) : FlowUaCommonNode :=
  { node with onbeg := true }

def onUrl (node : FlowUaCommonNode) (length : Nat) : FlowUaCommonNode :=
  if length > 0 then { node with onurl := true } else node

def onHeaderField (node : FlowUaCommonNode) (text : Nat → UInt8) (length : Nat) :
    FlowUaCommonNode :=
  if length > 0 ∧ node.onbeg ∧ node.onurl ∧
      strncasecmp text (literal flowUaCommonPatternString)
        flowUaCommonPatternString.length = 0 then
    { node with onua := true }
  else
    node

/-- The condition of the source ends in `node->ua`, the address of the buffer,
which is never null; the flag `onua` is not looked at. -/
def onHeaderValue (node : FlowUaCommonNode) (text : Nat → UInt8) (length : Nat) :
    FlowUaCommonNode :=
  if length > 0 then
    let uaLen := if length > sizeofUa - 1 then sizeofUa - 1 else length
    { node with
      uaLen := uaLen
      ua := strncpy node.ua text uaLen
      onua := false
      oncplt := true }
  else
    node

def called (node : FlowUaCommonNode) : Callback → FlowUaCommonNode
  | .onMessageBegin => onMessageBegin node
  | .onUrl _ length => onUrl node length
  | .onHeaderField text length => onHeaderField node text length
  | .onHeaderValue text length => onHeaderValue node text length
  | .ignored => node

/-- The node after `http_parser_execute` has made its calls. -/
def httpParserExecute (callbacks : List Callback) : FlowUaCommonNode :=
  callbacks.foldl called FlowUaCommonNode.zero

/-- The text given to `flow_config_module.search`, when it is called. -/
def searchedText (node : FlowUaCommonNode) : Option (List UInt8) :=
  if node.oncplt then some (textIn sizeofUa node.ua) else none

/-- Which of the two senders a packet is handed to. -/
inductive Sender where
  | push
  | send (portid : Int)
  deriving DecidableEq

def flowUaCommonModuleHttphandle (search : List UInt8 → Int) (callbacks : List Callback) :
    Sender :=
  let node := httpParserExecute callbacks
  let portid :=
    match searchedText node with
    | some text => search text
    | none => 0
  if portid ≤ 0 then .push else .send portid

end UAFlow.UserAgent
