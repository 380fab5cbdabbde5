import UAFlow.Http.Execute
import UAFlow.Library.Scanners
import UAFlow.Library.Texts

/-!
# The parser as a scanner

The loop reads ahead in the middle of names, values and bodies, keeps marks into its
data and counts the bytes of a header.  Without all this the parser is a scanner:
each byte changes the state and puts out symbols.
-/

namespace UAFlow.Http

open Library

abbrev Symbol := Library.Symbol Notice Field UInt8

abbrev Event := Library.Event Notice Field UInt8

/-- The parser but for the bytes it has counted. -/
def HttpParser.uncounted (parser : HttpParser) : HttpParser := { parser with nread := 0 }

def Action.symbols (state : State) (ch : UInt8) : Action → List Symbol
  | .quiet =>
      match state.openField with
      | some field => [.letter field ch]
      | none => []
  | .mark field => [.letter field ch]
  | .notify notice => [.notice notice]
  | .flush field => [.closed field]
  | .markFlush field => [.opened field, .closed field]

def Action.againSymbols : Action → List Symbol
  | .notify notice => [.notice notice]
  | .markFlush field => [.opened field, .closed field]
  | _ => []

def Verdict.reaction (before : HttpParser) (ch : UInt8) :
    Verdict → Reaction HttpParser Symbol
  | .read parser action => .read parser (action.symbols before.state ch)
  | .again parser action => .again parser action.againSymbols
  | .leave parser action => .leave parser action.againSymbols
  | .fail parser => .fail parser
  | .fault _ => .fail before

def HttpParser.bodyByte (parser : HttpParser) : HttpParser :=
  { parser with contentLength := parser.contentLength - 1 }

def react (parser : HttpParser) (ch : UInt8) : Reaction HttpParser Symbol :=
  match parser.state with
  | .sHeaderField =>
      if token ch = 0 then
        if ch = byte ':' then
          .read { parser with state := .sHeaderValueDiscardWs } [.closed .headerField]
        else
          .fail { parser with httpErrno := .invalidHeaderToken }
      else
        match fieldChar parser ch (token ch) with
        | .error _ => .fail parser
        | .ok parser => .read parser [.letter .headerField ch]
  | .sHeaderValue =>
      if ch = cr then
        .read { parser with state := .sHeaderAlmostDone } [.closed .headerValue]
      else if ch = lf then
        .again { parser with state := .sHeaderAlmostDone } [.closed .headerValue]
      else
        match valueChar parser parser.headerState ch with
        | .error _ => .fail parser
        | .ok none => .fail { parser with httpErrno := .invalidContentLength }
        | .ok (some (parser, hState)) =>
            .read { parser with headerState := hState } [.letter .headerValue ch]
  | .sBodyIdentity =>
      if parser.bodyByte.contentLength = 0 then
        .again { parser.bodyByte with state := .sMessageDone } [.letter .body ch, .closed .body]
      else
        .read parser.bodyByte [.letter .body ch]
  | .sChunkData =>
      if parser.bodyByte.contentLength = 0 then
        .read { parser.bodyByte with state := .sChunkDataAlmostDone } [.letter .body ch]
      else
        .read parser.bodyByte [.letter .body ch]
  | .sBodyIdentityEof => .read parser [.letter .body ch]
  | _ => (charStep parser ch).reaction parser ch

/-- How often a byte may still be looked at again. -/
def State.rank : State → Nat
  | .sHeaderValueLws | .sHeaderValueDiscardLws => 3
  | .sHeaderFieldStart => 2
  | .sStartReqOrRes | .sHeaderValue | .sHeadersAlmostDone | .sBodyIdentity => 1
  | _ => 0

end UAFlow.Http
