import VllmObserver.Core.Text

/-! # Request headers

The trace identity of a request: a valid `traceparent`, else a valid
`x-trace-id`, else a fresh id. -/
namespace VllmObserver.Middleware
open VllmObserver.Core

/-- Names and values as the server received them. -/
abbrev Headers := List (Bytes × Bytes)

/-- The first header of the name. -/
def headerValue (headers : Headers) (name : String) : Option String :=
  (headers.find? fun header => lower header.1 == encodeLatin1 name).map fun header =>
    latin1 header.2

/-- `{k.lower(): v}.get(name, "")`: of a repeated name the last counts. -/
def lastValue (headers : Headers) (name : String) : String :=
  (headerValue headers.reverse name).getD ""

def isHex (c : Char) : Bool := ('0' ≤ c && c ≤ '9') || ('a' ≤ c && c ≤ 'f')

def hexDigit (c : Char) : ℕ := if c ≤ '9' then c.toNat - '0'.toNat else c.toNat - 'a'.toNat + 10

/-- `int(text, 16)` of hex digits. -/
def hexValue (text : String) : ℕ := text.toList.foldl (fun n c => 16 * n + hexDigit c) 0

/-- `TRACE_PARENT.fullmatch`: the trace id and the span id. -/
def traceParent (text : String) : Option (String × String) :=
  let cs := text.toList
  let traceId := (cs.drop 3).take 32
  let spanId := (cs.drop 36).take 16
  let flags := cs.drop 53
  if cs.length == 55 && cs.take 3 == ['0', '0', '-'] && traceId.all isHex && cs[35]? == some '-' &&
      spanId.all isHex && cs[52]? == some '-' && flags.all isHex then
    some (String.ofList traceId, String.ofList spanId)
  else none

/-- `TRACE_ID.fullmatch`. -/
def isTraceId (text : String) : Bool := text.toList.length == 32 && text.toList.all isHex

/-- The trace id that a header of the client names. -/
def namedTraceId (headers : Headers) : Option String :=
  match traceParent (lastValue headers "traceparent") with
  | some (traceId, spanId) =>
    if hexValue traceId ≠ 0 && hexValue spanId ≠ 0 then some traceId else candidate
  | none => candidate
where
  candidate : Option String :=
    let text := lastValue headers "x-trace-id"
    if isTraceId text && hexValue text ≠ 0 then some text else none

/-- The trace id of a request; `fresh` is `uuid.uuid4().hex`. -/
def getTraceId (headers : Headers) (fresh : String) : String :=
  (namedTraceId headers).getD fresh

/-- The parent span: the last valid `traceparent` of the same trace. -/
def parentSpanId (headers : Headers) (traceId : String) : Option String :=
  headers.foldl (fun found header =>
    if lower header.1 == encodeLatin1 "traceparent" then
      match traceParent (latin1 header.2) with
      | some (parent, spanId) =>
        if parent == traceId && hexValue spanId ≠ 0 then some spanId else found
      | none => found
    else found) none

end VllmObserver.Middleware
