import VllmObserver.Core.JsonLine
import VllmObserver.Exporter.Sink
import VllmObserver.Filters.Chain

/-! # The console

An event is printed as one line of JSON, under the keys of the event and in
their order. -/
namespace VllmObserver.Filters
open VllmObserver.Lib VllmObserver.Core VllmObserver.Exporter

/-! ## The event as a dictionary -/

mutual

/-- The value with the keys of its dictionaries distinct: of a repeated key the
last value stands at the first place. -/
def distinct : Json → Json
  | .arr xs => .arr (distinctElements xs)
  | .obj entries => .obj (Dict.ofList (distinctMembers entries)).entries
  | value => value

def distinctElements : List Json → List Json
  | [] => []
  | x :: rest => distinct x :: distinctElements rest

def distinctMembers : List (String × Json) → List (String × Json)
  | [] => []
  | (key, x) :: rest => (key, distinct x) :: distinctMembers rest

end

def textJson : Option String → Json
  | none => .null
  | some text => .str text

def intJson : Option ℤ → Json
  | none => .null
  | some n => .int n

/-- Only a generation has a usage, and a completion start once it is known. -/
def nodeJson (node : Node) : Json := .obj ([
  ("id", .str node.id),
  ("parent_id", textJson node.parentId),
  ("name", .str node.name),
  ("type", .str (typeText node.type)),
  ("start_ns", .int node.startNs),
  ("end_ns", intJson node.endNs),
  ("metadata", distinct (.obj node.metadata.entries))] ++
  (if node.type = .generation then
    [("usage", .obj (node.usage.entries.map fun entry => (entry.1, .int entry.2)))] else []) ++
  match node.completionStartNs with
  | none => []
  | some ns => [("completion_start_ns", .int ns)])

def stagesJson (stages : Dict String Aggregate.Exported) : Json :=
  .obj (stages.entries.map fun entry => (entry.1, .obj (aggregateEntries entry.2)))

/-- The dictionary that `finish` returns, with the labels of the replica. -/
def eventJson (event : Event) : Json := .obj ([
  ("trace_id", .str event.traceId),
  ("parent_span_id", textJson event.parentSpanId),
  ("started_ns", .int event.startedNs),
  ("status", .str (statusText event.status)),
  ("engine_requests", .int event.engineRequests),
  ("root_span_id", .str event.rootSpanId),
  ("route", .str event.route),
  ("observations", .arr (event.observations.map nodeJson)),
  ("stages", stagesJson event.stages),
  ("request_payload", distinct event.requestPayload),
  ("response_text", distinct event.responseText),
  ("first_body_ns", intJson event.firstBodyNs),
  ("api_intervals", .arr (event.apiIntervals.map nodeJson)),
  ("user_id", textJson event.userId),
  ("session_id", textJson event.sessionId)] ++ labels event)

/-! ## The filter -/

/-- `ensure_ascii=False`. -/
def consoleStyle : DumpStyle := ⟨false, false⟩

/-- What the logger has written: the line of an event, or another message. -/
inductive Entry where
  | event (line : String)
  | message (text : String)

def Entry.text : Entry → String
  | .event line => line
  | .message text => text

def Entry.line? : Entry → Option String
  | .event line => some line
  | .message _ => none

/-- The text of the log; the handler ends every entry. -/
def logText (entries : List Entry) : List Char :=
  entries.flatMap fun entry => entry.text.toList ++ ['\n']

/-- `json.dumps(event, ensure_ascii=False)`, where the stack is deep enough. -/
def consoleLine (repr : ℚ → String) (event : Event) : Except PyError String :=
  dumps consoleStyle repr (eventJson event)

/-- How the runtime writes floats, how deep its stack is, and which lines the stream
of the handler can encode. -/
structure Console where
  repr : ℚ → String
  depth : ℕ
  encodes : String → Bool

namespace Console
variable (console : Console)

def line (event : Event) : Except PyError String :=
  dumpsWithin console.depth consoleStyle console.repr (eventJson event)

/-- The line that is printed of an event, if one is. -/
def prints (event : Event) : Option String :=
  (console.line event).toOption.filter console.encodes

/-- The handler writes a line, and keeps an error of the encoding to itself. -/
def emit (line : String) : List Entry := if console.encodes line then [.event line] else []

/-- An event that cannot be written raises, and is not printed. -/
def filter : Filter (List Entry) Event where
  typeName := "ConsoleFilter"
  process := fun event log =>
    match console.line event with
    | .ok line => (log ++ console.emit line, .ok (some event))
    | .error e => (log, .error e)

theorem filter_transparent : console.filter.Transparent := by
  intro event log
  simp only [filter]
  cases console.line event with
  | ok line => exact .inl rfl
  | error e => exact .inr ⟨e, rfl⟩

end Console

end VllmObserver.Filters
