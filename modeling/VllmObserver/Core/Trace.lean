import VllmObserver.Core.Plain

/-! # Request traces

Per-request aggregation: stage aggregates, the observation spans of the engine,
the intervals of the API process and the event a finished trace becomes. A
generation node is shared with the list of observations in the source, so here
it is addressed by its position in that list, which only grows. -/
namespace VllmObserver.Core
open VllmObserver.Lib

inductive Status where
  | ok
  | cancelled
  | error
deriving DecidableEq, Repr

inductive NodeType where
  | span
  | generation
deriving DecidableEq, Repr

/-- A span of the trace. Only a generation that is still running has no end. -/
structure Node where
  id : String
  parentId : Option String
  name : String
  type : NodeType
  startNs : ℤ
  endNs : Option ℤ
  metadata : Metadata
  usage : Dict String ℤ := Dict.empty
  completionStartNs : Option ℤ := none

structure Aggregate where
  count : Number := .int 0
  totalSeconds : Flt := .fin 0
deriving DecidableEq

namespace Aggregate

def add (a : Aggregate) (duration : Number) (count : Number := .int 1) : Aggregate where
  count := a.count.add count
  totalSeconds := a.totalSeconds.add (Number.max (.float (.fin 0)) duration).toFlt

/-- The exported aggregate, with its mean. -/
structure Exported where
  count : Number
  totalSeconds : Flt
  meanSeconds : Flt
deriving DecidableEq

def toExported (a : Aggregate) : Exported where
  count := a.count
  totalSeconds := a.totalSeconds
  meanSeconds := if a.count.isZero then .fin 0 else Number.div (.float a.totalSeconds) a.count

end Aggregate

/-- `int(seconds * 1e9)`. -/
def nanos (seconds : ℚ) : ℤ := truncate (seconds * 1000000000)

theorem nanos_mono {a b : ℚ} (h : a ≤ b) : nanos a ≤ nanos b :=
  truncate_mono (mul_le_mul_of_nonneg_right h (by norm_num))

structure RequestTrace where
  traceId : String
  parentSpanId : Option String := none
  startedNs : ℤ
  started : ℚ
  status : Status := .ok
  stages : Dict String Aggregate := Dict.empty
  engineRequests : ℕ := 0
  rootSpanId : String
  observations : List Node := []
  route : String := "unknown"
  firstBodyNs : Option ℤ := none
  apiIntervals : List Node := []
  requestPayload : Json := .null
  responseText : Json := .null
  userId : Option String := none
  sessionId : Option String := none

/-- The event handed to the filters. -/
structure Event where
  traceId : String
  parentSpanId : Option String
  startedNs : ℤ
  status : Status
  engineRequests : ℕ
  rootSpanId : String
  route : String
  observations : List Node
  stages : Dict String Aggregate.Exported
  requestPayload : Json
  responseText : Json
  firstBodyNs : Option ℤ
  apiIntervals : List Node
  userId : Option String
  sessionId : Option String
  service : Option String := none
  model : Option String := none
  instanceId : Option String := none

namespace RequestTrace

/-- The wall clock at a reading of the performance counter. -/
def nowNs (trace : RequestTrace) (perf : ℚ) : ℤ :=
  trace.startedNs + nanos (perf - trace.started)

theorem nowNs_congr {trace base : RequestTrace} (hstartedNs : trace.startedNs = base.startedNs)
    (hstarted : trace.started = base.started) (perf : ℚ) :
    trace.nowNs perf = base.nowNs perf := by
  rw [nowNs, nowNs, hstartedNs, hstarted]

theorem nowNs_mono (trace : RequestTrace) {p q : ℚ} (h : p ≤ q) :
    trace.nowNs p ≤ trace.nowNs q := by
  have := nanos_mono (sub_le_sub_right h trace.started)
  simpa [nowNs] using this

/-- Start a generation; it stands at the end of the observations. -/
def beginGeneration (trace : RequestTrace) (uuid requestId : String) (perf : ℚ) : RequestTrace :=
  { trace with observations := trace.observations ++ [{
      id := uuid
      parentId := some trace.rootSpanId
      name := "generate-response"
      type := .generation
      startNs := trace.nowNs perf
      endNs := none
      metadata := Dict.ofList [("request_id", .str requestId)] }] }

/-- Append a span under `parent`; an inverted interval is refused. -/
def interval (trace : RequestTrace) (uuid : String) (parent : Node) (name : String)
    (startNs endNs : ℤ) (metadata : Metadata) : Except PyError RequestTrace :=
  if endNs < startNs then .error (.valueError "Observation end precedes start")
  else .ok { trace with observations := trace.observations ++ [{
      id := uuid
      parentId := some parent.id
      name := name
      type := .span
      startNs := startNs
      endNs := some endNs
      metadata := metadata }] }

def add (trace : RequestTrace) (stage : String) (duration : Number) (count : Number := .int 1) :
    RequestTrace :=
  { trace with
    stages := trace.stages.set stage (((trace.stages.get? stage).getD {}).add duration count) }

/-- Record a stage of the API process; an inverted interval is left out. -/
def apiInterval (trace : RequestTrace) (uuid name : String) (startedPerf endedPerf : ℚ)
    (metadata : List (String × Json)) : RequestTrace :=
  let startNs := trace.startedNs + nanos (startedPerf - trace.started)
  let endNs := trace.startedNs + nanos (endedPerf - trace.started)
  if startNs ≤ endNs then
    { trace with apiIntervals := trace.apiIntervals ++ [{
        id := uuid
        parentId := some trace.rootSpanId
        name := name
        type := .span
        startNs := startNs
        endNs := some endNs
        metadata := Dict.ofList (("timing_source", .str "wall_measured") :: metadata) }] }
  else trace

def finish (trace : RequestTrace) (perf : ℚ) : Event :=
  let trace := trace.add "http_total" (.float (.fin (perf - trace.started)))
  { traceId := trace.traceId
    parentSpanId := trace.parentSpanId
    startedNs := trace.startedNs
    status := trace.status
    engineRequests := trace.engineRequests
    rootSpanId := trace.rootSpanId
    route := trace.route
    observations := trace.observations
    stages := trace.stages.mapValues (fun _ a => a.toExported)
    requestPayload := trace.requestPayload
    responseText := trace.responseText
    firstBodyNs := trace.firstBodyNs
    apiIntervals := trace.apiIntervals
    userId := trace.userId
    sessionId := trace.sessionId }

end RequestTrace

end VllmObserver.Core
